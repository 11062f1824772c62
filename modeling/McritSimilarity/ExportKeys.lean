import McritSimilarity.ExportProcess

/-!
# The keys of open files

What exports, preloads and lookups do besides their reports: they hash the bytes of a file and remember the
hash.  `Quiet` is a step that changes nothing that is looked at here, `Stored` one that sets a key of a
cache, and `Rehashed` one that only remembers hashes.  `ensures_viewCacheKey` says that the key of a file
is that of its bytes and its present functions.
-/

set_option autoImplicit false

namespace McritSimilarity

open Prog

/-! ## Steps -/

/-- Nothing but the order of use and the claims of the caches changes. -/
structure Quiet (s t : ExportState) : Prop where
  files : t.files = s.files
  folder : t.folder = s.folder
  clock : t.clock = s.clock
  find : ∀ c key, t.find? c key = s.find? c key

/-- A value is stored, which other keys of its cache may give way to. -/
structure Stored (c : ReportCache) (key : c.Key) (value : c.Val) (s t : ExportState) : Prop where
  files : t.files = s.files
  folder : t.folder = s.folder
  clock : t.clock = s.clock
  found : t.find? c key = some value
  kept : ∀ key' v, key' ≠ key → t.find? c key' = some v → s.find? c key' = some v
  others : ∀ c' key', c' ≠ c → t.find? c' key' = s.find? c' key'

theorem Quiet.refl (s : ExportState) : Quiet s s := ⟨rfl, rfl, rfl, fun _ _ => rfl⟩

theorem Stored.quiet {c : ReportCache} {key : c.Key} {value : c.Val} {s t u : ExportState}
    (h : Stored c key value s t) (h' : Quiet t u) : Stored c key value s u where
  files := h'.files.trans h.files
  folder := h'.folder.trans h.folder
  clock := h'.clock.trans h.clock
  found := (h'.find c key).trans h.found
  kept key' v hne hv := h.kept key' v hne ((h'.find c key').symm.trans hv)
  others c' key' hc := (h'.find c' key').trans (h.others c' key' hc)

/-- The operations that change nothing but the order of use and the claims. -/
def ExportOp.IsQuiet : ExportOp → Prop
  | set _ _ _ => False
  | updateAnalysis _ => False
  | exportView _ => False
  | load _ => False
  | store _ _ => False
  | _ => True

theorem ExportSem.quiet {w : CallWorld} {s t : ExportState} {o : ExportOp} {a : o.Ans} (h : ExportSem w s o a t)
    (ho : o.IsQuiet) : Quiet s t := by
  have hset : ∀ c (key : c.Key) value, o ≠ .set c key value := by
    rintro c key value rfl
    exact ho
  refine ⟨h.files_eq ?_, h.folder_eq ?_ ?_, ?_, fun c => h.find?_eq (hset c)⟩
  · rintro f rfl
    exact ho
  · rintro sha256 rfl
    exact ho
  · rintro sha256 report rfl
    exact ho
  · cases h with
    | handled => cases o <;> first | exact ho.elim | rfl
    | stop => rfl
    | stopped => rfl

theorem ExportSem.stored {w : CallWorld} {s t : ExportState} {c : ReportCache} {key : c.Key} {value : c.Val}
    {u : Unit} (h : ExportSem w s (.set c key value) u t) : Stored c key value s t where
  files := h.files_eq nofun
  folder := h.folder_eq nofun nofun
  clock := by cases h; rfl
  found := h.find?_set.1
  kept := h.find?_set.2
  others c' key' hc := by
    refine h.find?_eq (fun key'' value' heq => hc ?_) key'
    cases heq
    rfl

theorem ExportSem.claim_cases {w : CallWorld} {s t : ExportState} {c : ReportCache} {key : c.Key} {stops : Bool}
    {a : Claim c.Val} (h : ExportSem w s (.claim c key stops) a t) :
    (∃ value, a = .hit value ∧ s.find? c key = some value) ∨ a = .claimed ∧ s.find? c key = none ∨
      a = .stopped ∧ stops = true := by
  cases h with
  | handled =>
    cases hfound : s.find? c key with
    | some value => exact Or.inl ⟨value, claimOf_some hfound, rfl⟩
    | none => exact Or.inr (Or.inl ⟨claimOf_none hfound, rfl⟩)
  | stopped => exact Or.inr (Or.inr ⟨rfl, rfl⟩)

/-! ## Cached values -/

/-- What is left to show of a cached value once its factory has ended. -/
def FactoryEnsures (c : ReportCache) (key : c.Key) (post : Outcome PyError c.Val → ExportState → Prop) :
    Outcome PyError c.Val → ExportState → Prop
  | .returned value, s => ∀ t, Stored c key value s t → post (.returned value) t
  | .raised e, s => ∀ t, Quiet s t → post (.raised e) t
  | .pending, _ => True

theorem ensures_cached {w : CallWorld} {s : ExportState} {c : ReportCache} {key : c.Key} {stops : Bool}
    {factory : ExportProg c.Val} {post : Outcome PyError c.Val → ExportState → Prop}
    (hhit : ∀ value t, s.find? c key = some value → Quiet s t → post (.returned value) t)
    (hstop : stops = true → ∀ t, Quiet s t → post (.raised visitCancelled) t)
    (hmiss : s.find? c key = none → ∀ t, Quiet s t →
      factory.Ensures (ExportSem w) (FactoryEnsures c key post) t) :
    (cached c key stops factory).Ensures (ExportSem w) post s := by
  intro a t hsem
  have hquiet : Quiet s t := hsem.quiet trivial
  rcases hsem.claim_cases with ⟨value, rfl, hfound⟩ | ⟨rfl, hfound⟩ | ⟨rfl, rfl⟩
  · exact hhit value t hfound hquiet
  · refine Ensures.tryFinally (Ensures.bind ((hmiss hfound t hquiet).mono fun out u hu => ?_))
    cases out with
    | returned value =>
      intro _ v hset _ v' hrelease
      exact hu v' (hset.stored.quiet (hrelease.quiet trivial))
    | raised e =>
      intro _ v hrelease
      exact hu v (hrelease.quiet trivial)
    | pending => trivial
  · exact hstop rfl t hquiet

/-! ## Hashes -/

/-- The hash of the bytes, or an empty text. -/
def OpenFile.sha256 (file : OpenFile) : String :=
  match file.raw with
  | none => ""
  | some raw => if raw.length ≤ 0 then "" else raw.sha256

/-- The hash of the bytes of a file that is small enough to be hashed while it is rendered. -/
def OpenFile.coldSha256 (file : OpenFile) : String :=
  match file.raw with
  | none => ""
  | some raw => if 0 < raw.length ∧ raw.length ≤ coldMaxRawBytes then raw.sha256 else ""

/-- The remembered hashes are those of the files. -/
structure ExportState.Hashes (s : ExportState) : Prop where
  raw : ∀ f raw sha256, (s.files f).raw = some raw → s.find? .rawSha256 (f, raw.length) = some sha256 →
    sha256 = raw.sha256
  cold : ∀ f sha256, s.find? .coldSha256 f = some sha256 → sha256 = (s.files f).coldSha256

/-- Hashes may have been remembered or forgotten, and nothing else has changed. -/
structure Rehashed (s t : ExportState) : Prop where
  files : t.files = s.files
  folder : t.folder = s.folder
  clock : t.clock = s.clock
  find : ∀ c key, c ≠ .rawSha256 → c ≠ .coldSha256 → t.find? c key = s.find? c key
  hashes : t.Hashes

theorem ExportState.Hashes.of_find {s t : ExportState} (hs : s.Hashes)
    (hraw : ∀ f, (t.files f).raw = (s.files f).raw)
    (hrawHash : ∀ key, t.find? .rawSha256 key = s.find? .rawSha256 key)
    (hcold : ∀ key, t.find? .coldSha256 key = s.find? .coldSha256 key) : t.Hashes where
  raw f raw sha256 hfile hfound := hs.raw f raw sha256 ((hraw f).symm.trans hfile) ((hrawHash _).symm.trans hfound)
  cold f sha256 hfound := by
    have hcold' := hs.cold f sha256 ((hcold f).symm.trans hfound)
    rw [hcold']
    simp only [OpenFile.coldSha256, hraw f]

theorem Quiet.rehashed {s t : ExportState} (h : Quiet s t) (hs : s.Hashes) : Rehashed s t where
  files := h.files
  folder := h.folder
  clock := h.clock
  find c key _ _ := h.find c key
  hashes := hs.of_find (fun f => by rw [h.files]) (h.find _) (h.find _)

theorem Rehashed.trans {s t u : ExportState} (h : Rehashed s t) (h' : Rehashed t u) : Rehashed s u where
  files := h'.files.trans h.files
  folder := h'.folder.trans h.folder
  clock := h'.clock.trans h.clock
  find c key hraw hcold := (h'.find c key hraw hcold).trans (h.find c key hraw hcold)
  hashes := h'.hashes

/-- A remembered hash is stored where only hashes are. -/
theorem Stored.rehashed_raw {s t : ExportState} {f : FileId} {raw : RawData} (hfile : (s.files f).raw = some raw)
    (h : Stored .rawSha256 (f, raw.length) raw.sha256 s t) (hs : s.Hashes) : Rehashed s t where
  files := h.files
  folder := h.folder
  clock := h.clock
  find c key hraw _ := h.others c key hraw
  hashes :=
    { raw := by
        intro g raw' sha256 hfile' hfound
        rw [h.files] at hfile'
        by_cases hkey : (g, raw'.length) = (f, raw.length)
        · obtain ⟨rfl, -⟩ := Prod.mk.inj hkey
          obtain rfl := Option.some.inj (hfile'.symm.trans hfile)
          exact (Option.some.inj (h.found.symm.trans hfound)).symm
        · exact hs.raw g raw' sha256 hfile' (h.kept _ _ hkey hfound)
      cold := by
        intro g sha256 hfound
        rw [h.files]
        exact hs.cold g sha256 ((h.others .coldSha256 g nofun).symm.trans hfound) }

theorem Stored.rehashed_cold {s t : ExportState} {f : FileId} {sha256 : String}
    (hsha : sha256 = (s.files f).coldSha256) (h : Stored .coldSha256 f sha256 s t) (hs : s.Hashes) :
    Rehashed s t where
  files := h.files
  folder := h.folder
  clock := h.clock
  find c key _ hcold := h.others c key hcold
  hashes :=
    { raw := by
        intro g raw sha256 hfile hfound
        rw [h.files] at hfile
        exact hs.raw g raw sha256 hfile ((h.others .rawSha256 _ nofun).symm.trans hfound)
      cold := by
        intro g sha256' hfound
        rw [h.files]
        by_cases hgf : g = f
        · subst hgf
          exact (Option.some.inj (h.found.symm.trans hfound)).symm.trans hsha
        · exact hs.cold g sha256' (h.kept _ _ hgf hfound) }

section Keys

variable {w : CallWorld} {s : ExportState}

theorem ensures_rawSha256Cached (hs : s.Hashes) (f : FileId) :
    (rawSha256Cached f).Ensures (ExportSem w) (fun out t => Rehashed s t ∧
      ∀ sha256, out = .returned sha256 → sha256 = (s.files f).sha256) s := by
  intro a t hsem
  obtain ⟨ha, rfl⟩ := hsem.read trivial
  cases a with
  | none =>
    refine ⟨(Quiet.refl s).rehashed hs, fun sha256 hout => ?_⟩
    cases hout
    have hraw : (s.files f).raw = none := ha.symm
    simp only [OpenFile.sha256, hraw]
  | some raw =>
    have hraw : (s.files f).raw = some raw := ha.symm
    have hsha : ¬ raw.length ≤ 0 → (s.files f).sha256 = raw.sha256 := by
      intro hlength
      simp only [OpenFile.sha256, hraw, if_neg hlength]
    show Ensures _ _ (if raw.length ≤ 0 then pure "" else cached .rawSha256 (f, raw.length) false (call (.hashRaw f))) s
    split_ifs with hlength
    · refine ⟨(Quiet.refl s).rehashed hs, fun sha256 hout => ?_⟩
      cases hout
      simp only [OpenFile.sha256, hraw, if_pos hlength]
    · refine ensures_cached (fun value t hfound hquiet => ?_) nofun fun _ t hquiet => ?_
      · refine ⟨hquiet.rehashed hs, fun sha256 hout => ?_⟩
        cases hout
        exact (hs.raw f raw value hraw hfound).trans (hsha hlength).symm
      · intro a u hsem
        obtain ⟨rfl, rfl⟩ := hsem.read trivial
        intro v hset
        have hvalue : (exportHandler w (.hashRaw f) t).1 = raw.sha256 := by
          show ((t.files f).raw.map RawData.sha256).getD "" = raw.sha256
          rw [hquiet.files, hraw]
          rfl
        have hfile : (t.files f).raw = some raw := by rw [hquiet.files, hraw]
        rw [hvalue] at hset
        refine ⟨(hquiet.rehashed hs).trans (hset.rehashed_raw hfile (hquiet.rehashed hs).hashes), fun sha256 hout => ?_⟩
        cases hout
        rw [hsha hlength]
        exact hvalue

theorem ensures_coldSha256 (hs : s.Hashes) (f : FileId) :
    (coldSha256 f).Ensures (ExportSem w) (fun out t => Rehashed s t ∧
      ∀ sha256, out = .returned sha256 → sha256 = (s.files f).coldSha256) s := by
  intro a t hsem
  obtain ⟨ha, rfl⟩ := hsem.read trivial
  cases a with
  | none =>
    refine ⟨(Quiet.refl s).rehashed hs, fun sha256 hout => ?_⟩
    cases hout
    have hraw : (s.files f).raw = none := ha.symm
    simp only [OpenFile.coldSha256, hraw]
  | some raw =>
    have hraw : (s.files f).raw = some raw := ha.symm
    show Ensures _ _ (if 0 < raw.length ∧ raw.length ≤ coldMaxRawBytes then rawSha256Cached f else pure "") s
    split_ifs with hlength
    · refine (ensures_rawSha256Cached hs f).mono fun out t ht => ⟨ht.1, fun sha256 hout => ?_⟩
      rw [ht.2 sha256 hout]
      simp only [OpenFile.sha256, OpenFile.coldSha256, hraw, if_pos hlength, if_neg (not_le.2 hlength.1)]
    · refine ⟨(Quiet.refl s).rehashed hs, fun sha256 hout => ?_⟩
      cases hout
      simp only [OpenFile.coldSha256, hraw, if_neg hlength]

/-- The remembered hash of a file that is rendered. -/
theorem ensures_cachedColdSha256 (hs : s.Hashes) (f : FileId) :
    (cached .coldSha256 f false (coldSha256 f)).Ensures (ExportSem w) (fun out t => Rehashed s t ∧
      ∀ sha256, out = .returned sha256 → sha256 = (s.files f).coldSha256) s := by
  refine ensures_cached (fun value t hfound hquiet => ?_) nofun fun _ t hquiet => ?_
  · refine ⟨hquiet.rehashed hs, fun sha256 hout => ?_⟩
    cases hout
    exact hs.cold f value hfound
  · have ht := hquiet.rehashed hs
    refine (ensures_coldSha256 ht.hashes f).mono fun out u hu => ?_
    cases out with
    | returned value =>
      intro v hset
      have hvalue : value = (s.files f).coldSha256 := by rw [hu.2 value rfl, ht.files]
      have hset' := hset.rehashed_cold (by rw [hu.1.files, ht.files]; exact hvalue) hu.1.hashes
      refine ⟨(ht.trans hu.1).trans hset', fun sha256 hout => ?_⟩
      cases hout
      exact hvalue
    | raised e => exact fun v hrelease => ⟨(ht.trans hu.1).trans (hrelease.rehashed hu.1.hashes), nofun⟩
    | pending => trivial

theorem ensures_viewCacheKey (hs : s.Hashes) (f : FileId) :
    (viewCacheKey f).Ensures (ExportSem w) (fun out t => Rehashed s t ∧
      ∀ key, out = .returned key → key = (s.files f).key) s := by
  intro a t hsem
  obtain ⟨ha, rfl⟩ := hsem.read trivial
  cases a with
  | none =>
    refine ⟨(Quiet.refl s).rehashed hs, fun key hout => ?_⟩
    cases hout
    have hraw : (s.files f).raw = none := ha.symm
    simp only [OpenFile.key, hraw, Option.bind_none]
  | some raw =>
    have hraw : (s.files f).raw = some raw := ha.symm
    show Ensures _ _ (if raw.length ≤ 0 then pure none else rawSha256Cached f >>= fun sha256 =>
      call (.functionCount f) >>= fun count => pure (some (sha256, count))) s
    split_ifs with hlength
    · refine ⟨(Quiet.refl s).rehashed hs, fun key hout => ?_⟩
      cases hout
      simp only [OpenFile.key, hraw, Option.bind_some, if_pos hlength]
    · refine Ensures.bind ((ensures_rawSha256Cached hs f).mono fun out t ht => ?_)
      cases out with
      | returned sha256 =>
        intro count u hsem'
        obtain ⟨rfl, rfl⟩ := hsem'.read trivial
        refine ⟨ht.1, fun key hout => ?_⟩
        cases hout
        have hsha : sha256 = raw.sha256 := by
          rw [ht.2 sha256 rfl]
          simp only [OpenFile.sha256, hraw, if_neg hlength]
        simp only [OpenFile.key, hraw, Option.bind_some, if_neg hlength, hsha, exportHandler, ht.1.files]
      | raised e => exact ⟨ht.1, fun key hout => by cases hout⟩
      | pending => trivial

end Keys

end McritSimilarity
