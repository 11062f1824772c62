import McritSimilarity.ExportKeys

/-!
# What lookups and preloads change

`Prepared` is a step that loads or builds a report and remembers hashes; it may drop a file that cannot be read.
`Looked` is what a lookup or a preload may do: it also puts reports of its file into memory, and remembers reports
that could not be loaded.  `ensures_cachedReport` and `ensures_preloadReport` prove it for the two calls.
-/

set_option autoImplicit false

namespace McritSimilarity

open Prog

/-- A stored report that is loaded when a view is rendered, of which the exporter keeps `count` functions. -/
def StoredReport.Loads (file : StoredReport) (count : ℤ) : Prop :=
  ∃ data, file.document = some data ∧ file.size ≤ coldMaxStoredBytes ∧ analysisChanged count data = false

namespace ExportState

/-- The stored report of a file. -/
def stored (s : ExportState) (sha256 : String) : Option StoredReport :=
  s.folder.bind fun folder => folder.find? sha256

/-- Loading a report for `f` within the bounds of a render yields none. -/
def WouldMiss (s : ExportState) (f : FileId) (sha256 : String) : Prop :=
  ∀ file, s.stored sha256 = some file → ¬ file.Loads (s.files f).analysis.keptCount

/-- A report that was loaded from the stored one. -/
def Loaded (s : ExportState) (sha256 : String) (r : Report) : Prop :=
  r.built = false ∧ ∃ file, s.stored sha256 = some file ∧ file.document = some r.data

/-- The remembered hashes and keys are those of the files. -/
structure Owned (s : ExportState) : Prop extends s.Hashes where
  keys : ∀ f key, s.find? .reportKeys f = some key → key.1 = (s.files f).sha256

end ExportState

namespace ExportState

variable {s : ExportState}

theorem raw_analyse (s : ExportState) (f : FileId) (a : Analysis) (g : FileId) :
    ((s.analyse f a).files g).raw = (s.files g).raw := by
  by_cases hg : g = f
  · subst hg
    simp only [analyse, Function.update_self]
  · simp only [analyse, Function.update_of_ne hg]

theorem sha256_analyse (s : ExportState) (f : FileId) (a : Analysis) (g : FileId) :
    ((s.analyse f a).files g).sha256 = (s.files g).sha256 := by
  simp only [OpenFile.sha256, raw_analyse]

theorem Owned.analyse (hs : s.Owned) (f : FileId) (a : Analysis) : (s.analyse f a).Owned where
  toHashes := hs.toHashes.of_find (s.raw_analyse f a) (fun _ => rfl) fun _ => rfl
  keys g key hkey := by
    rw [sha256_analyse]
    exact hs.keys g key hkey

theorem find?_evict {s : ExportState} {c c' : ReportCache} {key : c.Key} {key' : c'.Key} {value : c'.Val}
    (h : (s.withCache c ((s.caches c).evict key)).find? c' key' = some value) : s.find? c' key' = some value := by
  by_cases hc : c' = c
  · subst hc
    rw [find?_withCache, LockedCache.find?_evict] at h
    split_ifs at h
    exact h
  · rwa [s.find?_withCache_of_ne hc] at h

theorem Owned.evict (hs : s.Owned) (c : ReportCache) (key : c.Key) :
    (s.withCache c ((s.caches c).evict key)).Owned where
  raw f raw sha256 hfile hfound := hs.raw f raw sha256 hfile (find?_evict hfound)
  cold f sha256 hfound := hs.cold f sha256 (find?_evict hfound)
  keys f key hfound := hs.keys f key (find?_evict hfound)

theorem find?_start (files : FileId → OpenFile) (folder : Option ReportFolder) (c : ReportCache) (key : c.Key) :
    (start files folder).find? c key = none := by
  cases c <;> rfl

theorem owned_start (files : FileId → OpenFile) (folder : Option ReportFolder) : (start files folder).Owned where
  raw f raw sha256 _ hfound := by rw [find?_start] at hfound; cases hfound
  cold f sha256 hfound := by rw [find?_start] at hfound; cases hfound
  keys f key hfound := by rw [find?_start] at hfound; cases hfound

end ExportState

/-- A report may have been loaded or built, and hashes remembered or forgotten. -/
structure Prepared (s t : ExportState) : Prop where
  files : t.files = s.files
  clock : s.clock ≤ t.clock
  owned : t.Owned
  stored : ∀ sha256 file, t.stored sha256 = some file → s.stored sha256 = some file
  kept : ∀ sha256 file, s.stored sha256 = some file → file.document.isSome = true → t.stored sha256 = some file
  find : ∀ c key, c ≠ .rawSha256 → c ≠ .coldSha256 → t.find? c key = s.find? c key

/-- What a lookup or a preload of `f` may change. -/
structure Looked (f : FileId) (s t : ExportState) : Prop where
  files : t.files = s.files
  clock : s.clock ≤ t.clock
  owned : t.Owned
  stored : ∀ sha256 file, t.stored sha256 = some file → s.stored sha256 = some file
  exported : ∀ g, t.find? .exportedKeys g = s.find? .exportedKeys g
  picBlocks : ∀ key, t.find? .picBlocks key = s.find? .picBlocks key
  reports : ∀ key r, t.find? .reports key = some r →
    s.find? .reports key = some r ∨ key.1 = (s.files f).sha256 ∧ s.Loaded key.1 r
  misses : ∀ g key, t.find? .coldMisses (g, key) = some () →
    s.find? .coldMisses (g, key) = some () ∨ t.WouldMiss g key.1

section Looked

variable {f : FileId} {s t u : ExportState}

theorem ExportState.WouldMiss.mono {g : FileId} {sha256 : String} (h : s.WouldMiss g sha256)
    (hfiles : t.files = s.files) (hstored : ∀ file, t.stored sha256 = some file → s.stored sha256 = some file) :
    t.WouldMiss g sha256 := by
  intro file hfile
  rw [hfiles]
  exact h file (hstored file hfile)

theorem Looked.trans (h : Looked f s t) (h' : Looked f t u) : Looked f s u where
  files := h'.files.trans h.files
  clock := h.clock.trans h'.clock
  owned := h'.owned
  stored sha256 file hfile := h.stored sha256 file (h'.stored sha256 file hfile)
  exported g := (h'.exported g).trans (h.exported g)
  picBlocks key := (h'.picBlocks key).trans (h.picBlocks key)
  reports key r hr := by
    rcases h'.reports key r hr with hmem | ⟨hkey, hbuilt, file, hfile, hdata⟩
    · exact h.reports key r hmem
    · exact .inr ⟨h.files ▸ hkey, hbuilt, file, h.stored _ _ hfile, hdata⟩
  misses g key hmiss := by
    rcases h'.misses g key hmiss with hmem | hnew
    · exact (h.misses g key hmem).imp_right fun hold => hold.mono h'.files (h'.stored key.1)
    · exact .inr hnew

theorem ExportState.Owned.of_rehashed (hs : s.Owned) (h : Rehashed s t) : t.Owned where
  toHashes := h.hashes
  keys f key hkey := by
    rw [h.files]
    exact hs.keys f key ((h.find .reportKeys f nofun nofun).symm.trans hkey)

theorem Rehashed.prepared (h : Rehashed s t) (hs : s.Owned) : Prepared s t where
  files := h.files
  clock := h.clock.ge
  owned := hs.of_rehashed h
  stored sha256 file hfile := by
    unfold ExportState.stored at *
    rwa [h.folder] at hfile
  kept sha256 file hfile _ := by
    unfold ExportState.stored at *
    rwa [h.folder]
  find := h.find

/-- What is remembered stays as it is, and so do the files. -/
theorem ExportState.Owned.of_find (hs : s.Owned) (hfiles : t.files = s.files)
    (hfind : ∀ c key, t.find? c key = s.find? c key) : t.Owned where
  toHashes := hs.toHashes.of_find (fun g => by rw [hfiles]) (hfind _) (hfind _)
  keys g key hkey := by
    rw [hfiles]
    exact hs.keys g key ((hfind .reportKeys g).symm.trans hkey)

theorem Prepared.of_find (hs : s.Owned) (hfiles : t.files = s.files) (hclock : s.clock ≤ t.clock)
    (hstored : ∀ sha256 file, t.stored sha256 = some file → s.stored sha256 = some file)
    (hkept : ∀ sha256 file, s.stored sha256 = some file → file.document.isSome = true → t.stored sha256 = some file)
    (hfind : ∀ c key, t.find? c key = s.find? c key) : Prepared s t :=
  ⟨hfiles, hclock, hs.of_find hfiles hfind, hstored, hkept, fun c key _ _ => hfind c key⟩

theorem Quiet.prepared (h : Quiet s t) (hs : s.Owned) : Prepared s t := (h.rehashed hs.toHashes).prepared hs

theorem Prepared.refl (hs : s.Owned) : Prepared s s := (Quiet.refl s).prepared hs

theorem Prepared.trans (h : Prepared s t) (h' : Prepared t u) : Prepared s u where
  files := h'.files.trans h.files
  clock := h.clock.trans h'.clock
  owned := h'.owned
  stored sha256 file hfile := h.stored sha256 file (h'.stored sha256 file hfile)
  kept sha256 file hfile hdata := h'.kept sha256 file (h.kept sha256 file hfile hdata) hdata
  find c key hraw hcold := (h'.find c key hraw hcold).trans (h.find c key hraw hcold)

theorem Prepared.looked (h : Prepared s t) (f : FileId) : Looked f s t where
  files := h.files
  clock := h.clock
  owned := h.owned
  stored := h.stored
  exported g := h.find .exportedKeys g nofun nofun
  picBlocks key := h.find .picBlocks key nofun nofun
  reports key _ hr := .inl ((h.find .reports key nofun nofun).symm.trans hr)
  misses g key hmiss := .inl ((h.find .coldMisses (g, key) nofun nofun).symm.trans hmiss)

theorem Rehashed.looked (h : Rehashed s t) (hs : s.Owned) (f : FileId) : Looked f s t := (h.prepared hs).looked f

theorem Quiet.looked (h : Quiet s t) (hs : s.Owned) (f : FileId) : Looked f s t := (h.prepared hs).looked f

theorem Looked.refl (hs : s.Owned) (f : FileId) : Looked f s s := (Prepared.refl hs).looked f

theorem Stored.stored_eq {c : ReportCache} {key : c.Key} {value : c.Val} (h : Stored c key value s t)
    (sha256 : String) : t.stored sha256 = s.stored sha256 := by
  rw [ExportState.stored, ExportState.stored, h.folder]

theorem Stored.owned {c : ReportCache} {key : c.Key} {value : c.Val} (h : Stored c key value s t) (hs : s.Owned)
    (hraw : .rawSha256 ≠ c) (hcold : .coldSha256 ≠ c) (hkeys : ∀ g k, t.find? .reportKeys g = some k →
      s.find? .reportKeys g = some k ∨ k.1 = (s.files g).sha256) : t.Owned where
  toHashes := hs.toHashes.of_find (fun g => by rw [h.files]) (fun key => h.others _ key hraw) fun key =>
    h.others _ key hcold
  keys g k hk := by
    rw [h.files]
    exact (hkeys g k hk).elim (hs.keys g k) id

/-- A store in a cache that holds no keys. -/
theorem Stored.owned_of_ne {c : ReportCache} {key : c.Key} {value : c.Val} (h : Stored c key value s t) (hs : s.Owned)
    (hraw : .rawSha256 ≠ c) (hcold : .coldSha256 ≠ c) (hkeys : .reportKeys ≠ c) : t.Owned :=
  h.owned hs hraw hcold fun g _ hk => .inl ((h.others .reportKeys g hkeys).symm.trans hk)

/-- A store that a lookup or a preload may make. -/
theorem Looked.store {c : ReportCache} {key : c.Key} {value : c.Val} (h : Looked f s t) (hset : Stored c key value t u)
    (hc : c = .reports ∨ c = .reportKeys ∨ c = .coldMisses)
    (hkeys : ∀ g key, u.find? .reportKeys g = some key →
      t.find? .reportKeys g = some key ∨ key.1 = (s.files g).sha256)
    (hreports : ∀ key r, u.find? .reports key = some r →
      t.find? .reports key = some r ∨ key.1 = (s.files f).sha256 ∧ s.Loaded key.1 r)
    (hmisses : ∀ g key, u.find? .coldMisses (g, key) = some () →
      t.find? .coldMisses (g, key) = some () ∨ t.WouldMiss g key.1) : Looked f s u := by
  have hne : ∀ c' : ReportCache, c' ≠ .reports → c' ≠ .reportKeys → c' ≠ .coldMisses → c' ≠ c := by
    rintro c' h₁ h₂ h₃ rfl
    exact hc.elim h₁ fun hc => hc.elim h₂ h₃
  refine ⟨hset.files.trans h.files, h.clock.trans hset.clock.ge,
    hset.owned h.owned (hne _ nofun nofun nofun) (hne _ nofun nofun nofun) fun g k hk => ?_,
    fun sha256 file hfile => h.stored sha256 file ((hset.stored_eq sha256).symm.trans hfile),
    fun g => ?_, fun key => ?_, fun key r hr => ?_, fun g key hmiss => ?_⟩
  · rw [h.files]
    exact hkeys g k hk
  · exact (hset.others _ g (hne .exportedKeys nofun nofun nofun)).trans (h.exported g)
  · exact (hset.others _ key (hne .picBlocks nofun nofun nofun)).trans (h.picBlocks key)
  · exact (hreports key r hr).elim (h.reports key r) .inr
  · have hstored : ∀ file, u.stored key.1 = some file → t.stored key.1 = some file := fun file hfile =>
      (hset.stored_eq key.1).symm.trans hfile
    rcases hmisses g key hmiss with hmem | hnew
    · exact (h.misses g key hmem).imp_right fun hold => hold.mono hset.files hstored
    · exact .inr (hnew.mono hset.files hstored)

theorem Looked.store_reportKeys {key : ReportKey} (h : Looked f s t) (hset : Stored .reportKeys f key t u)
    (hkey : key.1 = (s.files f).sha256) : Looked f s u := by
  refine h.store hset (.inr (.inl rfl)) (fun g key' hfound => ?_) (fun key' r hr => ?_) fun g key' hmiss => ?_
  · by_cases hg : g = f
    · subst hg
      rw [hset.found] at hfound
      cases hfound
      exact .inr hkey
    · exact .inl (hset.kept g key' hg hfound)
  · exact .inl ((hset.others .reports key' nofun).symm.trans hr)
  · exact .inl ((hset.others .coldMisses (g, key') nofun).symm.trans hmiss)

theorem Looked.store_reports {key : ReportKey} {r : Report} (h : Looked f s t) (hset : Stored .reports key r t u)
    (hkey : key.1 = (s.files f).sha256) (hr : s.Loaded key.1 r) : Looked f s u := by
  refine h.store hset (.inl rfl) (fun g key' hfound => ?_) (fun key' r' hr' => ?_) fun g key' hmiss => ?_
  · exact .inl ((hset.others .reportKeys g nofun).symm.trans hfound)
  · by_cases heq : key' = key
    · subst heq
      rw [hset.found] at hr'
      cases hr'
      exact .inr ⟨hkey, hr⟩
    · exact .inl (hset.kept key' r' heq hr')
  · exact .inl ((hset.others .coldMisses (g, key') nofun).symm.trans hmiss)

theorem Looked.store_coldMisses {key : ReportKey} (h : Looked f s t) (hset : Stored .coldMisses (f, key) () t u)
    (hmiss : t.WouldMiss f key.1) : Looked f s u := by
  refine h.store hset (.inr (.inr rfl)) (fun g key' hfound => ?_) (fun key' r hr => ?_) fun g key' hfound => ?_
  · exact .inl ((hset.others .reportKeys g nofun).symm.trans hfound)
  · exact .inl ((hset.others .reports key' nofun).symm.trans hr)
  · by_cases heq : (g, key') = (f, key)
    · cases heq
      exact .inr hmiss
    · exact .inl (hset.kept (g, key') () heq hfound)

end Looked

/-! ## Loading -/

section Loading

variable {w : CallWorld} {f : FileId} {s : ExportState} {sha256 : String}

/-- What loading does to a folder. -/
theorem find?_load {folder : ReportFolder} {other : String} {file : StoredReport}
    (h : (ReportFolder.load folder sha256).2.find? other = some file) : folder.find? other = some file := by
  unfold ReportFolder.load at h
  cases hfile : folder.find? sha256 with
  | none => simpa only [hfile] using h
  | some found =>
    cases hdocument : found.document with
    | none =>
      simp only [hfile, hdocument, OrderedMap.find?_erase] at h
      split_ifs at h
      exact h
    | some data => simpa only [hfile, hdocument, OrderedMap.find?_moveToEnd] using h

/-- A file that can be read back is not dropped. -/
theorem find?_load_of_document {folder : ReportFolder} {other : String} {file : StoredReport}
    (h : folder.find? other = some file) (hdata : file.document.isSome = true) :
    (ReportFolder.load folder sha256).2.find? other = some file := by
  unfold ReportFolder.load
  cases hfile : folder.find? sha256 with
  | none => exact h
  | some found =>
    cases hdocument : found.document with
    | none =>
      have hne : other ≠ sha256 := by
        rintro rfl
        obtain rfl := Option.some.inj (hfile.symm.trans h)
        rw [hdocument] at hdata
        cases hdata
      simpa only [hfile, hdocument, OrderedMap.find?_erase, if_neg hne] using h
    | some data => simpa only [hfile, hdocument, OrderedMap.find?_moveToEnd] using h

theorem load_fst (folder : ReportFolder) (sha256 : String) :
    (ReportFolder.load folder sha256).1 = (folder.find? sha256).bind StoredReport.document := by
  unfold ReportFolder.load
  cases hfile : folder.find? sha256 with
  | none => rfl
  | some file =>
    cases hdocument : file.document <;> simp [hdocument]

theorem ExportSem.loaded {t : ExportState} {a : Option Report} (h : ExportSem w s (.load sha256) a t) (hs : s.Owned) :
    Prepared s t ∧ a = ((s.stored sha256).bind StoredReport.document).map fun data => ⟨data, false, s.clock⟩ := by
  cases h
  refine ⟨Prepared.of_find hs rfl (Nat.le_succ _) ?_ ?_ fun _ _ => rfl, ?_⟩
  · intro other file hfile
    unfold ExportState.stored at *
    show s.folder.bind _ = some file
    have hfile' : (s.folder.map fun folder => (ReportFolder.load folder sha256).2).bind
        (fun folder => folder.find? other) = some file := hfile
    cases hfolder : s.folder with
    | none =>
      rw [hfolder] at hfile'
      cases hfile'
    | some folder =>
      rw [hfolder] at hfile'
      exact find?_load hfile'
  · intro other file hfile hdata
    obtain ⟨folder, hfolder, hfound⟩ := Option.bind_eq_some_iff.1 hfile
    show (s.folder.map fun folder => (ReportFolder.load folder sha256).2).bind _ = some file
    rw [hfolder]
    exact find?_load_of_document hfound hdata
  · show (s.folder.bind fun folder => (ReportFolder.load folder sha256).1).map _ = _
    unfold ExportState.stored
    cases s.folder with
    | none => rfl
    | some folder =>
      show (ReportFolder.load folder sha256).1.map _ = _
      rw [load_fst]
      rfl

/-- What `_load_current` returns. -/
structure LoadedCurrent (f : FileId) (sha256 : String) (s t : ExportState) (a : Option Report) : Prop where
  prepared : Prepared s t
  found : ∀ r, a = some r → s.Loaded sha256 r ∧ analysisChanged (s.files f).analysis.keptCount r.data = false
  missing : a = none → ∀ file data, s.stored sha256 = some file → file.document = some data →
    analysisChanged (s.files f).analysis.keptCount data = true

theorem ensures_loadCurrent (hs : s.Owned) (f : FileId) (sha256 : String) :
    (loadCurrent f sha256).Ensures (ExportSem w)
      (fun out t => ∃ a, out = .returned a ∧ LoadedCurrent f sha256 s t a) s := by
  intro a t hsem
  obtain ⟨hprepared, rfl⟩ := hsem.loaded hs
  cases hstored : (s.stored sha256).bind StoredReport.document with
  | none =>
    refine ⟨none, rfl, hprepared, nofun, fun _ file data hfile hdata => ?_⟩
    rw [hfile, Option.bind_some, hdata] at hstored
    cases hstored
  | some data =>
    obtain ⟨file, hfile, hdata⟩ := Option.bind_eq_some_iff.1 hstored
    intro count u hsem'
    obtain ⟨rfl, rfl⟩ := hsem'.read trivial
    have hcount : (exportHandler w (.keptCount f) t).1 = (s.files f).analysis.keptCount := by
      show (t.files f).analysis.keptCount = _
      rw [hprepared.files]
    refine ⟨_, rfl, hprepared, fun r hr => ?_, fun hr file' data' hfile' hdata' => ?_⟩
    · rw [hcount] at hr
      split_ifs at hr with hchanged
      cases hr
      exact ⟨⟨rfl, file, hfile, hdata⟩, Bool.eq_false_iff.2 hchanged⟩
    · rw [hcount] at hr
      obtain rfl := Option.some.inj (hfile.symm.trans hfile')
      obtain rfl := Option.some.inj (hdata.symm.trans hdata')
      split_ifs at hr with hchanged
      exact hchanged

/-- What `_load_small` returns. -/
structure LoadedSmall (f : FileId) (sha256 : String) (s t : ExportState) (a : Option Report) : Prop where
  prepared : Prepared s t
  found : ∀ r, a = some r → s.Loaded sha256 r ∧ ¬ s.WouldMiss f sha256
  missing : a = none → t.WouldMiss f sha256

theorem ensures_loadSmall (hs : s.Owned) (f : FileId) (key : ReportKey) :
    (loadSmall f key).Ensures (ExportSem w) (fun out t => ∃ a, out = .returned a ∧ LoadedSmall f key.1 s t a) s := by
  intro hasFolder t hsem
  obtain ⟨rfl, rfl⟩ := hsem.read trivial
  have hnone : s.WouldMiss f key.1 → LoadedSmall f key.1 s s none := fun hmiss =>
    ⟨Prepared.refl hs, nofun, fun _ => hmiss⟩
  show Ensures _ _ (if s.folder.isSome = false then pure none else _) s
  split_ifs with hfolder
  · refine ⟨none, rfl, hnone fun file hfile => ?_⟩
    rw [Option.isSome_eq_false_iff, Option.isNone_iff_eq_none] at hfolder
    rw [ExportState.stored, hfolder] at hfile
    cases hfile
  · intro size t hsem'
    obtain ⟨rfl, rfl⟩ := hsem'.read trivial
    have hsize : (exportHandler w (.storedSize key.1) s).1 = (s.stored key.1).map StoredReport.size := rfl
    rw [hsize]
    cases hstored : s.stored key.1 with
    | none =>
      refine ⟨none, rfl, hnone fun file hfile => ?_⟩
      rw [hstored] at hfile
      cases hfile
    | some file =>
      show Ensures _ _ (if file.size > coldMaxStoredBytes then pure none else loadCurrent f key.1) s
      split_ifs with hlarge
      · refine ⟨none, rfl, hnone ?_⟩
        rintro file' hfile ⟨data, -, hsize, -⟩
        obtain rfl : file = file' := Option.some.inj (hstored.symm.trans hfile)
        exact absurd hsize (not_le.2 hlarge)
      · refine (ensures_loadCurrent hs f key.1).mono ?_
        rintro out t ⟨a, rfl, hloaded⟩
        refine ⟨a, rfl, hloaded.prepared, fun r hr => ?_, fun hmissing => ?_⟩
        · obtain ⟨hr, hsame⟩ := hloaded.found r hr
          obtain ⟨-, file', hfile, hdata⟩ := id hr
          obtain rfl : file = file' := Option.some.inj (hstored.symm.trans hfile)
          exact ⟨hr, fun hmiss => hmiss file hstored ⟨r.data, hdata, not_lt.1 hlarge, hsame⟩⟩
        · rintro file' hfile ⟨data, hdata, -, hsame⟩
          rw [hloaded.prepared.files] at hsame
          rw [hloaded.missing hmissing file' data (hloaded.prepared.stored _ _ hfile) hdata] at hsame
          cases hsame

end Loading

/-! ## Lookups -/

section Lookups

variable {w : CallWorld} {f : FileId} {s : ExportState}

/-- No report of `f` is looked up: no key is remembered, and its bytes are too many to hash, or none. -/
def ExportState.Unsearched (s : ExportState) (f : FileId) : Prop :=
  s.find? .reportKeys f = none ∧ (s.files f).coldSha256 = ""

/-- What a lookup returns is in memory, under a key of the file; none, where a miss is remembered or found out. -/
structure LookedUp (f : FileId) (s t : ExportState) (out : Outcome PyError (Option Report)) : Prop where
  looked : Looked f s t
  found : ∀ r, out = .returned (some r) → ∃ key : ReportKey, key.1 = (s.files f).sha256 ∧ t.find? .reports key = some r
  missing : out = .returned none → s.Unsearched f ∨
    (∃ key : ReportKey, key.1 = (s.files f).sha256 ∧ s.find? .coldMisses (f, key) = some ()) ∨
      t.WouldMiss f (s.files f).sha256

theorem Rehashed.lookedUp {t u : ExportState} {out : Outcome PyError (Option Report)} (h : Rehashed s t) (hs : s.Owned)
    (h' : LookedUp f t u out) : LookedUp f s u out where
  looked := (h.looked hs f).trans h'.looked
  found r hr := by
    obtain ⟨key, hkey, hfound⟩ := h'.found r hr
    exact ⟨key, h.files ▸ hkey, hfound⟩
  missing hout := by
    have hmissing := h'.missing hout
    rw [ExportState.Unsearched, h.files, h.find .reportKeys f nofun nofun] at hmissing
    refine hmissing.imp_right (Or.imp_left fun ⟨key, hkey, hmiss⟩ => ⟨key, hkey, ?_⟩)
    exact (h.find .coldMisses (f, key) nofun nofun).symm.trans hmiss

theorem Looked.lookedUp_some {t : ExportState} {key : ReportKey} {r : Report} (h : Looked f s t)
    (hkey : key.1 = (s.files f).sha256) (hfound : t.find? .reports key = some r) :
    LookedUp f s t (.returned (some r)) := by
  refine ⟨h, fun r' hr => ?_, nofun⟩
  cases hr
  exact ⟨key, hkey, hfound⟩

theorem ensures_lookupReport (hs : s.Owned) {key : ReportKey} (hkey : key.1 = (s.files f).sha256) :
    (lookupReport f key).Ensures (ExportSem w) (fun out t => LookedUp f s t out) s := by
  intro a t hget
  have hquiet : Quiet s t := hget.quiet trivial
  have ht := hquiet.looked hs f
  rw [hget.get_eq]
  cases hfound : s.find? .reports key with
  | some r =>
    intro _ u hset
    refine (ht.store_reportKeys hset.stored hkey).lookedUp_some hkey ?_
    exact (hset.stored.others .reports key nofun).trans ((hquiet.find .reports key).trans hfound)
  | none =>
    intro a' u hmiss
    have hu := ht.trans ((hmiss.quiet trivial).looked ht.owned f)
    rw [hmiss.get_eq]
    cases hmissed : t.find? .coldMisses (f, key) with
    | some _ =>
      refine ⟨hu, nofun, fun _ => .inr (.inl ⟨key, hkey, ?_⟩)⟩
      exact (hquiet.find .coldMisses (f, key)).symm.trans hmissed
    | none =>
      show Ensures _ _ (loadSmall f key >>= _) u
      refine Ensures.bind ((ensures_loadSmall hu.owned f key).mono ?_)
      rintro out v ⟨a, rfl, hloaded⟩
      have hv := hu.trans (hloaded.prepared.looked f)
      cases a with
      | none =>
        intro _ x hset
        have hx := hv.store_coldMisses hset.stored (hloaded.missing rfl)
        refine ⟨hx, nofun, fun _ => .inr (.inr ?_)⟩
        rw [← hkey]
        exact (hloaded.missing rfl).mono hset.stored.files fun file hfile =>
          (hset.stored.stored_eq key.1).symm.trans hfile
      | some r =>
        intro _ x hset _ y hset'
        have hr := (hloaded.found r rfl).1
        have hx : Looked f u x := (hloaded.prepared.looked f).store_reports hset.stored (hu.files ▸ hkey) hr
        refine ((hu.trans hx).store_reportKeys hset'.stored hkey).lookedUp_some hkey ?_
        exact (hset'.stored.others .reports key nofun).trans hset.stored.found

theorem coldSha256_eq {file : OpenFile} (h : file.coldSha256 ≠ "") : file.coldSha256 = file.sha256 := by
  unfold OpenFile.coldSha256 OpenFile.sha256 at *
  cases hraw : file.raw with
  | none => rfl
  | some raw =>
    simp only [hraw] at h ⊢
    split_ifs at h ⊢ with hsmall hlength
    · omega
    · rfl
    · exact absurd rfl h
    · exact absurd rfl h

theorem ensures_cachedReport (hs : s.Owned) (f : FileId) :
    (cachedReport f).Ensures (ExportSem w) (fun out t => LookedUp f s t out) s := by
  intro a t hget
  have ht := (hget.quiet trivial).rehashed hs.toHashes
  have howned := hs.of_rehashed ht
  have hkeys := hget.get_eq
  cases a with
  | some key =>
    have hkey : key.1 = (t.files f).sha256 := ht.files ▸ hs.keys f key hkeys.symm
    exact (ensures_lookupReport howned hkey).mono fun out u => ht.lookedUp hs
  | none =>
    show Ensures _ _ (cached .coldSha256 f false (coldSha256 f) >>= _) t
    refine Ensures.bind ((ensures_cachedColdSha256 ht.hashes f).mono ?_)
    rintro out u ⟨hrehashed, hsha⟩
    have hu := ht.trans hrehashed
    cases out with
    | returned sha256 =>
      have hcold := hsha sha256 rfl
      rw [ht.files] at hcold
      show Ensures _ _ (if sha256 = "" then pure none else _) u
      split_ifs with hempty
      · exact ⟨hu.looked hs f, nofun, fun _ => .inl ⟨hkeys.symm, hcold ▸ hempty⟩⟩
      · intro count v hcount
        obtain ⟨rfl, rfl⟩ := hcount.read trivial
        have hkey : sha256 = (u.files f).sha256 := by
          rw [hcold, hu.files]
          exact coldSha256_eq (hcold ▸ hempty)
        exact (ensures_lookupReport (hs.of_rehashed hu) hkey).mono fun out v => hu.lookedUp hs
    | raised e => exact ⟨hu.looked hs f, nofun, nofun⟩
    | pending => trivial

/-! ## Preloads -/

/-- The end of `_preload`, for a file whose bytes are hashed. -/
def preloadHashed (f : FileId) (sha256 : String) : ExportProg Unit := do
  let count ← call (.functionCount f)
  match ← call (.get .reports (sha256, count)) with
  | some _ => call (.set .reportKeys f (sha256, count))
  | none => do
    match ← loadCurrent f sha256 with
    | none => pure ()
    | some report => do
      call (.set .reports (sha256, count) report)
      call (.set .reportKeys f (sha256, count))

theorem preloadFile_eq (f : FileId) (raw : RawData) : preloadFile f raw = (rawSha256Cached f >>= fun sha256 =>
    if raw.length ≤ coldMaxRawBytes then call (.set .coldSha256 f sha256) >>= fun _ => preloadHashed f sha256
    else preloadHashed f sha256) := rfl

theorem ensures_preloadHashed {t : ExportState} (ht : Looked f s t) {sha256 : String}
    (hkey : sha256 = (s.files f).sha256) :
    (preloadHashed f sha256).Ensures (ExportSem w) (fun _ u => Looked f s u) t := by
  intro count u hcount
  obtain ⟨rfl, rfl⟩ := hcount.read trivial
  intro a u hget
  have hu := ht.trans ((hget.quiet trivial).looked ht.owned f)
  cases a with
  | some _ => exact fun _ v hset => hu.store_reportKeys hset.stored hkey
  | none =>
    show Ensures _ _ (loadCurrent f sha256 >>= _) u
    refine Ensures.bind ((ensures_loadCurrent hu.owned f sha256).mono ?_)
    rintro out v ⟨a, rfl, hloaded⟩
    cases a with
    | none => exact hu.trans (hloaded.prepared.looked f)
    | some r =>
      intro _ x hset _ y hset'
      have hx := (hloaded.prepared.looked f).store_reports hset.stored (hu.files ▸ hkey) (hloaded.found r rfl).1
      exact (hu.trans hx).store_reportKeys hset'.stored hkey

theorem ensures_preloadFile (hs : s.Owned) {raw : RawData} (hraw : (s.files f).raw = some raw)
    (hlength : 0 < raw.length) : (preloadFile f raw).Ensures (ExportSem w) (fun _ t => Looked f s t) s := by
  rw [preloadFile_eq]
  refine Ensures.bind ((ensures_rawSha256Cached hs.toHashes f).mono ?_)
  rintro out t ⟨hrehashed, hsha⟩
  have ht := hrehashed.looked hs f
  cases out with
  | raised e => exact ht
  | pending => trivial
  | returned sha256 =>
    have hkey : sha256 = (s.files f).sha256 := hsha sha256 rfl
    show Ensures _ _ (if raw.length ≤ coldMaxRawBytes then _ else _) t
    split_ifs with hsmall
    · intro _ u hset
      have hcold : sha256 = (t.files f).coldSha256 := by
        rw [hkey, ht.files, OpenFile.sha256, OpenFile.coldSha256, hraw]
        simp [hlength, hsmall, not_le.2 hlength]
      have hlooked := (hset.stored.rehashed_cold hcold ht.owned.toHashes).looked ht.owned f
      exact ensures_preloadHashed (ht.trans hlooked) hkey
    · exact ensures_preloadHashed ht hkey

theorem ensures_preload (hs : s.Owned) (f : FileId) :
    (preload f).Ensures (ExportSem w) (fun _ t => Looked f s t) s := by
  have hdone := Looked.refl hs f
  intro arch t harch
  obtain ⟨rfl, rfl⟩ := harch.read trivial
  show Ensures _ _ (if (s.files f).archName.any (· ∉ smdaArchitectures) then pure () else _) s
  split_ifs
  · exact hdone
  · intro raw t hraw
    obtain ⟨rfl, rfl⟩ := hraw.read trivial
    intro viewType t hview
    obtain ⟨rfl, rfl⟩ := hview.read trivial
    cases hraw : (exportHandler w (.raw f) s).1 with
    | none => exact hdone
    | some raw =>
      show Ensures _ _ (if (s.files f).viewType = "Raw" ∨ ¬ (0 < raw.length ∧ raw.length ≤ preloadMaxRawBytes) then
        pure () else _) s
      split_ifs with hskipped
      · exact hdone
      · intro hasFolder t hfolder
        obtain ⟨rfl, rfl⟩ := hfolder.read trivial
        show Ensures _ _ (if s.folder.isSome = false then pure () else _) s
        split_ifs
        · exact hdone
        · intro key t hget
          have ht := (hget.quiet trivial).looked hs f
          cases key with
          | some _ => exact ht
          | none =>
            rw [not_or, not_not] at hskipped
            have hfile : (t.files f).raw = some raw := by
              rw [ht.files]
              exact hraw
            exact (ensures_preloadFile ht.owned hfile hskipped.2.1).mono fun _ u => ht.trans

theorem ensures_preloadReport (hs : s.Owned) (f : FileId) :
    (preloadReport f).Ensures (ExportSem w) (fun _ t => Looked f s t) s := by
  intro _ t hlock
  have ht := (hlock.quiet trivial).looked hs f
  have hunlock : ∀ u, Looked f s u → ∀ a v, ExportSem w u .unlockPreload a v → Looked f s v := fun u hu _ v hsem =>
    hu.trans ((hsem.quiet trivial).looked hu.owned f)
  refine Ensures.tryFinally (Ensures.tryCatch ((ensures_preload ht.owned f).mono fun out u hu => ?_))
  have hdone := ht.trans hu
  cases out with
  | returned _ => exact hunlock u hdone
  | raised _ => exact hunlock u hdone
  | pending => trivial

end Lookups

/-! ## Renders -/

section Renders

variable {w : CallWorld} {h : Hashing} {inv : ExportState → Prop}

theorem preserves_blockHashes (hquiet : ∀ s t, Quiet s t → inv s → inv t)
    (hset : ∀ s t key blocks, Stored .picBlocks key blocks s t → inv s → inv t) (report : Option Report) (address : ℤ) :
    Preserves (ExportSem w) inv (blockHashes h report address) := by
  intro s hs
  cases report with
  | none => exact hs
  | some report =>
    simp only [blockHashes]
    cases smdaFunction report.data address with
    | none => exact hs
    | some f =>
      refine ensures_cached (fun _ t _ ht => hquiet s t ht hs) nofun fun _ t ht => ?_
      exact fun u hu => hset t u _ _ hu (hquiet s t ht hs)

/-- What lookups and stored hashes preserve, renders preserve. -/
theorem preserves_renderBlocks (hquiet : ∀ s t, Quiet s t → inv s → inv t)
    (hset : ∀ s t key blocks, Stored .picBlocks key blocks s t → inv s → inv t)
    (hlookup : ∀ f, Preserves (ExportSem w) inv (cachedReport f)) (source target : RenderedFunction) :
    Preserves (ExportSem w) inv (renderBlocks h source target) := by
  have hview : ∀ view, Preserves (ExportSem w) inv (reportForView view) := by
    intro view
    cases view with
    | none => exact fun s hs => hs
    | some f => exact hlookup f
  refine (hview source.view).bind fun sourceReport => (hview target.view).bind fun targetReport => ?_
  refine (preserves_blockHashes hquiet hset sourceReport source.start).bind fun sourceBlocks => ?_
  exact (preserves_blockHashes hquiet hset targetReport target.start).bind fun _ _ hs => hs

end Renders

end McritSimilarity
