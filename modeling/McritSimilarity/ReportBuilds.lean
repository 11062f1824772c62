import McritSimilarity.ReportLoads

/-!
# What exports change

`Exported` is what an export may do to the state in which the analysis of its file has settled: it takes the report
that is in memory, or one that is stored if the file was not exported before, or else builds and stores one.
`ensures_exportSmdaReport` proves it.
-/

set_option autoImplicit false

namespace McritSimilarity

open Prog

namespace ExportState

/-- The report that a view is exported to. -/
def BuildsTo (s : ExportState) (f : FileId) (data : SmdaReport) : Prop :=
  ∃ exported, (s.files f).analysis.exported = .ok exported ∧
    data = if (s.files f).fileName = "" then exported else { exported with filename := (s.files f).fileName }

/-- A report that was built from the view. -/
def Built (s : ExportState) (f : FileId) (r : Report) : Prop :=
  r.built = true ∧ s.clock ≤ r.made ∧ s.BuildsTo f r.data

/-- An export of `f` that has no report in memory loads one: the file is not remembered as exported, and its disk copy
holds about as many functions as its view. -/
def LoadsCopy (s : ExportState) (f : FileId) : Prop :=
  s.find? .exportedKeys f = none ∧ ∃ file data, s.stored (s.files f).sha256 = some file ∧
    file.document = some data ∧ analysisChanged (s.files f).analysis.keptCount data = false

/-- A report that an export of `f` gets when it has none in memory. -/
def Obtained (s : ExportState) (f : FileId) (r : Report) : Prop :=
  s.LoadsCopy f ∧ s.Loaded (s.files f).sha256 r ∨ ¬ s.LoadsCopy f ∧ s.Built f r

/-- The report that an export of `f` returns. -/
inductive Returns (s : ExportState) (f : FileId) (r : Report) : Prop where
  | held {key : ReportKey} (hkey : (s.files f).key = some key) (hfound : s.find? .reports key = some r)
  | obtained {key : ReportKey} (hkey : (s.files f).key = some key) (hnone : s.find? .reports key = none)
      (hr : s.Obtained f r)
  | unkeyed (hkey : (s.files f).key = none) (hr : s.Built f r)

/-- A file that an export of `f` writes, which has no report in memory. -/
def Writes (s : ExportState) (f : FileId) (w : CallWorld) (sha256 : String) (file : StoredReport) : Prop :=
  ∃ key data, (s.files f).key = some key ∧ key.1 = sha256 ∧ s.find? .reports key = none ∧ s.BuildsTo f data ∧
    file.document = some data ∧ w.written data = some file.size

end ExportState

/-- What an export of `f` may change, and what it returns. -/
structure Exported (f : FileId) (w : CallWorld) (s t : ExportState) (out : Outcome PyError Report) : Prop where
  files : t.files = s.files
  clock : s.clock ≤ t.clock
  owned : t.Owned
  stored : ∀ sha256 file, t.stored sha256 = some file → s.stored sha256 = some file ∨ s.Writes f w sha256 file
  picBlocks : ∀ key, t.find? .picBlocks key = s.find? .picBlocks key
  misses : ∀ key, t.find? .coldMisses key = some () → s.find? .coldMisses key = some ()
  reports : ∀ key r, t.find? .reports key = some r → s.find? .reports key = some r ∨
    out = .returned r ∧ (s.files f).key = some key ∧ s.find? .reports key = none ∧ s.Obtained f r
  result : ∀ r, out = .returned r → s.Returns f r

section Builds

variable {w : CallWorld} {f : FileId} {s t u : ExportState}

theorem Prepared.exported (h : Prepared s t) {out : Outcome PyError Report}
    (hresult : ∀ r, out = .returned r → s.Returns f r) : Exported f w s t out where
  files := h.files
  clock := h.clock
  owned := h.owned
  stored sha256 file hfile := .inl (h.stored sha256 file hfile)
  picBlocks key := h.find .picBlocks key nofun nofun
  misses key hmiss := (h.find .coldMisses key nofun nofun).symm.trans hmiss
  reports key _ hr := .inl ((h.find .reports key nofun nofun).symm.trans hr)
  result := hresult

theorem ExportState.Built.of_prepared {r : Report} (h : Prepared s t) (hr : t.Built f r) : s.Built f r := by
  obtain ⟨hbuilt, hmade, exported, hexported, hdata⟩ := hr
  rw [h.files] at hexported hdata
  exact ⟨hbuilt, h.clock.trans hmade, exported, hexported, hdata⟩

theorem ExportSem.builtView {a : Except PyError Report} (h : ExportSem w s (.exportView f) a t) (hs : s.Owned) :
    Prepared s t ∧ a = (s.files f).analysis.exported.map fun data => ⟨data, true, s.clock⟩ := by
  cases h
  exact ⟨Prepared.of_find hs rfl (Nat.le_succ _) (fun _ _ h => h) (fun _ _ h _ => h) fun _ _ => rfl, rfl⟩

theorem ensures_buildReport (hs : s.Owned) (f : FileId) : (buildReport f).Ensures (ExportSem w)
    (fun out t => Prepared s t ∧ ∀ r, out = .returned r → s.Built f r) s := by
  intro arch t harch
  obtain ⟨rfl, rfl⟩ := harch.read trivial
  cases harch : (exportHandler w (.archName f) s).1 with
  | none => exact ⟨Prepared.refl hs, nofun⟩
  | some arch =>
    show Ensures _ _ (Prog.raiseIf (arch ∉ smdaArchitectures) (unsupportedArchitecture arch) >>= _) s
    by_cases hknown : arch ∈ smdaArchitectures
    · rw [Prog.raiseIf_neg (not_not.2 hknown)]
      intro exported t hexport
      obtain ⟨ht, rfl⟩ := hexport.builtView hs
      cases hexported : (s.files f).analysis.exported with
      | error e => exact ⟨ht, nofun⟩
      | ok data =>
        intro fileName u hname
        obtain ⟨rfl, rfl⟩ := hname.read trivial
        have hfile : (exportHandler w (.fileName f) t).1 = (s.files f).fileName := by
          show (t.files f).fileName = _
          rw [ht.files]
        refine ⟨ht, fun r hr => ?_⟩
        rw [hfile] at hr
        cases hr
        split_ifs with hname
        · exact ⟨rfl, le_rfl, data, hexported, by rw [if_pos hname]⟩
        · exact ⟨rfl, le_rfl, data, hexported, by rw [if_neg hname]⟩
    · rw [Prog.raiseIf_pos hknown]
      exact ⟨Prepared.refl hs, nofun⟩

/-! ## Storing -/

theorem find?_prune {folder : ReportFolder} {keep other : String} {file : StoredReport}
    (h : (ReportFolder.prune folder keep).find? other = some file) : folder.find? other = some file := by
  rw [OrderedMap.find?_eq_some_iff] at h ⊢
  exact (ReportFolder.pruneLoop_sublist keep _ _ _).subset h

theorem ExportSem.storedReport {sha256 : String} {r : Report} {a : Unit} (h : ExportSem w s (.store sha256 r) a t)
    {other : String} {file : StoredReport} (hfile : t.stored other = some file) : s.stored other = some file ∨
      other = sha256 ∧ file.document = some r.data ∧ w.written r.data = some file.size := by
  cases h
  have hfile' : (s.folder.map fun folder => ReportFolder.store folder sha256 r.data (w.written r.data)).bind
      (fun folder => folder.find? other) = some file := hfile
  unfold ExportState.stored
  cases hfolder : s.folder with
  | none =>
    rw [hfolder] at hfile'
    cases hfile'
  | some folder =>
    rw [hfolder] at hfile'
    have hfound : (ReportFolder.store folder sha256 r.data (w.written r.data)).find? other = some file := hfile'
    cases hwritten : w.written r.data with
    | none =>
      rw [hwritten] at hfound
      exact .inl hfound
    | some size =>
      rw [hwritten] at hfound
      have happended := find?_prune hfound
      rw [OrderedMap.find?_append] at happended
      split_ifs at happended with hother
      · cases happended
        exact .inr ⟨hother, rfl, rfl⟩
      · exact .inl happended

/-- An export of `f` before it changes the caches. -/
structure Obtaining (f : FileId) (w : CallWorld) (s t : ExportState) (out : Outcome PyError Report) : Prop where
  files : t.files = s.files
  clock : s.clock ≤ t.clock
  owned : t.Owned
  stored : ∀ sha256 file, t.stored sha256 = some file → s.stored sha256 = some file ∨
    sha256 = (s.files f).sha256 ∧
      ∃ data, s.BuildsTo f data ∧ file.document = some data ∧ w.written data = some file.size
  find : ∀ c key, c ≠ .rawSha256 → c ≠ .coldSha256 → t.find? c key = s.find? c key
  result : ∀ r, out = .returned r → s.Obtained f r

theorem Prepared.obtaining (h : Prepared s t) {out : Outcome PyError Report}
    (hresult : ∀ r, out = .returned r → s.Obtained f r) : Obtaining f w s t out where
  files := h.files
  clock := h.clock
  owned := h.owned
  stored sha256 file hfile := .inl (h.stored sha256 file hfile)
  find := h.find
  result := hresult

theorem ensures_buildAndStore (hs : s.Owned) (hcopy : ¬ s.LoadsCopy f) :
    (buildAndStore f (s.files f).sha256).Ensures (ExportSem w) (fun out t => Obtaining f w s t out) s := by
  refine Ensures.bind ((ensures_buildReport hs f).mono ?_)
  rintro out t ⟨ht, hbuilt⟩
  cases out with
  | pending => trivial
  | raised e => exact ht.obtaining nofun
  | returned r =>
    intro _ u hstore
    have hr := hbuilt r rfl
    have hfind : ∀ c key, u.find? c key = t.find? c key := by
      intro c key
      exact hstore.find?_eq (fun key value heq => by cases heq) key
    have hfiles : u.files = t.files := hstore.files_eq nofun
    refine ⟨hfiles.trans ht.files, ht.clock.trans hstore.clock_le, ht.owned.of_find hfiles hfind,
      fun sha256 file hfile => ?_, fun c key hraw hcold => (hfind c key).trans (ht.find c key hraw hcold), ?_⟩
    · rcases hstore.storedReport hfile with hold | ⟨hsha, hdata, hsize⟩
      · exact .inl (ht.stored sha256 file hold)
      · exact .inr ⟨hsha, r.data, hr.2.2, hdata, hsize⟩
    · intro r' hr'
      obtain rfl : r = r' := Outcome.returned.inj hr'
      exact .inr ⟨hcopy, hr⟩

theorem Prepared.loadsCopy_iff (h : Prepared s t) : t.LoadsCopy f ↔ s.LoadsCopy f := by
  unfold ExportState.LoadsCopy
  rw [h.files, h.find .exportedKeys f nofun nofun]
  refine and_congr_right fun _ => exists_congr fun file => exists_congr fun data => ⟨?_, ?_⟩
  · exact fun ⟨hfile, hdata, hsame⟩ => ⟨h.stored _ _ hfile, hdata, hsame⟩
  · exact fun ⟨hfile, hdata, hsame⟩ => ⟨h.kept _ _ hfile (hdata ▸ rfl), hdata, hsame⟩

theorem ExportState.Obtained.of_prepared {r : Report} (h : Prepared s t) (hr : t.Obtained f r) : s.Obtained f r := by
  rcases hr with ⟨hcopy, hbuilt, file, hfile, hdata⟩ | ⟨hcopy, hbuilt⟩
  · rw [h.files] at hfile
    exact .inl ⟨h.loadsCopy_iff.1 hcopy, hbuilt, file, h.stored _ _ hfile, hdata⟩
  · exact .inr ⟨mt h.loadsCopy_iff.2 hcopy, hbuilt.of_prepared h⟩

theorem Prepared.trans_obtaining {out : Outcome PyError Report} (h : Prepared s t) (h' : Obtaining f w t u out) :
    Obtaining f w s u out where
  files := h'.files.trans h.files
  clock := h.clock.trans h'.clock
  owned := h'.owned
  stored sha256 file hfile := by
    rcases h'.stored sha256 file hfile with hold | ⟨hsha, data, ⟨exported, hexported, hdata⟩, hfile⟩
    · exact .inl (h.stored sha256 file hold)
    · rw [h.files] at hsha hexported hdata
      exact .inr ⟨hsha, data, ⟨exported, hexported, hdata⟩, hfile⟩
  find c key hraw hcold := (h'.find c key hraw hcold).trans (h.find c key hraw hcold)
  result r hr := (h'.result r hr).of_prepared h

theorem ensures_loadOrBuild (hs : s.Owned) {key : ReportKey} (hkey : key.1 = (s.files f).sha256) :
    (loadOrBuild f key).Ensures (ExportSem w) (fun out t => Obtaining f w s t out) s := by
  intro hasFolder t hfolder
  obtain ⟨rfl, rfl⟩ := hfolder.read trivial
  show Ensures _ _ (if s.folder.isSome = false then buildReport f else _) s
  split_ifs with hfolder
  · have hcopy : ¬ s.LoadsCopy f := by
      rintro ⟨-, file, data, hfile, -⟩
      rw [Option.isSome_eq_false_iff, Option.isNone_iff_eq_none] at hfolder
      rw [ExportState.stored, hfolder] at hfile
      cases hfile
    exact (ensures_buildReport hs f).mono fun out t ht => ht.1.obtaining fun r hr => .inr ⟨hcopy, ht.2 r hr⟩
  · intro exported t hget
    have ht := (hget.quiet trivial).prepared hs
    have hbuild : ¬ s.LoadsCopy f → ∀ u, Prepared s u →
        (buildAndStore f key.1).Ensures (ExportSem w) (fun out v => Obtaining f w s v out) u := by
      intro hcopy u hu
      rw [hkey, ← hu.files]
      exact (ensures_buildAndStore hu.owned (mt hu.loadsCopy_iff.1 hcopy)).mono fun out v => hu.trans_obtaining
    rw [hget.get_eq]
    cases hexported : s.find? .exportedKeys f with
    | some _ =>
      refine hbuild ?_ t ht
      rintro ⟨hfirst, -⟩
      rw [hexported] at hfirst
      cases hfirst
    | none =>
      show Ensures _ _ (loadCurrent f key.1 >>= _) t
      refine Ensures.bind ((ensures_loadCurrent ht.owned f key.1).mono ?_)
      rintro out u ⟨a, rfl, hloaded⟩
      have hu := ht.trans hloaded.prepared
      cases a with
      | none =>
        refine hbuild ?_ u hu
        rintro ⟨-, file, data, hfile, hdata, hsame⟩
        have hchanged := hloaded.missing rfl file data (hkey ▸ ht.kept _ _ hfile (hdata ▸ rfl)) hdata
        rw [ht.files, hsame] at hchanged
        cases hchanged
      | some r =>
        refine hu.obtaining fun r' hr' => ?_
        obtain rfl : r = r' := Outcome.returned.inj hr'
        obtain ⟨⟨hbuilt, file, hfile, hdata⟩, hsame⟩ := hloaded.found r rfl
        rw [ht.files] at hsame
        have hstored := ht.stored _ _ (hkey ▸ hfile)
        exact .inl ⟨⟨hexported, file, r.data, hstored, hdata, hsame⟩, hbuilt, file, hstored, hdata⟩

/-! ## Exports -/

/-- An export sets its report and its keys last. -/
theorem Exported.store_key {out : Outcome PyError Report} {c : ReportCache} {key : c.Key} {value : c.Val}
    (h : Exported f w s t out) (hset : Stored c key value t u) (hc : c = .reportKeys ∨ c = .exportedKeys)
    (hkeys : ∀ g k, u.find? .reportKeys g = some k → t.find? .reportKeys g = some k ∨ k.1 = (s.files g).sha256) :
    Exported f w s u out := by
  have hne : ∀ c' : ReportCache, c' ≠ .reportKeys → c' ≠ .exportedKeys → c' ≠ c := by
    rintro c' h₁ h₂ rfl
    exact hc.elim h₁ h₂
  refine ⟨hset.files.trans h.files, h.clock.trans hset.clock.ge,
    hset.owned h.owned (hne _ nofun nofun) (hne _ nofun nofun) fun g k hk => ?_,
    fun sha256 file hfile => h.stored sha256 file ((hset.stored_eq sha256).symm.trans hfile),
    fun key => ?_, fun key hmiss => ?_, fun key r hr => ?_, h.result⟩
  · rw [h.files]
    exact hkeys g k hk
  · exact (hset.others _ key (hne .picBlocks nofun nofun)).trans (h.picBlocks key)
  · exact h.misses key ((hset.others _ key (hne .coldMisses nofun nofun)).symm.trans hmiss)
  · exact h.reports key r ((hset.others _ key (hne .reports nofun nofun)).symm.trans hr)

theorem key_fst {file : OpenFile} {key : ReportKey} (h : file.key = some key) : key.1 = file.sha256 := by
  unfold OpenFile.key OpenFile.sha256 at *
  cases hraw : file.raw with
  | none => rw [hraw] at h; cases h
  | some raw =>
    rw [hraw, Option.bind_some] at h
    split_ifs at h with hlength
    cases h
    simp only [if_neg hlength]

theorem Obtaining.writes {out : Outcome PyError Report} {key : ReportKey} (h : Obtaining f w s t out)
    (hkey : (s.files f).key = some key) (hnone : s.find? .reports key = none) {sha256 : String} {file : StoredReport}
    (hfile : t.stored sha256 = some file) : s.stored sha256 = some file ∨ s.Writes f w sha256 file := by
  refine (h.stored sha256 file hfile).imp_right ?_
  rintro ⟨rfl, data, hdata, hdocument, hsize⟩
  exact ⟨key, data, hkey, key_fst hkey, hnone, hdata, hdocument, hsize⟩

/-- The report that was obtained goes into memory under the key of the file. -/
theorem Obtaining.store {key : ReportKey} {r : Report} (h : Obtaining f w s t (.returned r))
    (hset : Stored .reports key r t u) (hkey : (s.files f).key = some key) (hnone : s.find? .reports key = none) :
    Exported f w s u (.returned r) := by
  refine ⟨hset.files.trans h.files, h.clock.trans hset.clock.ge, hset.owned_of_ne h.owned nofun nofun nofun,
    fun sha256 file hfile => h.writes hkey hnone ((hset.stored_eq sha256).symm.trans hfile), fun key => ?_,
    fun key hmiss => ?_, fun key' r' hr => ?_,
    fun r' hr => .obtained hkey hnone (h.result r' hr)⟩
  · exact (hset.others .picBlocks key nofun).trans (h.find .picBlocks key nofun nofun)
  · exact (h.find .coldMisses key nofun nofun).symm.trans ((hset.others .coldMisses key nofun).symm.trans hmiss)
  · by_cases heq : key' = key
    · subst heq
      rw [hset.found] at hr
      obtain rfl : r = r' := Option.some.inj hr
      exact .inr ⟨rfl, hkey, hnone, h.result r rfl⟩
    · exact .inl ((h.find .reports key' nofun nofun).symm.trans (hset.kept key' r' heq hr))

theorem Obtaining.raised {key : ReportKey} {e : PyError} (h : Obtaining f w s t (.raised e)) (hquiet : Quiet t u)
    (hkey : (s.files f).key = some key) (hnone : s.find? .reports key = none) : Exported f w s u (.raised e) := by
  have hfind : ∀ c key, c ≠ .rawSha256 → c ≠ .coldSha256 → u.find? c key = s.find? c key := fun c key hraw hcold =>
    (hquiet.find c key).trans (h.find c key hraw hcold)
  have hu := hquiet.prepared h.owned
  refine ⟨hquiet.files.trans h.files, h.clock.trans hquiet.clock.ge, hu.owned,
    fun sha256 file hfile => h.writes hkey hnone (hu.stored _ _ hfile), fun key => hfind .picBlocks key nofun nofun,
    fun key hmiss => (hfind .coldMisses key nofun nofun).symm.trans hmiss,
    fun key _ hr => .inl ((hfind .reports key nofun nofun).symm.trans hr), nofun⟩

theorem ensures_exportKeyed (hs : s.Owned) {key : ReportKey} (hkey : (s.files f).key = some key) (stops : Bool) :
    (exportKeyed f key stops).Ensures (ExportSem w) (fun out t => Exported f w s t out) s := by
  have hcached : (cached .reports key stops (loadOrBuild f key)).Ensures (ExportSem w)
      (fun out t => Exported f w s t out) s := by
    refine ensures_cached (fun r t hfound hquiet => ?_) (fun _ t hquiet => ?_) fun hnone t hquiet => ?_
    · refine (hquiet.prepared hs).exported fun r' hr => ?_
      obtain rfl : r = r' := Outcome.returned.inj hr
      exact .held hkey hfound
    · exact (hquiet.prepared hs).exported nofun
    · have ht := hquiet.prepared hs
      refine (ensures_loadOrBuild ht.owned (ht.files ▸ key_fst hkey)).mono fun out u hu => ?_
      have hobtaining := ht.trans_obtaining hu
      cases out with
      | returned r => exact fun v hset => hobtaining.store hset hkey hnone
      | raised e => exact fun v hrelease => hobtaining.raised hrelease hkey hnone
      | pending => trivial
  refine Ensures.bind (hcached.mono fun out t ht => ?_)
  cases out with
  | pending => trivial
  | raised e => exact ht
  | returned r =>
    intro _ u hset _ v hset'
    refine (ht.store_key hset.stored (.inl rfl) fun g k hk => ?_).store_key hset'.stored (.inr rfl) fun g k hk => ?_
    · by_cases hg : g = f
      · subst hg
        rw [hset.stored.found] at hk
        obtain rfl : key = k := Option.some.inj hk
        exact .inr (key_fst hkey)
      · exact .inl (hset.stored.kept g k hg hk)
    · exact .inl ((hset'.stored.others .reportKeys g nofun).symm.trans hk)

theorem ensures_checkStop (stops : Bool) (s : ExportState) : (checkStop stops).Ensures (ExportSem w)
    (fun out t => Quiet s t ∧ (out = .returned () ∨ ∃ e, out = .raised e)) s := by
  unfold checkStop
  split_ifs
  · intro (stop : Bool) t hstop
    have hquiet : Quiet s t := hstop.quiet trivial
    show Ensures _ _ (Prog.raiseIf (stop = true) (PyError.mcrit .job "SMDA export cancelled")) t
    by_cases hstopped : stop = true
    · rw [Prog.raiseIf_pos hstopped]
      exact ⟨hquiet, .inr ⟨_, rfl⟩⟩
    · rw [Prog.raiseIf_neg hstopped]
      exact ⟨hquiet, .inl rfl⟩
  · exact ⟨Quiet.refl s, .inl rfl⟩

namespace ExportState

/-- The state once the analysis of `f` has settled. -/
def settle (s : ExportState) (f : FileId) (w : CallWorld) : ExportState := s.analyse f w.settled

end ExportState

theorem Quiet.analyse (h : Quiet s t) (f : FileId) (a : Analysis) : Quiet (s.analyse f a) (t.analyse f a) where
  files := by simp only [ExportState.analyse, h.files]
  folder := h.folder
  clock := h.clock
  find := h.find

/-- What happens before the analysis has settled changes nothing. -/
theorem Prepared.trans_exported {out : Outcome PyError Report} (h : Prepared s t) (h' : Exported f w t u out) :
    Exported f w s u out := by
  have hreports : ∀ key r, t.find? .reports key = some r → s.find? .reports key = some r := fun key r hr =>
    (h.find .reports key nofun nofun).symm.trans hr
  refine ⟨h'.files.trans h.files, h.clock.trans h'.clock, h'.owned, fun sha256 file hfile => ?_,
    fun key => (h'.picBlocks key).trans (h.find .picBlocks key nofun nofun),
    fun key hmiss => (h.find .coldMisses key nofun nofun).symm.trans (h'.misses key hmiss), fun key r hr => ?_,
    fun r hr => ?_⟩
  · rcases h'.stored sha256 file hfile with hold | ⟨key, data, hkey, hsha, hnone, hdata, hfile⟩
    · exact .inl (h.stored sha256 file hold)
    · rw [ExportState.BuildsTo, h.files] at hdata
      exact .inr ⟨key, data, h.files ▸ hkey, hsha, (h.find .reports key nofun nofun).symm.trans hnone, hdata, hfile⟩
  · rcases h'.reports key r hr with hold | ⟨hout, hkey, hnone, hobtained⟩
    · exact .inl (hreports key r hold)
    · have hnone' := (h.find .reports key nofun nofun).symm.trans hnone
      exact .inr ⟨hout, h.files ▸ hkey, hnone', hobtained.of_prepared h⟩
  · cases h'.result r hr with
    | @held key hkey hfound => exact .held (h.files ▸ hkey) (hreports key r hfound)
    | @obtained key hkey hnone hobtained =>
      have hnone' := (h.find .reports key nofun nofun).symm.trans hnone
      exact .obtained (h.files ▸ hkey) hnone' (hobtained.of_prepared h)
    | unkeyed hkey hbuilt => exact .unkeyed (h.files ▸ hkey) (hbuilt.of_prepared h)

/-- The end of `export_smda_report`, once the analysis has settled. -/
def exportSettled (f : FileId) (stops : Bool) : ExportProg Report := do
  match ← viewCacheKey f with
  | none => buildReport f
  | some key => exportKeyed f key stops

theorem ensures_exportSettled (hs : s.Owned) (f : FileId) (stops : Bool) :
    (exportSettled f stops).Ensures (ExportSem w) (fun out t => Exported f w s t out) s := by
  refine Ensures.bind ((ensures_viewCacheKey hs.toHashes f).mono ?_)
  rintro out t ⟨hrehashed, hkey⟩
  have ht := hrehashed.prepared hs
  cases out with
  | pending => trivial
  | raised e => exact ht.exported nofun
  | returned key =>
    cases key with
    | none =>
      refine (ensures_buildReport ht.owned f).mono fun out u hu => ?_
      exact (ht.trans hu.1).exported fun r hr => .unkeyed (hkey _ rfl).symm ((hu.2 r hr).of_prepared ht)
    | some key =>
      have hfile : (t.files f).key = some key := by rw [ht.files, ← hkey _ rfl]
      exact (ensures_exportKeyed ht.owned hfile stops).mono fun out u => ht.trans_exported

theorem exportSmdaReport_eq (f : FileId) (stops : Bool) : exportSmdaReport f stops = (checkStop stops >>= fun _ =>
    call (.updateAnalysis f) >>= fun _ => checkStop stops >>= fun _ => exportSettled f stops) := rfl

/-- What an export does: nothing when it is stopped before the analysis has settled. -/
theorem ensures_exportSmdaReport (hs : s.Owned) (f : FileId) (stops : Bool) :
    (exportSmdaReport f stops).Ensures (ExportSem w) (fun out t =>
      Quiet s t ∧ (∃ e, out = .raised e) ∨ Exported f w (s.settle f w) t out) s := by
  rw [exportSmdaReport_eq]
  refine Ensures.bind ((ensures_checkStop stops s).mono ?_)
  rintro out t ⟨hquiet, rfl | ⟨e, rfl⟩⟩
  · intro _ u hupdate
    cases hupdate
    have hu : Prepared (s.settle f w) (t.analyse f w.settled) :=
      (hquiet.analyse f w.settled).prepared (hs.analyse f w.settled)
    show Ensures _ _ (checkStop stops >>= fun _ => exportSettled f stops) (t.analyse f w.settled)
    refine Ensures.bind ((ensures_checkStop stops _).mono ?_)
    rintro out v ⟨hquiet', rfl | ⟨e, rfl⟩⟩
    · have hv := hu.trans (hquiet'.prepared hu.owned)
      exact (ensures_exportSettled hv.owned f stops).mono fun out x hx => .inr (hv.trans_exported hx)
    · exact .inr ((hu.trans (hquiet'.prepared hu.owned)).exported nofun)
  · exact .inl ⟨hquiet, e, rfl⟩

end Builds

/-- The call that meets only what the handler answers. -/
theorem ExportStep.run (h : Hashing) (c : ExportCall) (w : CallWorld) (s : ExportState) {out : Outcome PyError c.Result}
    (hout : ((c.program h).run (exportHandler w) s).1 = out) (hends : out ≠ .pending) :
    ExportStep h s (.call c w out) ((c.program h).run (exportHandler w) s).2 :=
  .call (runsTo_run (fun s o => .handled s o) hout hends)

end McritSimilarity
