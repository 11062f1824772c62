import McritSimilarity.StaleMisses

/-!
# Remembered block hashes

`_PICBLOCKS` remembers the block hashes of a function under the SHA-256 of its report and its offset, also when the
file is exported again.  `BlocksAgree` says that what is remembered belongs to every report of a set that those in
memory are from; `Admits` is the condition under which a report may enter memory, and `rendersReports` the runs in
which every report meets it.
-/

set_option autoImplicit false

namespace McritSimilarity

open Prog

variable {h : Hashing}

/-! ## Reports that hash alike -/

/-- The blocks of the function at an address, as a report has it. -/
def reportBlocks (h : Hashing) (report : Option Report) (address : ℤ) : List BlockHash :=
  (report.bind fun r => (smdaFunction r.data address).map (functionHashes h r.data)).getD []

namespace SmdaReport

/-- What is remembered under a SHA-256 and an offset is what the report has there. -/
def HasBlocks (h : Hashing) (d : SmdaReport) (key : String × ℤ) (blocks : List BlockHash) : Prop :=
  d.sha256 = key.1 → ∀ f, d.getFunction key.2 = some f → functionHashes h d f = blocks

/-- Two reports do not differ in a function under one key. -/
def HashesAs (h : Hashing) (d d' : SmdaReport) : Prop :=
  ∀ offset f, d.getFunction offset = some f → d'.HasBlocks h (d.sha256, offset) (functionHashes h d f)

theorem HashesAs.refl (d : SmdaReport) : d.HashesAs h d := by
  intro offset f hf _ f' hf'
  obtain rfl : f = f' := Option.some.inj (hf.symm.trans hf')
  rfl

theorem HashesAs.symm {d d' : SmdaReport} (hd : d.HashesAs h d') : d'.HashesAs h d :=
  fun offset _ hf hsha _ hf' => (hd offset _ hf' hsha.symm _ hf).symm

theorem getFunction_offset {d : SmdaReport} {address : ℤ} {f : SmdaFunction} (hf : smdaFunction d address = some f) :
    d.getFunction f.offset = some f := by
  have hfound : ∀ offset, d.getFunction offset = some f → d.getFunction f.offset = some f := by
    intro offset hoffset
    have heq : f.offset = offset := by simpa using List.find?_some hoffset
    rwa [heq]
  rcases Option.or_eq_some_iff.1 hf with hf | ⟨-, hf⟩
  · exact hfound _ hf
  · exact hfound _ hf

end SmdaReport

namespace ExportState

/-- A report that is in memory. -/
def InMemory (s : ExportState) (d : SmdaReport) : Prop := ∃ key r, s.find? .reports key = some r ∧ r.data = d

/-- The report that is stored for a file. -/
def StoredFor (s : ExportState) (f : FileId) (d : SmdaReport) : Prop :=
  ∃ file, s.stored (s.files f).sha256 = some file ∧ file.document = some d

/-- A report that an export of `f` may bring into memory, where none is held under its key. -/
def Brings (s : ExportState) (f : FileId) (d : SmdaReport) : Prop :=
  (∃ key, (s.files f).key = some key ∧ s.find? .reports key = none) ∧
    (s.BuildsTo f d ∨ s.find? .exportedKeys f = none ∧ s.StoredFor f d)

/-- Reports that may enter memory together: they hash as those in memory, as what is remembered, and alike. -/
structure Admits (h : Hashing) (s : ExportState) (E : SmdaReport → Prop) : Prop where
  reports : ∀ d d', E d → s.InMemory d' → d.HashesAs h d'
  blocks : ∀ d, E d → ∀ key blocks, s.find? .picBlocks key = some blocks → d.HasBlocks h key blocks
  same : ∀ d d', E d → E d' → d.HashesAs h d'

/-- Whatever a step may bring into memory may enter it. -/
def AdmitsReports (h : Hashing) (s : ExportState) : ExportLabel → Prop
  | .call (.exportReport f _) w _ => ∀ d, (s.settle f w).Brings f d → (s.settle f w).Admits h (· = d)
  | .call (.preload f) _ _ => s.Admits h (s.StoredFor f)
  | .call (.cachedReport f) _ _ => s.Admits h (s.StoredFor f)
  | .call (.render source target) _ _ =>
    s.Admits h fun d => ∃ f, (source.view = some f ∨ target.view = some f) ∧ s.StoredFor f d
  | _ => True

end ExportState

/-! ## What is remembered belongs to the reports -/

/-- Reports in memory are from a set whose reports hash alike, and as what is remembered. -/
structure BlocksAgree (h : Hashing) (D : SmdaReport → Prop) (s : ExportState) : Prop where
  owned : s.Owned
  reports : ∀ d, s.InMemory d → D d
  same : ∀ d d', D d → D d' → d.HashesAs h d'
  blocks : ∀ d, D d → ∀ key blocks, s.find? .picBlocks key = some blocks → d.HasBlocks h key blocks

section Agree

variable {w : CallWorld} {D : SmdaReport → Prop} {f : FileId} {s t : ExportState}

theorem BlocksAgree.enter {E : SmdaReport → Prop} (hs : BlocksAgree h s.InMemory s) (hE : s.Admits h E) :
    BlocksAgree h (fun d => s.InMemory d ∨ E d) s where
  owned := hs.owned
  reports _ hd := .inl hd
  same d d' hd hd' := by
    rcases hd with hd | hd
    · exact hd'.elim (hs.same d d' hd) fun hd' => (hE.reports d' d hd' hd).symm
    · exact hd'.elim (hE.reports d d' hd) (hE.same d d' hd)
  blocks d hd := hd.elim (hs.blocks d) (hE.blocks d)

theorem BlocksAgree.inMemory (hs : BlocksAgree h D s) : BlocksAgree h s.InMemory s where
  owned := hs.owned
  reports _ hd := hd
  same d d' hd hd' := hs.same d d' (hs.reports d hd) (hs.reports d' hd')
  blocks d hd := hs.blocks d (hs.reports d hd)

theorem BlocksAgree.of_quiet (hs : BlocksAgree h D s) (ht : Quiet s t) : BlocksAgree h D t where
  owned := (ht.prepared hs.owned).owned
  reports d hd := by
    obtain ⟨key, r, hr, rfl⟩ := hd
    exact hs.reports _ ⟨key, r, (ht.find .reports key).symm.trans hr, rfl⟩
  same := hs.same
  blocks d hd key blocks hfound := hs.blocks d hd key blocks ((ht.find .picBlocks key).symm.trans hfound)

theorem Looked.storedFor {g : FileId} {d : SmdaReport} (ht : Looked f s t) (hd : t.StoredFor g d) :
    s.StoredFor g d := by
  obtain ⟨file, hfile, hdocument⟩ := hd
  rw [ht.files] at hfile
  exact ⟨file, ht.stored _ _ hfile, hdocument⟩

/-- A lookup brings nothing but the stored report into memory. -/
theorem BlocksAgree.looked (hs : BlocksAgree h D s) (ht : Looked f s t) (hD : ∀ d, s.StoredFor f d → D d) :
    BlocksAgree h D t where
  owned := ht.owned
  reports d hd := by
    obtain ⟨key, r, hr, rfl⟩ := hd
    rcases ht.reports key r hr with hold | ⟨hkey, -, file, hfile, hdocument⟩
    · exact hs.reports _ ⟨key, r, hold, rfl⟩
    · exact hD _ ⟨file, hkey ▸ hfile, hdocument⟩
  same := hs.same
  blocks d hd key blocks hfound := hs.blocks d hd key blocks ((ht.picBlocks key).symm.trans hfound)

theorem BlocksAgree.analyse (hs : BlocksAgree h s.InMemory s) (f : FileId) (a : Analysis) :
    BlocksAgree h (s.analyse f a).InMemory (s.analyse f a) where
  owned := hs.owned.analyse f a
  reports _ hd := hd
  same := hs.same
  blocks := hs.blocks

theorem BlocksAgree.evict (hs : BlocksAgree h s.InMemory s) (c : ReportCache) (key : c.Key) :
    BlocksAgree h s.InMemory (s.withCache c ((s.caches c).evict key)) where
  owned := hs.owned.evict c key
  reports d hd := by
    obtain ⟨k, r, hr, rfl⟩ := hd
    exact ⟨k, r, ExportState.find?_evict hr, rfl⟩
  same := hs.same
  blocks d hd k blocks hfound := hs.blocks d hd k blocks (ExportState.find?_evict hfound)

/-- An export brings nothing but the report it returns into memory. -/
theorem BlocksAgree.exported {out : Outcome PyError Report} (hs : BlocksAgree h s.InMemory s)
    (ht : Exported f w s t out) (hbrings : ∀ d, s.Brings f d → s.Admits h (· = d)) : BlocksAgree h t.InMemory t := by
  have hE : s.Admits h fun d => ∃ r, out = .returned r ∧ s.Brings f r.data ∧ r.data = d := by
    refine ⟨?_, ?_, ?_⟩
    · rintro d d' ⟨r, -, hr, rfl⟩
      exact (hbrings _ hr).reports _ d' rfl
    · rintro d ⟨r, -, hr, rfl⟩
      exact (hbrings _ hr).blocks _ rfl
    · rintro d d' ⟨r, hout, -, rfl⟩ ⟨r', hout', -, rfl⟩
      obtain rfl : r = r' := Outcome.returned.inj (hout.symm.trans hout')
      exact SmdaReport.HashesAs.refl _
  have hadmitted := hs.enter hE
  refine BlocksAgree.inMemory ⟨ht.owned, fun d hd => ?_, hadmitted.same, fun d hd key blocks hfound => ?_⟩
  · obtain ⟨key, r, hr, rfl⟩ := hd
    rcases ht.reports key r hr with hold | ⟨hout, hkey, hnone, hobtained⟩
    · exact .inl ⟨key, r, hold, rfl⟩
    · refine .inr ⟨r, hout, ⟨⟨key, hkey, hnone⟩, ?_⟩, rfl⟩
      rcases hobtained with ⟨⟨hfirst, -⟩, -, hstored⟩ | ⟨-, hbuilt⟩
      · exact .inr ⟨hfirst, hstored⟩
      · exact .inl hbuilt.2.2
  · exact hadmitted.blocks d hd key blocks ((ht.picBlocks key).symm.trans hfound)

/-! ## Renders -/

theorem ensures_reportForView (hs : BlocksAgree h D s) {view : Option FileId}
    (hD : ∀ f d, view = some f → s.StoredFor f d → D d) : (reportForView view).Ensures (ExportSem w)
      (fun out t => BlocksAgree h D t ∧ (∀ g d, t.StoredFor g d → s.StoredFor g d) ∧
        ∀ r, out = .returned (some r) → D r.data) s := by
  cases view with
  | none => exact ⟨hs, fun _ _ => id, fun r hr => by cases hr⟩
  | some f =>
    refine (ensures_cachedReport hs.owned f).mono fun out t ht => ?_
    have hagree := hs.looked ht.looked fun d => hD f d rfl
    refine ⟨hagree, fun g d => ht.looked.storedFor, fun r hr => ?_⟩
    obtain ⟨key, -, hfound⟩ := ht.found r hr
    exact hagree.reports _ ⟨key, r, hfound, rfl⟩

theorem reportBlocks_some {r : Report} {address : ℤ} {g : SmdaFunction} (hg : smdaFunction r.data address = some g) :
    reportBlocks h (some r) address = functionHashes h r.data g := by
  simp [reportBlocks, hg]

/-- The hashes of a report of the set are remembered. -/
theorem BlocksAgree.store (hs : BlocksAgree h D s) {d : SmdaReport} {offset : ℤ} {g : SmdaFunction} (hd : D d)
    (hg : d.getFunction offset = some g)
    (hset : Stored .picBlocks (d.sha256, offset) (functionHashes h d g) s t) : BlocksAgree h D t where
  owned := hset.owned_of_ne hs.owned nofun nofun nofun
  reports d' hd' := by
    obtain ⟨key, r, hr, rfl⟩ := hd'
    exact hs.reports _ ⟨key, r, (hset.others .reports key nofun).symm.trans hr, rfl⟩
  same := hs.same
  blocks d' hd' key blocks hfound := by
    by_cases hkey : key = (d.sha256, offset)
    · subst hkey
      obtain rfl := Option.some.inj (hset.found.symm.trans hfound)
      exact hs.same d d' hd hd' offset g hg
    · exact hs.blocks d' hd' key blocks (hset.kept key blocks hkey hfound)

/-- What is remembered, or else hashed, is what the report has. -/
theorem ensures_blockHashes (hs : BlocksAgree h D s) {report : Option Report}
    (hreport : ∀ r, report = some r → D r.data) (address : ℤ) : (blockHashes h report address).Ensures (ExportSem w)
      (fun out t => BlocksAgree h D t ∧ ∀ blocks, out = .returned blocks →
        blocks = reportBlocks h report address) s := by
  cases report with
  | none => exact ⟨hs, fun blocks hout => (Outcome.returned.inj hout).symm⟩
  | some r =>
    have hr := hreport r rfl
    simp only [blockHashes]
    cases hg : smdaFunction r.data address with
    | none =>
      refine ⟨hs, fun blocks hout => ?_⟩
      obtain rfl := Outcome.returned.inj hout
      simp [reportBlocks, hg]
    | some g =>
      have hoffset := SmdaReport.getFunction_offset hg
      refine ensures_cached (fun value t hfound hquiet => ?_) (fun hstop => by cases hstop)
        fun _ t hquiet => fun u hset => ?_
      · refine ⟨hs.of_quiet hquiet, fun blocks hout => ?_⟩
        obtain rfl := Outcome.returned.inj hout
        rw [reportBlocks_some hg]
        exact (hs.blocks _ hr _ _ hfound rfl g hoffset).symm
      · refine ⟨(hs.of_quiet hquiet).store hr hoffset hset, fun blocks hout => ?_⟩
        obtain rfl := Outcome.returned.inj hout
        rw [reportBlocks_some hg]

end Agree

/-- The blocks of a render are those of the reports it got. -/
def RenderedBlocks.OfReports (h : Hashing) (source target : RenderedFunction) (blocks : RenderedBlocks) : Prop :=
  blocks.sourceBlocks = reportBlocks h blocks.sourceReport source.start ∧
    blocks.targetBlocks = reportBlocks h blocks.targetReport target.start

section Steps

variable {w : CallWorld} {D : SmdaReport → Prop} {s t : ExportState}

/-- What a render ends with. -/
structure Rendered (h : Hashing) (D : SmdaReport → Prop) (source target : RenderedFunction)
    (out : Outcome PyError RenderedBlocks) (t : ExportState) : Prop where
  agree : BlocksAgree h D t
  blocks : ∀ blocks, out = .returned blocks → blocks.OfReports h source target

theorem BlocksAgree.raised {source target : RenderedFunction} {e : PyError} (ht : BlocksAgree h D t) :
    Rendered h D source target (.raised e) t := ⟨ht, fun _ hout => by cases hout⟩

theorem ensures_renderBlocks (hs : BlocksAgree h D s) {source target : RenderedFunction}
    (hD : ∀ f d, source.view = some f ∨ target.view = some f → s.StoredFor f d → D d) :
    (renderBlocks h source target).Ensures (ExportSem w) (fun out t => Rendered h D source target out t) s := by
  refine Ensures.bind ((ensures_reportForView hs fun f d hf => hD f d (.inl hf)).mono ?_)
  rintro out t ⟨ht, hstored, hsource⟩
  cases out with
  | pending => trivial
  | raised e => exact ht.raised
  | returned sourceReport =>
    refine Ensures.bind ((ensures_reportForView ht fun f d hf hd => hD f d (.inr hf) (hstored f d hd)).mono ?_)
    rintro out u ⟨hu, -, htarget⟩
    cases out with
    | pending => trivial
    | raised e => exact hu.raised
    | returned targetReport =>
      refine Ensures.bind ((ensures_blockHashes hu (fun r hr => hsource r (by rw [hr])) source.start).mono ?_)
      rintro out v ⟨hv, hsourceBlocks⟩
      cases out with
      | pending => trivial
      | raised e => exact hv.raised
      | returned sourceBlocks =>
        refine Ensures.bind ((ensures_blockHashes hv (fun r hr => htarget r (by rw [hr])) target.start).mono ?_)
        rintro out x ⟨hx, htargetBlocks⟩
        cases out with
        | pending => trivial
        | raised e => exact hx.raised
        | returned targetBlocks =>
          refine ⟨hx, fun blocks hout => ?_⟩
          obtain rfl := Outcome.returned.inj hout
          exact ⟨hsourceBlocks _ rfl, htargetBlocks _ rfl⟩

theorem ExportStep.blocksAgree {l : ExportLabel} (hstep : ExportStep h s l t) (hs : BlocksAgree h s.InMemory s)
    (hl : s.AdmitsReports h l) : BlocksAgree h t.InMemory t := by
  have hlooked : ∀ f, s.Admits h (s.StoredFor f) → ∀ u, Looked f s u → BlocksAgree h u.InMemory u := fun f hf u hu =>
    ((hs.enter hf).looked hu fun d => .inr).inMemory
  cases hstep with
  | analyse f a => exact hs.analyse f a
  | evict c key => exact (hs.evict c key).inMemory
  | @call _ c w out hrun =>
    cases c with
    | exportReport f stops =>
      rcases (ensures_exportSmdaReport hs.owned f stops).runsTo hrun with ⟨hquiet, -⟩ | hexported
      · exact (hs.of_quiet hquiet).inMemory
      · exact (hs.analyse f w.settled).exported hexported hl
    | preload f => exact hlooked f hl t ((ensures_preloadReport hs.owned f).runsTo hrun)
    | cachedReport f => exact hlooked f hl t ((ensures_cachedReport hs.owned f).runsTo hrun).looked
    | render source target =>
      exact ((ensures_renderBlocks (hs.enter hl) fun f d hf hd => .inr ⟨f, hf, hd⟩).runsTo hrun).agree.inMemory

end Steps

theorem blocksAgree_start (files : FileId → OpenFile) (folder : Option ReportFolder) :
    BlocksAgree h (ExportState.start files folder).InMemory (.start files folder) where
  owned := ExportState.owned_start files folder
  reports _ hd := hd
  same d _ hd _ := by
    obtain ⟨key, r, hr, -⟩ := hd
    rw [ExportState.find?_start] at hr
    cases hr
  blocks d _ key blocks hfound := by
    rw [ExportState.find?_start] at hfound
    cases hfound

/-- In a run in which only reports enter memory that may, every render takes its blocks from its reports. -/
theorem rendersReports {files : FileId → OpenFile} {folder : Option ReportFolder} {tr : List ExportLabel}
    {t : ExportState} (hrun : Steps (restrict (ExportStep h) (ExportState.AdmitsReports h)) (.start files folder) tr t)
    {source target : RenderedFunction} {w : CallWorld} {blocks : RenderedBlocks}
    (hl : ExportLabel.call (.render source target) w (.returned blocks) ∈ tr) : blocks.OfReports h source target := by
  obtain ⟨_, _, s, u, -, hbefore, ⟨hadmits, hstep⟩, -⟩ := hrun.exists_of_mem hl
  have hs : BlocksAgree h s.InMemory s := hbefore.invariant (P := fun s => BlocksAgree h s.InMemory s)
    (fun _ _ _ hs hstep => hstep.2.blocksAgree hs hstep.1) (blocksAgree_start files folder)
  cases hstep with
  | call hcall =>
    exact ((ensures_renderBlocks (hs.enter hadmits) fun f d hf hd => .inr ⟨f, hf, hd⟩).runsTo hcall).blocks blocks rfl

/-! ## A file that is exported again -/

/-- Instructions are escaped as their bytes, and hashed by their number of characters. -/
def plainHashing : Hashing := ⟨fun _ => some fun i _ _ => .ok i.bytes, fun text => text.length⟩

/-- The report of a view of one function of one block. -/
def oneBlock (bytes : String) : SmdaReport :=
  ⟨"aa", "", "x86", 0, 0, [⟨0x1000, "", [⟨0x1000, 1, [⟨0x1000, bytes⟩]⟩]⟩], 1, 1⟩

def worldOf (bytes : String) (functionCount : ℕ) : CallWorld :=
  ⟨⟨functionCount, 1, .ok (oneBlock bytes)⟩, fun _ => some 10⟩

/-- The function of the file, compared with itself. -/
def renderedFunction : RenderedFunction := ⟨some 0, 0x1000⟩

/-- What a render gets from the report `report`, with the blocks of the report `hashed`. -/
def renderedBlocks (report hashed : Report) : RenderedBlocks :=
  ⟨some report, some report, reportBlocks plainHashing (some hashed) 0x1000,
    reportBlocks plainHashing (some hashed) 0x1000⟩

/-- The file is exported and rendered, and once more after its analysis has changed. -/
def firstExport : ExportState := ((exportSmdaReport 0 false).run (exportHandler (worldOf "90" 1)) openedProcess).2

def firstRender : ExportState :=
  ((renderBlocks plainHashing renderedFunction renderedFunction).run (exportHandler (worldOf "90" 1)) firstExport).2

def secondExport : ExportState := ((exportSmdaReport 0 false).run (exportHandler (worldOf "9090" 2)) firstRender).2

def secondRender : ExportState :=
  ((renderBlocks plainHashing renderedFunction renderedFunction).run (exportHandler (worldOf "9090" 2)) secondExport).2

/-- The label of an export that returns a report it has built. -/
def exportLabel (bytes : String) (made : ℕ) : ExportLabel :=
  .call (.exportReport 0 false) (worldOf bytes made) (.returned ⟨oneBlock bytes, true, made⟩)

def renderLabel (bytes : String) (made : ℕ) (hashed : Report) : ExportLabel :=
  .call (.render renderedFunction renderedFunction) (worldOf bytes made)
    (.returned (renderedBlocks ⟨oneBlock bytes, true, made⟩ hashed))

theorem export_openedProcess : ExportStep plainHashing openedProcess (exportLabel "90" 1) firstExport :=
  .run _ _ _ _ (by decide +kernel : ((exportSmdaReport 0 false).run (exportHandler (worldOf "90" 1)) openedProcess).1 =
    .returned ⟨oneBlock "90", true, 1⟩) nofun

theorem render_firstExport :
    ExportStep plainHashing firstExport (renderLabel "90" 1 ⟨oneBlock "90", true, 1⟩) firstRender :=
  .run _ _ _ _ (by decide +kernel : ((renderBlocks plainHashing renderedFunction renderedFunction).run
    (exportHandler (worldOf "90" 1)) firstExport).1 =
      .returned (renderedBlocks ⟨oneBlock "90", true, 1⟩ ⟨oneBlock "90", true, 1⟩)) nofun

theorem export_firstRender : ExportStep plainHashing firstRender (exportLabel "9090" 2) secondExport :=
  .run _ _ _ _ (by decide +kernel : ((exportSmdaReport 0 false).run (exportHandler (worldOf "9090" 2)) firstRender).1 =
    .returned ⟨oneBlock "9090", true, 2⟩) nofun

theorem admits_firstExport (E : SmdaReport → Prop) (hE : ∀ d, E d → d = oneBlock "90") :
    firstExport.Admits plainHashing E := by
  have hentries : (firstExport.caches .reports).items.entries = [(("aa", 1), ⟨oneBlock "90", true, 1⟩)] := by
    decide +kernel
  refine ⟨?_, ?_, ?_⟩
  · rintro d d' hd ⟨key, r, hr, rfl⟩
    have hmem := OrderedMap.find?_eq_some_iff.1 hr
    rw [hentries, List.mem_singleton, Prod.mk.injEq] at hmem
    rw [hE d hd, hmem.2]
    exact SmdaReport.HashesAs.refl _
  · intro d _ key blocks hfound
    have hnone : firstExport.find? .picBlocks key = none := rfl
    rw [hnone] at hfound
    cases hfound
  · intro d d' hd hd'
    rw [hE d hd, hE d' hd']
    exact SmdaReport.HashesAs.refl _

theorem admits_openedProcess (d : SmdaReport) :
    (openedProcess.settle 0 (worldOf "90" 1)).Admits plainHashing (· = d) := by
  have hnone : ∀ c key, (openedProcess.settle 0 (worldOf "90" 1)).find? c key = none := ExportState.find?_start _ _
  refine ⟨?_, ?_, ?_⟩
  · rintro _ d' - ⟨key, r, hr, -⟩
    rw [hnone] at hr
    cases hr
  · intro _ _ key blocks hfound
    rw [hnone] at hfound
    cases hfound
  · rintro _ _ rfl rfl
    exact SmdaReport.HashesAs.refl _

/-- The report that is stored by the first export is the one in memory. -/
theorem storedFor_firstExport {d : SmdaReport} (hd : firstExport.StoredFor 0 d) : d = oneBlock "90" := by
  obtain ⟨file, hfile, hdocument⟩ := hd
  have hstored : firstExport.stored (firstExport.files 0).sha256 = some ⟨some (oneBlock "90"), 10⟩ := by decide +kernel
  rw [hstored] at hfile
  cases hfile
  exact (Option.some.inj hdocument).symm

theorem rendersReports_firstRender : (renderedBlocks ⟨oneBlock "90", true, 1⟩ ⟨oneBlock "90", true, 1⟩).OfReports
    plainHashing renderedFunction renderedFunction := by
  have hrun : Steps (restrict (ExportStep plainHashing) (ExportState.AdmitsReports plainHashing)) openedProcess
      [exportLabel "90" 1, renderLabel "90" 1 ⟨oneBlock "90", true, 1⟩] firstRender := by
    refine .cons ⟨fun d _ => admits_openedProcess d, export_openedProcess⟩ (.single ⟨?_, render_firstExport⟩)
    refine admits_firstExport _ fun d ⟨f, hf, hd⟩ => ?_
    obtain rfl : 0 = f := hf.elim Option.some.inj Option.some.inj
    exact storedFor_firstExport hd
  exact rendersReports hrun (List.mem_cons_of_mem _ List.mem_cons_self)

/-- The blocks of the first report, for the second one. -/
theorem not_rendersReports_secondRender : ¬ ∀ (h : Hashing) (files : FileId → OpenFile) (folder : Option ReportFolder)
    (tr : List ExportLabel) (t : ExportState) (source target : RenderedFunction) (w : CallWorld)
    (blocks : RenderedBlocks),
    Steps (ExportStep h) (.start files folder) tr t → .call (.render source target) w (.returned blocks) ∈ tr →
      blocks.OfReports h source target := by
  intro hfresh
  have hrender : ExportStep plainHashing secondExport (renderLabel "9090" 2 ⟨oneBlock "90", true, 1⟩) secondRender :=
    .run _ _ _ _ (by decide +kernel : ((renderBlocks plainHashing renderedFunction renderedFunction).run
      (exportHandler (worldOf "9090" 2)) secondExport).1 =
        .returned (renderedBlocks ⟨oneBlock "9090", true, 2⟩ ⟨oneBlock "90", true, 1⟩)) nofun
  have hrun := Steps.cons export_openedProcess (.cons render_firstExport (.cons export_firstRender (.single hrender)))
  have hblocks := (hfresh _ _ _ _ _ _ _ _ _ hrun (List.mem_append_right [_, _, _] List.mem_cons_self)).1
  revert hblocks
  decide +kernel

end McritSimilarity
