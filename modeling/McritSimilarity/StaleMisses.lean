import McritSimilarity.ReportBuilds

/-!
# Remembered misses

`_COLD_MISSES` remembers that the report of a file could not be loaded while it was rendered, and nothing removes
such a miss.  `KeepsMisses` is the condition under which one call or one change of analysis leaves every remembered
miss one, and `missesSound` the runs that meet it.
-/

set_option autoImplicit false

namespace McritSimilarity

open Prog

namespace ExportState

/-- Where `cached_report` looks for a report and answers none, loading it answers none as well. -/
def MissesSound (s : ExportState) : Prop :=
  ∀ w f t, RunsTo (ExportSem w) (cachedReport f) s (.returned none) t → s.Unsearched f ∨
    ∀ w' count out u, RunsTo (ExportSem w') (loadSmall f ((s.files f).sha256, count)) t out u → out = .returned none

/-- A remembered miss of `f` would be one again. -/
def MissesRemain (s : ExportState) (f : FileId) : Prop :=
  ∀ key, s.find? .coldMisses (f, key) = some () → s.WouldMiss f key.1

/-- No step makes a report loadable of which a miss is remembered: no change of the analysis of the file, and no file
that an export writes. -/
def KeepsMisses (s : ExportState) : ExportLabel → Prop
  | .analyse f a => (s.analyse f a).MissesRemain f
  | .call (.exportReport f _) w _ => (s.settle f w).MissesRemain f ∧
      ∀ g key file, s.find? .coldMisses (g, key) = some () → (s.settle f w).Writes f w key.1 file →
        ¬ file.Loads ((s.settle f w).files g).analysis.keptCount
  | _ => True

/-- Every remembered miss would be one again. -/
structure Misses (s : ExportState) : Prop extends s.Owned where
  remain : ∀ f, s.MissesRemain f

theorem WouldMiss.analyse {s : ExportState} {f g : FileId} {sha256 : String} (h : s.WouldMiss g sha256) (hg : g ≠ f)
    (a : Analysis) : (s.analyse f a).WouldMiss g sha256 := by
  intro file hfile
  simp only [ExportState.analyse, Function.update_of_ne hg]
  exact h file hfile

theorem Misses.analyse {s : ExportState} {f : FileId} {a : Analysis} (hs : s.Misses)
    (hf : (s.analyse f a).MissesRemain f) : (s.analyse f a).Misses where
  toOwned := hs.toOwned.analyse f a
  remain g := by
    by_cases hg : g = f
    · subst hg
      exact hf
    · exact fun key hmiss => (hs.remain g key hmiss).analyse hg a

theorem Misses.evict {s : ExportState} (hs : s.Misses) (c : ReportCache) (key : c.Key) :
    (s.withCache c ((s.caches c).evict key)).Misses where
  toOwned := hs.toOwned.evict c key
  remain f k hmiss := hs.remain f k (find?_evict hmiss)

theorem misses_start (files : FileId → OpenFile) (folder : Option ReportFolder) : (start files folder).Misses where
  toOwned := owned_start files folder
  remain f key hmiss := by
    rw [find?_start] at hmiss
    cases hmiss

end ExportState

section Steps

variable {w : CallWorld} {h : Hashing} {f : FileId} {s t : ExportState}

theorem Looked.misses_remain (h : Looked f s t) (hs : s.Misses) : t.Misses where
  toOwned := h.owned
  remain g key hmiss := by
    rcases h.misses g key hmiss with hold | hnew
    · exact (hs.remain g key hold).mono h.files (h.stored key.1)
    · exact hnew

theorem Exported.misses_remain {out : Outcome PyError Report} (h : Exported f w s t out) (hs : s.Misses)
    (hwrites : ∀ g key file, s.find? .coldMisses (g, key) = some () → s.Writes f w key.1 file →
      ¬ file.Loads (s.files g).analysis.keptCount) : t.Misses where
  toOwned := h.owned
  remain g key hmiss := by
    intro file hfile
    have hold := h.misses _ hmiss
    rw [h.files]
    rcases h.stored key.1 file hfile with hstored | hnew
    · exact hs.remain g key hold file hstored
    · exact hwrites g key file hold hnew

theorem preserves_misses_cachedReport (f : FileId) : Preserves (ExportSem w) ExportState.Misses (cachedReport f) :=
  fun _ hs => (ensures_cachedReport hs.toOwned f).mono fun _ _ ht => ht.looked.misses_remain hs

theorem preserves_misses_renderBlocks (source target : RenderedFunction) :
    Preserves (ExportSem w) ExportState.Misses (renderBlocks h source target) := by
  refine preserves_renderBlocks (fun s t ht hs => ?_) (fun s t key blocks ht hs => ?_)
    (fun f => preserves_misses_cachedReport f) source target
  · exact (ht.looked hs.toOwned 0).misses_remain hs
  · refine ⟨ht.owned_of_ne hs.toOwned nofun nofun nofun, fun f k hmiss => ?_⟩
    refine (hs.remain f k ((ht.others .coldMisses _ nofun).symm.trans hmiss)).mono ht.files fun file hfile => ?_
    exact (ht.stored_eq k.1).symm.trans hfile

theorem ExportStep.misses {l : ExportLabel} (hstep : ExportStep h s l t) (hs : s.Misses) (hl : s.KeepsMisses l) :
    t.Misses := by
  cases hstep with
  | analyse f a => exact hs.analyse hl
  | evict c key => exact hs.evict c key
  | @call _ c w out hrun =>
    cases c with
    | exportReport f stops =>
      rcases (ensures_exportSmdaReport hs.toOwned f stops).runsTo hrun with ⟨hquiet, -⟩ | hexported
      · exact (hquiet.looked hs.toOwned f).misses_remain hs
      · exact hexported.misses_remain (hs.analyse hl.1) hl.2
    | preload f => exact ((ensures_preloadReport hs.toOwned f).runsTo hrun).misses_remain hs
    | cachedReport f => exact ((ensures_cachedReport hs.toOwned f).runsTo hrun).looked.misses_remain hs
    | render source target => exact (preserves_misses_renderBlocks source target s hs).runsTo hrun

end Steps

/-- A remembered miss that would be one again answers as loading does. -/
theorem ExportState.Misses.sound {s : ExportState} (hs : s.Misses) : s.MissesSound := by
  intro w f t hrun
  have ht := (ensures_cachedReport hs.toOwned f).runsTo hrun
  refine (ht.missing rfl).imp_right fun hmissing => ?_
  have hmiss : t.WouldMiss f (s.files f).sha256 := by
    rcases hmissing with ⟨key, hkey, hmiss⟩ | hmiss
    · rw [← hkey]
      exact (hs.remain f key hmiss).mono ht.looked.files (ht.looked.stored key.1)
    · exact hmiss
  intro w' count out u hload
  obtain ⟨a, rfl, hloaded⟩ := (ensures_loadSmall ht.looked.owned f _).runsTo hload
  cases a with
  | none => rfl
  | some r => exact absurd hmiss (hloaded.found r rfl).2

/-- In a run that makes no report loadable of which a miss is remembered, lookups answer as loading does. -/
theorem missesSound {h : Hashing} {files : FileId → OpenFile} {folder : Option ReportFolder} {tr : List ExportLabel}
    {t : ExportState} (hrun : Steps (restrict (ExportStep h) ExportState.KeepsMisses) (.start files folder) tr t) :
    t.MissesSound := by
  have ht : t.Misses := hrun.invariant (P := ExportState.Misses) (fun _ _ _ hs hstep => hstep.2.misses hs hstep.1)
    (ExportState.misses_start files folder)
  exact ht.sound

/-! ## A report that is not found again -/

/-- A view of one function. -/
def smallAnalysis : Analysis := ⟨1, 1, .ok { emptyReport with numFunctions := 1 }⟩

def smallWorld : CallWorld := ⟨smallAnalysis, fun _ => some 10⟩

/-- A process that has just opened a file for the first time. -/
def openedProcess : ExportState :=
  .start (fun _ => ⟨some ⟨100, "aa"⟩, "PE", some "x86", "", smallAnalysis⟩) (some .empty)

/-- The file is rendered before it is exported. -/
def missedProcess : ExportState := ((cachedReport 0).run (exportHandler smallWorld) openedProcess).2

theorem lookup_openedProcess (h : Hashing) :
    ExportStep h openedProcess (.call (.cachedReport 0) smallWorld (.returned none)) missedProcess :=
  .run h _ _ _ (by decide +kernel : ((cachedReport 0).run (exportHandler smallWorld) openedProcess).1 = .returned none)
    nofun

theorem stored_missedProcess (sha256 : String) : missedProcess.stored sha256 = none := rfl

theorem missesSound_missedProcess : (missedProcess.analyse 0 smallAnalysis).MissesSound := by
  let h : Hashing := ⟨fun _ => none, fun _ => 0⟩
  have hlookup : restrict (ExportStep h) ExportState.KeepsMisses openedProcess
      (.call (.cachedReport 0) smallWorld (.returned none)) missedProcess := ⟨trivial, lookup_openedProcess h⟩
  refine missesSound (h := h) (.cons hlookup (.single ⟨?_, .analyse _ 0 smallAnalysis⟩))
  intro key _ file hfile
  have hnone : missedProcess.stored key.1 = some file := hfile
  rw [stored_missedProcess] at hnone
  cases hnone

/-- Its export stores a small report. -/
def exportedProcess : ExportState := ((exportSmdaReport 0 false).run (exportHandler smallWorld) missedProcess).2

theorem export_missedProcess (h : Hashing) : ExportStep h missedProcess
    (.call (.exportReport 0 false) smallWorld (.returned ⟨{ emptyReport with numFunctions := 1 }, true, 1⟩))
    exportedProcess :=
  .run h _ _ _ (by decide +kernel : ((exportSmdaReport 0 false).run (exportHandler smallWorld) missedProcess).1 =
    .returned ⟨{ emptyReport with numFunctions := 1 }, true, 1⟩) nofun

/-- The report then leaves the memory. -/
def forgetfulProcess : ExportState :=
  exportedProcess.withCache .reports ((exportedProcess.caches .reports).evict ("aa", 1))

/-- A step after which every stored report is still there. -/
def KeepingFiles (h : Hashing) (s : ExportState) (l : ExportLabel) (t : ExportState) : Prop :=
  ExportStep h s l t ∧ ∀ sha256, (s.stored sha256).isSome → (t.stored sha256).isSome

theorem steps_forgetfulProcess (h : Hashing) : ∃ tr, Steps (KeepingFiles h) openedProcess tr forgetfulProcess := by
  have hmissed : KeepingFiles h openedProcess _ missedProcess := ⟨lookup_openedProcess h, fun _ hfile => by cases hfile⟩
  have hnone : ∀ sha256, (missedProcess.stored sha256).isSome → (exportedProcess.stored sha256).isSome := by
    intro sha256 hfile
    rw [stored_missedProcess] at hfile
    cases hfile
  have hexported : KeepingFiles h missedProcess _ exportedProcess := ⟨export_missedProcess h, hnone⟩
  have hforgets : KeepingFiles h exportedProcess (.evict .reports ("aa", 1)) forgetfulProcess :=
    ⟨.evict _ .reports ("aa", 1), fun _ => id⟩
  exact ⟨_, .cons hmissed (.cons hexported (.single hforgets))⟩

/-- A lookup answers none, although the export has stored a small report. -/
theorem not_missesSound_forgetfulProcess : ¬ ∀ (h : Hashing) (files : FileId → OpenFile) (folder : Option ReportFolder)
    (tr : List ExportLabel) (t : ExportState), Steps (KeepingFiles h) (.start files folder) tr t → t.MissesSound := by
  intro hsound
  obtain ⟨tr, hrun⟩ := steps_forgetfulProcess ⟨fun _ => none, fun _ => 0⟩
  have hlookup : ((cachedReport 0).run (exportHandler smallWorld) forgetfulProcess).1 = .returned none := by
    decide +kernel
  have hload : ((loadSmall 0 ("aa", 1)).run (exportHandler smallWorld)
      ((cachedReport 0).run (exportHandler smallWorld) forgetfulProcess).2).1 =
        .returned (some ⟨{ emptyReport with numFunctions := 1 }, false, 2⟩) := by
    decide +kernel
  rcases hsound _ _ _ _ _ hrun smallWorld 0 _ (runsTo_run (fun s o => .handled s o) hlookup nofun) with hkeys | hloads
  · exact absurd hkeys.1 (by decide +kernel)
  · have hnone := hloads smallWorld 1 _ _ (runsTo_run (fun s o => .handled s o) hload nofun)
    cases hnone

end McritSimilarity
