import Mathlib.Logic.Function.Basic
import McritSimilarity.Lib.Ensures
import McritSimilarity.Lib.Machine
import McritSimilarity.Render

/-!
# A process with open files

The state that exports, preloads and renders share: the open files, the caches and the report folder.
`exportHandler` answers their operations, and `ExportStep` runs one call after the other, with analysis
changing and caches forgetting in between.  `clock` counts the reports that were built or loaded, so that each of them
has a time of its own.
-/

set_option autoImplicit false

namespace McritSimilarity

/-- What the analysis of a view has come to. -/
structure Analysis where
  functionCount : ℕ
  keptCount : ℤ
  /-- The report the view would be exported to. -/
  exported : Except PyError SmdaReport

structure OpenFile where
  raw : Option RawData
  viewType : String
  archName : Option String
  fileName : String
  analysis : Analysis

/-- The key a file is exported under. -/
def OpenFile.key (file : OpenFile) : Option ReportKey :=
  file.raw.bind fun raw =>
    if raw.length ≤ 0 then none else some (raw.sha256, file.analysis.functionCount)

/-- `SESSION_CACHE_ITEMS`. -/
def sessionCacheItems : ℕ := 1024

namespace ReportCache

/-- The caches when the process starts. -/
def new : (c : ReportCache) → LockedCache c.Key c.Val
  | reports => .new (some 16) (some 5000000) true
  | reportKeys => .new (some sessionCacheItems) none false
  | exportedKeys => .new (some sessionCacheItems) none false
  | coldSha256 => .new (some sessionCacheItems) none false
  | rawSha256 => .new (some sessionCacheItems) none false
  | coldMisses => .new (some sessionCacheItems) none false
  | picBlocks => .new (some 1024) none false

def weigh : (c : ReportCache) → c.Val → ℤ
  | reports, report => report.data.numInstructions
  | _, _ => 0

end ReportCache

structure ExportState where
  files : FileId → OpenFile
  caches : (c : ReportCache) → LockedCache c.Key c.Val
  /-- The keys that `get_or_set` is building. -/
  inflight : (c : ReportCache) → c.Key → Bool
  /-- The report folder; `none` when there is no user directory. -/
  folder : Option ReportFolder
  preloading : Bool
  clock : ℕ

namespace ExportState

def start (files : FileId → OpenFile) (folder : Option ReportFolder) : ExportState where
  files := files
  caches := ReportCache.new
  inflight := fun _ _ => false
  folder := folder
  preloading := false
  clock := 0

def withCache (s : ExportState) (c : ReportCache) (cache : LockedCache c.Key c.Val) : ExportState :=
  { s with caches := Function.update s.caches c cache }

def withInflight (s : ExportState) (c : ReportCache) (key : c.Key) (building : Bool) : ExportState :=
  { s with inflight := Function.update s.inflight c (Function.update (s.inflight c) key building) }

def analyse (s : ExportState) (f : FileId) (a : Analysis) : ExportState :=
  { s with files := Function.update s.files f { s.files f with analysis := a } }

/-- What a cache holds under a key. -/
def find? (s : ExportState) (c : ReportCache) (key : c.Key) : Option c.Val := (s.caches c).find? key

end ExportState

/-- What a call meets on its way. -/
structure CallWorld where
  /-- The analysis that `update_analysis_and_wait` settles on. -/
  settled : Analysis
  /-- The size of a report file, or `none` when it cannot be written. -/
  written : SmdaReport → Option ℕ

open ExportState in
/-- The answers to the operations of a call that is not asked to stop. -/
def exportHandler (w : CallWorld) : Prog.Handler ExportI ExportState
  | .get c key, s => (((s.caches c).get key).1, s.withCache c ((s.caches c).get key).2)
  | .set c key value, s => ((), s.withCache c ((s.caches c).store key value (c.weigh value)))
  | .claim c key _, s =>
    (claimOf (s.caches c) key,
      (s.withCache c ((s.caches c).get key).2).withInflight c key ((s.find? c key).isNone || s.inflight c key))
  | .release c key, s => ((), s.withInflight c key false)
  | .raw f, s => ((s.files f).raw, s)
  | .hashRaw f, s => (((s.files f).raw.map RawData.sha256).getD "", s)
  | .functionCount f, s => ((s.files f).analysis.functionCount, s)
  | .keptCount f, s => ((s.files f).analysis.keptCount, s)
  | .archName f, s => ((s.files f).archName, s)
  | .viewType f, s => ((s.files f).viewType, s)
  | .fileName f, s => ((s.files f).fileName, s)
  | .updateAnalysis f, s => ((), s.analyse f w.settled)
  | .exportView f, s =>
    ((s.files f).analysis.exported.map fun data => ⟨data, true, s.clock⟩,
      { s with clock := s.clock + 1 })
  | .hasFolder, s => (s.folder.isSome, s)
  | .storedSize sha256, s =>
    ((s.folder.bind fun folder => folder.find? sha256).map StoredReport.size, s)
  | .load sha256, s =>
    ((s.folder.bind fun folder => (ReportFolder.load folder sha256).1).map fun data =>
        ⟨data, false, s.clock⟩,
      { s with
        folder := s.folder.map fun folder => (ReportFolder.load folder sha256).2
        clock := s.clock + 1 })
  | .store sha256 report, s =>
    ((), { s with folder := s.folder.map fun folder =>
      ReportFolder.store folder sha256 report.data (w.written report.data) })
  | .stopRequested, s => (false, s)
  | .lockPreload, s => ((), { s with preloading := true })
  | .unlockPreload, s => ((), { s with preloading := false })

/-- The answers, with a session that may ask to stop at any time. -/
inductive ExportSem (w : CallWorld) : ExportState → (o : ExportOp) → o.Ans → ExportState → Prop where
  | handled (s : ExportState) (o : ExportOp) : ExportSem w s o (exportHandler w o s).1 (exportHandler w o s).2
  | stop (s : ExportState) (b : Bool) : ExportSem w s .stopRequested b s
  | stopped (s : ExportState) (c : ReportCache) (key : c.Key) : ExportSem w s (.claim c key true) .stopped s

/-! ## What an operation does -/

namespace ExportState

theorem find?_withCache (s : ExportState) (c : ReportCache) (cache : LockedCache c.Key c.Val) (key : c.Key) :
    (s.withCache c cache).find? c key = cache.find? key := by
  simp only [find?, withCache, Function.update_self]

theorem find?_withCache_of_ne (s : ExportState) {c c' : ReportCache} (hc : c' ≠ c)
    (cache : LockedCache c.Key c.Val) (key : c'.Key) : (s.withCache c cache).find? c' key = s.find? c' key := by
  simp only [find?, withCache, Function.update_of_ne hc]

/-- A lookup changes no cache as a map. -/
theorem find?_withCache_get (s : ExportState) (c : ReportCache) (key : c.Key) (c' : ReportCache) (key' : c'.Key) :
    (s.withCache c ((s.caches c).get key).2).find? c' key' = s.find? c' key' := by
  by_cases hc : c' = c
  · subst hc
    rw [find?_withCache, LockedCache.find?_get]
    rfl
  · exact s.find?_withCache_of_ne hc _ _

/-- A store changes no other key, except that it may forget it. -/
theorem find?_withCache_store {s : ExportState} {c : ReportCache} {key : c.Key} {value : c.Val} {weight : ℤ}
    {key' : c.Key} (hkey : key' ≠ key) {value' : c.Val}
    (h : (s.withCache c ((s.caches c).store key value weight)).find? c key' = some value') :
    s.find? c key' = some value' := by
  rw [find?_withCache] at h
  exact LockedCache.find?_store_of_ne hkey h

end ExportState

section Sem

variable {w : CallWorld} {s t : ExportState} {o : ExportOp} {a : o.Ans}

/-- The operations that only read the files or the folder. -/
def ExportOp.IsRead : ExportOp → Prop
  | raw _ => True
  | hashRaw _ => True
  | functionCount _ => True
  | keptCount _ => True
  | archName _ => True
  | viewType _ => True
  | fileName _ => True
  | hasFolder => True
  | storedSize _ => True
  | _ => False

theorem ExportSem.read (h : ExportSem w s o a t) (ho : o.IsRead) : a = (exportHandler w o s).1 ∧ s = t := by
  cases h with
  | handled => cases o <;> first | exact ho.elim | exact ⟨rfl, rfl⟩
  | stop => exact ho.elim
  | stopped => exact ho.elim

theorem ExportSem.get_eq {c : ReportCache} {key : c.Key} {a : Option c.Val} (h : ExportSem w s (.get c key) a t) :
    a = s.find? c key := by
  cases h
  exact LockedCache.get_fst _ _

/-- Only a store changes what a cache holds. -/
theorem ExportSem.find?_eq (h : ExportSem w s o a t) {c : ReportCache} (ho : ∀ key value, o ≠ .set c key value)
    (key : c.Key) : t.find? c key = s.find? c key := by
  cases h with
  | handled =>
    cases o with
    | get c' key' => exact s.find?_withCache_get c' key' c key
    | set c' key' value =>
      refine s.find?_withCache_of_ne (fun hc => ?_) _ _
      subst hc
      exact ho key' value rfl
    | claim c' key' stops => exact s.find?_withCache_get c' key' c key
    | _ => rfl
  | stop => rfl
  | stopped => rfl

/-- A store sets its key and may forget others. -/
theorem ExportSem.find?_set {c : ReportCache} {key : c.Key} {value : c.Val} {u : Unit}
    (h : ExportSem w s (.set c key value) u t) :
    t.find? c key = some value ∧ ∀ key' v, key' ≠ key → t.find? c key' = some v → s.find? c key' = some v := by
  cases h
  refine ⟨(s.find?_withCache _ _ _).trans (LockedCache.find?_store_self _ _ _ _), fun key' v hne hv => ?_⟩
  exact ExportState.find?_withCache_store hne hv

theorem ExportSem.files_eq (h : ExportSem w s o a t) (ho : ∀ f, o ≠ .updateAnalysis f) : t.files = s.files := by
  cases h with
  | handled =>
    cases o with
    | updateAnalysis f => exact absurd rfl (ho f)
    | _ => rfl
  | stop => rfl
  | stopped => rfl

theorem ExportSem.folder_eq (h : ExportSem w s o a t) (hload : ∀ sha256, o ≠ .load sha256)
    (hstore : ∀ sha256 report, o ≠ .store sha256 report) : t.folder = s.folder := by
  cases h with
  | handled =>
    cases o with
    | load sha256 => exact absurd rfl (hload sha256)
    | store sha256 report => exact absurd rfl (hstore sha256 report)
    | _ => rfl
  | stop => rfl
  | stopped => rfl

theorem ExportSem.clock_le (h : ExportSem w s o a t) : s.clock ≤ t.clock := by
  cases h with
  | handled =>
    cases o with
    | exportView f => exact Nat.le_succ _
    | load sha256 => exact Nat.le_succ _
    | _ => exact le_rfl
  | stop => exact le_rfl
  | stopped => exact le_rfl

end Sem

/-! ## Calls one after the other -/

/-- The calls that use the reports of open files. -/
inductive ExportCall where
  | exportReport (f : FileId) (stops : Bool)
  | preload (f : FileId)
  | cachedReport (f : FileId)
  | render (source target : RenderedFunction)
  deriving DecidableEq, Repr

namespace ExportCall

@[reducible] def Result : ExportCall → Type
  | exportReport _ _ => Report
  | preload _ => Unit
  | cachedReport _ => Option Report
  | render _ _ => RenderedBlocks

def program (h : Hashing) : (c : ExportCall) → ExportProg c.Result
  | exportReport f stops => exportSmdaReport f stops
  | preload f => preloadReport f
  | cachedReport f => McritSimilarity.cachedReport f
  | render source target => renderBlocks h source target

end ExportCall

inductive ExportLabel where
  | analyse (f : FileId) (a : Analysis)
  | evict (c : ReportCache) (key : c.Key)
  | call (c : ExportCall) (w : CallWorld) (out : Outcome PyError c.Result)

/-- Analysis changes, a cache forgets a key, or a call runs to its end. -/
inductive ExportStep (h : Hashing) : ExportState → ExportLabel → ExportState → Prop where
  | analyse (s : ExportState) (f : FileId) (a : Analysis) : ExportStep h s (.analyse f a) (s.analyse f a)
  | evict (s : ExportState) (c : ReportCache) (key : c.Key) :
      ExportStep h s (.evict c key) (s.withCache c ((s.caches c).evict key))
  | call {s s' : ExportState} {c : ExportCall} {w : CallWorld} {out : Outcome PyError c.Result}
      (hrun : Prog.RunsTo (I := ExportI) (ExportSem w) (c.program h) s out s') : ExportStep h s (.call c w out) s'

end McritSimilarity
