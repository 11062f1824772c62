import McritSimilarity.Cache.GetOrSet
import McritSimilarity.Client
import McritSimilarity.PicBlocks
import McritSimilarity.ReportFolder

/-!
# Reports of open files

`exportSmdaReport`, `preloadReport` and `cachedReport` as programs over `ExportI`: the caches of the
process, the report folder and the open views.  A view is named by the open file it belongs to, which
stands for its `session_id`.
-/

set_option autoImplicit false

namespace McritSimilarity

/-! ## Data -/

abbrev FileId := ℕ

/-- The bytes of an open file. -/
structure RawData where
  length : ℤ
  /-- The SHA-256 of the bytes. -/
  sha256 : String
  deriving DecidableEq, Repr

/-- `(sha256, len(bv.functions))`. -/
abbrev ReportKey := String × ℕ

/-- A report object of the process. -/
structure Report where
  data : SmdaReport
  /-- Whether it was built from a view, or else loaded from a file. -/
  built : Bool
  /-- When it was built or loaded. -/
  made : ℕ
  deriving DecidableEq, Repr

/-- The caches of `cache`, `export` and `render`. -/
inductive ReportCache where
  | reports
  | reportKeys
  | exportedKeys
  | coldSha256
  | rawSha256
  | coldMisses
  | picBlocks
  deriving DecidableEq, Repr

namespace ReportCache

@[reducible] def Key : ReportCache → Type
  | reports => ReportKey
  | reportKeys => FileId
  | exportedKeys => FileId
  | coldSha256 => FileId
  | rawSha256 => FileId × ℤ
  | coldMisses => FileId × ReportKey
  | picBlocks => String × ℤ

@[reducible] def Val : ReportCache → Type
  | reports => Report
  | reportKeys => ReportKey
  | exportedKeys => ReportKey
  | coldSha256 => String
  | rawSha256 => String
  | coldMisses => Unit
  | picBlocks => List BlockHash

instance : (c : ReportCache) → DecidableEq c.Key
  | reports => inferInstanceAs (DecidableEq ReportKey)
  | reportKeys => inferInstanceAs (DecidableEq FileId)
  | exportedKeys => inferInstanceAs (DecidableEq FileId)
  | coldSha256 => inferInstanceAs (DecidableEq FileId)
  | rawSha256 => inferInstanceAs (DecidableEq (FileId × ℤ))
  | coldMisses => inferInstanceAs (DecidableEq (FileId × ReportKey))
  | picBlocks => inferInstanceAs (DecidableEq (String × ℤ))

end ReportCache

/-! ## Operations -/

inductive ExportOp where
  | get (c : ReportCache) (key : c.Key)
  | set (c : ReportCache) (key : c.Key) (value : c.Val)
  /-- `stops` says whether `should_stop` is given. -/
  | claim (c : ReportCache) (key : c.Key) (stops : Bool)
  | release (c : ReportCache) (key : c.Key)
  | raw (f : FileId)
  | hashRaw (f : FileId)
  | functionCount (f : FileId)
  /-- The number of functions the exporter keeps. -/
  | keptCount (f : FileId)
  | archName (f : FileId)
  | viewType (f : FileId)
  /-- `os.path.basename(bv.file.original_filename or bv.file.filename or "")`. -/
  | fileName (f : FileId)
  | updateAnalysis (f : FileId)
  /-- `exportBinaryView`. -/
  | exportView (f : FileId)
  | hasFolder
  | storedSize (sha256 : String)
  | load (sha256 : String)
  | store (sha256 : String) (report : Report)
  | stopRequested
  | lockPreload
  | unlockPreload

@[reducible] def ExportOp.Ans : ExportOp → Type
  | get c _ => Option c.Val
  | set _ _ _ => Unit
  | claim c _ _ => Claim c.Val
  | release _ _ => Unit
  | raw _ => Option RawData
  | hashRaw _ => String
  | functionCount _ => ℕ
  | keptCount _ => ℤ
  | archName _ => Option String
  | viewType _ => String
  | fileName _ => String
  | updateAnalysis _ => Unit
  | exportView _ => Except PyError Report
  | hasFolder => Bool
  | storedSize _ => Option ℕ
  | load _ => Option Report
  | store _ _ => Unit
  | stopRequested => Bool
  | lockPreload => Unit
  | unlockPreload => Unit

def ExportI : Interface := ⟨ExportOp, ExportOp.Ans⟩

abbrev ExportProg (α : Type) := Prog ExportI PyError α

/-- An operation, and what it answers. -/
def call (o : ExportOp) : ExportProg o.Ans := Prog.op (I := ExportI) o

def cached (c : ReportCache) (key : c.Key) (stops : Bool) (factory : ExportProg c.Val) : ExportProg c.Val :=
  getOrSet (call (.claim c key stops)) (fun value => call (.set c key value)) (call (.release c key)) factory

/-! ## Keys -/

/-- `_COLD_MAX_RAW_BYTES`. -/
def coldMaxRawBytes : ℤ := 4 * 1024 * 1024

/-- `_COLD_MAX_STORED_BYTES`. -/
def coldMaxStoredBytes : ℕ := 768 * 1024

/-- `_PRELOAD_MAX_RAW_BYTES`. -/
def preloadMaxRawBytes : ℤ := 64 * 1024 * 1024

/-- `_raw_sha256_cached`. -/
def rawSha256Cached (f : FileId) : ExportProg String := do
  match ← call (.raw f) with
  | none => pure ""
  | some raw =>
    if raw.length ≤ 0 then pure "" else cached .rawSha256 (f, raw.length) false (call (.hashRaw f))

/-- `_view_cache_key`. -/
def viewCacheKey (f : FileId) : ExportProg (Option ReportKey) := do
  match ← call (.raw f) with
  | none => pure none
  | some raw =>
    if raw.length ≤ 0 then pure none
    else do
      let sha256 ← rawSha256Cached f
      let count ← call (.functionCount f)
      return some (sha256, count)

/-- `_cold_sha256`. -/
def coldSha256 (f : FileId) : ExportProg String := do
  match ← call (.raw f) with
  | none => pure ""
  | some raw => if 0 < raw.length ∧ raw.length ≤ coldMaxRawBytes then rawSha256Cached f else pure ""

/-! ## Loading -/

/-- The comparison of `_analysis_changed`. -/
def analysisChanged (count : ℤ) (report : SmdaReport) : Bool :=
  |count - report.numFunctions| > max 8 (count / 50)

/-- `_load_current`. -/
def loadCurrent (f : FileId) (sha256 : String) : ExportProg (Option Report) := do
  match ← call (.load sha256) with
  | none => pure none
  | some report => do
    let count ← call (.keptCount f)
    return if analysisChanged count report.data then none else some report

/-- `_load_small`. -/
def loadSmall (f : FileId) (key : ReportKey) : ExportProg (Option Report) := do
  let folder ← call .hasFolder
  if folder = false then pure none
  else do
    match ← call (.storedSize key.1) with
    | none => pure none
    | some size => if size > coldMaxStoredBytes then pure none else loadCurrent f key.1

/-! ## `cached_report` -/

/-- The report under a key, from memory or, when it is small, from disk. -/
def lookupReport (f : FileId) (key : ReportKey) : ExportProg (Option Report) := do
  match ← call (.get .reports key) with
  | some report => do
    call (.set .reportKeys f key)
    return some report
  | none => do
    match ← call (.get .coldMisses (f, key)) with
    | some _ => pure none
    | none => do
      match ← loadSmall f key with
      | none => do
        call (.set .coldMisses (f, key) ())
        return none
      | some report => do
        call (.set .reports key report)
        call (.set .reportKeys f key)
        return some report

def cachedReport (f : FileId) : ExportProg (Option Report) := do
  match ← call (.get .reportKeys f) with
  | some key => lookupReport f key
  | none => do
    let sha256 ← cached .coldSha256 f false (coldSha256 f)
    if sha256 = "" then pure none
    else do
      let count ← call (.functionCount f)
      lookupReport f (sha256, count)

/-! ## `preload_report` -/

/-- The Binary Ninja architectures of `SMDA_ARCHITECTURES`. -/
def smdaArchitectures : List String := ["x86", "x86_64", "aarch64", "armv7", "thumb2"]

/-- `_preload` from the point where the file has to be preloaded. -/
def preloadFile (f : FileId) (raw : RawData) : ExportProg Unit := do
  let sha256 ← rawSha256Cached f
  if raw.length ≤ coldMaxRawBytes then call (.set .coldSha256 f sha256) else pure ()
  let count ← call (.functionCount f)
  match ← call (.get .reports (sha256, count)) with
  | some _ => call (.set .reportKeys f (sha256, count))
  | none => do
    match ← loadCurrent f sha256 with
    | none => pure ()
    | some report => do
      call (.set .reports (sha256, count) report)
      call (.set .reportKeys f (sha256, count))

/-- `_preload`. -/
def preload (f : FileId) : ExportProg Unit := do
  let arch ← call (.archName f)
  if arch.any (· ∉ smdaArchitectures) then pure ()
  else do
    let raw ← call (.raw f)
    let viewType ← call (.viewType f)
    match raw with
    | none => pure ()
    | some raw =>
      if viewType = "Raw" ∨ ¬ (0 < raw.length ∧ raw.length ≤ preloadMaxRawBytes) then pure ()
      else do
        let folder ← call .hasFolder
        if folder = false then pure ()
        else do
          match ← call (.get .reportKeys f) with
          | some _ => pure ()
          | none => preloadFile f raw

/-- `preload_report`: one at a time, and every exception is only logged. -/
def preloadReport (f : FileId) : ExportProg Unit := do
  call .lockPreload
  ((preload f).tryCatch fun _ => pure ()).tryFinally (call .unlockPreload)

/-! ## `export_smda_report` -/

/-- `smda_architecture`, as far as it raises. -/
def unsupportedArchitecture (archName : String) : PyError :=
  .mcrit .unsupportedArchitecture ("Unsupported architecture " ++ reprText archName ++
    ". MCRIT Similarity exports aarch64, armv7, thumb2, x86, x86_64.")

/-- `_build_report`. -/
def buildReport (f : FileId) : ExportProg Report := do
  match ← call (.archName f) with
  | none => Prog.raise (.builtin .attributeError)
  | some arch => do
    Prog.raiseIf (arch ∉ smdaArchitectures) (unsupportedArchitecture arch)
    let exported ← call (.exportView f)
    let report ← Prog.ofExcept exported
    let fileName ← call (.fileName f)
    return if fileName = "" then report
      else { report with data := { report.data with filename := fileName } }

/-- A report that is built goes to the folder. -/
def buildAndStore (f : FileId) (sha256 : String) : ExportProg Report := do
  let report ← buildReport f
  call (.store sha256 report)
  return report

/-- `_load_or_build`. -/
def loadOrBuild (f : FileId) (key : ReportKey) : ExportProg Report := do
  let folder ← call .hasFolder
  if folder = false then buildReport f
  else do
    let exported ← call (.get .exportedKeys f)
    let loaded ← (if exported.isNone then loadCurrent f key.1 else pure none : ExportProg (Option Report))
    match loaded with
    | some report => pure report
    | none => buildAndStore f key.1

/-- `if should_stop and should_stop(): raise …`; `stops` says whether `should_stop` is given. -/
def checkStop (stops : Bool) : ExportProg Unit :=
  if stops then do
    let stop ← call .stopRequested
    Prog.raiseIf (stop = true) (.mcrit .job "SMDA export cancelled")
  else pure ()

/-- The report of an open file under its key. -/
def exportKeyed (f : FileId) (key : ReportKey) (stops : Bool) : ExportProg Report := do
  let report ← cached .reports key stops (loadOrBuild f key)
  call (.set .reportKeys f key)
  call (.set .exportedKeys f key)
  return report

def exportSmdaReport (f : FileId) (stops : Bool) : ExportProg Report := do
  checkStop stops
  call (.updateAnalysis f)
  checkStop stops
  match ← viewCacheKey f with
  | none => buildReport f
  | some key => exportKeyed f key stops

end McritSimilarity
