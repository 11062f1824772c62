import Mathlib.Data.List.Sort
import Mathlib.Algebra.Order.Field.Rat
import McritSimilarity.Errors
import McritSimilarity.Lib.Files

/-!
# Reports on disk

`diskcache` as programs over the operations of its folder: `store` writes a report to a temporary file and
renames it, `load` reads a report and drops a file that cannot be read, `prune` drops the oldest reports
and the temporary files of dead writers.  What `smda`, `gzip` and `json` make of a report is a
`ReportCodec`.  Messages that are only logged are left out.
-/

set_option autoImplicit false

namespace McritSimilarity

open Python

/-- What is written of a document: the pieces in which it reaches the file, the error that ends it early,
and what closing the file writes after an error. -/
structure Dump where
  pieces : List (List UInt8)
  failure : Option PyError
  late : List UInt8

/-- What `smda`, `gzip` and `json` do; `none` stands for an exception. -/
structure ReportCodec (R : Type) where
  toDict : R → Json
  fromDict : Json → Option R
  dump : Json → Dump
  decode : List UInt8 → Option Json

/-! ## Names and headers -/

/-- `FORMAT_VERSION`. -/
def formatVersion : ℕ := 1

/-- `SUFFIX`. -/
def reportSuffix : String := ".json.gz"

def versionChar (c : Char) : Bool := c.isDigit || c.isUpper || c.isLower || c = '.'

/-- `_smda_version()` of `smda.__version__`. -/
def smdaVersion (version : String) : String :=
  String.ofList (version.toList.map fun c => if versionChar c then c else '_')

/-- The name of `report_path` in its folder. -/
def reportPath (version sha256 : String) : String :=
  sha256 ++ "-v" ++ toString formatVersion ++ "-smda" ++ smdaVersion version ++ reportSuffix

/-- `_header`. -/
def reportHeader (version sha256 : String) : List (String × Json) :=
  [("format", .int formatVersion), ("smda", .str (smdaVersion version)), ("sha256", .str sha256)]

/-- `{k: document.get(k) for k in ("format", "smda", "sha256")} == _header(sha256)`; `false` where it
raises. -/
def headerMatches (version sha256 : String) (document : Json) : Bool :=
  match document.get "format", document.get "smda", document.get "sha256" with
  | .ok format, .ok smda, .ok sha => format.eqInt formatVersion && smda.eqStr (smdaVersion version) &&
      sha.eqStr sha256
  | _, _, _ => false

variable {R : Type} (codec : ReportCodec R)

/-- The document of a report. -/
def reportDocument (version sha256 : String) (report : R) : Json :=
  .dict (reportHeader version sha256 ++ [("report", codec.toDict report)])

/-- The report in the content of a file; `none` where `load` gives it up. -/
def parseReport (version sha256 : String) (content : List UInt8) : Option R := do
  let document ← codec.decode content
  if headerMatches version sha256 document then
    match document.getItem "report" with
    | .ok report => codec.fromDict report
    | .error _ => none
  else none

/-- A name that `mkstemp(prefix=".", suffix=".tmp")` gives. -/
def IsTempName (name : String) : Prop := ∃ middle, name = "." ++ middle ++ ".tmp"

/-! ## Programs -/

abbrev DiskProg (α : Type) := Prog (FileI String) PyError α

def diskOp (o : FileOp String) : DiskProg o.Res := o.orRaise fun _ => .osError

/-- `_unlink`. -/
def quietUnlink (name : String) : DiskProg Unit := FileOp.quietly (.unlink name)

/-- `except OSError`, which logs the error. -/
def suppressOsError (e : PyError) : DiskProg Unit := if e = .osError then pure () else Prog.raise e

/-- `_STALE_TEMP_SECONDS`. -/
def staleTempSeconds : ℚ := 24 * 60 * 60

/-- `MAX_BYTES`. -/
def maxReportBytes : ℤ := 512 * 1024 * 1024

/-- `MAX_FILES`. -/
def maxReportFiles : ℤ := 1000

/-- `text.endswith(suffix)`. -/
def endsWith (text suffix : String) : Bool := suffix.toList.isSuffixOf text.toList

/-- `(stat.st_mtime, stat.st_size, path)`. -/
abbrev PruneEntry := ℚ × ℕ × String

def entryLe (a b : PruneEntry) : Prop :=
  a.1 < b.1 ∨ a.1 = b.1 ∧ (a.2.1 < b.2.1 ∨ a.2.1 = b.2.1 ∧ a.2.2 ≤ b.2.2)

instance : DecidableRel entryLe := fun _ _ => inferInstanceAs (Decidable (_ ∨ _))

/-- The loop of `prune` over the folder: old temporary files are dropped, the reports are returned. -/
def pruneScan (now : ℚ) : List String → DiskProg (List PruneEntry)
  | [] => pure []
  | name :: names =>
    Prog.call (I := FileI String) (.stat name) fun
      | .error _ => pruneScan now names
      | .ok stat =>
        if endsWith name ".tmp" then do
          if now - stat.modified > staleTempSeconds then quietUnlink name else pure ()
          pruneScan now names
        else if endsWith name reportSuffix then do
          let entries ← pruneScan now names
          return (stat.modified, stat.size, name) :: entries
        else pruneScan now names

/-- The loop of `prune` over the reports, oldest first. -/
def pruneOldest (keep : Option String) (maxBytes maxFiles : ℤ) : List PruneEntry → ℤ → ℤ → DiskProg Unit
  | [], _, _ => pure ()
  | (_, size, name) :: entries, total, count =>
    if total ≤ maxBytes ∧ count ≤ maxFiles then pure ()
    else if keep = some name then pruneOldest keep maxBytes maxFiles entries total count
    else do
      quietUnlink name
      pruneOldest keep maxBytes maxFiles entries (total - size) (count - 1)

/-- `prune`; `now` is what `time.time()` answers. -/
def pruneFolder (keep : Option String) (maxBytes maxFiles : ℤ) (now : ℚ) : DiskProg Unit := do
  let names ← diskOp .scandir
  let entries ← pruneScan now names
  pruneOldest keep maxBytes maxFiles (entries.insertionSort entryLe)
    (entries.map fun entry => (entry.2.1 : ℤ)).sum entries.length

/-- The part of `store` from the temporary file to its renaming; whether it has been renamed.  Otherwise
the temporary file is removed at the end of `store`. -/
def writeReport (version sha256 : String) (report : R) (fd : ℕ) (temp : String) : DiskProg Bool :=
  let dump := codec.dump (reportDocument codec version sha256 report)
  (do
    FileOp.writeAndClose (fun _ => .osError) fd dump.pieces dump.failure dump.late
    diskOp (.replace temp (reportPath version sha256))
    return true : DiskProg Bool).tryCatch fun e => do
      quietUnlink temp
      suppressOsError e
      return false

/-- `store`. -/
def storeReport (version sha256 : String) (report : R) (now : ℚ) : DiskProg Unit := do
  let made ← (do
    diskOp .mkdir
    diskOp .mkstemp : DiskProg (ℕ × String)).asExcept
  match made with
  | .error e => suppressOsError e
  | .ok (fd, temp) => do
    let renamed ← writeReport codec version sha256 report fd temp
    if renamed then
      (pruneFolder (some (reportPath version sha256)) maxReportBytes maxReportFiles now).tryCatch suppressOsError
    else pure ()

/-- What `gzip` reads of a file up to its end. -/
def readAll (fd : ℕ) : ℕ → List UInt8 → DiskProg (List UInt8)
  | 0, _ => Prog.spin
  | fuel + 1, done => do
    let bytes ← diskOp (.read fd)
    if bytes = [] then pure done else readAll fd fuel (done ++ bytes)

/-- The end of `load` for a file that cannot be used. -/
def discardReport (path : String) : DiskProg (Option R) := do
  quietUnlink path
  return none

/-- The part of `load` after the content of the file. -/
def useReport (version sha256 : String) (content : List UInt8) : DiskProg (Option R) :=
  match parseReport codec version sha256 content with
  | none => discardReport (reportPath version sha256)
  | some report => do
    FileOp.quietly (.utime (reportPath version sha256))
    return some report

/-- `load`. -/
def loadReport (version sha256 : String) (fuel : ℕ) : DiskProg (Option R) :=
  Prog.call (I := FileI String) (.openRead (reportPath version sha256)) fun
    | .error .notFound => pure none
    | .error .failed => discardReport (reportPath version sha256)
    | .ok fd => do
      let content ← ((readAll fd fuel []).tryFinally (diskOp (.close fd))).asExcept
      match content with
      | .error _ => discardReport (reportPath version sha256)
      | .ok content => useReport codec version sha256 content

end McritSimilarity
