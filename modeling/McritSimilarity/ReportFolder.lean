import McritSimilarity.Lib.OrderedMap
import McritSimilarity.Smda

/-!
# The report folder

The folder in which reports are kept across restarts, as `diskcache` reads and writes it.  Its files are
named by the SHA-256 of the binary and ordered by modification time, oldest first.  Files of other format
versions are left out.
-/

set_option autoImplicit false

namespace McritSimilarity

/-- A report file: its document, unless it cannot be read back, and its size. -/
structure StoredReport where
  document : Option SmdaReport
  size : ℕ
  deriving DecidableEq, Repr

abbrev ReportFolder := OrderedMap String StoredReport

namespace ReportFolder

/-- `MAX_BYTES`. -/
def maxBytes : ℕ := 512 * 1024 * 1024

/-- `MAX_FILES`. -/
def maxFiles : ℕ := 1000

/-- `load`: the report, and the folder.  A file that cannot be read is dropped, one that is read
becomes the newest. -/
def load (folder : ReportFolder) (sha256 : String) : Option SmdaReport × ReportFolder :=
  match folder.find? sha256 with
  | none => (none, folder)
  | some file =>
    match file.document with
    | none => (none, folder.erase sha256)
    | some report => (some report, folder.moveToEnd sha256)

/-- The loop of `prune` over the files, oldest first. -/
def pruneLoop (keep : String) : List (String × StoredReport) → ℕ → ℕ → List (String × StoredReport)
  | [], _, _ => []
  | file :: files, total, count =>
    if total ≤ maxBytes ∧ count ≤ maxFiles then file :: files
    else if file.1 = keep then file :: pruneLoop keep files total count
    else pruneLoop keep files (total - file.2.size) (count - 1)

theorem pruneLoop_sublist (keep : String) (files : List (String × StoredReport)) (total count : ℕ) :
    (pruneLoop keep files total count).Sublist files := by
  induction files generalizing total count with
  | nil => exact List.Sublist.refl _
  | cons file files ih =>
    unfold pruneLoop
    split_ifs
    · exact List.Sublist.refl _
    · exact (ih _ _).cons_cons file
    · exact (ih _ _).cons file

/-- `prune(folder, keep=…)`. -/
def prune (folder : ReportFolder) (keep : String) : ReportFolder :=
  ⟨pruneLoop keep folder.entries (folder.entries.map fun file => file.2.size).sum folder.size,
    folder.nodup.sublist ((pruneLoop_sublist keep _ _ _).map _)⟩

/-- `store`; `size` is the size of the file, or `none` when it cannot be written. -/
def store (folder : ReportFolder) (sha256 : String) (report : SmdaReport) : Option ℕ → ReportFolder
  | some size => prune (folder.append sha256 ⟨some report, size⟩) sha256
  | none => folder

end ReportFolder

end McritSimilarity
