import Mathlib.Data.Rat.Defs
import Mathlib.Logic.Function.Basic
import McritSimilarity.Lib.Protocol

/-!
# The files of a folder

Names lead to files, and an open handle has a file and a position in it; a file keeps its content when
its name is removed or goes to another file.  A rename is one step, a write at a position may be cut off
by an error, and every operation may fail.  Reads and writes go through handles, so that a file may be
written in several steps while others rename it.  Modification times are whatever `stat` answers.
-/

set_option autoImplicit false

/-- `FileNotFoundError`, and any other `OSError`. -/
inductive FileError where
  | notFound
  | failed
  deriving DecidableEq, Repr

structure FileStat where
  modified : ℚ
  size : ℕ

/-- The operations, with `create` for opening a file to write it from its beginning. -/
inductive FileOp (N : Type) where
  | mkdir
  | mkstemp
  | create (name : N)
  | openRead (name : N)
  | read (fd : ℕ)
  | write (fd : ℕ) (bytes : List UInt8)
  | close (fd : ℕ)
  | replace (source target : N)
  | unlink (name : N)
  | utime (name : N)
  | scandir
  | stat (name : N)

namespace FileOp

variable {N : Type}

@[reducible] def Res : FileOp N → Type
  | mkdir => Unit
  | mkstemp => ℕ × N
  | create _ => ℕ
  | openRead _ => ℕ
  | read _ => List UInt8
  | write _ _ => Unit
  | close _ => Unit
  | replace _ _ => Unit
  | unlink _ => Unit
  | utime _ => Unit
  | scandir => List N
  | stat _ => FileStat

/-- The name that has to lead to a file. -/
def needs : FileOp N → Option N
  | openRead name => some name
  | replace source _ => some source
  | unlink name => some name
  | utime name => some name
  | stat name => some name
  | _ => none

end FileOp

def FileI (N : Type) : Interface := ⟨FileOp N, fun o => Except FileError o.Res⟩

namespace FileOp

variable {N ε : Type}

/-- An operation whose failure is raised. -/
def orRaise (error : FileError → ε) (o : FileOp N) : Prog (FileI N) ε o.Res :=
  Prog.call (I := FileI N) o fun
    | .ok r => Prog.ret r
    | .error e => Prog.raise (error e)

/-- An operation whose failure is ignored. -/
def quietly (o : FileOp N) : Prog (FileI N) ε Unit := Prog.call (I := FileI N) o fun _ => Prog.ret ()

def writeAll (error : FileError → ε) (fd : ℕ) : List (List UInt8) → Prog (FileI N) ε Unit
  | [] => Prog.ret ()
  | piece :: pieces => do
    orRaise error (.write fd piece)
    writeAll error fd pieces

/-- The writes of a text in pieces, which may raise at their end, and the closing of the file; after an
error closing it may write once more. -/
def writeAndClose (error : FileError → ε) (fd : ℕ) (pieces : List (List UInt8)) (failure : Option ε)
    (late : List UInt8) : Prog (FileI N) ε Unit :=
  ((do
    writeAll error fd pieces
    match failure with
    | some e => Prog.raise e
    | none => Prog.ret () : Prog (FileI N) ε Unit).tryCatch fun e => do
      orRaise error (.write fd late)
      Prog.raise e).tryFinally (orRaise error (.close fd))

section Follows

variable {P : Protocol (FileI N)} {error : FileError → ε} {s : P.State}

theorem follows_orRaise {o : FileOp N} {post : Outcome ε o.Res → P.State → Prop} (hallowed : P.allowed s o)
    (hok : ∀ r, post (.returned r) (P.next s o (.ok r)))
    (herror : ∀ e, post (.raised (error e)) (P.next s o (.error e))) :
    (orRaise error o).Follows P post s := by
  refine ⟨hallowed, fun a => ?_⟩
  cases a with
  | ok r => exact hok r
  | error e => exact herror e

theorem follows_quietly {o : FileOp N} {post : Outcome ε Unit → P.State → Prop} (hallowed : P.allowed s o)
    (h : ∀ a, post (.returned ()) (P.next s o a)) : (quietly o : Prog (FileI N) ε Unit).Follows P post s :=
  ⟨hallowed, h⟩

/-- A protocol with states for what has been written through a handle, and for a write that failed. -/
structure Writes (P : Protocol (FileI N)) (fd : ℕ) (writing : List UInt8 → P.State) (broken : P.State) :
    Prop where
  write : ∀ done bytes, P.allowed (writing done) (.write fd bytes)
  written : ∀ done bytes, P.next (writing done) (.write fd bytes) (.ok ()) = writing (done ++ bytes)
  torn : ∀ done bytes e, P.next (writing done) (.write fd bytes) (.error e) = broken
  again : ∀ bytes, P.allowed broken (.write fd bytes)
  stays : ∀ bytes (a : Except FileError Unit), P.next broken (.write fd bytes) a = broken

variable {fd : ℕ} {writing : List UInt8 → P.State} {broken : P.State}

theorem Writes.writeAll (h : Writes P fd writing broken) (pieces : List (List UInt8)) (done : List UInt8) :
    (writeAll error fd pieces).Follows P (fun out s =>
      (out = .returned () ∧ s = writing (done ++ pieces.flatten)) ∨
        (∃ e, out = .raised e) ∧ s = broken) (writing done) := by
  induction pieces generalizing done with
  | nil =>
    rw [List.flatten_nil, List.append_nil]
    exact Or.inl ⟨rfl, rfl⟩
  | cons piece pieces ih =>
    refine Prog.Follows.bind (follows_orRaise (h.write done piece) (fun _ => ?_) fun e => ?_)
    · rw [h.written, List.flatten_cons, ← List.append_assoc]
      exact ih (done ++ piece)
    · rw [h.torn]
      exact Or.inr ⟨⟨_, rfl⟩, rfl⟩

/-- What is left after the writes is to close the file, in the state that they have led to. -/
theorem Writes.writeAndClose (h : Writes P fd writing broken) {pieces : List (List UInt8)}
    {failure : Option ε} {late done : List UInt8} {post : Outcome ε Unit → P.State → Prop}
    (hwritten : failure = none →
      (orRaise error (.close fd)).Follows P (Prog.ThenFollows post Prog.ret) (writing (done ++ pieces.flatten)))
    (hfailure : ∀ e, failure = some e → (orRaise error (.close fd)).Follows P
      (Prog.ThenFollows post fun _ => Prog.raise e) (writing (done ++ pieces.flatten ++ late)))
    (hbroken : ∀ e, (orRaise error (.close fd)).Follows P (Prog.ThenFollows post fun _ => Prog.raise e) broken) :
    (writeAndClose error fd pieces failure late).Follows P post (writing done) := by
  refine Prog.Follows.tryFinally (Prog.Follows.tryCatch (Prog.Follows.bind
    ((h.writeAll pieces done).mono ?_)))
  rintro out s (⟨rfl, rfl⟩ | ⟨⟨e, rfl⟩, rfl⟩)
  · cases failure with
    | none => exact hwritten rfl
    | some e =>
      refine Prog.Follows.bind (follows_orRaise (h.write _ late) (fun _ => ?_) fun _ => ?_)
      · rw [h.written]
        exact hfailure e rfl
      · rw [h.torn]
        exact hbroken _
  · refine Prog.Follows.bind (follows_orRaise (h.again late) (fun _ => ?_) fun _ => ?_)
    · rw [h.stays]
      exact hbroken _
    · rw [h.stays]
      exact hbroken _

end Follows

end FileOp

structure Handle where
  file : ℕ
  position : ℕ
  writable : Bool
  deriving DecidableEq, Repr

structure Files (N : Type) where
  names : N → Option ℕ
  content : ℕ → List UInt8
  handles : ℕ → Option Handle
  /-- No file from here on is in use yet. -/
  nextFile : ℕ
  nextHandle : ℕ
  /-- The names that `mkstemp` has given. -/
  temps : List N

/-- The content of a file once some bytes are written at a position. -/
def overwrite (content : List UInt8) (position : ℕ) (bytes : List UInt8) : List UInt8 :=
  (content ++ List.replicate (position - content.length) 0).take position ++ bytes ++
    content.drop (position + bytes.length)

theorem overwrite_end (content bytes : List UInt8) : overwrite content content.length bytes = content ++ bytes := by
  simp [overwrite]

namespace Files

variable {N : Type} [DecidableEq N]

/-- A folder without files. -/
def empty : Files N := ⟨fun _ => none, fun _ => [], fun _ => none, 0, 0, []⟩

/-- The content under a name. -/
def read? (s : Files N) (name : N) : Option (List UInt8) := (s.names name).map s.content

/-- A new handle. -/
def openHandle (s : Files N) (h : Handle) : Files N :=
  { s with handles := Function.update s.handles s.nextHandle (some h), nextHandle := s.nextHandle + 1 }

/-- A new, empty file under a name, with a handle to write it. -/
def newFile (s : Files N) (name : N) : Files N :=
  openHandle { s with
    names := Function.update s.names name (some s.nextFile)
    content := Function.update s.content s.nextFile []
    nextFile := s.nextFile + 1 } ⟨s.nextFile, 0, true⟩

/-- The file of a name is cut off, and opened to write it. -/
def truncate (s : Files N) (file : ℕ) : Files N :=
  openHandle { s with content := Function.update s.content file [] } ⟨file, 0, true⟩

def writeAt (s : Files N) (fd : ℕ) (h : Handle) (bytes : List UInt8) : Files N :=
  { s with
    content := Function.update s.content h.file (overwrite (s.content h.file) h.position bytes)
    handles := Function.update s.handles fd (some { h with position := h.position + bytes.length }) }

def advance (s : Files N) (fd : ℕ) (h : Handle) (bytes : List UInt8) : Files N :=
  { s with handles := Function.update s.handles fd (some { h with position := h.position + bytes.length }) }

def closeHandle (s : Files N) (fd : ℕ) : Files N := { s with handles := Function.update s.handles fd none }

/-- `os.replace`. -/
def rename (s : Files N) (source target : N) (file : ℕ) : Files N :=
  { s with names := Function.update (Function.update s.names source none) target (some file) }

def remove (s : Files N) (name : N) : Files N := { s with names := Function.update s.names name none }

def rememberTemp (s : Files N) (name : N) : Files N := { s with temps := name :: s.temps }

/-- What a read from a position may give: some of the bytes after it, and none only at the end. -/
def IsRead (content : List UInt8) (position : ℕ) (bytes : List UInt8) : Prop :=
  bytes <+: content.drop position ∧ (bytes = [] → content.length ≤ position)

variable (IsTemp : N → Prop)

/-- The answers to the operations.  `mkstemp` never gives a name twice. -/
inductive Sem : Files N → (o : FileOp N) → Except FileError o.Res → Files N → Prop where
  | failed (s : Files N) (o : FileOp N) : Sem s o (.error .failed) s
  | missing {s : Files N} {o : FileOp N} {name : N} (hneeds : o.needs = some name) (h : s.names name = none) :
      Sem s o (.error .notFound) s
  | torn {s : Files N} {fd : ℕ} {h : Handle} {bytes part : List UInt8} (hfd : s.handles fd = some h)
      (hw : h.writable = true) (hpart : part <+: bytes) :
      Sem s (.write fd bytes) (.error .failed) (s.writeAt fd h part)
  | mkdir (s : Files N) : Sem s .mkdir (.ok ()) s
  | mkstemp {s : Files N} {name : N} (htemp : IsTemp name) (hunused : name ∉ s.temps)
      (hfree : s.names name = none) : Sem s .mkstemp (.ok (s.nextHandle, name)) ((s.newFile name).rememberTemp name)
  | created {s : Files N} {name : N} (h : s.names name = none) :
      Sem s (.create name) (.ok s.nextHandle) (s.newFile name)
  | truncated {s : Files N} {name : N} {file : ℕ} (h : s.names name = some file) :
      Sem s (.create name) (.ok s.nextHandle) (s.truncate file)
  | openRead {s : Files N} {name : N} {file : ℕ} (h : s.names name = some file) :
      Sem s (.openRead name) (.ok s.nextHandle) (s.openHandle ⟨file, 0, false⟩)
  | read {s : Files N} {fd : ℕ} {h : Handle} {bytes : List UInt8} (hfd : s.handles fd = some h)
      (hread : IsRead (s.content h.file) h.position bytes) : Sem s (.read fd) (.ok bytes) (s.advance fd h bytes)
  | write {s : Files N} {fd : ℕ} {h : Handle} {bytes : List UInt8} (hfd : s.handles fd = some h)
      (hw : h.writable = true) : Sem s (.write fd bytes) (.ok ()) (s.writeAt fd h bytes)
  | close {s : Files N} {fd : ℕ} {h : Handle} (hfd : s.handles fd = some h) :
      Sem s (.close fd) (.ok ()) (s.closeHandle fd)
  | replace {s : Files N} {source target : N} {file : ℕ} (h : s.names source = some file) :
      Sem s (.replace source target) (.ok ()) (s.rename source target file)
  | unlink {s : Files N} {name : N} {file : ℕ} (h : s.names name = some file) :
      Sem s (.unlink name) (.ok ()) (s.remove name)
  | utime {s : Files N} {name : N} {file : ℕ} (h : s.names name = some file) : Sem s (.utime name) (.ok ()) s
  | scandir {s : Files N} {names : List N} (h : ∀ name ∈ names, (s.names name).isSome = true) :
      Sem s .scandir (.ok names) s
  | stat {s : Files N} {name : N} {file : ℕ} (h : s.names name = some file) (modified : ℚ) :
      Sem s (.stat name) (.ok ⟨modified, (s.content file).length⟩) s

/-! ## A folder that works -/

/-- The answers of a folder on which nothing fails: `mkstemp` gives `temp`, and the names that exist are `known`. -/
def perform (temp : N) (known : List N) : Prog.Handler (FileI N) (Files N)
  | .mkdir, s => (.ok (), s)
  | .mkstemp, s => (.ok (s.nextHandle, temp), (s.newFile temp).rememberTemp temp)
  | .create name, s =>
    match s.names name with
    | none => (.ok s.nextHandle, s.newFile name)
    | some file => (.ok s.nextHandle, s.truncate file)
  | .openRead name, s =>
    match s.names name with
    | none => (.error .notFound, s)
    | some file => (.ok s.nextHandle, s.openHandle ⟨file, 0, false⟩)
  | .read fd, s =>
    match s.handles fd with
    | none => (.error .failed, s)
    | some h => (.ok ((s.content h.file).drop h.position), s.advance fd h ((s.content h.file).drop h.position))
  | .write fd bytes, s =>
    match s.handles fd with
    | none => (.error .failed, s)
    | some h => if h.writable then (.ok (), s.writeAt fd h bytes) else (.error .failed, s)
  | .close fd, s =>
    match s.handles fd with
    | none => (.error .failed, s)
    | some _ => (.ok (), s.closeHandle fd)
  | .replace source target, s =>
    match s.names source with
    | none => (.error .notFound, s)
    | some file => (.ok (), s.rename source target file)
  | .unlink name, s =>
    match s.names name with
    | none => (.error .notFound, s)
    | some _ => (.ok (), s.remove name)
  | .utime name, s =>
    match s.names name with
    | none => (.error .notFound, s)
    | some _ => (.ok (), s)
  | .scandir, s => (.ok (known.filter fun name => (s.names name).isSome), s)
  | .stat name, s =>
    match s.names name with
    | none => (.error .notFound, s)
    | some file => (.ok ⟨0, (s.content file).length⟩, s)

/-- Whether the operation is no `mkstemp` that gives a name in use. -/
def canPerform (temp : N) (s : Files N) : FileOp N → Bool
  | .mkstemp => temp ∉ s.temps ∧ s.names temp = none
  | _ => true

variable {IsTemp}

theorem sem_perform {temp : N} (htemp : IsTemp temp) (known : List N) {s : Files N} {o : FileOp N}
    (ho : canPerform temp s o = true) : Sem IsTemp s o (perform temp known o s).1 (perform temp known o s).2 := by
  cases o with
  | mkdir => exact .mkdir s
  | mkstemp =>
    obtain ⟨hunused, hfree⟩ := of_decide_eq_true ho
    exact .mkstemp htemp hunused hfree
  | scandir =>
    refine .scandir fun name hname => ?_
    exact (List.mem_filter.1 hname).2
  | create name =>
    cases hname : s.names name with
    | none =>
      simp only [perform, hname]
      exact .created hname
    | some file =>
      simp only [perform, hname]
      exact .truncated hname
  | openRead name =>
    cases hname : s.names name with
    | none =>
      simp only [perform, hname]
      exact .missing rfl hname
    | some file =>
      simp only [perform, hname]
      exact .openRead hname
  | read fd =>
    cases hfd : s.handles fd with
    | none =>
      simp only [perform, hfd]
      exact .failed ..
    | some h =>
      simp only [perform, hfd]
      exact .read hfd ⟨List.prefix_rfl, fun hnil => List.drop_eq_nil_iff.1 hnil⟩
  | write fd bytes =>
    cases hfd : s.handles fd with
    | none =>
      simp only [perform, hfd]
      exact .failed ..
    | some h =>
      cases hw : h.writable with
      | false =>
        simp only [perform, hfd, hw, Bool.false_eq_true, if_false]
        exact .failed ..
      | true =>
        simp only [perform, hfd, hw, if_true]
        exact .write hfd hw
  | close fd =>
    cases hfd : s.handles fd with
    | none =>
      simp only [perform, hfd]
      exact .failed ..
    | some h =>
      simp only [perform, hfd]
      exact .close hfd
  | replace source target =>
    cases hname : s.names source with
    | none =>
      simp only [perform, hname]
      exact .missing rfl hname
    | some file =>
      simp only [perform, hname]
      exact .replace hname
  | unlink name =>
    cases hname : s.names name with
    | none =>
      simp only [perform, hname]
      exact .missing rfl hname
    | some file =>
      simp only [perform, hname]
      exact .unlink hname
  | utime name =>
    cases hname : s.names name with
    | none =>
      simp only [perform, hname]
      exact .missing rfl hname
    | some file =>
      simp only [perform, hname]
      exact .utime hname
  | stat name =>
    cases hname : s.names name with
    | none =>
      simp only [perform, hname]
      exact .missing rfl hname
    | some file =>
      simp only [perform, hname]
      exact .stat hname 0

end Files

/-! ## Well-formed folders -/

namespace Files

variable {N : Type} [DecidableEq N] {IsTemp : N → Prop}

omit [DecidableEq N] in
theorem read?_congr {s s' : Files N} {name : N} (hname : s'.names name = s.names name)
    (hcontent : ∀ file, s.names name = some file → s'.content file = s.content file) :
    s'.read? name = s.read? name := by
  unfold read?
  rw [hname]
  cases h : s.names name with
  | none => rfl
  | some file => rw [Option.map_some, Option.map_some, hcontent file h]

/-- Files and handles in use have numbers below the next ones, and no file has two names. -/
structure WellFormed (s : Files N) : Prop where
  file_lt : ∀ name file, s.names name = some file → file < s.nextFile
  handle_lt : ∀ fd h, s.handles fd = some h → fd < s.nextHandle ∧ h.file < s.nextFile
  one_name : ∀ name name' file, s.names name = some file → s.names name' = some file → name = name'

omit [DecidableEq N] in
theorem wellFormed_empty : (empty : Files N).WellFormed := ⟨nofun, nofun, nofun⟩

omit [DecidableEq N] in
theorem WellFormed.openHandle {s : Files N} (hs : s.WellFormed) {h : Handle} (hh : h.file < s.nextFile) :
    (s.openHandle h).WellFormed where
  file_lt := hs.file_lt
  handle_lt fd h' hfd := by
    by_cases heq : fd = s.nextHandle
    · subst heq
      simp only [Files.openHandle, Function.update_self, Option.some.injEq] at hfd
      subst hfd
      exact ⟨Nat.lt_succ_self _, hh⟩
    · simp only [Files.openHandle, Function.update_of_ne heq] at hfd
      exact ⟨Nat.lt_succ_of_lt (hs.handle_lt fd h' hfd).1, (hs.handle_lt fd h' hfd).2⟩
  one_name := hs.one_name

omit [DecidableEq N] in
/-- A handle that moves on within its file. -/
theorem WellFormed.moveHandle {s : Files N} (hs : s.WellFormed) {fd : ℕ} {h : Handle}
    (hfd : s.handles fd = some h) (position : ℕ) (content : ℕ → List UInt8) :
    { s with
      content := content
      handles := Function.update s.handles fd (some { h with position := position }) }.WellFormed where
  file_lt := hs.file_lt
  handle_lt fd' h' hfd' := by
    by_cases heq : fd' = fd
    · subst heq
      simp only [Function.update_self, Option.some.injEq] at hfd'
      subst hfd'
      exact hs.handle_lt fd' h hfd
    · simp only [Function.update_of_ne heq] at hfd'
      exact hs.handle_lt fd' h' hfd'
  one_name := hs.one_name

omit [DecidableEq N] in
theorem WellFormed.closeHandle {s : Files N} (hs : s.WellFormed) (fd : ℕ) : (s.closeHandle fd).WellFormed where
  file_lt := hs.file_lt
  handle_lt fd' h hfd := by
    by_cases heq : fd' = fd
    · subst heq
      simp only [Files.closeHandle, Function.update_self] at hfd
      cases hfd
    · simp only [Files.closeHandle, Function.update_of_ne heq] at hfd
      exact hs.handle_lt fd' h hfd
  one_name := hs.one_name

theorem WellFormed.newFile {s : Files N} (hs : s.WellFormed) (name : N) : (s.newFile name).WellFormed := by
  refine WellFormed.openHandle ⟨fun name' file hname => ?_, fun fd h hfd => ?_, fun name' name'' file h h' => ?_⟩
    (Nat.lt_succ_self _)
  · by_cases heq : name' = name
    · subst heq
      simp only [Function.update_self, Option.some.injEq] at hname
      exact hname ▸ Nat.lt_succ_self _
    · simp only [Function.update_of_ne heq] at hname
      exact Nat.lt_succ_of_lt (hs.file_lt name' file hname)
  · exact ⟨(hs.handle_lt fd h hfd).1, Nat.lt_succ_of_lt (hs.handle_lt fd h hfd).2⟩
  · -- The new file has no other name.
    have hnew : ∀ name', s.names name' ≠ some s.nextFile :=
      fun name' heq => absurd (hs.file_lt name' _ heq) (Nat.lt_irrefl _)
    by_cases heq : name' = name
    · by_cases heq' : name'' = name
      · rw [heq, heq']
      · subst heq
        simp only [Function.update_self, Function.update_of_ne heq', Option.some.injEq] at h h'
        exact absurd (h ▸ h') (hnew name'')
    · by_cases heq' : name'' = name
      · subst heq'
        simp only [Function.update_self, Function.update_of_ne heq, Option.some.injEq] at h h'
        exact absurd (h' ▸ h) (hnew name')
      · simp only [Function.update_of_ne heq, Function.update_of_ne heq'] at h h'
        exact hs.one_name name' name'' file h h'

theorem WellFormed.remove {s : Files N} (hs : s.WellFormed) (name : N) : (s.remove name).WellFormed := by
  have hkept : ∀ {name' file}, (s.remove name).names name' = some file → s.names name' = some file := by
    intro name' file h
    by_cases heq : name' = name
    · subst heq
      simp only [Files.remove, Function.update_self] at h
      cases h
    · simpa only [Files.remove, Function.update_of_ne heq] using h
  exact ⟨fun name' file h => hs.file_lt name' file (hkept h), hs.handle_lt,
    fun name' name'' file h h' => hs.one_name name' name'' file (hkept h) (hkept h')⟩

theorem WellFormed.rename {s : Files N} (hs : s.WellFormed) {source target : N} {file : ℕ}
    (hsource : s.names source = some file) : (s.rename source target file).WellFormed := by
  -- Any other name of the file would be the source, and that one is gone.
  have hcases : ∀ {name file'}, (s.rename source target file).names name = some file' →
      name = target ∧ file' = file ∨ name ≠ source ∧ s.names name = some file' := by
    intro name file' h
    by_cases htarget : name = target
    · subst htarget
      simp only [Files.rename, Function.update_self, Option.some.injEq] at h
      exact Or.inl ⟨rfl, h.symm⟩
    · simp only [Files.rename, Function.update_of_ne htarget] at h
      by_cases heq : name = source
      · subst heq
        rw [Function.update_self] at h
        cases h
      · rw [Function.update_of_ne heq] at h
        exact Or.inr ⟨heq, h⟩
  refine ⟨fun name file' h => ?_, hs.handle_lt, fun name name' file' h h' => ?_⟩
  · rcases hcases h with ⟨-, rfl⟩ | ⟨-, h⟩
    · exact hs.file_lt source _ hsource
    · exact hs.file_lt name file' h
  · rcases hcases h with ⟨hname, hfile⟩ | ⟨hne, hold⟩
    · rcases hcases h' with ⟨hname', -⟩ | ⟨hne', hold'⟩
      · rw [hname, hname']
      · exact absurd (hs.one_name _ _ _ hold' (hfile ▸ hsource)) hne'
    · rcases hcases h' with ⟨-, hfile'⟩ | ⟨-, hold'⟩
      · exact absurd (hs.one_name _ _ _ hold (hfile' ▸ hsource)) hne
      · exact hs.one_name name name' file' hold hold'

/-- Every operation leaves the folder well formed. -/
theorem WellFormed.sem {s s' : Files N} {o : FileOp N} {a : Except FileError o.Res} (hs : s.WellFormed)
    (h : Sem IsTemp s o a s') : s'.WellFormed := by
  cases h with
  | torn hfd _ _ => exact hs.moveHandle hfd _ _
  | @mkstemp name _ _ _ =>
    have hnew := hs.newFile name
    exact ⟨hnew.file_lt, hnew.handle_lt, hnew.one_name⟩
  | created _ => exact hs.newFile _
  | @truncated name file h =>
    have hcut : WellFormed { s with content := Function.update s.content file [] } :=
      ⟨hs.file_lt, hs.handle_lt, hs.one_name⟩
    exact hcut.openHandle (hs.file_lt name file h)
  | openRead h => exact hs.openHandle (hs.file_lt _ _ h)
  | read hfd _ => exact hs.moveHandle hfd _ _
  | write hfd _ => exact hs.moveHandle hfd _ _
  | close _ => exact hs.closeHandle _
  | replace h => exact hs.rename h
  | unlink _ => exact hs.remove _
  | _ => exact hs

/-! ## What a name leads to -/

theorem read?_newFile {s : Files N} (hs : s.WellFormed) {name other : N} (hne : other ≠ name) :
    (s.newFile name).read? other = s.read? other := by
  refine read?_congr (Function.update_of_ne hne _ _) fun file hfile => Function.update_of_ne ?_ _ _
  exact Nat.ne_of_lt (hs.file_lt other file hfile)

omit [DecidableEq N] in
theorem read?_truncate {s : Files N} {file : ℕ} {other : N} (hother : s.names other ≠ some file) :
    (s.truncate file).read? other = s.read? other := by
  refine read?_congr rfl fun file' hfile' => Function.update_of_ne ?_ _ _
  rintro rfl
  exact hother hfile'

omit [DecidableEq N] in
theorem read?_writeAt {s : Files N} {fd : ℕ} {h : Handle} {bytes : List UInt8} {other : N}
    (hother : s.names other ≠ some h.file) : (s.writeAt fd h bytes).read? other = s.read? other := by
  refine read?_congr rfl fun file' hfile' => Function.update_of_ne ?_ _ _
  rintro rfl
  exact hother hfile'

theorem read?_rename_target (s : Files N) (source target : N) (file : ℕ) :
    (s.rename source target file).read? target = some (s.content file) := by
  simp only [read?, rename, Function.update_self, Option.map_some]

end Files
