import Mathlib.Algebra.Order.Field.Rat
import McritSimilarity.Lib.Ensures
import McritSimilarity.Lib.Files

/-!
# Files with modification times

A folder with the time at which each of its files was last written or touched, and a clock that no operation sets
back.  `Sem` are the answers of a folder on which some things may go wrong, the `faults`: any operation of a kind may
fail at any time, and the clock may stand still.  `file?` is what a name shows: a content and a time.

The lemmas on `Sem` say, operation by operation, which answers there are and what they leave of the entries;
`ensures_writeAndClose` puts them together for a file that is written aside.
-/

set_option autoImplicit false

/-- What may go wrong: writing, reading, touching, removing or listing files, and two operations at one time. -/
inductive FileFault where
  | write
  | read
  | touch
  | remove
  | list
  | tie
  deriving DecidableEq

structure TimedFiles (N : Type) where
  files : Files N
  modified : ℕ → ℚ
  clock : ℚ

namespace TimedFiles

variable {N : Type}

/-- The file whose modification time an operation sets. -/
def touched? (s : Files N) : FileOp N → Option ℕ
  | .mkstemp => some s.nextFile
  | .create name => some ((s.names name).getD s.nextFile)
  | .write fd _ => (s.handles fd).map Handle.file
  | .utime name => s.names name
  | _ => none

/-- The kind of an operation that fails; closing a file that was written may still write. -/
def fault (s : Files N) : FileOp N → FileFault
  | .openRead _ => .read
  | .read _ => .read
  | .close fd => if ∃ h, s.handles fd = some h ∧ h.writable = true then .write else .read
  | .unlink _ => .remove
  | .utime _ => .touch
  | .scandir => .list
  | .stat _ => .list
  | _ => .write

/-- From one time to a later one, or to the same one where the clock may stand still. -/
def Passes (faults : Set FileFault) (time time' : ℚ) : Prop := time ≤ time' ∧ (.tie ∉ faults → time < time')

theorem Passes.trans_le {faults : Set FileFault} {a b c : ℚ} (h : Passes faults a b) (hle : b ≤ c) :
    Passes faults a c :=
  ⟨h.1.trans hle, fun htie => (h.2 htie).trans_le hle⟩

theorem Passes.of_le {faults : Set FileFault} {a b c : ℚ} (hle : a ≤ b) (h : Passes faults b c) :
    Passes faults a c :=
  ⟨hle.trans h.1, fun htie => hle.trans_lt (h.2 htie)⟩

/-- A listing has every name once, and `stat` tells the time of the last modification. -/
def Tells (s : TimedFiles N) : (o : FileOp N) → Except FileError o.Res → Prop
  | .scandir, .ok names => names.Nodup ∧ ∀ name, (s.files.names name).isSome = true → name ∈ names
  | .stat name, .ok stat => ∀ file, s.files.names name = some file → stat.modified = s.modified file
  | _, _ => True

variable [DecidableEq N] (IsTemp : N → Prop) (faults : Set FileFault)

structure Sem (s : TimedFiles N) (o : FileOp N) (a : Except FileError o.Res) (t : TimedFiles N) : Prop where
  files : Files.Sem IsTemp s.files o a t.files
  fails : a = .error .failed → fault s.files o ∈ faults
  tells : s.Tells o a
  ticks : Passes faults s.clock t.clock
  kept : ∀ file, touched? s.files o ≠ some file → t.modified file = s.modified file
  touched : ∀ file, touched? s.files o = some file →
    t.modified file = t.clock ∨ t.modified file = s.modified file ∧ ∃ e, a = .error e

/-! ## Entries -/

/-- What a name shows. -/
def file? (s : TimedFiles N) (name : N) : Option (List UInt8 × ℚ) :=
  (s.files.names name).map fun file => (s.files.content file, s.modified file)

/-- The folder is well formed, and no file has been modified after the time of the clock. -/
structure WellTimed (s : TimedFiles N) : Prop where
  wellFormed : s.files.WellFormed
  past : ∀ file, s.modified file ≤ s.clock

variable {IsTemp faults} {s t : TimedFiles N} {name other : N}

omit [DecidableEq N] in
theorem file?_eq_none : s.file? name = none ↔ s.files.names name = none := Option.map_eq_none_iff

omit [DecidableEq N] in
theorem file?_of_name {file : ℕ} (h : s.files.names name = some file) :
    s.file? name = some (s.files.content file, s.modified file) := by
  rw [file?, h, Option.map_some]

omit [DecidableEq N] in
theorem file?_eq_some {e : List UInt8 × ℚ} (h : s.file? name = some e) :
    ∃ file, s.files.names name = some file ∧ e = (s.files.content file, s.modified file) := by
  obtain ⟨file, hfile, rfl⟩ := Option.map_eq_some_iff.1 h
  exact ⟨file, hfile, rfl⟩

omit [DecidableEq N] in
theorem WellTimed.time_le (hs : s.WellTimed) {e : List UInt8 × ℚ} (h : s.file? name = some e) : e.2 ≤ s.clock := by
  obtain ⟨file, -, rfl⟩ := file?_eq_some h
  exact hs.past file

theorem WellTimed.sem {o : FileOp N} {a : Except FileError o.Res} (hs : s.WellTimed) (h : Sem IsTemp faults s o a t) :
    t.WellTimed := by
  refine ⟨hs.wellFormed.sem h.files, fun file => ?_⟩
  have hold : s.modified file ≤ t.clock := (hs.past file).trans h.ticks.1
  by_cases htouched : touched? s.files o = some file
  · rcases h.touched file htouched with heq | ⟨heq, -⟩
    · exact heq.le
    · rwa [heq]
  · rwa [h.kept file htouched]

omit [DecidableEq N] in
theorem file?_congr (hname : t.files.names name = s.files.names name)
    (hfile : ∀ file, s.files.names name = some file →
      t.files.content file = s.files.content file ∧ t.modified file = s.modified file) :
    t.file? name = s.file? name := by
  unfold file?
  rw [hname]
  cases h : s.files.names name with
  | none => rfl
  | some file => rw [Option.map_some, Option.map_some, (hfile file h).1, (hfile file h).2]

/-! ## Operations that only look -/

/-- All files are as before, under the same names. -/
structure Same (s t : TimedFiles N) : Prop where
  names : t.files.names = s.files.names
  content : t.files.content = s.files.content
  modified : t.modified = s.modified

omit [DecidableEq N] in
theorem Same.trans {u : TimedFiles N} (h : s.Same t) (h' : t.Same u) : s.Same u :=
  ⟨h'.names.trans h.names, h'.content.trans h.content, h'.modified.trans h.modified⟩

omit [DecidableEq N] in
theorem Same.file? (h : s.Same t) (name : N) : t.file? name = s.file? name :=
  file?_congr (congrFun h.names name) fun file _ => ⟨congrFun h.content file, congrFun h.modified file⟩

/-- The operations that leave all files as they are. -/
def Looks : FileOp N → Prop
  | .mkdir => True
  | .openRead _ => True
  | .read _ => True
  | .close _ => True
  | .scandir => True
  | .stat _ => True
  | _ => False

omit [DecidableEq N] in
theorem touched?_of_looks {o : FileOp N} (h : Looks o) (s : Files N) : touched? s o = none := by
  cases o <;> first | rfl | exact h.elim

theorem Sem.same {o : FileOp N} {a : Except FileError o.Res} (h : Sem IsTemp faults s o a t) (ho : Looks o) :
    s.Same t := by
  have hmodified : t.modified = s.modified := funext fun file => h.kept file (by simp [touched?_of_looks ho])
  obtain ⟨files, modified, clock⟩ := t
  have hfiles : Files.Sem IsTemp s.files o a files := h.files
  cases hfiles <;> first | exact ⟨rfl, rfl, hmodified⟩ | exact ho.elim

theorem Sem.mkdir {a : Except FileError Unit} (h : Sem IsTemp faults s .mkdir a t) :
    a = .error .failed ∧ .write ∈ faults ∨ a = .ok () := by
  have hfails := h.fails
  obtain ⟨files, modified, clock⟩ := t
  have hfiles : Files.Sem IsTemp s.files .mkdir a files := h.files
  cases hfiles with
  | failed => exact .inl ⟨rfl, hfails rfl⟩
  | missing hneeds => cases hneeds
  | mkdir => exact .inr rfl

theorem Sem.openRead {a : Except FileError ℕ} (h : Sem IsTemp faults s (.openRead name) a t) :
    a = .error .notFound ∧ s.file? name = none ∨ a = .error .failed ∧ .read ∈ faults ∨
      ∃ file fd, s.files.names name = some file ∧ a = .ok fd ∧ t.files.handles fd = some ⟨file, 0, false⟩ := by
  have hfails := h.fails
  obtain ⟨files, modified, clock⟩ := t
  have hfiles : Files.Sem IsTemp s.files (.openRead name) a files := h.files
  cases hfiles with
  | failed => exact .inr (.inl ⟨rfl, hfails rfl⟩)
  | missing hneeds hnone =>
    cases hneeds
    exact .inl ⟨rfl, file?_eq_none.2 hnone⟩
  | openRead hname => exact .inr (.inr ⟨_, _, hname, rfl, Function.update_self ..⟩)

theorem Sem.read {fd : ℕ} {handle : Handle} {a : Except FileError (List UInt8)}
    (h : Sem IsTemp faults s (.read fd) a t) (hfd : s.files.handles fd = some handle) :
    a = .error .failed ∧ .read ∈ faults ∨ ∃ bytes, a = .ok bytes ∧
      Files.IsRead (s.files.content handle.file) handle.position bytes ∧
        t.files.handles fd = some { handle with position := handle.position + bytes.length } := by
  have hfails := h.fails
  obtain ⟨files, modified, clock⟩ := t
  have hfiles : Files.Sem IsTemp s.files (.read fd) a files := h.files
  cases hfiles with
  | failed => exact .inl ⟨rfl, hfails rfl⟩
  | missing hneeds => cases hneeds
  | read hfd' hread =>
    cases hfd.symm.trans hfd'
    exact .inr ⟨_, rfl, hread, Function.update_self ..⟩

theorem Sem.closeRead {fd : ℕ} {handle : Handle} {a : Except FileError Unit}
    (h : Sem IsTemp faults s (.close fd) a t) (hfd : s.files.handles fd = some handle)
    (hread : handle.writable = false) : a = .error .failed ∧ .read ∈ faults ∨ a = .ok () := by
  have hfails := h.fails
  obtain ⟨files, modified, clock⟩ := t
  have hfiles : Files.Sem IsTemp s.files (.close fd) a files := h.files
  cases hfiles with
  | failed =>
    have hfault : fault s.files (.close fd) = .read := by simp [fault, hfd, hread]
    exact .inl ⟨rfl, hfault ▸ hfails rfl⟩
  | missing hneeds => cases hneeds
  | close => exact .inr rfl

theorem Sem.scandir {a : Except FileError (List N)} (h : Sem IsTemp faults s .scandir a t) :
    a = .error .failed ∧ .list ∈ faults ∨ ∃ names, a = .ok names ∧ names.Nodup ∧
      ∀ name, name ∈ names ↔ ∃ e, s.file? name = some e := by
  have hfails := h.fails
  have htells := h.tells
  obtain ⟨files, modified, clock⟩ := t
  have hfiles : Files.Sem IsTemp s.files .scandir a files := h.files
  cases hfiles with
  | failed => exact .inl ⟨rfl, hfails rfl⟩
  | missing hneeds => cases hneeds
  | @scandir names hthere =>
    refine .inr ⟨names, rfl, htells.1, fun name => ?_⟩
    rw [← Option.isSome_iff_exists, file?, Option.isSome_map]
    exact ⟨hthere name, htells.2 name⟩

theorem Sem.stat {a : Except FileError FileStat} (h : Sem IsTemp faults s (.stat name) a t) :
    (∃ e, a = .error e ∧ (s.file? name = none ∨ .list ∈ faults)) ∨
      ∃ e, s.file? name = some e ∧ a = .ok ⟨e.2, e.1.length⟩ := by
  have hfails := h.fails
  have htells := h.tells
  obtain ⟨files, modified, clock⟩ := t
  have hfiles : Files.Sem IsTemp s.files (.stat name) a files := h.files
  cases hfiles with
  | failed => exact .inl ⟨_, rfl, .inr (hfails rfl)⟩
  | missing hneeds hnone =>
    cases hneeds
    exact .inl ⟨_, rfl, .inl (file?_eq_none.2 hnone)⟩
  | @stat _ file hname time =>
    have htime : time = s.modified file := htells file hname
    exact .inr ⟨_, file?_of_name hname, by rw [htime]⟩

/-! ## Operations on names -/

theorem Sem.unlink {a : Except FileError Unit} (h : Sem IsTemp faults s (.unlink name) a t) :
    (t.file? name = none ∨ .remove ∈ faults ∧ t.file? name = s.file? name) ∧
      ∀ other ≠ name, t.file? other = s.file? other := by
  have hkept : ∀ file, t.modified file = s.modified file := fun file => h.kept file nofun
  have hfails := h.fails
  obtain ⟨files, modified, clock⟩ := t
  have hfiles : Files.Sem IsTemp s.files (.unlink name) a files := h.files
  have hsame : ∀ other, file? ⟨s.files, modified, clock⟩ other = s.file? other :=
    fun other => file?_congr rfl fun file _ => ⟨rfl, hkept file⟩
  cases hfiles with
  | failed => exact ⟨.inr ⟨hfails rfl, hsame name⟩, fun other _ => hsame other⟩
  | missing hneeds hnone =>
    cases hneeds
    exact ⟨.inl (file?_eq_none.2 hnone), fun other _ => hsame other⟩
  | unlink hname =>
    refine ⟨.inl (file?_eq_none.2 (Function.update_self ..)), fun other hne => ?_⟩
    exact file?_congr (Function.update_of_ne hne ..) fun file _ => ⟨rfl, hkept file⟩

theorem Sem.utime {a : Except FileError Unit} (hs : s.WellTimed) (h : Sem IsTemp faults s (.utime name) a t)
    {e : List UInt8 × ℚ} (he : s.file? name = some e) :
    (t.file? name = some (e.1, t.clock) ∨ .touch ∈ faults ∧ t.file? name = s.file? name) ∧
      ∀ other ≠ name, t.file? other = s.file? other := by
  obtain ⟨file, hname, rfl⟩ := file?_eq_some he
  have htouched : t.modified file = t.clock ∨ t.modified file = s.modified file ∧ ∃ e, a = .error e :=
    h.touched file hname
  have hkept : ∀ file', file' ≠ file → t.modified file' = s.modified file' := by
    intro file' hne
    refine h.kept file' fun heq => hne ?_
    exact Option.some.inj (heq.symm.trans hname)
  have hfails := h.fails
  obtain ⟨files, modified, clock⟩ := t
  have hfiles : Files.Sem IsTemp s.files (.utime name) a files := h.files
  have htime : modified file = clock ∨ modified file = s.modified file ∧ ∃ e, a = .error e := htouched
  have hentry : file? ⟨s.files, modified, clock⟩ name = some (s.files.content file, modified file) :=
    file?_of_name hname
  have hothers : ∀ other ≠ name, file? ⟨s.files, modified, clock⟩ other = s.file? other := by
    refine fun other hne => file?_congr rfl fun file' hother => ⟨rfl, hkept file' ?_⟩
    rintro rfl
    exact hne (hs.wellFormed.one_name other name _ hother hname)
  cases hfiles with
  | failed =>
    refine ⟨?_, hothers⟩
    rcases htime with heq | ⟨heq, -⟩
    · exact .inl (by rw [hentry, heq])
    · exact .inr ⟨hfails rfl, by rw [hentry, file?_of_name hname, heq]⟩
  | missing hneeds hnone =>
    cases hneeds
    rw [hname] at hnone
    cases hnone
  | utime =>
    have heq : modified file = clock := htime.resolve_right fun h => by simp at h
    exact ⟨.inl (by rw [hentry, heq]), hothers⟩

theorem Sem.replace {source target : N} {a : Except FileError Unit}
    (h : Sem IsTemp faults s (.replace source target) a t) {e : List UInt8 × ℚ} (he : s.file? source = some e) :
    a = .error .failed ∧ .write ∈ faults ∧ s.Same t ∨
      a = .ok () ∧ t.file? target = some e ∧ (source ≠ target → t.file? source = none) ∧
        ∀ other, other ≠ source → other ≠ target → t.file? other = s.file? other := by
  obtain ⟨file, hname, rfl⟩ := file?_eq_some he
  have hkept : t.modified = s.modified := funext fun file => h.kept file nofun
  have hfails := h.fails
  obtain ⟨files, modified, clock⟩ := t
  have hfiles : Files.Sem IsTemp s.files (.replace source target) a files := h.files
  cases hfiles with
  | failed => exact .inl ⟨rfl, hfails rfl, rfl, rfl, hkept⟩
  | missing hneeds hnone =>
    cases hneeds
    rw [hname] at hnone
    cases hnone
  | @replace _ _ file' hname' =>
    cases hname.symm.trans hname'
    refine .inr ⟨rfl, ?_, fun hne => file?_eq_none.2 ?_, fun other hsource htarget => ?_⟩
    · have hentry : file? ⟨s.files.rename source target file, modified, clock⟩ target =
          some (s.files.content file, modified file) := file?_of_name (Function.update_self ..)
      rwa [show modified file = s.modified file from congrFun hkept file] at hentry
    · exact (Function.update_of_ne hne ..).trans (Function.update_self ..)
    · refine file?_congr ?_ fun file' _ => ⟨rfl, congrFun hkept file'⟩
      exact (Function.update_of_ne htarget ..).trans (Function.update_of_ne hsource ..)

/-! ## Files that are written aside -/

/-- The file under a name is new since `s₀`, and nothing else has changed. -/
structure Written (faults : Set FileFault) (s₀ : TimedFiles N) (name : N) (content : List UInt8)
    (t : TimedFiles N) : Prop where
  wellTimed : t.WellTimed
  others : ∀ other ≠ name, t.file? other = s₀.file? other
  entry : ∃ time, t.file? name = some (content, time) ∧ Passes faults s₀.clock time

/-- A handle is at the end of the file that it writes. -/
structure Writing (faults : Set FileFault) (s₀ : TimedFiles N) (fd : ℕ) (name : N) (content : List UInt8)
    (t : TimedFiles N) : Prop extends Written faults s₀ name content t where
  handle : ∃ file, t.files.names name = some file ∧ t.files.handles fd = some ⟨file, content.length, true⟩

variable {s₀ : TimedFiles N} {fd : ℕ} {content : List UInt8}

omit [DecidableEq N] in
theorem Same.written (h : s.Same t) (ht : t.WellTimed) (hs : Written faults s₀ name content s) :
    Written faults s₀ name content t := by
  refine ⟨ht, fun other hne => (h.file? other).trans (hs.others other hne), ?_⟩
  rw [h.file? name]
  exact hs.entry

theorem Sem.mkstemp {a : Except FileError (ℕ × N)} (hs : s.WellTimed) (h : Sem IsTemp faults s .mkstemp a t) :
    a = .error .failed ∧ .write ∈ faults ∧ (∀ other, t.file? other = s.file? other) ∨
      ∃ fd name, a = .ok (fd, name) ∧ IsTemp name ∧ s.file? name = none ∧ Writing faults s fd name [] t := by
  have ht := hs.sem h
  have htouched : t.modified s.files.nextFile = t.clock ∨
      t.modified s.files.nextFile = s.modified s.files.nextFile ∧ ∃ e, a = .error e := h.touched _ rfl
  have hkept : ∀ file, file < s.files.nextFile → t.modified file = s.modified file := by
    refine fun file hlt => h.kept file fun heq => ?_
    exact Nat.ne_of_gt hlt (Option.some.inj heq)
  have hticks := h.ticks
  have hfails := h.fails
  obtain ⟨files, modified, clock⟩ := t
  have hfiles : Files.Sem IsTemp s.files .mkstemp a files := h.files
  cases hfiles with
  | failed =>
    refine .inl ⟨rfl, hfails rfl, fun other => file?_congr rfl fun file hfile => ⟨rfl, hkept file ?_⟩⟩
    exact hs.wellFormed.file_lt other file hfile
  | missing hneeds => cases hneeds
  | @mkstemp name htemp hunused hfree =>
    have htime : modified s.files.nextFile = clock := htouched.resolve_right fun h => by simp at h
    refine .inr ⟨_, name, rfl, htemp, file?_eq_none.2 hfree, ⟨ht, fun other hne => ?_, ?_⟩, ?_⟩
    · refine file?_congr (Function.update_of_ne hne ..) fun file hfile => ?_
      have hlt := hs.wellFormed.file_lt other file hfile
      exact ⟨Function.update_of_ne (Nat.ne_of_lt hlt) .., hkept file hlt⟩
    · refine ⟨clock, ?_, hticks⟩
      have hentry : file? ⟨(s.files.newFile name).rememberTemp name, modified, clock⟩ name =
          some ((s.files.newFile name).content s.files.nextFile, modified s.files.nextFile) :=
        file?_of_name (Function.update_self ..)
      rwa [htime, show (s.files.newFile name).content s.files.nextFile = [] from Function.update_self ..] at hentry
    · exact ⟨s.files.nextFile, Function.update_self .., Function.update_self ..⟩

theorem Sem.write {bytes : List UInt8} {a : Except FileError Unit} (hs : Writing faults s₀ fd name content s)
    (h : Sem IsTemp faults s (.write fd bytes) a t) : a = .ok () ∧ Writing faults s₀ fd name (content ++ bytes) t ∨
      a = .error .failed ∧ .write ∈ faults ∧ ∃ part, Writing faults s₀ fd name part t := by
  obtain ⟨file, hname, hfd⟩ := hs.handle
  have ht := hs.wellTimed.sem h
  obtain ⟨time, hentry, htime⟩ := hs.entry
  have hcontent : s.files.content file = content ∧ s.modified file = time := by
    rw [file?_of_name hname, Option.some.injEq, Prod.mk.injEq] at hentry
    exact hentry
  have htouched : Passes faults s₀.clock (t.modified file) := by
    have htouched? : touched? s.files (.write fd bytes) = some file := by simp [touched?, hfd]
    rcases h.touched file htouched? with heq | ⟨heq, -⟩
    · rw [heq]
      exact htime.trans_le ((hs.wellTimed.time_le hentry).trans h.ticks.1)
    · rwa [heq, hcontent.2]
  have hkept : ∀ file', file' ≠ file → t.modified file' = s.modified file' := by
    intro file' hne
    refine h.kept file' ?_
    simpa [touched?, hfd] using hne.symm
  -- The file holds some bytes more, and its handle is at their end.
  have hmore : ∀ part, t.files.names = s.files.names → t.files.content file = part →
      (∀ file', file' ≠ file → t.files.content file' = s.files.content file') →
      t.files.handles fd = some ⟨file, part.length, true⟩ → Writing faults s₀ fd name part t := by
    intro part hnames hpart hcontents hhandle
    have hname' : t.files.names name = some file := (congrFun hnames name).trans hname
    refine ⟨⟨ht, fun other hne => ?_, t.modified file, ?_, htouched⟩, file, hname', hhandle⟩
    · refine (file?_congr (congrFun hnames other) fun file' hother => ?_).trans (hs.others other hne)
      have hother' : file' ≠ file := by
        rintro rfl
        exact hne (hs.wellTimed.wellFormed.one_name other name _ hother hname)
      exact ⟨hcontents file' hother', hkept file' hother'⟩
    · rw [file?_of_name hname', hpart]
  have hwritten : ∀ part, t.files = s.files.writeAt fd ⟨file, content.length, true⟩ part →
      Writing faults s₀ fd name (content ++ part) t := by
    intro part hfiles
    refine hmore _ (by rw [hfiles]; rfl) ?_ (fun file' hne => ?_) ?_
    · rw [hfiles]
      refine (Function.update_self ..).trans ?_
      rw [hcontent.1, overwrite_end]
    · rw [hfiles]
      exact Function.update_of_ne hne ..
    · rw [hfiles, List.length_append]
      exact Function.update_self ..
  have hfails := h.fails
  obtain ⟨files, modified, clock⟩ := t
  have hfiles : Files.Sem IsTemp s.files (.write fd bytes) a files := h.files
  cases hfiles with
  | failed => exact .inr ⟨rfl, hfails rfl, content, hmore content rfl hcontent.1 (fun _ _ => rfl) hfd⟩
  | missing hneeds => cases hneeds
  | torn hfd' hw hpart =>
    have hfault : fault s.files (.write fd bytes) = .write := rfl
    cases hfd.symm.trans hfd'
    exact .inr ⟨rfl, hfault ▸ hfails rfl, _, hwritten _ rfl⟩
  | write hfd' hw =>
    cases hfd.symm.trans hfd'
    exact .inl ⟨rfl, hwritten _ rfl⟩

theorem Sem.closeWrite {a : Except FileError Unit} (hs : Writing faults s₀ fd name content s)
    (h : Sem IsTemp faults s (.close fd) a t) :
    (a = .ok () ∨ a = .error .failed ∧ .write ∈ faults) ∧ Written faults s₀ name content t := by
  have hwritten := (h.same trivial).written (hs.wellTimed.sem h) hs.toWritten
  obtain ⟨file, -, hfd⟩ := hs.handle
  have hfails := h.fails
  obtain ⟨files, modified, clock⟩ := t
  have hfiles : Files.Sem IsTemp s.files (.close fd) a files := h.files
  cases hfiles with
  | failed =>
    have hfault : fault s.files (.close fd) = .write := by simp [fault, hfd]
    exact ⟨.inr ⟨rfl, hfault ▸ hfails rfl⟩, hwritten⟩
  | missing hneeds => cases hneeds
  | close => exact ⟨.inl rfl, hwritten⟩

/-! ## Answers that there are -/

section Answers

variable {o : FileOp N} {a : Except FileError o.Res} {files : Files N}

theorem passes_succ (time : ℚ) : Passes faults time (time + 1) := ⟨le_of_lt (lt_add_one time), fun _ => lt_add_one time⟩

theorem sem_fail (h : fault s.files o ∈ faults) :
    Sem IsTemp faults s o (.error .failed) ⟨s.files, s.modified, s.clock + 1⟩ where
  files := .failed s.files o
  fails _ := h
  tells := by cases o <;> trivial
  ticks := passes_succ s.clock
  kept _ _ := rfl
  touched _ _ := .inr ⟨rfl, _, rfl⟩

theorem sem_look (h : Files.Sem IsTemp s.files o a files) (ha : a ≠ .error .failed) (htells : s.Tells o a)
    (htouched : touched? s.files o = none) : Sem IsTemp faults s o a ⟨files, s.modified, s.clock + 1⟩ where
  files := h
  fails hfailed := absurd hfailed ha
  tells := htells
  ticks := passes_succ s.clock
  kept _ _ := rfl
  touched file hfile := by
    rw [htouched] at hfile
    cases hfile

theorem sem_touch {file : ℕ} (h : Files.Sem IsTemp s.files o a files) (ha : a ≠ .error .failed)
    (htells : s.Tells o a) (htouched : touched? s.files o = some file) :
    Sem IsTemp faults s o a ⟨files, Function.update s.modified file (s.clock + 1), s.clock + 1⟩ where
  files := h
  fails hfailed := absurd hfailed ha
  tells := htells
  ticks := passes_succ s.clock
  kept file' hne := by
    refine Function.update_of_ne ?_ ..
    rintro rfl
    exact hne htouched
  touched file' hfile := by
    obtain rfl := Option.some.inj (htouched.symm.trans hfile)
    exact .inl (Function.update_self ..)

end Answers

end TimedFiles

/-! ## Writing a text -/

namespace FileOp

open TimedFiles Prog

variable {N ε : Type} [DecidableEq N] {IsTemp : N → Prop} {faults : Set FileFault} {s₀ s : TimedFiles N} {fd : ℕ}
  {name : N} {error : FileError → ε}

theorem ensures_orRaise {o : FileOp N} {post : Outcome ε o.Res → TimedFiles N → Prop}
    (h : ∀ a t, TimedFiles.Sem IsTemp faults s o a t → (∀ r, a = .ok r → post (.returned r) t) ∧
      ∀ e, a = .error e → post (.raised (error e)) t) :
    (orRaise error o).Ensures (TimedFiles.Sem IsTemp faults) post s := by
  intro a t hsem
  cases a with
  | ok r => exact (h _ t hsem).1 r rfl
  | error e => exact (h _ t hsem).2 e rfl

/-- A text raises what ends it early, or that it could not be written. -/
def WriteRaises (faults : Set FileFault) (error : FileError → ε) (failure : Option ε) (e : ε) : Prop :=
  e = error .failed ∧ .write ∈ faults ∨ failure = some e

/-- The text is written up to its end, or up to an error. -/
def WritesTo (faults : Set FileFault) (s₀ : TimedFiles N) (fd : ℕ) (name : N) (content : List UInt8)
    (error : FileError → ε) : Outcome ε Unit → TimedFiles N → Prop
  | .returned _, t => Writing faults s₀ fd name content t
  | .raised e, t => WriteRaises faults error none e ∧ ∃ part, Writing faults s₀ fd name part t
  | .pending, _ => True

theorem ensures_writeAll (pieces : List (List UInt8)) {content : List UInt8}
    (hs : Writing faults s₀ fd name content s) :
    (writeAll error fd pieces).Ensures (TimedFiles.Sem IsTemp faults)
      (WritesTo faults s₀ fd name (content ++ pieces.flatten) error) s := by
  induction pieces generalizing content s with
  | nil =>
    show Writing faults s₀ fd name (content ++ [].flatten) s
    rwa [List.flatten_nil, List.append_nil]
  | cons piece pieces ih =>
    refine Ensures.bind (ensures_orRaise fun a t hsem => ⟨?_, ?_⟩)
    · rintro r rfl
      rcases hsem.write hs with ⟨-, hnext⟩ | ⟨⟨⟩, -⟩
      rw [List.flatten_cons, ← List.append_assoc]
      exact ih hnext
    · rintro e rfl
      rcases hsem.write hs with ⟨⟨⟩, -⟩ | ⟨herror, hfault, hpart⟩
      exact ⟨.inl ⟨congrArg error (Except.error.inj herror), hfault⟩, hpart⟩

/-- The file is closed, with the whole text if no error is raised. -/
def WritesAll (faults : Set FileFault) (s₀ : TimedFiles N) (name : N) (content : List UInt8)
    (error : FileError → ε) (failure : Option ε) : Outcome ε Unit → TimedFiles N → Prop
  | .returned _, t => failure = none ∧ Written faults s₀ name content t
  | .raised e, t => WriteRaises faults error failure e ∧ ∃ part, Written faults s₀ name part t
  | .pending, _ => True

variable {content part : List UInt8} {failure : Option ε}

theorem ensures_close {e : ε} (he : WriteRaises faults error failure e) (hs : Writing faults s₀ fd name part s) :
    (orRaise error (.close fd)).Ensures (TimedFiles.Sem IsTemp faults)
      (ThenEnsures (I := FileI N) (TimedFiles.Sem IsTemp faults) (WritesAll faults s₀ name content error failure)
        fun _ => Prog.raise e) s := by
  refine ensures_orRaise fun a t hsem => ?_
  obtain ⟨hanswer, hwritten⟩ := hsem.closeWrite hs
  refine ⟨fun r _ => ⟨he, part, hwritten⟩, ?_⟩
  rintro e' rfl
  obtain ⟨herror, hfault⟩ := hanswer.resolve_left nofun
  exact ⟨.inl ⟨congrArg error (Except.error.inj herror), hfault⟩, part, hwritten⟩

/-- The end of a text that has met an error: what is left in the buffer is written, and the file is closed. -/
theorem ensures_late {e : ε} (he : WriteRaises faults error failure e) (late : List UInt8)
    (hs : Writing faults s₀ fd name part s) :
    (orRaise error (.write fd late) >>= fun _ => Prog.raise e : Prog (FileI N) ε Unit).Ensures
      (TimedFiles.Sem IsTemp faults) (FinallyEnsures (I := FileI N) (TimedFiles.Sem IsTemp faults)
        (WritesAll faults s₀ name content error failure) (orRaise error (.close fd))) s := by
  refine Ensures.bind (ensures_orRaise fun a t hsem => ⟨?_, ?_⟩)
  · rintro r rfl
    rcases hsem.write hs with ⟨-, hnext⟩ | ⟨⟨⟩, -⟩
    exact ensures_close he hnext
  · rintro e' rfl
    rcases hsem.write hs with ⟨⟨⟩, -⟩ | ⟨herror, hfault, part, hnext⟩
    exact ensures_close (.inl ⟨congrArg error (Except.error.inj herror), hfault⟩) hnext

/-- A text that is written aside is there as a whole when no error is raised. -/
theorem ensures_writeAndClose {pieces : List (List UInt8)} {late : List UInt8}
    (hs : Writing faults s₀ fd name content s) :
    (writeAndClose error fd pieces failure late).Ensures (TimedFiles.Sem IsTemp faults)
      (WritesAll faults s₀ name (content ++ pieces.flatten) error failure) s := by
  refine Ensures.tryFinally (Ensures.tryCatch (Ensures.bind ((ensures_writeAll pieces hs).mono ?_)))
  rintro (_ | e | _) t ht
  · cases failure with
    | none =>
      refine ensures_orRaise fun a u hsem => ?_
      obtain ⟨hanswer, hwritten⟩ := hsem.closeWrite ht
      refine ⟨fun r _ => ⟨rfl, hwritten⟩, ?_⟩
      rintro e rfl
      obtain ⟨herror, hfault⟩ := hanswer.resolve_left nofun
      exact ⟨.inl ⟨congrArg error (Except.error.inj herror), hfault⟩, _, hwritten⟩
    | some e => exact ensures_late (.inr rfl) late ht
  · obtain ⟨he, part, hpart⟩ := ht
    exact ensures_late (.inl (he.resolve_right nofun)) late hpart
  · trivial

end FileOp
