import McritSimilarity.Builtin
import McritSimilarity.Lib.Files

/-!
# Overlapping exports of the corpus

`export_file` called by several threads for one path, with the single steps of its files: the export is
written to `<path>.partial`, which is then renamed.  `ExportsWhole` says that the file at the path always
holds its previous content or one whole export.  The file that is written aside is the same for all
exports to the path, so one that begins cuts off what another one has written and is about to rename:
`not_exportsWhole`.  `exportsWhole` is the property for exports that do not overlap.
-/

set_option autoImplicit false

namespace McritSimilarity

open Python Prog

/-! ## Programs -/

abbrev FileProg (α : Type) := Prog (FileI (List Char)) PyError α

/-- An operation whose failure is raised as an `OSError`. -/
def fileOp (o : FileOp (List Char)) : FileProg o.Res := o.orRaise fun _ => .osError

/-- `path.write_text(…)`. -/
def writeText (path : List Char) (pieces : List (List UInt8)) (late : List UInt8) : FileProg Unit := do
  let fd ← fileOp (.create path)
  FileOp.writeAndClose (fun _ => .osError) fd pieces none late

/-- Exports to one path: what the server answers to each of them, the pieces in which its text is written,
what closing the file writes after an error, and the files when they begin. -/
structure Exports (τ : Type) where
  path : List Char
  client : τ → McritClient
  answer : τ → Except PyError Json
  pieces : Json → List (List UInt8)
  late : τ → List UInt8
  files : Files (List Char)
  wellFormed : files.WellFormed

namespace Exports

variable {τ : Type} (e : Exports τ)

/-- The steps of an operation of an export. -/
def steps (t : τ) : (o : ProcessOp) → FileProg o.Ans
  | .exportCorpus _ => Prog.ret (e.answer t)
  | .writeText path data => (writeText path (e.pieces data) (e.late t)).asExcept
  | .replace source target => (fileOp (.replace source target)).asExcept
  | _ => Prog.spin

/-- `export_file` in its single steps. -/
def program (t : τ) : FileProg Json := (exportFile (e.client t) e.path).inline (J := FileI (List Char)) (e.steps t)

abbrev Threads (τ : Type) := Pool τ (FileI (List Char)) PyError Json (Files (List Char))

/-- All exports before their first step. -/
def pool : Threads τ := ⟨e.files, fun t => some (e.program t)⟩

abbrev Event (τ : Type) := τ × Prog.Event (FileI (List Char))

/-- A step of an export. -/
def Step [DecidableEq τ] : Threads τ → Event τ → Threads τ → Prop :=
  fun p l q => p.OpStep (Files.Sem fun _ => False) l.1 l.2.1 l.2.2 q

/-- The file that the exports replace. -/
def target : List Char := pathText e.path

/-- The file that they write. -/
def aside : List Char := e.target ++ ".partial".toList

/-- The text of a whole export. -/
def text (data : Json) : List UInt8 := (e.pieces data).flatten

/-- The exports that have renamed their file, first one first. -/
def renamed (tr : List (Event τ)) : List τ :=
  tr.filterMap fun
    | (t, ⟨.replace _ _, .ok _⟩) => some t
    | _ => none

/-- The file at the path is a whole export of this thread. -/
def Holds (t : τ) (s : Files (List Char)) : Prop :=
  ∃ data, e.answer t = .ok data ∧ s.read? e.target = some (e.text data)

/-- The file at the path is as before or a whole export, and after an export that returned it is that
export or one that was renamed later. -/
structure AllOrNothing (tr : List (Event τ)) (p : Threads τ) : Prop where
  whole : p.shared.read? e.target = e.files.read? e.target ∨ ∃ t ∈ renamed tr, e.Holds t p.shared
  reported : ∀ t content, p.threads t = some (.ret content) → ∃ before after,
    renamed tr = before ++ t :: after ∧ ∃ u ∈ t :: after, e.Holds u p.shared

/-- The thread has not begun, or it has ended. -/
def Idle (p : Threads τ) (t : τ) : Prop :=
  p.threads t = some (e.program t) ∨ (∃ content, p.threads t = some (.ret content)) ∨
    ∃ error, p.threads t = some (.raise error)

/-- An export opens the file it writes only while no other export is under way. -/
def Apart (p : Threads τ) (l : Event τ) : Prop :=
  ∀ name, l.2.1 = .create name → ∀ u, u ≠ l.1 → e.Idle p u

end Exports

/-- In every run of exports to one path their file is replaced as a whole. -/
def ExportsWhole (τ : Type) [DecidableEq τ]
    (step : Exports τ → Exports.Threads τ → Exports.Event τ → Exports.Threads τ → Prop) : Prop :=
  ∀ (e : Exports τ) tr p, Steps (step e) e.pool tr p → e.AllOrNothing tr p

/-! ## The stages of an export -/

namespace Exports

variable {τ : Type} (e : Exports τ)

inductive Stage where
  | waiting
  | writing (fd : ℕ) (done : List UInt8)
  /-- A write has failed. -/
  | broken (fd : ℕ)
  | written (bytes : List UInt8)
  | renamed
  | failed

/-- The stages between opening the file and its end. -/
def Stage.Active : Stage → Prop
  | writing _ _ => True
  | broken _ => True
  | written _ => True
  | _ => False

def Stage.allowed (t : τ) : Stage → FileOp (List Char) → Prop
  | waiting, .create name => name = e.aside
  | writing fd _, .write fd' _ => fd' = fd
  | writing fd _, .close fd' => fd' = fd
  | broken fd, .write fd' _ => fd' = fd
  | broken fd, .close fd' => fd' = fd
  | written bytes, .replace source name =>
    source = e.aside ∧ name = e.target ∧ ∃ data, e.answer t = .ok data ∧ bytes = e.text data
  | _, _ => False

def Stage.next : Stage → (o : FileOp (List Char)) → Except FileError o.Res → Stage
  | waiting, .create _, .ok fd => writing fd []
  | writing fd done, .write _ bytes, .ok _ => writing fd (done ++ bytes)
  | writing fd _, .write _ _, .error _ => broken fd
  | writing _ done, .close _, .ok _ => written done
  | broken fd, .write _ _, _ => broken fd
  | written _, .replace _ _, .ok _ => renamed
  | _, _, _ => failed

/-- What an export does in which of its stages. -/
def protocol : Protocol (FileI (List Char)) where
  State := τ × Stage
  allowed s o := s.2.allowed e s.1 o
  next s o a := (s.1, s.2.next o a)

/-- An export has ended; it has renamed its file if it returned. -/
def Ended (out : Outcome PyError Json) (s : τ × Stage) : Prop :=
  ¬ s.2.Active ∧ ∀ content, out = .returned content → s.2 = .renamed

section Follows

variable {e} {α : Type} {t : τ} {stage : Stage}

theorem writes (fd : ℕ) : FileOp.Writes e.protocol fd (fun done => (t, .writing fd done)) (t, .broken fd) where
  write _ _ := rfl
  written _ _ := rfl
  torn _ _ _ := rfl
  again _ := rfl
  stays _ _ := rfl

/-- The text is written, or the export has failed. -/
theorem follows_writeText (pieces : List (List UInt8)) (late : List UInt8) :
    (writeText e.aside pieces late).Follows e.protocol (fun out s =>
      (out = .returned () ∧ s = (t, .written pieces.flatten)) ∨
        (∃ error, out = .raised error) ∧ s = (t, .failed)) (t, .waiting) := by
  refine Follows.bind (FileOp.follows_orRaise rfl (fun fd => ?_) fun _ => Or.inr ⟨⟨_, rfl⟩, rfl⟩)
  refine (writes fd).writeAndClose (fun _ => ?_) nofun fun error => ?_
  · exact FileOp.follows_orRaise rfl (fun _ => Or.inl ⟨rfl, rfl⟩) fun _ => Or.inr ⟨⟨_, rfl⟩, rfl⟩
  · exact FileOp.follows_orRaise rfl (fun _ => Or.inr ⟨⟨_, rfl⟩, rfl⟩) fun _ => Or.inr ⟨⟨_, rfl⟩, rfl⟩

theorem inline_attempt {β γ : Type} {o : ProcessOp} {result : o.Ans → Except PyError β}
    {k : β → ProcessProg γ} (f : (o : ProcessOp) → FileProg o.Ans) :
    (attempt o result >>= k).inline (J := FileI (List Char)) f =
      f o >>= fun a => Prog.ofExcept (result a) >>= fun b => (k b).inline (J := FileI (List Char)) f := by
  show ((f o).bind fun a => (Prog.ofExcept (result a) >>= k).inline (J := FileI (List Char)) f) = _
  congr 1
  funext a
  cases result a <;> rfl

theorem program_eq (t : τ) : e.program t = (do
    let data ← Prog.ofExcept (e.answer t)
    match withNameSuffix e.path ".partial".toList with
    | none => Prog.raise (.builtin .valueError)
    | some aside => do
      writeText aside (e.pieces data) (e.late t)
      fileOp (.replace aside e.target)
      return field data "content") := by
  unfold program exportFile
  rw [inline_attempt]
  show (Prog.ofExcept (e.answer t) >>= _) = _
  congr 1
  funext data
  cases withNameSuffix e.path ".partial".toList with
  | none => rfl
  | some aside =>
    show Prog.inline (J := FileI (List Char)) (e.steps t) (attempt (.writeText aside data) id >>= _) = _
    rw [inline_attempt]
    refine (asExcept_bind_ofExcept (writeText aside (e.pieces data) (e.late t)) _).trans ?_
    congr 1
    funext _
    rw [inline_attempt]
    exact asExcept_bind_ofExcept (fileOp (.replace aside e.target)) _

theorem follows_program (t : τ) : (e.program t).Follows e.protocol Ended (t, .waiting) := by
  have hwaiting : ∀ error : PyError, Ended (.raised error) (t, .waiting) := fun _ => ⟨id, nofun⟩
  rw [program_eq]
  cases hanswer : e.answer t with
  | error error => exact hwaiting error
  | ok data =>
    show Prog.Follows e.protocol Ended (t, Stage.waiting) (match withNameSuffix e.path ".partial".toList with
      | none => _
      | some aside => _)
    cases hname : withNameSuffix e.path ".partial".toList with
    | none => exact hwaiting _
    | some aside =>
      obtain rfl : aside = e.aside := by
        unfold withNameSuffix at hname
        split_ifs at hname
        exact (Option.some.inj hname).symm
      refine Follows.bind ((follows_writeText (e.pieces data) (e.late t)).mono ?_)
      rintro out s (⟨rfl, rfl⟩ | ⟨⟨error, rfl⟩, rfl⟩)
      · refine Follows.bind (FileOp.follows_orRaise ⟨rfl, rfl, data, hanswer, rfl⟩ (fun _ => ?_) fun _ => ?_)
        · exact ⟨id, fun _ _ => rfl⟩
        · exact ⟨id, nofun⟩
      · exact ⟨id, nofun⟩

end Follows

/-! ## What the exports keep -/

/-- What a stage says of the files. -/
def StageOk (s : Files (List Char)) : Stage → Prop
  | .writing fd done => ∃ file, s.handles fd = some ⟨file, done.length, true⟩ ∧ s.content file = done ∧
      s.names e.aside = some file
  | .broken fd => ∀ h, s.handles fd = some h → s.names e.target ≠ some h.file
  | .written bytes => s.read? e.aside = some bytes
  | _ => True

/-- At most one export is under way, and the file at the path is whole. -/
structure Sound (tr : List (Event τ)) (stage : τ → τ × Stage) (s : Files (List Char)) : Prop where
  wellFormed : s.WellFormed
  thread : ∀ t, (stage t).1 = t
  whole : renamed tr = [] ∧ s.read? e.target = e.files.read? e.target ∨
    ∃ before t, renamed tr = before ++ [t] ∧ e.Holds t s
  returned : ∀ t, (stage t).2 = .renamed → t ∈ renamed tr
  one : ∀ t u, (stage t).2.Active → (stage u).2.Active → t = u
  stages : ∀ t, e.StageOk s (stage t).2

variable {e}

theorem aside_ne_target : e.aside ≠ e.target := by
  intro h
  have hlength := congrArg List.length h
  simp [aside] at hlength

theorem stageOk_of_not_active {s : Files (List Char)} {stage : Stage} (h : ¬ stage.Active) : e.StageOk s stage := by
  cases stage with
  | writing fd done => exact absurd trivial h
  | broken fd => exact absurd trivial h
  | written bytes => exact absurd trivial h
  | _ => trivial

section Sound

variable [DecidableEq τ] {tr : List (Event τ)} {stage : τ → τ × Stage} {s s' : Files (List Char)} {t : τ}
  {next : Stage}

/-- The export that takes a step is the only one under way, so that only its own stage has to be
looked at. -/
theorem Sound.update (h : e.Sound tr stage s) (hothers : ∀ u, u ≠ t → ¬ (stage u).2.Active)
    (hwf : s'.WellFormed) {ev : Prog.Event (FileI (List Char))}
    (hwhole : renamed (tr ++ [(t, ev)]) = [] ∧ s'.read? e.target = e.files.read? e.target ∨
      ∃ before u, renamed (tr ++ [(t, ev)]) = before ++ [u] ∧ e.Holds u s')
    (hreturned : next = .renamed → t ∈ renamed (tr ++ [(t, ev)])) (hnext : e.StageOk s' next) :
    e.Sound (tr ++ [(t, ev)]) (Function.update stage t (t, next)) s' where
  wellFormed := hwf
  thread u := by
    by_cases hut : u = t
    · subst hut
      rw [Function.update_self]
    · rw [Function.update_of_ne hut]
      exact h.thread u
  whole := hwhole
  returned u hu := by
    by_cases hut : u = t
    · subst hut
      rw [Function.update_self] at hu
      exact hreturned hu
    · rw [Function.update_of_ne hut] at hu
      rw [renamed, List.filterMap_append]
      exact List.mem_append_left _ (h.returned u hu)
  one u v hu hv := by
    have hself : ∀ {u}, (Function.update stage t (t, next) u).2.Active → u = t := by
      intro u hu
      by_contra hut
      rw [Function.update_of_ne hut] at hu
      exact hothers u hut hu
    rw [hself hu, hself hv]
  stages u := by
    by_cases hut : u = t
    · subst hut
      rw [Function.update_self]
      exact hnext
    · rw [Function.update_of_ne hut]
      exact stageOk_of_not_active (hothers u hut)

/-- A step that leaves the file at the path as it is. -/
theorem Sound.keep (h : e.Sound tr stage s) (hothers : ∀ u, u ≠ t → ¬ (stage u).2.Active)
    (hwf : s'.WellFormed) {ev : Prog.Event (FileI (List Char))} (hrenamed : renamed [(t, ev)] = [])
    (hread : s'.read? e.target = s.read? e.target) (hne : next ≠ .renamed) (hnext : e.StageOk s' next) :
    e.Sound (tr ++ [(t, ev)]) (Function.update stage t (t, next)) s' := by
  have hsame : renamed (tr ++ [(t, ev)]) = renamed tr := by
    rw [renamed, List.filterMap_append]
    exact (congrArg _ hrenamed).trans (List.append_nil _)
  refine h.update hothers hwf ?_ (fun heq => absurd heq hne) hnext
  rw [hsame, hread]
  rcases h.whole with hbefore | ⟨before, u, hlast, data, hanswer, hholds⟩
  · exact Or.inl hbefore
  · exact Or.inr ⟨before, u, hlast, data, hanswer, hread.trans hholds⟩

omit [DecidableEq τ] in
/-- The file aside is not the file at the path. -/
theorem Sound.target_ne (h : e.Sound tr stage s) {file : ℕ} (haside : s.names e.aside = some file) :
    s.names e.target ≠ some file :=
  fun htarget => aside_ne_target (h.wellFormed.one_name _ _ file haside htarget)

theorem sound_create (h : e.Sound tr stage s) (hothers : ∀ u, u ≠ t → ¬ (stage u).2.Active)
    {a : Except FileError (FileOp.create e.aside).Res}
    (hsem : Files.Sem (fun _ => False) s (.create e.aside) a s') :
    e.Sound (tr ++ [(t, ⟨.create e.aside, a⟩)])
      (Function.update stage t (t, Stage.waiting.next (.create e.aside) a)) s' := by
  have hwf := h.wellFormed.sem hsem
  cases hsem with
  | failed => exact h.keep hothers hwf rfl rfl nofun trivial
  | missing hneeds => cases hneeds
  | created =>
    refine h.keep hothers hwf rfl (Files.read?_newFile h.wellFormed aside_ne_target.symm) nofun
      ⟨s.nextFile, ?_, ?_, ?_⟩
    · exact Function.update_self _ _ _
    · exact Function.update_self _ _ _
    · exact Function.update_self _ _ _
  | truncated hfile =>
    refine h.keep hothers hwf rfl (Files.read?_truncate (h.target_ne hfile)) nofun ⟨_, ?_, ?_, hfile⟩
    · exact Function.update_self _ _ _
    · exact Function.update_self _ _ _

theorem sound_write (h : e.Sound tr stage s) (hothers : ∀ u, u ≠ t → ¬ (stage u).2.Active) {fd : ℕ}
    {done bytes : List UInt8} (hstage : e.StageOk s (.writing fd done))
    {a : Except FileError (FileOp.write (N := List Char) fd bytes).Res}
    (hsem : Files.Sem (fun _ => False) s (.write fd bytes) a s') :
    e.Sound (tr ++ [(t, ⟨.write fd bytes, a⟩)])
      (Function.update stage t (t, (Stage.writing fd done).next (.write fd bytes) a)) s' := by
  have hwf := h.wellFormed.sem hsem
  obtain ⟨file, hhandle, hcontent, haside⟩ := hstage
  have htarget := h.target_ne haside
  cases hsem with
  | failed =>
    refine h.keep hothers hwf rfl rfl nofun fun h' hh' => ?_
    rw [hhandle, Option.some.injEq] at hh'
    exact hh' ▸ htarget
  | missing hneeds => cases hneeds
  | torn hfd =>
    rw [hhandle, Option.some.injEq] at hfd
    subst hfd
    refine h.keep hothers hwf rfl (Files.read?_writeAt htarget) nofun fun h' hh' => ?_
    simp only [Files.writeAt, Function.update_self, Option.some.injEq] at hh'
    exact hh' ▸ htarget
  | write hfd =>
    rw [hhandle, Option.some.injEq] at hfd
    subst hfd
    refine h.keep hothers hwf rfl (Files.read?_writeAt htarget) nofun ⟨file, ?_, ?_, haside⟩
    · simp [Files.writeAt]
    · simp only [Files.writeAt, Function.update_self]
      rw [← hcontent]
      exact overwrite_end _ _

theorem sound_close (h : e.Sound tr stage s) (hothers : ∀ u, u ≠ t → ¬ (stage u).2.Active) {fd : ℕ}
    {done : List UInt8} (hstage : e.StageOk s (.writing fd done))
    {a : Except FileError (FileOp.close (N := List Char) fd).Res}
    (hsem : Files.Sem (fun _ => False) s (.close fd) a s') :
    e.Sound (tr ++ [(t, ⟨.close fd, a⟩)])
      (Function.update stage t (t, (Stage.writing fd done).next (.close fd) a)) s' := by
  have hwf := h.wellFormed.sem hsem
  obtain ⟨file, -, hcontent, haside⟩ := hstage
  cases hsem with
  | failed => exact h.keep hothers hwf rfl rfl nofun trivial
  | missing hneeds => cases hneeds
  | close =>
    refine h.keep hothers hwf rfl rfl nofun ?_
    show s.read? e.aside = some done
    rw [Files.read?, haside, Option.map_some, hcontent]

/-- After a failed write nothing that is written reaches the path. -/
theorem sound_broken (h : e.Sound tr stage s) (hothers : ∀ u, u ≠ t → ¬ (stage u).2.Active) {fd : ℕ}
    (hstage : e.StageOk s (.broken fd)) {bytes : List UInt8}
    {a : Except FileError (FileOp.write (N := List Char) fd bytes).Res}
    (hsem : Files.Sem (fun _ => False) s (.write fd bytes) a s') :
    e.Sound (tr ++ [(t, ⟨.write fd bytes, a⟩)])
      (Function.update stage t (t, (Stage.broken fd).next (.write fd bytes) a)) s' := by
  have hwf := h.wellFormed.sem hsem
  have hwritten : ∀ {h' : Handle} {part : List UInt8}, s.handles fd = some h' →
      e.StageOk (s.writeAt fd h' part) (.broken fd) := by
    intro h' part hfd h'' hh''
    simp only [Files.writeAt, Function.update_self, Option.some.injEq] at hh''
    exact hh'' ▸ hstage h' hfd
  cases hsem with
  | failed => exact h.keep hothers hwf rfl rfl nofun hstage
  | missing hneeds => cases hneeds
  | torn hfd => exact h.keep hothers hwf rfl (Files.read?_writeAt (hstage _ hfd)) nofun (hwritten hfd)
  | write hfd => exact h.keep hothers hwf rfl (Files.read?_writeAt (hstage _ hfd)) nofun (hwritten hfd)

theorem sound_replace (h : e.Sound tr stage s) (hothers : ∀ u, u ≠ t → ¬ (stage u).2.Active)
    {data : Json} (hanswer : e.answer t = .ok data) (hstage : e.StageOk s (.written (e.text data)))
    {a : Except FileError (FileOp.replace e.aside e.target).Res}
    (hsem : Files.Sem (fun _ => False) s (.replace e.aside e.target) a s') :
    e.Sound (tr ++ [(t, ⟨.replace e.aside e.target, a⟩)])
      (Function.update stage t (t, (Stage.written (e.text data)).next (.replace e.aside e.target) a)) s' := by
  have hwf := h.wellFormed.sem hsem
  cases hsem with
  | failed => exact h.keep hothers hwf rfl rfl nofun trivial
  | missing => exact h.keep hothers hwf rfl rfl nofun trivial
  | replace hfile =>
    have hread : s.read? e.aside = some (e.text data) := hstage
    rw [Files.read?, hfile, Option.map_some] at hread
    have hrenamed : renamed (tr ++ [(t, ⟨.replace e.aside e.target, .ok ()⟩)]) = renamed tr ++ [t] := by
      rw [renamed, List.filterMap_append]
      rfl
    refine h.update hothers hwf (Or.inr ⟨renamed tr, t, hrenamed, data, hanswer, ?_⟩) (fun _ => ?_) trivial
    · rw [Files.read?_rename_target]
      exact hread
    · rw [hrenamed]
      exact List.mem_append_right _ (List.mem_singleton_self t)

omit [DecidableEq τ] in
/-- An export that is still to begin is in no stage of its own. -/
theorem not_active_of_program {st : τ × Stage} (h : (e.program t).Follows e.protocol Ended st) :
    ¬ st.2.Active := by
  rw [program_eq] at h
  cases hanswer : e.answer t with
  | error error =>
    rw [hanswer] at h
    exact And.left h
  | ok data =>
    rw [hanswer] at h
    replace h : Prog.Follows e.protocol Ended st (match withNameSuffix e.path ".partial".toList with
      | none => Prog.raise (.builtin .valueError)
      | some aside => do
        writeText aside (e.pieces data) (e.late t)
        fileOp (.replace aside e.target)
        return field data "content") := h
    cases hname : withNameSuffix e.path ".partial".toList with
    | none =>
      rw [hname] at h
      exact And.left h
    | some aside =>
      rw [hname] at h
      obtain ⟨u, stage⟩ := st
      have hallowed : stage.allowed e u (.create aside) := And.left h
      cases stage with
      | waiting => exact id
      | _ => exact hallowed.elim

omit [DecidableEq τ] in
theorem not_active_of_idle {p : Threads τ} {u : τ}
    (hp : ∀ prog, p.threads u = some prog → prog.Follows e.protocol Ended (stage u)) (h : e.Idle p u) :
    ¬ (stage u).2.Active := by
  rcases h with hbegin | ⟨content, hend⟩ | ⟨error, hend⟩
  · exact not_active_of_program (hp _ hbegin)
  · exact And.left (hp _ hend)
  · exact And.left (hp _ hend)

/-- The step lemma. -/
theorem sound_step {p : Threads τ} {o : FileOp (List Char)} {a : Except FileError o.Res}
    (hp : p.Tracked e.protocol (fun _ => Ended) e.Sound tr stage) (hcond : e.Apart p (t, ⟨o, a⟩))
    (hallowed : (stage t).2.allowed e (stage t).1 o) (hsem : Files.Sem (fun _ => False) p.shared o a s') :
    e.Sound (tr ++ [(t, ⟨o, a⟩)]) (Function.update stage t (e.protocol.next (stage t) o a)) s' := by
  obtain ⟨hthreads, h⟩ := hp
  have hone : (stage t).2.Active → ∀ u, u ≠ t → ¬ (stage u).2.Active :=
    fun ht u hut hu => hut (h.one u t hu ht)
  have hstage := h.stages t
  rcases hst : stage t with ⟨u, st⟩
  obtain rfl : u = t := by
    have := h.thread t
    rwa [hst] at this
  rw [hst] at hallowed hone hstage
  show e.Sound _ (Function.update stage u (u, st.next o a)) s'
  cases st with
  | waiting =>
    cases o with
    | create name =>
      obtain rfl : name = e.aside := hallowed
      exact sound_create h (fun v hv => not_active_of_idle (hthreads v) (hcond _ rfl v hv)) hsem
    | _ => exact hallowed.elim
  | writing fd done =>
    cases o with
    | write fd' bytes =>
      obtain rfl : fd' = fd := hallowed
      exact sound_write h (hone trivial) hstage hsem
    | close fd' =>
      obtain rfl : fd' = fd := hallowed
      exact sound_close h (hone trivial) hstage hsem
    | _ => exact hallowed.elim
  | broken fd =>
    cases o with
    | write fd' bytes =>
      obtain rfl : fd' = fd := hallowed
      exact sound_broken h (hone trivial) hstage hsem
    | close fd' =>
      have hsame : s'.read? e.target = p.shared.read? e.target := by
        cases hsem <;> rfl
      exact h.keep (hone trivial) (h.wellFormed.sem hsem) rfl hsame nofun trivial
    | _ => exact hallowed.elim
  | written bytes =>
    cases o with
    | replace source name =>
      obtain ⟨rfl, rfl, data, hanswer, rfl⟩ := hallowed
      exact sound_replace h (hone trivial) hanswer hstage hsem
    | _ => exact hallowed.elim
  | _ =>
    cases o <;> exact hallowed.elim

end Sound

end Exports

open Exports

/-- Exports that do not overlap replace their file as a whole. -/
theorem exportsWhole (τ : Type) [DecidableEq τ] : ExportsWhole τ fun e => restrict Step e.Apart := by
  intro e tr p hrun
  have hstart : e.pool.Tracked e.protocol (fun _ => Ended) e.Sound [] fun t => (t, .waiting) := by
    refine ⟨fun t prog ht => ?_, e.wellFormed, fun _ => rfl, Or.inl ⟨rfl, rfl⟩, nofun, nofun, fun _ => trivial⟩
    obtain rfl := Option.some.inj ht
    exact follows_program t
  obtain ⟨stage, hthreads, hsound⟩ := Pool.Tracked.steps hrun
    (fun tr p phase t o a s' hp hcond hallowed hsem => sound_step hp hcond hallowed hsem) hstart
  rw [List.nil_append] at hsound
  refine ⟨?_, fun t content ht => ?_⟩
  · rcases hsound.whole with ⟨-, hbefore⟩ | ⟨before, t, hrenamed, hholds⟩
    · exact Or.inl hbefore
    · refine Or.inr ⟨t, ?_, hholds⟩
      rw [hrenamed]
      exact List.mem_append_right _ (List.mem_singleton_self t)
  · have hstage : (stage t).2 = .renamed := And.right (hthreads t _ ht) content rfl
    obtain ⟨before, after, hsplit⟩ := List.append_of_mem (hsound.returned t hstage)
    refine ⟨before, after, hsplit, ?_⟩
    rcases hsound.whole with ⟨hnil, -⟩ | ⟨before', u, hrenamed, hholds⟩
    · rw [hnil] at hsplit
      simp at hsplit
    · refine ⟨u, List.mem_of_getLast? ?_, hholds⟩
      rw [← List.getLast?_append_cons before, ← hsplit, hrenamed, List.getLast?_concat]

/-- Three exports to a new file; the text of each is its number between braces. -/
def exportsInTurn : Exports (Fin 3) where
  path := "c.json".toList
  client _ := ⟨remoteServer, none, none, none⟩
  answer t := .ok (.int t)
  pieces
    | .int n => [[0x7b], [0x30 + n.toNat.toUInt8, 0x7d]]
    | _ => []
  late _ := []
  files := .empty
  wellFormed := Files.wellFormed_empty

/-- The first export replaces the file, the second one fails while it writes, and the third one replaces the file
again. -/
def turnTrace : List (Exports.Event (Fin 3)) :=
  let aside := exportsInTurn.aside
  let target := exportsInTurn.target
  [(0, ⟨.create aside, .ok 0⟩), (0, ⟨.write 0 [0x7b], .ok ()⟩), (0, ⟨.write 0 [0x30, 0x7d], .ok ()⟩),
    (0, ⟨.close 0, .ok ()⟩), (0, ⟨.replace aside target, .ok ()⟩),
    (1, ⟨.create aside, .ok 1⟩), (1, ⟨.write 1 [0x7b], .ok ()⟩), (1, ⟨.write 1 [0x31, 0x7d], .error .failed⟩),
    (1, ⟨.write 1 [], .ok ()⟩), (1, ⟨.close 1, .ok ()⟩),
    (2, ⟨.create aside, .ok 2⟩), (2, ⟨.write 2 [0x7b], .ok ()⟩), (2, ⟨.write 2 [0x32, 0x7d], .ok ()⟩),
    (2, ⟨.close 2, .ok ()⟩), (2, ⟨.replace aside target, .ok ()⟩)]

/-- An export that opens no file may be under way with others. -/
theorem apart_of_not_create {τ : Type} {e : Exports τ} {p : Threads τ} {l : Exports.Event τ}
    (h : ∀ name, l.2.1 ≠ .create name) : e.Apart p l := fun name hname => absurd hname (h name)

theorem run_exportsInTurn : ∃ p, Steps (restrict Step exportsInTurn.Apart) exportsInTurn.pool turnTrace p ∧
    p.shared.read? exportsInTurn.target = some [0x7b, 0x32, 0x7d] := by
  refine ⟨_, .cons ⟨?_, Pool.opStep_call rfl (.created rfl)⟩
    (.cons ⟨apart_of_not_create nofun, Pool.opStep_call rfl (.write rfl rfl)⟩
    (.cons ⟨apart_of_not_create nofun, Pool.opStep_call rfl (.write rfl rfl)⟩
    (.cons ⟨apart_of_not_create nofun, Pool.opStep_call rfl (.close rfl)⟩
    (.cons ⟨apart_of_not_create nofun, Pool.opStep_call rfl (.replace rfl)⟩
    (.cons ⟨?_, Pool.opStep_call rfl (.created rfl)⟩
    (.cons ⟨apart_of_not_create nofun, Pool.opStep_call rfl (.write rfl rfl)⟩
    (.cons ⟨apart_of_not_create nofun, Pool.opStep_call rfl (.torn rfl rfl List.nil_prefix)⟩
    (.cons ⟨apart_of_not_create nofun, Pool.opStep_call rfl (.write rfl rfl)⟩
    (.cons ⟨apart_of_not_create nofun, Pool.opStep_call rfl (.close rfl)⟩
    (.cons ⟨?_, Pool.opStep_call rfl (.truncated rfl)⟩
    (.cons ⟨apart_of_not_create nofun, Pool.opStep_call rfl (.write rfl rfl)⟩
    (.cons ⟨apart_of_not_create nofun, Pool.opStep_call rfl (.write rfl rfl)⟩
    (.cons ⟨apart_of_not_create nofun, Pool.opStep_call rfl (.close rfl)⟩
    (.cons ⟨apart_of_not_create nofun, Pool.opStep_call rfl (.replace rfl)⟩ (.refl _))))))))))))))), ?_⟩
  · rintro - - u -
    exact Or.inl rfl
  · rintro - - u hu
    match u with
    | 0 => exact Or.inr (Or.inl ⟨_, rfl⟩)
    | 1 => exact absurd rfl hu
    | 2 => exact Or.inl rfl
  · rintro - - u hu
    match u with
    | 0 => exact Or.inr (Or.inl ⟨_, rfl⟩)
    | 1 => exact Or.inr (Or.inr ⟨_, rfl⟩)
    | 2 => exact absurd rfl hu
  · rfl

/-- The file at the path holds the last export, whatever the failed one left aside. -/
theorem exportsWhole_inTurn : renamed turnTrace = [0, 2] ∧
    ∃ p, Steps (restrict Step exportsInTurn.Apart) exportsInTurn.pool turnTrace p ∧
      p.shared.read? exportsInTurn.target = some [0x7b, 0x32, 0x7d] ∧ exportsInTurn.AllOrNothing turnTrace p := by
  obtain ⟨p, hrun, hread⟩ := run_exportsInTurn
  exact ⟨rfl, p, hrun, hread, exportsWhole (Fin 3) exportsInTurn turnTrace p hrun⟩

/-! ## An export that begins before another one renames its file -/

/-- Two exports of an empty corpus to a new file. -/
def overlappingExports : Exports Bool where
  path := "c.json".toList
  client _ := ⟨remoteServer, none, none, none⟩
  answer _ := .ok (.dict [])
  pieces _ := [[0x7b], [0x7d]]
  late _ := []
  files := .empty
  wellFormed := Files.wellFormed_empty

/-- One export has written its file when the other one opens it, and then renames it. -/
theorem run_overlappingExports : ∃ tr p, Steps Step overlappingExports.pool tr p ∧
    p.shared.read? overlappingExports.target = some [] :=
  ⟨_, _, .cons (l := (true, ⟨.create overlappingExports.aside, .ok 0⟩)) (Pool.opStep_call rfl (.created rfl))
    (.cons (l := (true, ⟨.write 0 [0x7b], .ok ()⟩)) (Pool.opStep_call rfl (.write rfl rfl))
    (.cons (l := (true, ⟨.write 0 [0x7d], .ok ()⟩)) (Pool.opStep_call rfl (.write rfl rfl))
    (.cons (l := (true, ⟨.close 0, .ok ()⟩)) (Pool.opStep_call rfl (.close rfl))
    (.cons (l := (false, ⟨.create overlappingExports.aside, .ok 1⟩)) (Pool.opStep_call rfl (.truncated rfl))
    (.cons (l := (true, ⟨.replace overlappingExports.aside overlappingExports.target, .ok ()⟩))
      (Pool.opStep_call rfl (.replace rfl)) (.refl _)))))), rfl⟩

theorem not_exportsWhole : ¬ ExportsWhole Bool fun _ => Step := by
  intro h
  obtain ⟨tr, p, hrun, hread⟩ := run_overlappingExports
  rcases (h overlappingExports tr p hrun).whole with hbefore | ⟨t, -, data, -, hholds⟩
  · rw [hread] at hbefore
    cases hbefore
  · rw [hread] at hholds
    have htext : ([] : List UInt8) = [0x7b, 0x7d] := Option.some.inj hholds
    cases htext

end McritSimilarity
