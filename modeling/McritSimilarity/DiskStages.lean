import McritSimilarity.DiskCache

/-!
# The stages of a call on the report folder

What a thread that stores, loads or prunes has of its own: a handle, and a temporary file until it is renamed
or dropped.  `diskProtocol` says what it may do in which stage, and `follows_diskCall` that the calls keep
to it.
-/

set_option autoImplicit false

namespace McritSimilarity

open Python Prog

/-! ## Calls -/

inductive DiskCall (R : Type) where
  | store (version sha256 : String) (report : R) (now : ℚ)
  | load (version sha256 : String) (fuel : ℕ)
  | prune (keep : Option String) (maxBytes maxFiles : ℤ) (now : ℚ)

section Calls

variable {R τ : Type} (codec : ReportCodec R) (calls : τ → DiskCall R)

def DiskCall.program : DiskCall R → DiskProg (Option R)
  | store version sha256 report now => do
    storeReport codec version sha256 report now
    return none
  | load version sha256 fuel => loadReport codec version sha256 fuel
  | prune keep maxBytes maxFiles now => do
    pruneFolder keep maxBytes maxFiles now
    return none

def DiskCall.IsStore : DiskCall R → Prop
  | store _ _ _ _ => True
  | _ => False

/-- The whole document that a store call writes under a header. -/
def WholeDocument (version sha256 : String) (content : List UInt8) : Prop :=
  ∃ t version' report now, calls t = .store version' sha256 report now ∧
    smdaVersion version' = smdaVersion version ∧
    (codec.dump (reportDocument codec version' sha256 report)).failure = none ∧
    content = (codec.dump (reportDocument codec version' sha256 report)).pieces.flatten

end Calls

/-! ## Stages -/

/-- What a thread has of its own; the last six stages are a store that has its temporary file. -/
inductive DiskStage where
  | reader
  | reading (fd : ℕ) (name : String) (done : List UInt8)
  | abandoned (fd : ℕ)
  | finished (fd : ℕ) (name : String) (content : List UInt8)
  | loaded (name : String) (content : List UInt8)
  | idle
  | writing (fd : ℕ) (temp : String) (done : List UInt8)
  | broken (fd : ℕ) (temp : String)
  | closed (temp : String) (content : List UInt8)
  | renamed (temp : String)
  | dropped (temp : String)
  | stuck (temp : String)

namespace DiskStage

def fd? : DiskStage → Option ℕ
  | reading fd _ _ => some fd
  | abandoned fd => some fd
  | finished fd _ _ => some fd
  | writing fd _ _ => some fd
  | broken fd _ => some fd
  | _ => none

def temp? : DiskStage → Option String
  | writing _ temp _ => some temp
  | broken _ temp => some temp
  | closed temp _ => some temp
  | renamed temp => some temp
  | dropped temp => some temp
  | stuck temp => some temp
  | _ => none

/-- The stages of a store. -/
def Storing (stage : DiskStage) : Prop := stage = idle ∨ stage.temp?.isSome = true

/-- The stages in which a store may end. -/
def Settled : DiskStage → Prop
  | idle => True
  | renamed _ => True
  | dropped _ => True
  | stuck _ => True
  | _ => False

/-- The stage after an attempt to remove its temporary file. -/
def afterUnlink (temp : String) : Except FileError Unit → DiskStage
  | .error .failed => stuck temp
  | _ => dropped temp

def next : DiskStage → (o : FileOp String) → Except FileError o.Res → DiskStage
  | reader, .openRead name, .ok fd => reading fd name []
  | reader, _, _ => reader
  | reading fd name done, .read _, .ok bytes =>
    if bytes = [] then finished fd name done else reading fd name (done ++ bytes)
  | reading fd _ _, .read _, .error _ => abandoned fd
  | abandoned _, _, _ => reader
  | finished _ name content, .close _, .ok _ => loaded name content
  | finished _ _ _, .close _, .error _ => reader
  | loaded name content, _, _ => loaded name content
  | idle, .mkstemp, .ok (fd, temp) => writing fd temp []
  | idle, _, _ => idle
  | writing fd temp done, .write _ bytes, .ok _ => writing fd temp (done ++ bytes)
  | writing fd temp _, .write _ _, .error _ => broken fd temp
  | writing _ temp done, .close _, .ok _ => closed temp done
  | writing fd temp _, .close _, .error _ => broken fd temp
  | broken _ temp, .unlink _, a => afterUnlink temp a
  | closed temp _, .replace _ _, .ok _ => renamed temp
  | closed temp _, .unlink _, a => afterUnlink temp a
  | stage, _, _ => stage

end DiskStage

section Stages

variable {R τ : Type} (codec : ReportCodec R) (calls : τ → DiskCall R)

/-- The name is that of a report, and the content its whole document. -/
def IsDocument (name : String) (content : List UInt8) : Prop :=
  ∃ version sha256, name = reportPath version sha256 ∧ WholeDocument codec calls version sha256 content

def DiskStage.allowed : DiskStage → FileOp String → Prop
  | reader, .openRead name => ∃ version sha256, name = reportPath version sha256
  | reader, .unlink _ => True
  | reader, .scandir => True
  | reader, .stat _ => True
  | reading fd _ _, .read fd' => fd' = fd
  | abandoned fd, .close fd' => fd' = fd
  | finished fd _ _, .close fd' => fd' = fd
  | loaded _ _, .unlink _ => True
  | loaded _ _, .utime _ => True
  | idle, .mkdir => True
  | idle, .mkstemp => True
  | writing fd _ _, .write fd' _ => fd' = fd
  | writing fd _ _, .close fd' => fd' = fd
  | broken fd _, .write fd' _ => fd' = fd
  | broken fd _, .close fd' => fd' = fd
  | broken _ temp, .unlink name => name = temp
  | closed temp content, .replace source target => source = temp ∧ IsDocument codec calls target content
  | closed temp _, .unlink name => name = temp
  | renamed _, .unlink _ => True
  | renamed _, .scandir => True
  | renamed _, .stat _ => True
  | _, _ => False

def diskProtocol : Protocol (FileI String) where
  State := τ × DiskStage
  allowed s o := s.2.allowed codec calls o
  next s o a := (s.1, s.2.next o a)

/-- Where a call ends. -/
def DiskEnded (call : DiskCall R) (out : Outcome PyError (Option R)) (s : τ × DiskStage) : Prop :=
  match call with
  | .store _ _ _ _ => s.2.Settled
  | .load version sha256 _ => ∀ report, out = .returned (some report) → ∃ content,
      s.2 = .loaded (reportPath version sha256) content ∧ parseReport codec version sha256 content = some report
  | .prune _ _ _ _ => True

/-! ## The calls keep to their stages -/

section Follows

variable {codec calls} {t : τ}

/-- The stages in which a thread may prune. -/
inductive Pruning : DiskStage → Prop where
  | reader : Pruning .reader
  | renamed (temp : String) : Pruning (.renamed temp)

/-- What pruning does in its stage. -/
inductive PruneOp : FileOp String → Prop where
  | scandir : PruneOp .scandir
  | stat (name : String) : PruneOp (.stat name)
  | unlink (name : String) : PruneOp (.unlink name)

theorem Pruning.allowed {stage : DiskStage} (h : Pruning stage) {o : FileOp String} (ho : PruneOp o) :
    stage.allowed codec calls o := by
  cases h <;> cases ho <;> trivial

theorem Pruning.next_eq {stage : DiskStage} (h : Pruning stage) {o : FileOp String} (ho : PruneOp o)
    (a : Except FileError o.Res) : stage.next o a = stage := by
  cases h <;> cases ho <;> rfl

theorem follows_quietUnlink {stage : DiskStage} (h : Pruning stage) (name : String) :
    (quietUnlink name).Follows (diskProtocol codec calls) (fun _ s => s = (t, stage)) (t, stage) :=
  FileOp.follows_quietly (h.allowed (.unlink name)) fun a => congrArg (Prod.mk t) (h.next_eq (.unlink name) a)

/-- A part that keeps its stage comes before any other. -/
theorem Follows.kept {α β : Type} {post : Outcome PyError β → τ × DiskStage → Prop} {s : τ × DiskStage}
    {p : DiskProg α} {f : α → DiskProg β}
    (hp : p.Follows (diskProtocol codec calls) (fun _ s' => s' = s) s)
    (hf : ∀ a, (f a).Follows (diskProtocol codec calls) post s) (hraise : ∀ e, post (.raised e) s) :
    (p >>= f).Follows (diskProtocol codec calls) post s := by
  refine Follows.bind (hp.mono fun out s' hs => ?_)
  subst hs
  cases out with
  | returned a => exact hf a
  | raised e => exact hraise e
  | pending => trivial

theorem follows_pruneScan {stage : DiskStage} (h : Pruning stage) (now : ℚ) (names : List String) :
    (pruneScan now names).Follows (diskProtocol codec calls) (fun _ s => s = (t, stage)) (t, stage) := by
  induction names with
  | nil => exact rfl
  | cons name names ih =>
    refine ⟨h.allowed (.stat name), fun a => ?_⟩
    have hnext : (diskProtocol codec calls).next (t, stage) (.stat name) a = (t, stage) :=
      congrArg (Prod.mk t) (h.next_eq (.stat name) a)
    rw [hnext]
    cases a with
    | error e => exact ih
    | ok stat =>
      dsimp only
      split_ifs
      · exact Follows.kept (follows_quietUnlink h name) (fun _ => ih) fun _ => rfl
      · exact ih
      · exact Follows.kept ih (fun _ => rfl) fun _ => rfl
      · exact ih

theorem follows_pruneOldest {stage : DiskStage} (h : Pruning stage) (keep : Option String)
    (maxBytes maxFiles : ℤ) (entries : List PruneEntry) (total count : ℤ) :
    (pruneOldest keep maxBytes maxFiles entries total count).Follows (diskProtocol codec calls)
      (fun _ s => s = (t, stage)) (t, stage) := by
  induction entries generalizing total count with
  | nil => exact rfl
  | cons entry entries ih =>
    obtain ⟨modified, size, name⟩ := entry
    rw [pruneOldest]
    split_ifs
    · exact rfl
    · exact ih total count
    · exact Follows.kept (follows_quietUnlink h name) (fun _ => ih _ _) fun _ => rfl

theorem follows_pruneFolder {stage : DiskStage} (h : Pruning stage) (keep : Option String)
    (maxBytes maxFiles : ℤ) (now : ℚ) :
    (pruneFolder keep maxBytes maxFiles now).Follows (diskProtocol codec calls) (fun _ s => s = (t, stage))
      (t, stage) := by
  have hscan : ∀ a, (diskProtocol codec calls).next (t, stage) .scandir a = (t, stage) :=
    fun a => congrArg (Prod.mk t) (h.next_eq .scandir a)
  refine Follows.kept (FileOp.follows_orRaise (h.allowed .scandir) (fun r => hscan (.ok r)) fun e =>
    hscan (.error e)) (fun names => ?_) fun _ => rfl
  exact Follows.kept (follows_pruneScan h now names) (fun entries => follows_pruneOldest h _ _ _ _ _ _) fun _ => rfl

/-! ### Loading -/

theorem follows_readAll {fd : ℕ} (name : String) (fuel : ℕ) (done : List UInt8) :
    (readAll fd fuel done).Follows (diskProtocol codec calls) (fun out s =>
      (∃ content, out = .returned content ∧ s = (t, .finished fd name content)) ∨
        (∃ e, out = .raised e) ∧ s = (t, .abandoned fd)) (t, .reading fd name done) := by
  induction fuel generalizing done with
  | zero => trivial
  | succ fuel ih =>
    refine Follows.bind (FileOp.follows_orRaise rfl (fun bytes => ?_) fun _ => Or.inr ⟨⟨_, rfl⟩, rfl⟩)
    show Prog.Follows (diskProtocol codec calls) _
      (t, if bytes = [] then DiskStage.finished fd name done else .reading fd name (done ++ bytes))
      (if bytes = [] then pure done else readAll fd fuel (done ++ bytes))
    split_ifs
    · exact Or.inl ⟨done, rfl, rfl⟩
    · exact ih (done ++ bytes)

theorem follows_discardReport {stage : DiskStage} (hstage : stage = .reader ∨ ∃ name content,
    stage = .loaded name content) (path : String) {version sha256 : String} {fuel : ℕ} :
    (discardReport path : DiskProg (Option R)).Follows (diskProtocol codec calls)
      (DiskEnded codec (.load version sha256 fuel)) (t, stage) := by
  refine Follows.bind (FileOp.follows_quietly ?_ fun a => nofun)
  rcases hstage with rfl | ⟨name, content, rfl⟩ <;> trivial

theorem follows_loadReport (version sha256 : String) (fuel : ℕ) :
    (loadReport codec version sha256 fuel).Follows (diskProtocol codec calls)
      (DiskEnded codec (.load version sha256 fuel)) (t, .reader) := by
  refine ⟨⟨version, sha256, rfl⟩, fun a => ?_⟩
  rcases a with (_ | _) | fd
  · exact nofun
  · exact follows_discardReport (Or.inl rfl) _
  refine Follows.bind (Follows.asExcept (Follows.tryFinally ((follows_readAll (reportPath version sha256) fuel
    []).mono ?_)))
  rintro out s (⟨content, rfl, rfl⟩ | ⟨⟨e, rfl⟩, rfl⟩)
  · refine FileOp.follows_orRaise rfl (fun _ => ?_) fun _ => follows_discardReport (Or.inl rfl) _
    show Prog.Follows (diskProtocol codec calls) _ (t, .loaded (reportPath version sha256) content)
      (useReport codec version sha256 content)
    unfold useReport
    cases hparse : parseReport codec version sha256 content with
    | none => exact follows_discardReport (Or.inr ⟨_, _, rfl⟩) _
    | some report =>
      refine Follows.bind (FileOp.follows_quietly trivial fun a => ?_)
      rintro report' hreport
      cases hreport
      exact ⟨content, rfl, hparse⟩
  · exact FileOp.follows_orRaise rfl (fun _ => follows_discardReport (Or.inl rfl) _) fun _ =>
      follows_discardReport (Or.inl rfl) _

/-! ### Storing -/

theorem diskWrites (fd : ℕ) (temp : String) : FileOp.Writes (diskProtocol codec calls) fd
    (fun done => (t, .writing fd temp done)) (t, .broken fd temp) where
  write _ _ := rfl
  written _ _ := rfl
  torn _ _ _ := rfl
  again _ := rfl
  stays _ _ := rfl

theorem DiskStage.temp?_afterUnlink (temp : String) (a : Except FileError Unit) :
    (afterUnlink temp a).temp? = some temp := by
  rcases a with (_ | _) | _ <;> rfl

theorem settled_afterUnlink (temp : String) (a : Except FileError Unit) :
    (DiskStage.afterUnlink temp a).Settled := by
  rcases a with (_ | _) | _ <;> trivial

/-- Where the part of a store that writes the report ends. -/
def WriteEnded (temp : String) (out : Outcome PyError Bool) (s : τ × DiskStage) : Prop :=
  s.2.Settled ∧ (out = .returned true → s.2 = .renamed temp)

/-- The temporary file of a store that has failed is removed. -/
theorem follows_giveUp {stage : DiskStage} (fd : ℕ) {temp : String}
    (hstage : stage = .broken fd temp ∨ ∃ content, stage = .closed temp content) (e : PyError) :
    (do
      quietUnlink temp
      suppressOsError e
      return false : DiskProg Bool).Follows (diskProtocol codec calls) (WriteEnded temp) (t, stage) := by
  have hafter : ∀ a : Except FileError Unit, (suppressOsError e >>= fun _ => pure false : DiskProg Bool).Follows
      (diskProtocol codec calls) (WriteEnded temp) (t, DiskStage.afterUnlink temp a) := by
    intro a
    unfold suppressOsError
    split_ifs
    · exact ⟨settled_afterUnlink temp a, nofun⟩
    · exact ⟨settled_afterUnlink temp a, nofun⟩
  rcases hstage with rfl | ⟨content, rfl⟩
  · exact Follows.bind (FileOp.follows_quietly rfl hafter)
  · exact Follows.bind (FileOp.follows_quietly rfl hafter)

theorem follows_writeReport {version sha256 : String} {report : R} {now : ℚ}
    (hcall : calls t = .store version sha256 report now) (fd : ℕ) (temp : String) :
    (writeReport codec version sha256 report fd temp).Follows (diskProtocol codec calls) (WriteEnded temp)
      (t, .writing fd temp []) := by
  refine Follows.tryCatch (Follows.bind ((diskWrites fd temp).writeAndClose (fun hfailure => ?_) (fun e _ => ?_)
    fun e => ?_))
  · refine FileOp.follows_orRaise rfl (fun _ => ?_) fun _ => follows_giveUp fd (Or.inl rfl) _
    refine Follows.bind (FileOp.follows_orRaise ⟨rfl, version, sha256, rfl, t, version, report, now, hcall, rfl,
      hfailure, rfl⟩ (fun _ => ⟨trivial, fun _ => rfl⟩) fun _ => ?_)
    exact follows_giveUp fd (Or.inr ⟨_, rfl⟩) _
  · exact FileOp.follows_orRaise rfl (fun _ => follows_giveUp fd (Or.inr ⟨_, rfl⟩) _) fun _ =>
      follows_giveUp fd (Or.inl rfl) _
  · exact FileOp.follows_orRaise rfl (fun _ => follows_giveUp fd (Or.inl rfl) _) fun _ =>
      follows_giveUp fd (Or.inl rfl) _

theorem follows_storeReport {version sha256 : String} {report : R} {now : ℚ}
    (hcall : calls t = .store version sha256 report now) :
    (storeReport codec version sha256 report now).Follows (diskProtocol codec calls)
      (fun _ s => s.2.Settled) (t, .idle) := by
  have hsuppress : ∀ {u} (stage : DiskStage) (e : PyError), stage.Settled → (suppressOsError e).Follows
      (diskProtocol codec calls) (fun _ s => s.2.Settled) (u, stage) := by
    intro u stage e hstage
    unfold suppressOsError
    split_ifs <;> exact hstage
  refine Follows.bind (Follows.asExcept (Follows.bind (FileOp.follows_orRaise trivial (fun _ => ?_) fun _ =>
    hsuppress .idle _ trivial)))
  refine FileOp.follows_orRaise trivial (fun r => ?_) fun _ => hsuppress .idle _ trivial
  obtain ⟨fd, temp⟩ := r
  refine Follows.bind ((follows_writeReport hcall fd temp).mono ?_)
  rintro (renamed | e | _) ⟨u, stage⟩ ⟨hsettled, hrenamed⟩
  · cases renamed with
    | false => exact hsettled
    | true =>
      obtain rfl : stage = .renamed temp := hrenamed rfl
      refine Follows.tryCatch ((follows_pruneFolder (.renamed temp) _ _ _ _).mono ?_)
      rintro (_ | e | _) s rfl
      · trivial
      · exact hsuppress (.renamed temp) e trivial
      · trivial
  · exact hsettled
  · trivial

/-- The stage in which a call begins. -/
def DiskCall.start : DiskCall R → DiskStage
  | .store _ _ _ _ => .idle
  | _ => .reader

theorem follows_diskCall (t : τ) : ((calls t).program codec).Follows (diskProtocol codec calls)
    (DiskEnded codec (calls t)) (t, (calls t).start) := by
  cases hcall : calls t with
  | store version sha256 report now =>
    refine Follows.bind ((follows_storeReport hcall).mono ?_)
    rintro (_ | e | _) s hs
    · exact hs
    · exact hs
    · trivial
  | load version sha256 fuel => exact follows_loadReport version sha256 fuel
  | prune keep maxBytes maxFiles now =>
    exact Follows.kept (follows_pruneFolder .reader keep maxBytes maxFiles now) (fun _ => trivial) fun _ => trivial

end Follows

end Stages

end McritSimilarity
