import McritSimilarity.Lib.Machine
import McritSimilarity.Lib.Pool

/-!
# Threads that follow a protocol

A protocol says which operations may be called in which of its states, and where their answers lead.
`Prog.Follows` is that a program keeps to it, whatever the answers, and where it stands at its end; it is
put together along the program.  `Pool.follows_of_steps` is the rule for a pool whose threads keep to
a protocol: what relates the states of the protocols, the shared state and the operations so far, and is
preserved by every operation that is allowed, holds all along a run.
-/

set_option autoImplicit false

structure Protocol (I : Interface) where
  State : Type
  allowed : State → I.Op → Prop
  next : State → (o : I.Op) → I.Ans o → State

/-- The state after the operations of a trace. -/
def Protocol.after {I : Interface} (P : Protocol I) (s : P.State) (tr : List (Prog.Event I)) : P.State :=
  tr.foldl (fun s e => P.next s e.1 e.2) s

theorem Protocol.after_append {I : Interface} (P : Protocol I) (s : P.State) (tr tr' : List (Prog.Event I)) :
    P.after s (tr ++ tr') = P.after (P.after s tr) tr' :=
  List.foldl_append

namespace Prog

variable {I : Interface} {ε α β : Type} {P : Protocol I}

/-- From a state of the protocol the program calls only what is allowed, and ends as `post` says. -/
def Follows (P : Protocol I) (post : Outcome ε α → P.State → Prop) : P.State → Prog I ε α → Prop
  | s, ret a => post (.returned a) s
  | s, raise e => post (.raised e) s
  | _, spin => True
  | s, call o k => P.allowed s o ∧ ∀ a, Follows P post (P.next s o a) (k a)

section Rules

variable {post : Outcome ε α → P.State → Prop} {post' : Outcome ε β → P.State → Prop} {s : P.State}

theorem Follows.mono {post' : Outcome ε α → P.State → Prop} {p : Prog I ε α} (hp : p.Follows P post s)
    (h : ∀ out s, post out s → post' out s) : p.Follows P post' s := by
  induction p generalizing s with
  | ret a => exact h _ _ hp
  | raise e => exact h _ _ hp
  | spin => trivial
  | call o k ih => exact ⟨hp.1, fun a => ih a (hp.2 a)⟩

/-- Where a program goes on with `f` once it has returned. -/
def ThenFollows (post' : Outcome ε β → P.State → Prop) (f : α → Prog I ε β) : Outcome ε α → P.State → Prop
  | .returned a, s => (f a).Follows P post' s
  | .raised e, s => post' (.raised e) s
  | .pending, _ => True

theorem Follows.bind {p : Prog I ε α} {f : α → Prog I ε β} (hp : p.Follows P (ThenFollows post' f) s) :
    (p >>= f).Follows P post' s := by
  induction p generalizing s with
  | ret a => exact hp
  | raise e => exact hp
  | spin => trivial
  | call o k ih => exact ⟨hp.1, fun a => ih a (hp.2 a)⟩

/-- A program that leads nowhere else comes before any other. -/
theorem Follows.andThen {p : Prog I ε α} {f : α → Prog I ε β} (hp : p.Follows P (fun _ t => t = s) s)
    (hf : ∀ a, (f a).Follows P post' s) (hraise : ∀ e, post' (.raised e) s) : (p >>= f).Follows P post' s := by
  refine Follows.bind (hp.mono fun out t ht => ?_)
  subst ht
  cases out with
  | returned a => exact hf a
  | raised e => exact hraise e
  | pending => trivial

/-- Where a program goes on with its handler once it has raised. -/
def ElseFollows (post : Outcome ε α → P.State → Prop) (f : ε → Prog I ε α) : Outcome ε α → P.State → Prop
  | .returned a, s => post (.returned a) s
  | .raised e, s => (f e).Follows P post s
  | .pending, _ => True

theorem Follows.tryCatch {p : Prog I ε α} {f : ε → Prog I ε α} (hp : p.Follows P (ElseFollows post f) s) :
    (p.tryCatch f).Follows P post s := by
  induction p generalizing s with
  | ret a => exact hp
  | raise e => exact hp
  | spin => trivial
  | call o k ih => exact ⟨hp.1, fun a => ih a (hp.2 a)⟩

/-- Where a program goes on with `f` once it has ended, and then ends as it had. -/
def FinallyFollows (post : Outcome ε α → P.State → Prop) (f : Prog I ε Unit) : Outcome ε α → P.State → Prop
  | .returned a, s => f.Follows P (ThenFollows post fun _ => ret a) s
  | .raised e, s => f.Follows P (ThenFollows post fun _ => raise e) s
  | .pending, _ => True

theorem Follows.tryFinally {p : Prog I ε α} {f : Prog I ε Unit}
    (hp : p.Follows P (FinallyFollows post f) s) : (p.tryFinally f).Follows P post s := by
  induction p generalizing s with
  | ret a => exact Follows.bind hp
  | raise e => exact Follows.bind hp
  | spin => trivial
  | call o k ih => exact ⟨hp.1, fun a => ih a (hp.2 a)⟩

/-- Where a program ends whose error becomes a value. -/
def ResultFollows {δ : Type} (post : Outcome δ (Except ε α) → P.State → Prop) : Outcome ε α → P.State → Prop
  | .returned a, s => post (.returned (.ok a)) s
  | .raised e, s => post (.returned (.error e)) s
  | .pending, _ => True

theorem Follows.asExcept {δ : Type} {post : Outcome δ (Except ε α) → P.State → Prop} {p : Prog I ε α}
    (hp : p.Follows P (ResultFollows post) s) : (p.asExcept : Prog I δ (Except ε α)).Follows P post s := by
  induction p generalizing s with
  | ret a => exact hp
  | raise e => exact hp
  | spin => trivial
  | call o k ih => exact ⟨hp.1, fun a => ih a (hp.2 a)⟩

/-- A program that only calls what is allowed and leads nowhere else stays where it is. -/
theorem OnlyCalls.follows {Q : I.Op → Prop} {p : Prog I ε α} (hp : p.OnlyCalls Q)
    (h : ∀ o, Q o → P.allowed s o ∧ ∀ a, P.next s o a = s) : p.Follows P (fun _ t => t = s) s := by
  induction p with
  | call o k ih =>
    refine ⟨(h o hp.1).1, fun a => ?_⟩
    rw [(h o hp.1).2 a]
    exact ih a (hp.2 a)
  | spin => trivial
  | _ => rfl

/-- A program over another interface keeps to a protocol that allows what its own does and leads to the same places. -/
theorem Follows.lift {J : Interface} {Q : Protocol J} {f : I.Op → J.Op} {g : (o : I.Op) → J.Ans (f o) → I.Ans o}
    (view : Q.State → P.State) (hallowed : ∀ t o, P.allowed (view t) o → Q.allowed t (f o))
    (hnext : ∀ t o a, view (Q.next t (f o) a) = P.next (view t) o (g o a)) {p : Prog I ε α} {t : Q.State}
    (hp : p.Follows P post (view t)) : (p.lift f g).Follows Q (fun out t => post out (view t)) t := by
  induction p generalizing t with
  | ret a => exact hp
  | raise e => exact hp
  | spin => trivial
  | call o k ih =>
    refine ⟨hallowed t o hp.1, fun a => ih _ ?_⟩
    rw [hnext]
    exact hp.2 _

/-- Where everything is allowed and nothing leads away, every program keeps to the protocol. -/
theorem follows_of_stays (p : Prog I ε α) (h : ∀ o, P.allowed s o ∧ ∀ a, P.next s o a = s)
    (hpost : ∀ out, post out s) : p.Follows P post s := by
  induction p with
  | call o k ih =>
    refine ⟨(h o).1, fun a => ?_⟩
    rw [(h o).2 a]
    exact ih a
  | spin => trivial
  | _ => exact hpost _

/-- An execution calls what is allowed in the states it goes through, and ends as the protocol says. -/
theorem Follows.exec {p : Prog I ε α} (hp : p.Follows P post s) {tr : List (Event I)} {out : Outcome ε α}
    (h : Exec p tr out) : (∀ before e after, tr = before ++ e :: after → P.allowed (P.after s before) e.1) ∧
      (out = .pending ∨ post out (P.after s tr)) := by
  induction h generalizing s with
  | ret a => exact ⟨fun before e after h => by simp at h, Or.inr hp⟩
  | raise e => exact ⟨fun before e after h => by simp at h, Or.inr hp⟩
  | pending => exact ⟨fun before e after h => by simp at h, Or.inl rfl⟩
  | @call o k tr out a _ ih =>
    obtain ⟨hallowed, hend⟩ := ih (hp.2 a)
    refine ⟨fun before e after htr => ?_, hend⟩
    cases before with
    | nil =>
      cases htr
      exact hp.1
    | cons e' before =>
      cases htr
      exact hallowed before e after rfl

end Rules

end Prog

/-! ## Pools -/

namespace Pool

variable {τ : Type} [DecidableEq τ] {I : Interface} {ε α σ : Type} (P : Protocol I)

/-- What a pool, its operations so far and the states of its threads satisfy. -/
abbrev Relates (P : Protocol I) (τ σ : Type) :=
  List (τ × Prog.Event I) → (τ → P.State) → σ → Prop

/-- The threads stand where the protocol says, and the invariant relates their states. -/
def Tracked (post : τ → Outcome ε α → P.State → Prop) (inv : Relates P τ σ)
    (tr : List (τ × Prog.Event I)) (p : Pool τ I ε α σ) (phase : τ → P.State) : Prop :=
  (∀ t prog, p.threads t = some prog → prog.Follows P (post t) (phase t)) ∧ inv tr phase p.shared

/-- A step of a thread, under a condition on the pool. -/
def stepWhen (sem : σ → (o : I.Op) → I.Ans o → σ → Prop) (cond : Pool τ I ε α σ → τ × Prog.Event I → Prop) :
    Pool τ I ε α σ → τ × Prog.Event I → Pool τ I ε α σ → Prop :=
  restrict (fun p l q => p.OpStep sem l.1 l.2.1 l.2.2 q) cond

variable {P} {sem : σ → (o : I.Op) → I.Ans o → σ → Prop} {cond : Pool τ I ε α σ → τ × Prog.Event I → Prop}
  {post : τ → Outcome ε α → P.State → Prop} {inv : Relates P τ σ}

/-- The step rule: the operation is allowed, and the invariant is preserved. -/
theorem Tracked.step {tr : List (τ × Prog.Event I)} {p q : Pool τ I ε α σ} {phase : τ → P.State}
    (h : p.Tracked P post inv tr phase) {t : τ} {o : I.Op} {a : I.Ans o} (hstep : p.OpStep sem t o a q)
    (hinv : P.allowed (phase t) o → sem p.shared o a q.shared →
      inv (tr ++ [(t, ⟨o, a⟩)]) (Function.update phase t (P.next (phase t) o a)) q.shared) :
    q.Tracked P post inv (tr ++ [(t, ⟨o, a⟩)]) (Function.update phase t (P.next (phase t) o a)) := by
  obtain ⟨k, hk, hsem, hthreads⟩ := hstep
  have hfollows := h.1 t _ hk
  refine ⟨fun u prog hu => ?_, hinv hfollows.1 hsem⟩
  rw [hthreads] at hu
  by_cases hut : u = t
  · subst hut
    rw [Function.update_self] at hu ⊢
    obtain rfl := Option.some.inj hu
    exact hfollows.2 a
  · rw [Function.update_of_ne hut] at hu ⊢
    exact h.1 u prog hu

/-- The run rule. -/
theorem Tracked.steps {tr tr' : List (τ × Prog.Event I)} {p q : Pool τ I ε α σ} {phase : τ → P.State}
    (hrun : Steps (stepWhen sem cond) p tr' q)
    (hinv : ∀ tr p phase t o a s', p.Tracked P post inv tr phase → cond p (t, ⟨o, a⟩) →
      P.allowed (phase t) o → sem p.shared o a s' →
        inv (tr ++ [(t, ⟨o, a⟩)]) (Function.update phase t (P.next (phase t) o a)) s')
    (h : p.Tracked P post inv tr phase) : ∃ phase', q.Tracked P post inv (tr ++ tr') phase' := by
  induction hrun generalizing tr phase with
  | refl => exact ⟨phase, by rwa [List.append_nil]⟩
  | @cons p r q l tr' hstep _ ih =>
    obtain ⟨hcond, hstep⟩ := hstep
    rw [List.append_cons]
    exact ih (h.step hstep fun hallowed hsem => hinv tr p phase _ _ _ _ h hcond hallowed hsem)

end Pool
