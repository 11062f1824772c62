import McritSimilarity.Lib.Runs

/-!
# What all runs of a program end with

`Prog.Ensures sem post p s`: however the operations of `p` are answered from `s`, a run that ends does so
as `post` says.  The rules go along the program; `Preserves` is an invariant as the postcondition, and
`runsTo_run` gives the run that a handler picks among those a relation allows.
-/

set_option autoImplicit false

namespace Prog

variable {I : Interface} {ε α β σ : Type} {sem : σ → (o : I.Op) → I.Ans o → σ → Prop}

def Ensures (sem : σ → (o : I.Op) → I.Ans o → σ → Prop) (post : Outcome ε α → σ → Prop) : Prog I ε α → σ → Prop
  | ret a, s => post (.returned a) s
  | raise e, s => post (.raised e) s
  | spin, _ => True
  | call o k, s => ∀ a t, sem s o a t → Ensures sem post (k a) t

section Rules

variable {post : Outcome ε α → σ → Prop} {post' : Outcome ε β → σ → Prop} {p : Prog I ε α} {s : σ}

theorem Ensures.runsTo (hp : p.Ensures sem post s) {out : Outcome ε α} {s' : σ} (h : RunsTo sem p s out s') :
    post out s' := by
  induction h with
  | ret a s => exact hp
  | raise e s => exact hp
  | call hsem _ ih => exact ih (hp _ _ hsem)

theorem Ensures.mono {post' : Outcome ε α → σ → Prop} (hp : p.Ensures sem post s)
    (h : ∀ out s, post out s → post' out s) : p.Ensures sem post' s := by
  induction p generalizing s with
  | ret a => exact h _ _ hp
  | raise e => exact h _ _ hp
  | spin => trivial
  | call o k ih => exact fun a t hsem => ih a (hp a t hsem)

theorem ensures_of_forall (p : Prog I ε α) (h : ∀ out s, post out s) : p.Ensures sem post s := by
  induction p generalizing s with
  | ret a => exact h _ _
  | raise e => exact h _ _
  | spin => trivial
  | call o k ih => exact fun a t _ => ih a

/-- What is left to show of `p >>= f` once `p` has ended. -/
def ThenEnsures (sem : σ → (o : I.Op) → I.Ans o → σ → Prop) (post : Outcome ε β → σ → Prop)
    (f : α → Prog I ε β) : Outcome ε α → σ → Prop
  | .returned a, s => (f a).Ensures sem post s
  | .raised e, s => post (.raised e) s
  | .pending, _ => True

theorem Ensures.bind {f : α → Prog I ε β} (hp : p.Ensures sem (ThenEnsures sem post' f) s) :
    (p >>= f).Ensures sem post' s := by
  induction p generalizing s with
  | ret a => exact hp
  | raise e => exact hp
  | spin => trivial
  | call o k ih => exact fun a t hsem => ih a (hp a t hsem)

/-- What is left to show of a program with a handler once the program has ended. -/
def ElseEnsures (sem : σ → (o : I.Op) → I.Ans o → σ → Prop) (post : Outcome ε α → σ → Prop)
    (f : ε → Prog I ε α) : Outcome ε α → σ → Prop
  | .returned a, s => post (.returned a) s
  | .raised e, s => (f e).Ensures sem post s
  | .pending, _ => True

theorem Ensures.tryCatch {f : ε → Prog I ε α} (hp : p.Ensures sem (ElseEnsures sem post f) s) :
    (p.tryCatch f).Ensures sem post s := by
  induction p generalizing s with
  | ret a => exact hp
  | raise e => exact hp
  | spin => trivial
  | call o k ih => exact fun a t hsem => ih a (hp a t hsem)

/-- What is left to show of a program with a `finally` part once the program has ended. -/
def FinallyEnsures (sem : σ → (o : I.Op) → I.Ans o → σ → Prop) (post : Outcome ε α → σ → Prop)
    (f : Prog I ε Unit) : Outcome ε α → σ → Prop
  | .returned a, s => f.Ensures sem (ThenEnsures sem post fun _ => ret a) s
  | .raised e, s => f.Ensures sem (ThenEnsures sem post fun _ => raise e) s
  | .pending, _ => True

theorem Ensures.tryFinally {f : Prog I ε Unit} (hp : p.Ensures sem (FinallyEnsures sem post f) s) :
    (p.tryFinally f).Ensures sem post s := by
  induction p generalizing s with
  | ret a => exact Ensures.bind hp
  | raise e => exact Ensures.bind hp
  | spin => trivial
  | call o k ih => exact fun a t hsem => ih a (hp a t hsem)

/-- What is left to show of a program whose error becomes a value. -/
def ResultEnsures {δ : Type} (post : Outcome δ (Except ε α) → σ → Prop) : Outcome ε α → σ → Prop
  | .returned a, s => post (.returned (.ok a)) s
  | .raised e, s => post (.returned (.error e)) s
  | .pending, _ => True

theorem Ensures.asExcept {δ : Type} {post : Outcome δ (Except ε α) → σ → Prop}
    (hp : p.Ensures sem (ResultEnsures post) s) : (p.asExcept : Prog I δ (Except ε α)).Ensures sem post s := by
  induction p generalizing s with
  | call o k ih => exact fun a t hsem => ih a (hp a t hsem)
  | spin => trivial
  | _ => exact hp

end Rules

/-! ## Loops that end -/

/-- However the operations of `p` are answered from `s`, no loop runs out of fuel. -/
def Halts (sem : σ → (o : I.Op) → I.Ans o → σ → Prop) : Prog I ε α → σ → Prop
  | ret _, _ => True
  | raise _, _ => True
  | spin, _ => False
  | call o k, s => ∀ a t, sem s o a t → (k a).Halts sem t

section Halts

variable {p : Prog I ε α} {s : σ}

theorem Halts.bind {f : α → Prog I ε β} (hp : p.Halts sem s)
    (hf : p.Ensures sem (fun out t => ∀ a, out = .returned a → (f a).Halts sem t) s) : (p >>= f).Halts sem s := by
  induction p generalizing s with
  | ret a => exact hf a rfl
  | raise e => trivial
  | spin => exact hp
  | call o k ih => exact fun a t hsem => ih a (hp a t hsem) (hf a t hsem)

theorem Halts.tryFinally {f : Prog I ε Unit} (hp : p.Halts sem s) (hf : ∀ t, f.Halts sem t) :
    (p.tryFinally f).Halts sem s := by
  have hthen : ∀ (g : Unit → Prog I ε α) t, (∀ u t, (g u).Halts sem t) → (f >>= g).Halts sem t :=
    fun g t hg => (hf t).bind (ensures_of_forall f fun _ t u _ => hg u t)
  induction p generalizing s with
  | ret a => exact hthen _ _ fun _ _ => trivial
  | raise e => exact hthen _ _ fun _ _ => trivial
  | spin => exact hp
  | call o k ih => exact fun a t hsem => ih a (hp a t hsem)

theorem Halts.asExcept {δ : Type} (hp : p.Halts sem s) : (p.asExcept : Prog I δ (Except ε α)).Halts sem s := by
  induction p generalizing s with
  | call o k ih => exact fun a t hsem => ih a (hp a t hsem)
  | spin => exact hp
  | _ => trivial

end Halts

/-! ## Invariants -/

section Preserves

variable {inv : σ → Prop}

/-- Every run that starts in the invariant ends in it. -/
def Preserves (sem : σ → (o : I.Op) → I.Ans o → σ → Prop) (inv : σ → Prop) (p : Prog I ε α) : Prop :=
  ∀ s, inv s → p.Ensures sem (fun _ s' => inv s') s

theorem Preserves.bind {p : Prog I ε α} {f : α → Prog I ε β} (hp : Preserves sem inv p)
    (hf : ∀ a, Preserves sem inv (f a)) : Preserves sem inv (p >>= f) := by
  refine fun s hs => Ensures.bind ((hp s hs).mono fun out t ht => ?_)
  cases out with
  | returned a => exact hf a t ht
  | raised e => exact ht
  | pending => trivial

end Preserves

/-! ## The run of a handler -/

theorem runsTo_run {h : Handler I σ} (hsem : ∀ s o, sem s o (h o s).1 (h o s).2) {p : Prog I ε α} {s : σ}
    {out : Outcome ε α} (hout : (p.run h s).1 = out) (hends : out ≠ .pending) :
    RunsTo sem p s out (p.run h s).2 := by
  induction p generalizing s with
  | ret a =>
    subst hout
    exact .ret a s
  | raise e =>
    subst hout
    exact .raise e s
  | spin => exact absurd hout.symm hends
  | call o k ih => exact .call (hsem s o) (ih _ hout)

end Prog
