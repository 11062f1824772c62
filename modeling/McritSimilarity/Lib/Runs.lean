import Mathlib.Logic.Relation
import McritSimilarity.Lib.Prog

/-!
# Runs against a handler

How the run of a composed program is put together from the runs of its parts, what a run that returns
has gone through, and `Keeps`: what every run of a program preserves.  `RunsTo` are the runs where a
relation answers, so that an operation may be answered in several ways.
-/

set_option autoImplicit false

namespace Prog

variable {I : Interface} {ε α β γ σ : Type} {h : Handler I σ}

/-! ## Composed programs -/

/-- A run goes on with `f` when it has returned, and is over otherwise. -/
def continueRun (h : Handler I σ) (f : α → Prog I ε γ) : Outcome ε α × σ → Outcome ε γ × σ
  | (.returned a, s) => (f a).run h s
  | (.raised e, s) => (.raised e, s)
  | (.pending, s) => (.pending, s)

theorem run_bind (p : Prog I ε α) (f : α → Prog I ε γ) (s : σ) :
    (p >>= f).run h s = continueRun h f (p.run h s) := by
  induction p generalizing s with
  | call o k ih => exact ih _ _
  | _ => rfl

/-- A run that raised goes on with its handler. -/
def catchRun (h : Handler I σ) (f : ε → Prog I ε α) : Outcome ε α × σ → Outcome ε α × σ
  | (.returned a, s) => (.returned a, s)
  | (.raised e, s) => (f e).run h s
  | (.pending, s) => (.pending, s)

theorem run_tryCatch (p : Prog I ε α) (f : ε → Prog I ε α) (s : σ) :
    (p.tryCatch f).run h s = catchRun h f (p.run h s) := by
  induction p generalizing s with
  | call o k ih => exact ih _ _
  | _ => rfl

/-- A run that has ended goes on with `f`, and then ends as it did. -/
def finishRun (h : Handler I σ) (f : Prog I ε Unit) : Outcome ε α × σ → Outcome ε α × σ
  | (.returned a, s) => (f >>= fun _ => Prog.ret a).run h s
  | (.raised e, s) => (f >>= fun _ => (Prog.raise e : Prog I ε α)).run h s
  | (.pending, s) => (.pending, s)

theorem run_tryFinally (p : Prog I ε α) (f : Prog I ε Unit) (s : σ) :
    (p.tryFinally f).run h s = finishRun h f (p.run h s) := by
  induction p generalizing s with
  | call o k ih => exact ih _ _
  | _ => rfl

/-! ## Runs that return -/

/-- A run returns what its program may return. -/
theorem Returns.run {R : α → Prop} {p : Prog I ε α} (hp : p.Returns R) {s : σ} {a : α}
    (ha : (p.run h s).1 = .returned a) : R a := by
  induction p generalizing s with
  | ret b =>
    cases ha
    exact hp
  | call o k ih => exact ih _ (hp _) ha
  | _ => cases ha

/-! ## What runs preserve -/

/-- Every run of the program preserves the invariant. -/
def Keeps (h : Handler I σ) (inv : σ → Prop) (p : Prog I ε α) : Prop :=
  ∀ s, inv s → inv (p.run h s).2

section Keeps

variable {inv : σ → Prop}

/-- What the operations of a program preserve, its runs preserve. -/
theorem OnlyCalls.keeps {P : I.Op → Prop} {p : Prog I ε α} (hp : p.OnlyCalls P)
    (hkeeps : ∀ o s, P o → inv s → inv (h o s).2) : Keeps h inv p := by
  induction p with
  | call o k ih => exact fun s hs => ih _ (hp.2 _) _ (hkeeps o s hp.1 hs)
  | _ => exact fun s hs => hs

end Keeps

/-! ## Runs that a relation answers -/

section RunsTo

variable {sem : σ → (o : I.Op) → I.Ans o → σ → Prop}

/-- `RunsTo sem p s out s'`: from `s` the program can end as `out` in the state `s'`. -/
inductive RunsTo (sem : σ → (o : I.Op) → I.Ans o → σ → Prop) : Prog I ε α → σ → Outcome ε α → σ → Prop where
  | ret (a : α) (s : σ) : RunsTo sem (ret a) s (.returned a) s
  | raise (e : ε) (s : σ) : RunsTo sem (raise e) s (.raised e) s
  | call {o : I.Op} {k : I.Ans o → Prog I ε α} {a : I.Ans o} {s t u : σ} {out : Outcome ε α}
      (hsem : sem s o a t) (h : RunsTo sem (k a) t out u) : RunsTo sem (call o k) s out u

/-- The run of a call, without its end. -/
theorem exists_runsTo_call {o : I.Op} {k : I.Ans o → Prog I ε α} {a : I.Ans o} {s t : σ} {out : Outcome ε α}
    (hsem : sem s o a t) (h : ∃ u, RunsTo sem (k a) t out u) : ∃ u, RunsTo sem (call o k) s out u := by
  obtain ⟨u, h⟩ := h
  exact ⟨u, .call hsem h⟩

theorem RunsTo.call_cases {o : I.Op} {k : I.Ans o → Prog I ε α} {s u : σ} {out : Outcome ε α}
    (h : RunsTo sem (Prog.call o k) s out u) : ∃ a t, sem s o a t ∧ RunsTo sem (k a) t out u := by
  cases h with
  | call hsem h => exact ⟨_, _, hsem, h⟩

/-- A run of `p >>= f` is one of `p` that raises, or one of `p` to its end and then one of `f`. -/
theorem RunsTo.bind_cases {p : Prog I ε α} {f : α → Prog I ε β} {s u : σ} {out : Outcome ε β}
    (h : RunsTo sem (p >>= f) s out u) : (∃ e, RunsTo sem p s (.raised e) u ∧ out = .raised e) ∨
      ∃ a t, RunsTo sem p s (.returned a) t ∧ RunsTo sem (f a) t out u := by
  induction p generalizing s with
  | ret a => exact Or.inr ⟨a, s, .ret a s, h⟩
  | raise e =>
    cases h
    exact Or.inl ⟨e, .raise e u, rfl⟩
  | spin => cases h
  | call o k ih =>
    cases h with
    | call hsem h =>
      rcases ih _ h with ⟨e, hp, rfl⟩ | ⟨a, t, hp, hf⟩
      · exact Or.inl ⟨e, .call hsem hp, rfl⟩
      · exact Or.inr ⟨a, t, .call hsem hp, hf⟩

theorem RunsTo.bind {p : Prog I ε α} {f : α → Prog I ε β} {s t u : σ} {a : α} {out : Outcome ε β}
    (hp : RunsTo sem p s (.returned a) t) (hf : RunsTo sem (f a) t out u) : RunsTo sem (p >>= f) s out u := by
  induction p generalizing s with
  | ret b =>
    cases hp
    exact hf
  | call o k ih =>
    cases hp with
    | call hsem hk => exact .call hsem (ih _ hk)
  | _ => cases hp

theorem RunsTo.tryCatch {p : Prog I ε α} {s t : σ} {a : α} (hp : RunsTo sem p s (.returned a) t)
    (f : ε → Prog I ε α) : RunsTo sem (p.tryCatch f) s (.returned a) t := by
  induction p generalizing s with
  | ret b => exact hp
  | call o k ih =>
    cases hp with
    | call hsem hk => exact .call hsem (ih _ hk)
  | _ => cases hp

/-- Operations before which others may take steps. -/
def Amid (other : σ → σ → Prop) (sem : σ → (o : I.Op) → I.Ans o → σ → Prop) (s : σ) (o : I.Op) (a : I.Ans o)
    (s' : σ) : Prop :=
  ∃ t, Relation.ReflTransGen other s t ∧ sem t o a s'

end RunsTo

end Prog
