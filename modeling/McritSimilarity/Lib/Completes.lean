import McritSimilarity.Lib.Prog

/-!
# Complete executions

`Completes p tr out`: answered as in `tr`, the program `p` goes on to its end, which is `pending` only where
the fuel of a loop ends.  A loop that is never pending with enough fuel ends.
-/

set_option autoImplicit false

namespace Prog

variable {I : Interface} {ε α β σ : Type}

inductive Completes : Prog I ε α → List (Event I) → Outcome ε α → Prop where
  | ret (a : α) : Completes (ret a) [] (.returned a)
  | raise (e : ε) : Completes (raise e) [] (.raised e)
  | spin : Completes spin [] .pending
  | call {o : I.Op} {k : I.Ans o → Prog I ε α} {tr : List (Event I)} {out : Outcome ε α} (a : I.Ans o)
      (h : Completes (k a) tr out) : Completes (call o k) (⟨o, a⟩ :: tr) out

/-- The execution in which the answers depend on the operation alone is complete. -/
theorem completes_of_outcome (h : (o : I.Op) → I.Ans o) {p : Prog I ε α} {tr : List (Event I)} {out : Outcome ε α}
    (htrace : p.trace h = tr) (hout : p.outcome h = out) : Completes p tr out := by
  subst htrace hout
  induction p with
  | ret a => exact .ret a
  | raise e => exact .raise e
  | spin => exact .spin
  | call o k ih => exact .call (h o) (ih (h o))

/-- A run against a handler is complete. -/
theorem completes_run (h : Handler I σ) (p : Prog I ε α) (s : σ) :
    Completes p (p.runTrace h s) (p.run h s).1 := by
  induction p generalizing s with
  | ret a => exact .ret a
  | raise e => exact .raise e
  | spin => exact .spin
  | call o k ih => exact .call (h o s).1 (ih (h o s).1 (h o s).2)

namespace Completes

theorem ret_cases {a : α} {tr : List (Event I)} {out : Outcome ε α}
    (h : Completes (Prog.ret a : Prog I ε α) tr out) : tr = [] ∧ out = .returned a := by
  cases h
  exact ⟨rfl, rfl⟩

theorem raise_cases {e : ε} {tr : List (Event I)} {out : Outcome ε α}
    (h : Completes (Prog.raise e : Prog I ε α) tr out) : tr = [] ∧ out = .raised e := by
  cases h
  exact ⟨rfl, rfl⟩

theorem call_cases {o : I.Op} {k : I.Ans o → Prog I ε α} {tr : List (Event I)} {out : Outcome ε α}
    (h : Completes (Prog.call o k) tr out) : ∃ a tr', tr = ⟨o, a⟩ :: tr' ∧ Completes (k a) tr' out := by
  cases h with
  | call a h => exact ⟨a, _, rfl, h⟩

/-- A complete execution of `p >>= f` is one of `p`, or one of `p` that returns and then one of `f`. -/
theorem bind_cases {p : Prog I ε α} {f : α → Prog I ε β} {tr : List (Event I)} {out : Outcome ε β}
    (h : Completes (p >>= f) tr out) : (∃ e, Completes p tr (.raised e) ∧ out = .raised e) ∨
      (Completes p tr .pending ∧ out = .pending) ∨
        ∃ a tr₁ tr₂, tr = tr₁ ++ tr₂ ∧ Completes p tr₁ (.returned a) ∧ Completes (f a) tr₂ out := by
  induction p generalizing tr with
  | ret a => exact Or.inr (Or.inr ⟨a, [], tr, rfl, .ret a, h⟩)
  | raise e =>
    obtain ⟨rfl, rfl⟩ := raise_cases h
    exact Or.inl ⟨e, .raise e, rfl⟩
  | spin =>
    cases h
    exact Or.inr (Or.inl ⟨.spin, rfl⟩)
  | call o k ih =>
    obtain ⟨a, tr', rfl, hrest⟩ := call_cases h
    rcases ih a hrest with ⟨e, hp, rfl⟩ | ⟨hp, rfl⟩ | ⟨b, tr₁, tr₂, rfl, hp, hf⟩
    · exact Or.inl ⟨e, .call a hp, rfl⟩
    · exact Or.inr (Or.inl ⟨.call a hp, rfl⟩)
    · exact Or.inr (Or.inr ⟨b, _, tr₂, rfl, .call a hp, hf⟩)

theorem raiseIf_bind_cases {c : Prop} [Decidable c] {e : ε} {f : Unit → Prog I ε β} {tr : List (Event I)}
    {out : Outcome ε β} (h : Completes (raiseIf c e >>= f) tr out) :
    c ∧ tr = [] ∧ out = .raised e ∨ ¬ c ∧ Completes (f ()) tr out := by
  by_cases hc : c
  · rw [raiseIf_pos hc] at h
    exact Or.inl ⟨hc, raise_cases h⟩
  · rw [raiseIf_neg hc] at h
    exact Or.inr ⟨hc, h⟩

end Completes

end Prog
