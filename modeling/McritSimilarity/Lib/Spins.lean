import McritSimilarity.Lib.Completes

/-!
# Loops that are cut off late

A loop over fuel is cut off where its fuel ends.  `Prog.SpinsAfter`: whatever the answers are, that happens only
after so many events of a kind.  A program with less of them comes to its end.
-/

set_option autoImplicit false

namespace Prog

variable {I : Interface} {ε α β : Type} {seen : Event I → Bool} {m n : ℕ}

/-- The program is cut off only after `n` events of the kind. -/
def SpinsAfter (seen : Event I → Bool) : ℕ → Prog I ε α → Prop
  | _, ret _ => True
  | _, raise _ => True
  | n, spin => n = 0
  | n, call o k => ∀ a, (k a).SpinsAfter seen (if seen ⟨o, a⟩ then n - 1 else n)

theorem SpinsAfter.mono {p : Prog I ε α} (hp : p.SpinsAfter seen n) (h : m ≤ n) : p.SpinsAfter seen m := by
  induction p generalizing m n with
  | ret a => trivial
  | raise e => trivial
  | spin =>
    have hn : n = 0 := hp
    show m = 0
    omega
  | call o k ih =>
    refine fun a => ih a (hp a) ?_
    split_ifs <;> omega

theorem SpinsAfter.bind {p : Prog I ε α} {f : α → Prog I ε β} (hp : p.SpinsAfter seen n)
    (hf : ∀ a, (f a).SpinsAfter seen n) : (p >>= f).SpinsAfter seen n := by
  induction p generalizing n with
  | ret a => exact hf a
  | raise e => trivial
  | spin => exact hp
  | call o k ih =>
    refine fun a => ih a (hp a) fun b => (hf b).mono ?_
    split_ifs <;> omega

theorem SpinsAfter.tryCatch {p : Prog I ε α} {f : ε → Prog I ε α} (hp : p.SpinsAfter seen n)
    (hf : ∀ e, (f e).SpinsAfter seen n) : (p.tryCatch f).SpinsAfter seen n := by
  induction p generalizing n with
  | ret a => trivial
  | raise e => exact hf e
  | spin => exact hp
  | call o k ih =>
    refine fun a => ih a (hp a) fun e => (hf e).mono ?_
    split_ifs <;> omega

theorem SpinsAfter.tryFinally {p : Prog I ε α} {f : Prog I ε Unit} (hp : p.SpinsAfter seen n)
    (hf : f.SpinsAfter seen n) : (p.tryFinally f).SpinsAfter seen n := by
  induction p generalizing n with
  | ret a => exact hf.bind fun _ => trivial
  | raise e => exact hf.bind fun _ => trivial
  | spin => exact hp
  | call o k ih =>
    refine fun a => ih a (hp a) (hf.mono ?_)
    split_ifs <;> omega

theorem spinsAfter_op (o : I.Op) : (op o : Prog I ε _).SpinsAfter seen n := fun _ => trivial

theorem spinsAfter_raiseIf (c : Prop) [Decidable c] (e : ε) : (raiseIf c e : Prog I ε Unit).SpinsAfter seen n := by
  unfold raiseIf
  split_ifs <;> trivial

theorem spinsAfter_ofExcept (x : Except ε α) : (ofExcept x : Prog I ε α).SpinsAfter seen n := by
  cases x <;> trivial

/-- A program over another interface, whose events are of the kind when those behind them are. -/
theorem SpinsAfter.lift {J : Interface} {seen' : Event J → Bool} {f : I.Op → J.Op}
    {g : (o : I.Op) → J.Ans (f o) → I.Ans o} (hseen : ∀ o a, seen' ⟨f o, a⟩ = seen ⟨o, g o a⟩) {p : Prog I ε α}
    (hp : p.SpinsAfter seen n) : (p.lift f g).SpinsAfter seen' n := by
  induction p generalizing n with
  | ret a => trivial
  | raise e => trivial
  | spin => exact hp
  | call o k ih =>
    intro a
    rw [hseen]
    exact ih _ (hp _)

theorem SpinsAfter.le_countP {p : Prog I ε α} (hp : p.SpinsAfter seen n) {tr : List (Event I)}
    (h : Completes p tr .pending) : n ≤ tr.countP seen := by
  induction p generalizing n tr with
  | ret a => cases h
  | raise e => cases h
  | spin =>
    have hn : n = 0 := hp
    omega
  | call o k ih =>
    obtain ⟨a, tr', rfl, hrest⟩ := Completes.call_cases h
    have hle := ih a (hp a) hrest
    rw [List.countP_cons]
    split_ifs at hle ⊢ <;> omega

/-- What holds of all complete executions. -/
theorem spinsAfter_of_completes {p : Prog I ε α} (h : ∀ tr, Completes p tr .pending → n ≤ tr.countP seen) :
    p.SpinsAfter seen n := by
  induction p generalizing n with
  | ret a => trivial
  | raise e => trivial
  | spin => exact Nat.le_zero.1 (h [] .spin)
  | call o k ih =>
    refine fun a => ih a fun tr htr => ?_
    have hle := h (⟨o, a⟩ :: tr) (.call a htr)
    rw [List.countP_cons] at hle
    split_ifs at hle ⊢ <;> omega

/-- The program comes to a value, whatever the answers are. -/
def Settles : Prog I ε α → Prop
  | ret _ => True
  | raise _ => False
  | spin => False
  | call _ k => ∀ a, (k a).Settles

theorem Settles.spinsAfter {p : Prog I ε α} (hp : p.Settles) : p.SpinsAfter seen n := by
  induction p generalizing n with
  | ret a => trivial
  | raise e => exact hp.elim
  | spin => exact hp.elim
  | call o k ih => exact fun a => ih a (hp a)

theorem Settles.returned {p : Prog I ε α} (hp : p.Settles) {tr : List (Event I)} {out : Outcome ε α}
    (h : Completes p tr out) : ∃ a, out = .returned a := by
  induction h with
  | ret a => exact ⟨a, rfl⟩
  | raise e => exact hp.elim
  | spin => exact hp.elim
  | call a _ ih => exact ih (hp a)

/-- A program that catches everything comes to a value. -/
theorem SpinsAfter.returned {p : Prog I ε α} {f : ε → Prog I ε α} (hp : p.SpinsAfter seen (n + 1))
    (hf : ∀ e, (f e).Settles) {tr : List (Event I)} {out : Outcome ε α} (h : Completes (p.tryCatch f) tr out)
    (hle : tr.countP seen ≤ n) : ∃ a, out = .returned a := by
  cases out with
  | returned a => exact ⟨a, rfl⟩
  | pending =>
    have hcaught : (p.tryCatch f).SpinsAfter seen (n + 1) := hp.tryCatch fun e => (hf e).spinsAfter
    have hspin := hcaught.le_countP h
    omega
  | raised e =>
    exfalso
    clear hle hp
    induction p generalizing tr with
    | ret a => cases h
    | raise e =>
      obtain ⟨a, ha⟩ := (hf e).returned h
      cases ha
    | spin => cases h
    | call o k ih =>
      obtain ⟨a, tr', rfl, hrest⟩ := Completes.call_cases h
      exact ih a hrest

end Prog
