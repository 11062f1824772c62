import McritSimilarity.Lib.Prog

/-!
# What a program may cost

`Prog.CostsAtMost`: with a price for every operation, no execution of a program costs more than a bound.
-/

set_option autoImplicit false

namespace Prog

variable {I : Interface} {ε α β : Type} {cost : I.Op → ℕ} {m n : ℕ}

/-- The price of the operations of an execution. -/
def price (cost : I.Op → ℕ) : List (Event I) → ℕ
  | [] => 0
  | e :: tr => cost e.1 + price cost tr

/-- Whatever the answers are, the operations cost at most `b` together. -/
def CostsAtMost (cost : I.Op → ℕ) : ℕ → Prog I ε α → Prop
  | _, ret _ => True
  | _, raise _ => True
  | _, spin => True
  | b, call o k => cost o ≤ b ∧ ∀ a, (k a).CostsAtMost cost (b - cost o)

theorem CostsAtMost.mono {p : Prog I ε α} (hp : p.CostsAtMost cost m) (h : m ≤ n) : p.CostsAtMost cost n := by
  induction p generalizing m n with
  | call o k ih => exact ⟨Nat.le_trans hp.1 h, fun a => ih a (hp.2 a) (by omega)⟩
  | _ => trivial

/-- What follows may depend on what the program returns. -/
theorem CostsAtMost.bind_returns {p : Prog I ε α} {f : α → Prog I ε β} {R : α → Prop} (hp : p.CostsAtMost cost m)
    (hR : p.Returns R) (hf : ∀ a, R a → (f a).CostsAtMost cost n) : (p >>= f).CostsAtMost cost (m + n) := by
  induction p generalizing m with
  | ret a => exact (hf a hR).mono (by omega)
  | raise e => trivial
  | spin => trivial
  | call o k ih =>
    obtain ⟨hle, hk⟩ := hp
    refine ⟨by omega, fun a => ?_⟩
    have hrest : m + n - cost o = m - cost o + n := by omega
    rw [hrest]
    exact ih a (hk a) (hR a)

theorem CostsAtMost.bind {p : Prog I ε α} {f : α → Prog I ε β} (hp : p.CostsAtMost cost m)
    (hf : ∀ a, (f a).CostsAtMost cost n) : (p >>= f).CostsAtMost cost (m + n) :=
  hp.bind_returns (returns_true p) fun a _ => hf a

theorem CostsAtMost.bind_le {p : Prog I ε α} {f : α → Prog I ε β} {b : ℕ} (hp : p.CostsAtMost cost m)
    (hf : ∀ a, (f a).CostsAtMost cost n) (h : m + n ≤ b) : (p >>= f).CostsAtMost cost b :=
  (hp.bind hf).mono h

theorem CostsAtMost.free_bind {p : Prog I ε α} {f : α → Prog I ε β} (hp : p.CostsAtMost cost 0)
    (hf : ∀ a, (f a).CostsAtMost cost n) : (p >>= f).CostsAtMost cost n :=
  hp.bind_le hf (Nat.le_of_eq (Nat.zero_add n))

theorem CostsAtMost.bind_free {p : Prog I ε α} {f : α → Prog I ε β} (hp : p.CostsAtMost cost n)
    (hf : ∀ a, (f a).CostsAtMost cost 0) : (p >>= f).CostsAtMost cost n :=
  hp.bind_le hf (Nat.le_refl n)

theorem CostsAtMost.tryFinally {p : Prog I ε α} {f : Prog I ε Unit} (hp : p.CostsAtMost cost m)
    (hf : f.CostsAtMost cost n) : (p.tryFinally f).CostsAtMost cost (m + n) := by
  have hend : ∀ last : Prog I ε α, last.CostsAtMost cost 0 → (f.bind fun _ => last).CostsAtMost cost (m + n) :=
    fun last hlast => (hf.bind fun _ => hlast).mono (by omega)
  induction p generalizing m with
  | ret a => exact hend (ret a) trivial
  | raise e => exact hend (raise e) trivial
  | spin => trivial
  | call o k ih =>
    obtain ⟨hle, hk⟩ := hp
    refine ⟨by omega, fun a => ?_⟩
    have hrest : m + n - cost o = m - cost o + n := by omega
    rw [hrest]
    refine ih a (hk a) fun last hlast => ?_
    exact (hf.bind fun _ => hlast).mono (by omega)

theorem CostsAtMost.tryCatch {p : Prog I ε α} {f : ε → Prog I ε α} (hp : p.CostsAtMost cost m)
    (hf : ∀ e, (f e).CostsAtMost cost n) : (p.tryCatch f).CostsAtMost cost (m + n) := by
  induction p generalizing m with
  | ret a => trivial
  | raise e => exact (hf e).mono (by omega)
  | spin => trivial
  | call o k ih =>
    obtain ⟨hle, hk⟩ := hp
    refine ⟨by omega, fun a => ?_⟩
    have hrest : m + n - cost o = m - cost o + n := by omega
    rw [hrest]
    exact ih a (hk a)

/-- A program over another interface, whose operations have the prices of those behind them. -/
theorem CostsAtMost.lift {J : Interface} {cost' : J.Op → ℕ} {f : I.Op → J.Op}
    {g : (o : I.Op) → J.Ans (f o) → I.Ans o} (hcost : ∀ o, cost' (f o) = cost o) {p : Prog I ε α}
    (hp : p.CostsAtMost cost n) : (p.lift f g).CostsAtMost cost' n := by
  induction p generalizing n with
  | call o k ih =>
    refine ⟨by rw [hcost]; exact hp.1, fun a => ?_⟩
    rw [hcost]
    exact ih _ (hp.2 _)
  | _ => trivial

/-- A program whose operations have no price. -/
theorem OnlyCalls.costs {p : Prog I ε α} (hp : p.OnlyCalls fun o => cost o = 0) : p.CostsAtMost cost n := by
  induction p with
  | call o k ih =>
    have ho : cost o = 0 := hp.1
    refine ⟨by omega, fun a => ?_⟩
    rw [ho]
    exact ih a (hp.2 a)
  | _ => trivial

/-- An operation without a price. -/
theorem CostsAtMost.free {o : I.Op} {k : I.Ans o → Prog I ε α} (ho : cost o = 0)
    (hk : ∀ a, (k a).CostsAtMost cost n) : (call o k).CostsAtMost cost n := by
  refine ⟨by omega, fun a => ?_⟩
  rw [ho, Nat.sub_zero]
  exact hk a

theorem CostsAtMost.price_le {p : Prog I ε α} (hp : p.CostsAtMost cost n) {tr : List (Event I)} {out : Outcome ε α}
    (h : Exec p tr out) : price cost tr ≤ n := by
  induction h generalizing n with
  | @call o k tr out a _ ih =>
    obtain ⟨hle, hk⟩ := hp
    have hrest := ih (hk a)
    show cost o + price cost tr ≤ n
    omega
  | _ => exact Nat.zero_le n

end Prog
