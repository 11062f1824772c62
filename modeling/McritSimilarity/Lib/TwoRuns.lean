import McritSimilarity.Lib.Runs

/-!
# Two runs of programs

`Agree h h' R E Q p q` compares a run of `p` against the handler `h` with a run of `q` against `h'`.
From states related by `R` both return, with values and states related by `Q`, or both end without a
value in the same way, in states related by `E`.  The rules follow the structure of the programs;
`Agree.refl` is the rule for a program both of whose runs get the same answers.
-/

set_option autoImplicit false

variable {I : Interface} {ε α β γ δ σ σ' : Type}

/-- Two ends with related values, or with the same error, or none. -/
inductive OutcomeRel (V : α → β → Prop) : Outcome ε α → Outcome ε β → Prop where
  | returned {a : α} {b : β} (h : V a b) : OutcomeRel V (.returned a) (.returned b)
  | raised (e : ε) : OutcomeRel V (.raised e) (.raised e)
  | pending : OutcomeRel V .pending .pending

namespace OutcomeRel

theorem of_eq {V : α → α → Prop} (hV : ∀ a, V a a) {o o' : Outcome ε α} (h : o = o') :
    OutcomeRel V o o' := by
  subst h
  cases o with
  | returned a => exact .returned (hV a)
  | raised e => exact .raised e
  | pending => exact .pending

/-- What holds of every value the first end may have. -/
theorem and_left {V : α → β → Prop} {P : α → Prop} {o : Outcome ε α} {o' : Outcome ε β}
    (h : OutcomeRel V o o') (hP : ∀ a, o = .returned a → P a) :
    OutcomeRel (fun a b => V a b ∧ P a) o o' := by
  cases h with
  | returned h => exact .returned ⟨h, hP _ rfl⟩
  | raised e => exact .raised e
  | pending => exact .pending

theorem symm {V : α → β → Prop} {o : Outcome ε α} {o' : Outcome ε β} (h : OutcomeRel V o o') :
    OutcomeRel (fun b a => V a b) o' o := by
  cases h with
  | returned h => exact .returned h
  | raised e => exact .raised e
  | pending => exact .pending

theorem comp {V : α → β → Prop} {W : β → γ → Prop} {U : α → γ → Prop}
    (hU : ∀ a b c, V a b → W b c → U a c) {o : Outcome ε α} {o' : Outcome ε β} {o'' : Outcome ε γ}
    (h : OutcomeRel V o o') (h' : OutcomeRel W o' o'') : OutcomeRel U o o'' := by
  cases h with
  | returned h =>
    cases h' with
    | returned h' => exact .returned (hU _ _ _ h h')
  | raised e =>
    cases h'
    exact .raised e
  | pending =>
    cases h'
    exact .pending

end OutcomeRel

/-- The ends of two runs: values and states related by `Q`, or no values and states related by `E`. -/
inductive EndsAlike (E : σ → σ' → Prop) (Q : α → β → σ → σ' → Prop) :
    Outcome ε α × σ → Outcome ε β × σ' → Prop where
  | returned {a : α} {b : β} {s : σ} {s' : σ'} (h : Q a b s s') :
      EndsAlike E Q (.returned a, s) (.returned b, s')
  | raised (e : ε) {s : σ} {s' : σ'} (h : E s s') : EndsAlike E Q (.raised e, s) (.raised e, s')
  | pending {s : σ} {s' : σ'} (h : E s s') : EndsAlike E Q (.pending, s) (.pending, s')

theorem EndsAlike.mono {E E' : σ → σ' → Prop} {Q Q' : α → β → σ → σ' → Prop}
    {r : Outcome ε α × σ} {r' : Outcome ε β × σ'} (h : EndsAlike E Q r r')
    (hE : ∀ s s', E s s' → E' s s') (hQ : ∀ a b s s', Q a b s s' → Q' a b s s') :
    EndsAlike E' Q' r r' := by
  cases h with
  | returned h => exact .returned (hQ _ _ _ _ h)
  | raised e h => exact .raised e (hE _ _ h)
  | pending h => exact .pending (hE _ _ h)

theorem EndsAlike.states {E R : σ → σ' → Prop} {V : α → β → Prop}
    {r : Outcome ε α × σ} {r' : Outcome ε β × σ'}
    (h : EndsAlike E (fun a b s s' => V a b ∧ R s s') r r') (hE : ∀ s s', E s s' → R s s') :
    R r.2 r'.2 := by
  cases h with
  | returned h => exact h.2
  | raised e h => exact hE _ _ h
  | pending h => exact hE _ _ h

/-- Ends with related outcomes, whose states are related in every case. -/
theorem EndsAlike.of_outcomeRel {R : σ → σ' → Prop} {V : α → β → Prop} {r : Outcome ε α × σ}
    {r' : Outcome ε β × σ'} (hout : OutcomeRel V r.1 r'.1) (hR : R r.2 r'.2) :
    EndsAlike R (fun a b s s' => V a b ∧ R s s') r r' := by
  obtain ⟨o, s⟩ := r
  obtain ⟨o', s'⟩ := r'
  cases hout with
  | returned h => exact .returned ⟨h, hR⟩
  | raised e => exact .raised e hR
  | pending => exact .pending hR

namespace Prog

variable {h : Handler I σ} {h' : Handler I σ'}

/-! ## Agreement -/

def Agree (h : Handler I σ) (h' : Handler I σ') (R E : σ → σ' → Prop) (Q : α → β → σ → σ' → Prop)
    (p : Prog I ε α) (q : Prog I ε β) : Prop :=
  ∀ s s', R s s' → EndsAlike E Q (p.run h s) (q.run h' s')

section Agree

variable {R R' E E' : σ → σ' → Prop} {Q Q' : α → β → σ → σ' → Prop} {W : γ → δ → σ → σ' → Prop}

theorem Agree.mono {p : Prog I ε α} {q : Prog I ε β} (hpq : Agree h h' R E Q p q)
    (hR : ∀ s s', R' s s' → R s s') (hE : ∀ s s', E s s' → E' s s')
    (hQ : ∀ a b s s', Q a b s s' → Q' a b s s') : Agree h h' R' E' Q' p q :=
  fun s s' hs => (hpq s s' (hR s s' hs)).mono hE hQ

theorem Agree.ret {a : α} {b : β} (hab : ∀ s s', R s s' → Q a b s s') :
    Agree h h' R E Q (Prog.ret a : Prog I ε α) (Prog.ret b) :=
  fun s s' hs => .returned (hab s s' hs)

theorem Agree.raise (e : ε) (hE : ∀ s s', R s s' → E s s') :
    Agree h h' R E Q (Prog.raise e) (Prog.raise e) :=
  fun s s' hs => .raised e (hE s s' hs)

theorem Agree.bind {p : Prog I ε α} {q : Prog I ε β} {f : α → Prog I ε γ} {g : β → Prog I ε δ}
    (hpq : Agree h h' R E Q p q) (hfg : ∀ a b, Agree h h' (Q a b) E W (f a) (g b)) :
    Agree h h' R E W (p >>= f) (q >>= g) := by
  intro s s' hs
  rw [run_bind, run_bind]
  have hends := hpq s s' hs
  generalize p.run h s = r at hends
  generalize q.run h' s' = r' at hends
  cases hends with
  | returned hQ => exact hfg _ _ _ _ hQ
  | raised e hE => exact .raised e hE
  | pending hE => exact .pending hE

/-- `Agree.bind` where what the first programs return does not depend on the states. -/
theorem Agree.bind' {V : α → β → Prop} {S : σ → σ' → Prop} {p : Prog I ε α} {q : Prog I ε β} {f : α → Prog I ε γ}
    {g : β → Prog I ε δ} (hpq : Agree h h' R E (fun a b s s' => V a b ∧ S s s') p q)
    (hfg : ∀ a b, V a b → Agree h h' S E W (f a) (g b)) :
    Agree h h' R E W (p >>= f) (q >>= g) :=
  hpq.bind fun a b s s' hs => hfg a b hs.1 s s' hs.2

theorem Agree.tryCatch {p : Prog I ε α} {q : Prog I ε β} {f : ε → Prog I ε α} {g : ε → Prog I ε β}
    (hpq : Agree h h' R E Q p q) (hfg : ∀ e, Agree h h' E E Q (f e) (g e)) :
    Agree h h' R E Q (p.tryCatch f) (q.tryCatch g) := by
  intro s s' hs
  rw [run_tryCatch, run_tryCatch]
  have hends := hpq s s' hs
  generalize p.run h s = r at hends
  generalize q.run h' s' = r' at hends
  cases hends with
  | returned hQ => exact .returned hQ
  | raised e hE => exact hfg e _ _ hE
  | pending hE => exact .pending hE

/-- A program agrees with itself when each operation it may call gets the same answer in both runs. -/
theorem Agree.refl {P : I.Op → Prop} {p : Prog I ε α} (hp : p.OnlyCalls P)
    (hsame : ∀ o, P o → ∀ s s', R s s' → (h o s).1 = (h' o s').1 ∧ R (h o s).2 (h' o s').2) :
    Agree h h' R R (fun a b s s' => a = b ∧ R s s') p p := by
  induction p with
  | ret a => exact .ret fun s s' hs => ⟨rfl, hs⟩
  | raise e => exact .raise e fun _ _ hs => hs
  | spin => exact fun _ _ hs => .pending hs
  | call o k ih =>
    intro s s' hs
    obtain ⟨hanswer, hR⟩ := hsame o hp.1 s s' hs
    have hrest := ih (h o s).1 (hp.2 _) _ _ hR
    rw [run, run, ← hanswer]
    exact hrest

theorem Agree.ofExcept (r : Except ε α) (hE : ∀ s s', R s s' → E s s') :
    Agree h h' R E (fun a b s s' => (a = b ∧ r = .ok a) ∧ R s s') (Prog.ofExcept r)
      (Prog.ofExcept r) := by
  cases r with
  | ok a => exact .ret fun _ _ hs => ⟨⟨rfl, rfl⟩, hs⟩
  | error e => exact .raise e hE

end Agree

end Prog
