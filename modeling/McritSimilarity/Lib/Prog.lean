import Mathlib.Tactic.Common

/-!
# Programs over atomic operations

A program of type `Prog I ε α` calls the operations of an interface `I`, each of which is answered
by the environment, and ends by returning an `α` or by raising an `ε`.  `spin` stands for a loop
cut off before its end: a model of an unbounded loop takes a fuel argument and ends in `spin`, which
no handler catches.

Three readings of a program are used:

* `Exec p tr out`: some environment answers as in the trace `tr`, and `p` is then at `out`;
* `run h p s`: a handler `h` of the operations on a state answers, one call at a time;
* `OnlyCalls P p`: every operation `p` may ever call satisfies `P`, whatever the answers.
-/

set_option autoImplicit false

/-- The operations a program may call and the answers each of them can get. -/
structure Interface where
  Op : Type
  Ans : Op → Type

inductive Prog (I : Interface) (ε α : Type) : Type where
  | ret (a : α)
  | raise (e : ε)
  | spin
  | call (o : I.Op) (k : I.Ans o → Prog I ε α)

/-- Where a program stands: it has ended, or it has not (yet). -/
inductive Outcome (ε α : Type) where
  | returned (a : α)
  | raised (e : ε)
  | pending
  deriving DecidableEq, Repr

namespace Prog

variable {I : Interface} {ε α β γ σ : Type}

def bind : Prog I ε α → (α → Prog I ε β) → Prog I ε β
  | ret a, f => f a
  | raise e, _ => raise e
  | spin, _ => spin
  | call o k, f => call o fun a => (k a).bind f

instance : Monad (Prog I ε) where
  pure := ret
  bind := bind

/-- The program that calls one operation and returns its answer. -/
def op (o : I.Op) : Prog I ε (I.Ans o) := call o ret

/-- `try: p except e: h e`. -/
def tryCatch : Prog I ε α → (ε → Prog I ε α) → Prog I ε α
  | ret a, _ => ret a
  | raise e, h => h e
  | spin, _ => spin
  | call o k, h => call o fun a => (k a).tryCatch h

/-- `try: p finally: f`. -/
def tryFinally : Prog I ε α → Prog I ε Unit → Prog I ε α
  | ret a, f => f.bind fun _ => ret a
  | raise e, f => f.bind fun _ => raise e
  | spin, _ => spin
  | call o k, f => call o fun a => (k a).tryFinally f

/-- `if c: raise e`. -/
def raiseIf (c : Prop) [Decidable c] (e : ε) : Prog I ε Unit := if c then raise e else ret ()

/-- A program over `I` as one over `J`: an operation of `I` becomes one of `J`, whose answer is
translated back. -/
def lift {J : Interface} (f : I.Op → J.Op) (g : (o : I.Op) → J.Ans (f o) → I.Ans o) :
    Prog I ε α → Prog J ε α
  | ret a => ret a
  | raise e => raise e
  | spin => spin
  | call o k => call (f o) fun a => (k (g o a)).lift f g

/-- The end of a program as a result that may be an error. -/
def asExcept {δ : Type} : Prog I ε α → Prog I δ (Except ε α)
  | ret a => ret (.ok a)
  | raise e => ret (.error e)
  | spin => spin
  | call o k => call o fun a => (k a).asExcept

/-- A program over `I` as one over `J`: each operation of `I` is a program over `J`. -/
def inline {J : Interface} (f : (o : I.Op) → Prog J ε (I.Ans o)) : Prog I ε α → Prog J ε α
  | ret a => ret a
  | raise e => raise e
  | spin => spin
  | call o k => (f o).bind fun a => (k a).inline f

/-- A result that may be an error, as a program. -/
def ofExcept : Except ε α → Prog I ε α
  | .ok a => ret a
  | .error e => raise e

@[simp] theorem pure_eq_ret (a : α) : (pure a : Prog I ε α) = ret a := rfl

@[simp] theorem ret_bind (a : α) (f : α → Prog I ε β) : (ret a >>= f) = f a := rfl

@[simp] theorem raise_bind (e : ε) (f : α → Prog I ε β) : (raise e >>= f) = raise e := rfl

@[simp] theorem spin_bind (f : α → Prog I ε β) : (spin >>= f) = (spin : Prog I ε β) := rfl

@[simp] theorem call_bind (o : I.Op) (k : I.Ans o → Prog I ε α) (f : α → Prog I ε β) :
    (call o k >>= f) = call o fun a => k a >>= f := rfl

@[simp] theorem op_bind (o : I.Op) (f : I.Ans o → Prog I ε β) : (op o >>= f) = call o f := rfl

theorem raiseIf_neg {c : Prop} [Decidable c] (h : ¬ c) (e : ε) :
    (raiseIf c e : Prog I ε Unit) = ret () := if_neg h

theorem raiseIf_pos {c : Prop} [Decidable c] (h : c) (e : ε) :
    (raiseIf c e : Prog I ε Unit) = raise e := if_pos h

theorem bind_assoc (p : Prog I ε α) (f : α → Prog I ε β) (g : β → Prog I ε γ) :
    (p >>= f) >>= g = p >>= fun a => f a >>= g := by
  induction p with
  | call o k ih => simp only [call_bind, ih]
  | _ => rfl

theorem bind_ret (p : Prog I ε α) : (p >>= ret) = p := by
  induction p with
  | call o k ih => simp only [call_bind, ih]
  | _ => rfl

theorem asExcept_bind_ofExcept (p : Prog I ε α) (f : α → Prog I ε β) :
    (p.asExcept >>= fun a => ofExcept a >>= f) = p >>= f := by
  induction p with
  | call o k ih =>
    show call o (fun a => (k a).asExcept >>= fun a => ofExcept a >>= f) = call o fun a => k a >>= f
    simp only [ih]
  | _ => rfl

/-! ## Traces -/

/-- An operation together with the answer it got. -/
abbrev Event (I : Interface) := Σ o : I.Op, I.Ans o

/-- `Exec p tr out`: answered as in `tr`, the program `p` reaches `out`. -/
inductive Exec : Prog I ε α → List (Event I) → Outcome ε α → Prop where
  | ret (a : α) : Exec (ret a) [] (.returned a)
  | raise (e : ε) : Exec (raise e) [] (.raised e)
  | pending (p : Prog I ε α) : Exec p [] .pending
  | call {o : I.Op} {k : I.Ans o → Prog I ε α} {tr : List (Event I)} {out : Outcome ε α}
      (a : I.Ans o) (h : Exec (k a) tr out) : Exec (call o k) (⟨o, a⟩ :: tr) out

/-- An execution of `p >>= f` is one of `p` alone, or one of `p` to its end and then one of `f`. -/
theorem Exec.bind_cases {p : Prog I ε α} {f : α → Prog I ε β} {tr : List (Event I)}
    {out : Outcome ε β} (h : Exec (p >>= f) tr out) :
    (∃ e, Exec p tr (.raised e) ∧ out = .raised e) ∨ (Exec p tr .pending ∧ out = .pending) ∨
      ∃ a tr₁ tr₂, tr = tr₁ ++ tr₂ ∧ Exec p tr₁ (.returned a) ∧ Exec (f a) tr₂ out := by
  induction p generalizing tr out with
  | ret a => exact Or.inr (Or.inr ⟨a, [], tr, rfl, .ret a, h⟩)
  | raise e =>
    cases h with
    | raise => exact Or.inl ⟨e, .raise e, rfl⟩
    | pending => exact Or.inr (Or.inl ⟨.pending _, rfl⟩)
  | spin =>
    cases h
    exact Or.inr (Or.inl ⟨.pending _, rfl⟩)
  | call o k ih =>
    cases h with
    | pending => exact Or.inr (Or.inl ⟨.pending _, rfl⟩)
    | call a h =>
      rcases ih a h with ⟨e, he, rfl⟩ | ⟨hp, rfl⟩ | ⟨b, tr₁, tr₂, rfl, h₁, h₂⟩
      · exact Or.inl ⟨e, .call a he, rfl⟩
      · exact Or.inr (Or.inl ⟨.call a hp, rfl⟩)
      · exact Or.inr (Or.inr ⟨b, _, tr₂, rfl, .call a h₁, h₂⟩)

theorem Exec.bind_returned {p : Prog I ε α} {f : α → Prog I ε β} {tr : List (Event I)} {b : β}
    (h : Exec (p >>= f) tr (.returned b)) :
    ∃ a tr₁ tr₂, tr = tr₁ ++ tr₂ ∧ Exec p tr₁ (.returned a) ∧ Exec (f a) tr₂ (.returned b) := by
  rcases h.bind_cases with ⟨e, -, he⟩ | ⟨-, he⟩ | h
  · cases he
  · cases he
  · exact h

theorem Exec.ret_returned {a b : α} {tr : List (Event I)}
    (h : Exec (Prog.ret a : Prog I ε α) tr (.returned b)) : tr = [] ∧ b = a := by
  cases h
  exact ⟨rfl, rfl⟩

theorem Exec.op_returned {o : I.Op} {a : I.Ans o} {tr : List (Event I)}
    (h : Exec (op o : Prog I ε _) tr (.returned a)) : tr = [⟨o, a⟩] := by
  cases h with
  | call b h =>
    obtain ⟨rfl, rfl⟩ := h.ret_returned
    rfl

theorem Exec.ofExcept_returned {r : Except ε α} {a : α} {tr : List (Event I)}
    (h : Exec (ofExcept r : Prog I ε α) tr (.returned a)) : tr = [] ∧ r = .ok a := by
  cases r with
  | ok b =>
    obtain ⟨rfl, rfl⟩ := Exec.ret_returned h
    exact ⟨rfl, rfl⟩
  | error e => cases h

theorem Exec.raiseIf_returned {c : Prop} [Decidable c] {e : ε} {u : Unit} {tr : List (Event I)}
    (h : Exec (raiseIf c e : Prog I ε Unit) tr (.returned u)) : tr = [] ∧ ¬ c := by
  unfold raiseIf at h
  split_ifs at h with hc
  · cases h
  · exact ⟨(Exec.ret_returned h).1, hc⟩

theorem Exec.tryFinally_returned {p : Prog I ε α} {f : Prog I ε Unit} {tr : List (Event I)} {a : α}
    (h : Exec (p.tryFinally f) tr (.returned a)) :
    ∃ tr₁ tr₂, tr = tr₁ ++ tr₂ ∧ Exec p tr₁ (.returned a) ∧ Exec f tr₂ (.returned ()) := by
  induction p generalizing tr with
  | ret b =>
    obtain ⟨u, tr₁, tr₂, rfl, hf, hret⟩ := Exec.bind_returned (p := f) (f := fun _ => Prog.ret b) h
    obtain ⟨rfl, rfl⟩ := hret.ret_returned
    exact ⟨[], tr₁, by simp, .ret _, hf⟩
  | raise e =>
    obtain ⟨u, tr₁, tr₂, -, -, hraise⟩ := Exec.bind_returned (p := f) (f := fun _ => Prog.raise e) h
    cases hraise
  | spin => cases h
  | call o k ih =>
    cases h with
    | call b h =>
      obtain ⟨tr₁, tr₂, rfl, hp, hf⟩ := ih b h
      exact ⟨⟨o, b⟩ :: tr₁, tr₂, rfl, .call b hp, hf⟩

theorem Exec.bind {p : Prog I ε α} {f : α → Prog I ε β} {tr₁ tr₂ : List (Event I)} {a : α}
    {out : Outcome ε β} (h₁ : Exec p tr₁ (.returned a)) (h₂ : Exec (f a) tr₂ out) :
    Exec (p >>= f) (tr₁ ++ tr₂) out := by
  generalize he : Outcome.returned a = r at h₁
  induction h₁ with
  | ret b => cases he; exact h₂
  | raise => cases he
  | pending => cases he
  | call b _ ih => exact .call b (ih he)

/-- What is left of an execution of `p >>= f` after one of `p`. -/
theorem Exec.after {p : Prog I ε α} {f : α → Prog I ε β} {tr₁ tr₂ : List (Event I)} {a : α}
    {out : Outcome ε β} (h : Exec (p >>= f) (tr₁ ++ tr₂) out) (h₁ : Exec p tr₁ (.returned a)) :
    Exec (f a) tr₂ out := by
  induction p generalizing tr₁ with
  | ret b =>
    obtain ⟨rfl, rfl⟩ := h₁.ret_returned
    exact h
  | raise e => cases h₁
  | spin => cases h₁
  | call o k ih =>
    cases h₁ with
    | call b h₁ =>
      cases h with
      | call _ h => exact ih b h h₁

theorem Exec.bind_pending {p : Prog I ε α} {f : α → Prog I ε β} {tr : List (Event I)}
    (h : Exec p tr .pending) : Exec (p >>= f) tr .pending := by
  generalize hr : Outcome.pending = r at h
  induction h with
  | pending => exact .pending _
  | call a _ ih => exact .call a (ih hr)
  | _ => cases hr

theorem Exec.tryCatch_pending {p : Prog I ε α} {f : ε → Prog I ε α} {tr : List (Event I)}
    (h : Exec p tr .pending) : Exec (p.tryCatch f) tr .pending := by
  generalize hr : Outcome.pending = r at h
  induction h with
  | pending => exact .pending _
  | call a _ ih => exact .call a (ih hr)
  | _ => cases hr

theorem Exec.tryCatch_returned {p : Prog I ε α} {f : ε → Prog I ε α} {tr : List (Event I)} {a : α}
    (h : Exec p tr (.returned a)) : Exec (p.tryCatch f) tr (.returned a) := by
  generalize hr : Outcome.returned a = r at h
  induction h with
  | ret b => exact .ret b
  | call b _ ih => exact .call b (ih hr)
  | _ => cases hr

theorem Exec.tryFinally_pending {p : Prog I ε α} {f : Prog I ε Unit} {tr : List (Event I)}
    (h : Exec p tr .pending) : Exec (p.tryFinally f) tr .pending := by
  generalize hr : Outcome.pending = r at h
  induction h with
  | pending => exact .pending _
  | call a _ ih => exact .call a (ih hr)
  | _ => cases hr

/-! ## Which operations are called -/

/-- Every operation the program may ever call satisfies `P`. -/
def OnlyCalls (P : I.Op → Prop) : Prog I ε α → Prop
  | ret _ => True
  | raise _ => True
  | spin => True
  | call o k => P o ∧ ∀ a, (k a).OnlyCalls P

section OnlyCalls

variable {P Q : I.Op → Prop}

theorem OnlyCalls.bind {p : Prog I ε α} {f : α → Prog I ε β} (hp : p.OnlyCalls P)
    (hf : ∀ a, (f a).OnlyCalls P) : (p >>= f).OnlyCalls P := by
  induction p with
  | ret a => exact hf a
  | raise e => trivial
  | spin => trivial
  | call o k ih => exact ⟨hp.1, fun a => ih a (hp.2 a)⟩

/-- Every value the program may return satisfies `R`. -/
def Returns (R : α → Prop) : Prog I ε α → Prop
  | ret a => R a
  | raise _ => True
  | spin => True
  | call _ k => ∀ a, (k a).Returns R

theorem Returns.bind {p : Prog I ε α} {f : α → Prog I ε β} {R : α → Prop} {S : β → Prop}
    (hp : p.Returns R) (hf : ∀ a, R a → (f a).Returns S) : (p >>= f).Returns S := by
  induction p with
  | ret a => exact hf a hp
  | raise e => trivial
  | spin => trivial
  | call o k ih => exact fun a => ih a (hp a)

theorem returns_true (p : Prog I ε α) : p.Returns fun _ => True := by
  induction p with
  | call o k ih => exact fun a => ih a
  | _ => trivial

theorem Returns.mono {p : Prog I ε α} {R S : α → Prop} (h : p.Returns R) (hRS : ∀ a, R a → S a) :
    p.Returns S := by
  induction p with
  | ret a => exact hRS a h
  | call o k ih => exact fun a => ih a (h a)
  | _ => trivial

/-- `OnlyCalls.bind` for a continuation that relies on what the first program returns. -/
theorem OnlyCalls.bind_returns {p : Prog I ε α} {f : α → Prog I ε β} {R : α → Prop}
    (hp : p.OnlyCalls P) (hR : p.Returns R) (hf : ∀ a, R a → (f a).OnlyCalls P) :
    (p >>= f).OnlyCalls P := by
  induction p with
  | ret a => exact hf a hR
  | raise e => trivial
  | spin => trivial
  | call o k ih => exact ⟨hp.1, fun a => ih a (hp.2 a) (hR a)⟩

theorem OnlyCalls.tryCatch {p : Prog I ε α} {h : ε → Prog I ε α} (hp : p.OnlyCalls P)
    (hh : ∀ e, (h e).OnlyCalls P) : (p.tryCatch h).OnlyCalls P := by
  induction p with
  | ret a => trivial
  | raise e => exact hh e
  | spin => trivial
  | call o k ih => exact ⟨hp.1, fun a => ih a (hp.2 a)⟩

theorem OnlyCalls.tryFinally {p : Prog I ε α} {f : Prog I ε Unit} (hp : p.OnlyCalls P)
    (hf : f.OnlyCalls P) : (p.tryFinally f).OnlyCalls P := by
  induction p with
  | ret a => exact OnlyCalls.bind hf fun _ => trivial
  | raise e => exact OnlyCalls.bind hf fun _ => trivial
  | spin => trivial
  | call o k ih => exact ⟨hp.1, fun a => ih a (hp.2 a)⟩

theorem OnlyCalls.mono {p : Prog I ε α} (hp : p.OnlyCalls P) (h : ∀ o, P o → Q o) : p.OnlyCalls Q := by
  induction p with
  | call o k ih => exact ⟨h o hp.1, fun a => ih a (hp.2 a)⟩
  | _ => trivial

theorem onlyCalls_true (p : Prog I ε α) : p.OnlyCalls fun _ => True := by
  induction p with
  | call o k ih => exact ⟨trivial, ih⟩
  | _ => trivial

theorem OnlyCalls.lift {J : Interface} {R : J.Op → Prop} {f : I.Op → J.Op}
    {g : (o : I.Op) → J.Ans (f o) → I.Ans o} {p : Prog I ε α} (hp : p.OnlyCalls P)
    (hf : ∀ o, P o → R (f o)) : (p.lift f g).OnlyCalls R := by
  induction p with
  | call o k ih => exact ⟨hf o hp.1, fun a => ih (g o a) (hp.2 (g o a))⟩
  | _ => trivial

theorem OnlyCalls.asExcept {δ : Type} {p : Prog I ε α} (hp : p.OnlyCalls P) :
    (p.asExcept : Prog I δ (Except ε α)).OnlyCalls P := by
  induction p with
  | call o k ih => exact ⟨hp.1, fun a => ih a (hp.2 a)⟩
  | _ => trivial

theorem OnlyCalls.inline {J : Interface} {R : J.Op → Prop} {f : (o : I.Op) → Prog J ε (I.Ans o)}
    {p : Prog I ε α} (hp : p.OnlyCalls P) (hf : ∀ o, P o → (f o).OnlyCalls R) :
    (p.inline f).OnlyCalls R := by
  induction p with
  | call o k ih => exact OnlyCalls.bind (hf o hp.1) fun a => ih a (hp.2 a)
  | _ => trivial

theorem onlyCalls_op {o : I.Op} (h : P o) : (op o : Prog I ε _).OnlyCalls P :=
  ⟨h, fun _ => trivial⟩

theorem onlyCalls_ofExcept (r : Except ε α) : (ofExcept r : Prog I ε α).OnlyCalls P := by
  cases r <;> trivial

theorem onlyCalls_raiseIf (c : Prop) [Decidable c] (e : ε) :
    (raiseIf c e : Prog I ε Unit).OnlyCalls P := by
  unfold raiseIf
  split_ifs <;> trivial

/-- No execution calls an operation outside those the program may call. -/
theorem OnlyCalls.exec {p : Prog I ε α} (h : p.OnlyCalls P) {tr : List (Event I)}
    {out : Outcome ε α} (hex : Exec p tr out) : ∀ e ∈ tr, P e.1 := by
  induction hex with
  | call a _ ih =>
    intro e he
    rcases List.mem_cons.1 he with rfl | he
    · exact h.1
    · exact ih (h.2 a) e he
  | _ => simp

end OnlyCalls

/-! ## Answers that end a program -/

/-- An answer that satisfies `P` ends the program with an error. -/
def EndsAt (P : Event I → Prop) : Prog I ε α → Prop
  | ret _ => True
  | raise _ => True
  | spin => True
  | call o k => ∀ a, (P ⟨o, a⟩ → ∃ e, k a = raise e) ∧ (k a).EndsAt P

/-- An answer that satisfies `P` ends the program with a value that satisfies `F`. -/
def EndsWith (P : Event I → Prop) (F : α → Prop) : Prog I ε α → Prop
  | ret _ => True
  | raise _ => True
  | spin => True
  | call o k => ∀ a, (P ⟨o, a⟩ → ∃ b, k a = ret b ∧ F b) ∧ (k a).EndsWith P F

section EndsAt

variable {P : Event I → Prop}

/-- Nothing is called after such an answer. -/
theorem EndsAt.exec {p : Prog I ε α} (hp : p.EndsAt P) {tr before after : List (Event I)} {e : Event I}
    {out : Outcome ε α} (h : Exec p tr out) (htr : tr = before ++ e :: after) (he : P e) :
    after = [] ∧ ∀ a, out ≠ .returned a := by
  induction h generalizing before with
  | @call o k tr out a h ih =>
    cases before with
    | nil =>
      cases htr
      obtain ⟨e', hend⟩ := (hp a).1 he
      rw [hend] at h
      cases h with
      | raise => exact ⟨rfl, nofun⟩
      | pending => exact ⟨rfl, nofun⟩
    | cons e' before =>
      cases htr
      exact ih (hp a).2 rfl
  | _ => simp at htr

theorem EndsAt.bind {p : Prog I ε α} {f : α → Prog I ε β} (hp : p.EndsAt P) (hf : ∀ a, (f a).EndsAt P) :
    (p >>= f).EndsAt P := by
  induction p with
  | ret a => exact hf a
  | call o k ih =>
    refine fun a => ⟨fun hP => ?_, ih a (hp a).2⟩
    obtain ⟨e, he⟩ := (hp a).1 hP
    refine ⟨e, ?_⟩
    show (k a >>= f) = raise e
    rw [he, raise_bind]
  | _ => trivial

/-- What a program never calls does not end it. -/
theorem OnlyCalls.endsAt {Q : I.Op → Prop} {p : Prog I ε α} (hp : p.OnlyCalls Q)
    (h : ∀ o a, Q o → ¬ P ⟨o, a⟩) : p.EndsAt P := by
  induction p with
  | call o k ih => exact fun a => ⟨fun hP => absurd hP (h o a hp.1), ih a (hp.2 a)⟩
  | _ => trivial

theorem EndsAt.lift {J : Interface} {R : Event J → Prop} {f : I.Op → J.Op} {g : (o : I.Op) → J.Ans (f o) → I.Ans o}
    {p : Prog I ε α} (hp : p.EndsAt P) (h : ∀ o a, R ⟨f o, a⟩ → P ⟨o, g o a⟩) : (p.lift f g).EndsAt R := by
  induction p with
  | call o k ih =>
    refine fun a => ⟨fun hR => ?_, ih (g o a) (hp (g o a)).2⟩
    obtain ⟨e, he⟩ := (hp (g o a)).1 (h o a hR)
    refine ⟨e, ?_⟩
    show (k (g o a)).lift f g = raise e
    rw [he]
    rfl
  | _ => trivial

theorem EndsWith.mono {F G : α → Prop} {p : Prog I ε α} (hp : p.EndsWith P F) (hFG : ∀ a, F a → G a) :
    p.EndsWith P G := by
  induction p with
  | call o k ih =>
    refine fun a => ⟨fun hP => ?_, ih a (hp a).2⟩
    obtain ⟨b, hret, hb⟩ := (hp a).1 hP
    exact ⟨b, hret, hFG b hb⟩
  | _ => trivial

theorem EndsAt.asExcept {δ : Type} {p : Prog I ε α} (hp : p.EndsAt P) :
    (p.asExcept : Prog I δ (Except ε α)).EndsWith P fun r => ∃ e, r = .error e := by
  induction p with
  | call o k ih =>
    refine fun a => ⟨fun hP => ?_, ih a (hp a).2⟩
    obtain ⟨e, he⟩ := (hp a).1 hP
    exact ⟨.error e, congrArg Prog.asExcept he, e, rfl⟩
  | _ => trivial

theorem EndsAt.inline {J : Interface} {Q : Event J → Prop} {f : (o : I.Op) → Prog J ε (I.Ans o)}
    {p : Prog I ε α} (hp : p.EndsAt P) (hf : ∀ o, (f o).EndsWith Q fun a => P ⟨o, a⟩) :
    (p.inline f).EndsAt Q := by
  induction p with
  | call o k ih =>
    have hbind : ∀ q : Prog J ε (I.Ans o), (q.EndsWith Q fun a => P ⟨o, a⟩) →
        (q.bind fun a => (k a).inline f).EndsAt Q := by
      intro q hq
      induction q with
      | ret a => exact ih a (hp a).2
      | call o' k' ih' =>
        refine fun a => ⟨fun hQ => ?_, ih' a (hq a).2⟩
        obtain ⟨b, hret, hb⟩ := (hq a).1 hQ
        obtain ⟨e, hraise⟩ := (hp b).1 hb
        refine ⟨e, ?_⟩
        show (k' a).bind (fun a => (k a).inline f) = raise e
        rw [hret]
        show (k b).inline f = raise e
        rw [hraise]
        rfl
      | _ => trivial
    exact hbind (f o) (hf o)
  | _ => trivial

end EndsAt

/-! ## Handlers -/

/-- A handler answers each operation and updates the state. -/
abbrev Handler (I : Interface) (σ : Type) := (o : I.Op) → σ → I.Ans o × σ

/-- The program run to its end against a handler. -/
def run (h : Handler I σ) : Prog I ε α → σ → Outcome ε α × σ
  | ret a, s => (.returned a, s)
  | raise e, s => (.raised e, s)
  | spin, s => (.pending, s)
  | call o k, s => (k (h o s).1).run h (h o s).2

/-- The trace of the program run against a handler. -/
def runTrace (h : Handler I σ) : Prog I ε α → σ → List (Event I)
  | ret _, _ => []
  | raise _, _ => []
  | spin, _ => []
  | call o k, s => ⟨o, (h o s).1⟩ :: (k (h o s).1).runTrace h (h o s).2

theorem exec_run (h : Handler I σ) (p : Prog I ε α) (s : σ) : Exec p (p.runTrace h s) (p.run h s).1 := by
  induction p generalizing s with
  | ret a => exact .ret a
  | raise e => exact .raise e
  | spin => exact .pending _
  | call o k ih => exact .call (h o s).1 (ih (h o s).1 (h o s).2)

/-! ## Answers that depend on the operation alone -/

section Answers

variable (h : (o : I.Op) → I.Ans o)

/-- The trace of a program that is answered by `h`. -/
def trace : Prog I ε α → List (Event I)
  | ret _ => []
  | raise _ => []
  | spin => []
  | call o k => ⟨o, h o⟩ :: (k (h o)).trace

/-- The end of a program that is answered by `h`. -/
def outcome : Prog I ε α → Outcome ε α
  | ret a => .returned a
  | raise e => .raised e
  | spin => .pending
  | call o k => (k (h o)).outcome

theorem exec_trace (p : Prog I ε α) : Exec p (p.trace h) (p.outcome h) := by
  induction p with
  | ret a => exact .ret a
  | raise e => exact .raise e
  | spin => exact .pending _
  | call o k ih => exact .call (h o) (ih (h o))

theorem exec_of_outcome {p : Prog I ε α} {out : Outcome ε α} (hp : p.outcome h = out) :
    Exec p (p.trace h) out := by
  rw [← hp]
  exact exec_trace h p

theorem eq_of_mem_trace {p : Prog I ε α} {o : I.Op} {a : I.Ans o}
    (hmem : (⟨o, a⟩ : Event I) ∈ p.trace h) : a = h o := by
  induction p with
  | call o' k ih =>
    rcases List.mem_cons.1 hmem with heq | hmem
    · cases heq
      rfl
    · exact ih (h o') hmem
  | _ => cases hmem

theorem outcome_bind {p : Prog I ε α} {f : α → Prog I ε β} {a : α}
    (hp : p.outcome h = .returned a) : (p >>= f).outcome h = (f a).outcome h := by
  induction p with
  | ret b =>
    cases hp
    rfl
  | raise e => cases hp
  | spin => cases hp
  | call o k ih => exact ih (h o) hp

theorem trace_bind {p : Prog I ε α} {f : α → Prog I ε β} {a : α}
    (hp : p.outcome h = .returned a) :
    (p >>= f).trace h = p.trace h ++ (f a).trace h := by
  induction p with
  | ret b =>
    cases hp
    rfl
  | raise e => cases hp
  | spin => cases hp
  | call o k ih => exact congrArg (⟨o, h o⟩ :: ·) (ih (h o) hp)

end Answers

end Prog
