import McritSimilarity.Lib.Prog

/-!
# Where a program goes wrong

`FaultsAt P F p`: the program raises an error in `F` right after the answers in `P`, and nowhere else.  An
execution that has ended has then ended in such an error if and only if it got such an answer
(`FaultsAt.exec_iff`).
-/

set_option autoImplicit false

namespace Prog

variable {I J : Interface} {ε α β : Type}

/-- The program raises an error in `F` right after the answers in `P`, and nowhere else. -/
def FaultsAt (P : Event I → Prop) (F : ε → Prop) : Prog I ε α → Prop
  | ret _ => True
  | raise e => ¬ F e
  | spin => True
  | call o k => ∀ a, (P ⟨o, a⟩ → ∃ e, k a = raise e ∧ F e) ∧ (¬ P ⟨o, a⟩ → (k a).FaultsAt P F)

/-- The program raises nothing, and returns a value in `V` right after the answers in `P` and nowhere
else. -/
def YieldsAt (P : Event I → Prop) (V : α → Prop) : Prog I ε α → Prop
  | ret a => ¬ V a
  | raise _ => False
  | spin => True
  | call o k => ∀ a, (P ⟨o, a⟩ → ∃ b, k a = ret b ∧ V b) ∧ (¬ P ⟨o, a⟩ → (k a).YieldsAt P V)

section FaultsAt

variable {P : Event I → Prop} {F : ε → Prop}

theorem FaultsAt.exec_iff {p : Prog I ε α} (hp : p.FaultsAt P F) {tr : List (Event I)} {out : Outcome ε α}
    (h : Exec p tr out) (hend : out ≠ .pending) : (∃ e ∈ tr, P e) ↔ ∃ e, out = .raised e ∧ F e := by
  induction h with
  | ret a => simp
  | raise e =>
    have hfault : ¬ F e := hp
    simp [hfault]
  | pending => exact absurd rfl hend
  | @call o k tr out a h ih =>
    by_cases hP : P ⟨o, a⟩
    · obtain ⟨e, hk, he⟩ := (hp a).1 hP
      rw [hk] at h
      cases h with
      | raise => simp [hP, he]
      | pending => exact absurd rfl hend
    · have hrest := ih ((hp a).2 hP) hend
      simp only [List.mem_cons, or_and_right, exists_or, exists_eq_left, hrest, hP, false_or]

theorem FaultsAt.bind {p : Prog I ε α} {f : α → Prog I ε β} (hp : p.FaultsAt P F)
    (hf : ∀ a, (f a).FaultsAt P F) : (p >>= f).FaultsAt P F := by
  induction p with
  | ret a => exact hf a
  | raise e => exact hp
  | spin => trivial
  | call o k ih =>
    refine fun a => ⟨fun hP => ?_, fun hP => ih a ((hp a).2 hP)⟩
    obtain ⟨e, hk, he⟩ := (hp a).1 hP
    refine ⟨e, ?_, he⟩
    show (k a >>= f) = raise e
    rw [hk, raise_bind]

theorem faultsAt_raiseIf {c : Prop} [Decidable c] {e : ε} (he : ¬ F e) :
    (raiseIf c e : Prog I ε Unit).FaultsAt P F := by
  unfold raiseIf
  split_ifs
  · exact he
  · trivial

theorem faultsAt_ite {c : Prop} [Decidable c] {p q : Prog I ε α} (hp : p.FaultsAt P F)
    (hq : q.FaultsAt P F) : (if c then p else q).FaultsAt P F := by
  split_ifs
  · exact hp
  · exact hq

/-- An operation whose answers are no faults. -/
theorem faultsAt_op {o : I.Op} (h : ∀ a, ¬ P ⟨o, a⟩) : (op o : Prog I ε _).FaultsAt P F :=
  fun a => ⟨fun hP => absurd hP (h a), fun _ => trivial⟩

/-- As a result that may be an error, the end of a program is a fault where the program would raise it. -/
theorem FaultsAt.asExcept {δ : Type} {p : Prog I ε α} (hp : p.FaultsAt P F) :
    (p.asExcept : Prog I δ (Except ε α)).YieldsAt P fun r => ∃ e, r = .error e ∧ F e := by
  induction p with
  | ret a => exact nofun
  | raise e =>
    rintro ⟨e', heq, he⟩
    cases heq
    exact hp he
  | spin => trivial
  | call o k ih =>
    refine fun a => ⟨fun hP => ?_, fun hP => ih a ((hp a).2 hP)⟩
    obtain ⟨e, hk, he⟩ := (hp a).1 hP
    exact ⟨.error e, congrArg Prog.asExcept hk, e, rfl, he⟩

theorem YieldsAt.congr {V W : α → Prop} {p : Prog I ε α} (hp : p.YieldsAt P V) (hVW : ∀ a, V a ↔ W a) :
    p.YieldsAt P W := by
  have heq : V = W := funext fun a => propext (hVW a)
  rwa [← heq]

/-- The operations of a program stand for programs of their own. -/
theorem FaultsAt.inline {C : I.Op → Prop} {Q : Event J → Prop} {f : (o : I.Op) → Prog J ε (I.Ans o)}
    {p : Prog I ε α} (hp : p.FaultsAt P F) (hcalls : p.OnlyCalls C)
    (hf : ∀ o, C o → (f o).YieldsAt Q fun a => P ⟨o, a⟩) : (p.inline f).FaultsAt Q F := by
  induction p with
  | ret a => trivial
  | raise e => exact hp
  | spin => trivial
  | call o k ih =>
    have hbind : ∀ q : Prog J ε (I.Ans o), (q.YieldsAt Q fun a => P ⟨o, a⟩) →
        (q.bind fun a => (k a).inline f).FaultsAt Q F := by
      intro q hq
      induction q with
      | ret a => exact ih a ((hp a).2 hq) (hcalls.2 a)
      | raise e => exact hq.elim
      | spin => trivial
      | call o' k' ih' =>
        refine fun a => ⟨fun hQ => ?_, fun hQ => ih' a ((hq a).2 hQ)⟩
        obtain ⟨b, hret, hb⟩ := (hq a).1 hQ
        obtain ⟨e, hraise, he⟩ := (hp b).1 hb
        refine ⟨e, ?_, he⟩
        show (k' a).bind (fun a => (k a).inline f) = raise e
        rw [hret]
        show (k b).inline f = raise e
        rw [hraise]
        rfl
    exact hbind (f o) (hf o hcalls.1)

end FaultsAt

/-! ## Executions of inlined programs -/

/-- What a program may return, it may return with programs for its operations. -/
theorem Returns.inline {R : α → Prop} {p : Prog I ε α} (hp : p.Returns R)
    (f : (o : I.Op) → Prog J ε (I.Ans o)) : (p.inline f).Returns R := by
  induction p with
  | call o k ih => exact Returns.bind (returns_true (f o)) fun a _ => ih a (hp a)
  | ret a => exact hp
  | _ => trivial

theorem Returns.exec {R : α → Prop} {p : Prog I ε α} (hp : p.Returns R) {tr : List (Event I)} {a : α}
    (h : Exec p tr (.returned a)) : R a := by
  induction p generalizing tr with
  | ret b =>
    obtain ⟨-, rfl⟩ := h.ret_returned
    exact hp
  | call o k ih =>
    cases h with
    | call b h => exact ih b (hp b) h
  | _ => cases h

theorem Exec.asExcept_returned {δ : Type} {p : Prog I ε α} {tr : List (Event I)} {r : Except ε α}
    (h : Exec (p.asExcept : Prog I δ (Except ε α)) tr (.returned r)) :
    (∃ a, r = .ok a ∧ Exec p tr (.returned a)) ∨ ∃ e, r = .error e ∧ Exec p tr (.raised e) := by
  induction p generalizing tr with
  | ret a =>
    obtain ⟨rfl, rfl⟩ := h.ret_returned
    exact Or.inl ⟨a, rfl, .ret a⟩
  | raise e =>
    obtain ⟨rfl, rfl⟩ := h.ret_returned
    exact Or.inr ⟨e, rfl, .raise e⟩
  | spin => cases h
  | call o k ih =>
    cases h with
    | call a h =>
      rcases ih a h with ⟨b, rfl, hb⟩ | ⟨e, rfl, he⟩
      · exact Or.inl ⟨b, rfl, .call a hb⟩
      · exact Or.inr ⟨e, rfl, .call a he⟩

theorem Exec.asExcept_ne_raised {δ : Type} {p : Prog I ε α} {tr : List (Event I)} {d : δ} :
    ¬ Exec (p.asExcept : Prog I δ (Except ε α)) tr (.raised d) := by
  intro h
  induction p generalizing tr with
  | call o k ih =>
    cases h with
    | call a h => exact ih a h
  | _ => cases h

end Prog
