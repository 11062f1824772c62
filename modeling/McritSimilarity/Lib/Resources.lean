import Mathlib.Data.Set.Insert
import Mathlib.Logic.Relation
import McritSimilarity.Lib.Machine
import McritSimilarity.Lib.Pool

/-!
# Threads that wait for resources

An operation may need a resource to be free, take it, or give it back, and resources have ranks.  `Prog.Orderly`:
a program needs only what ranks above all it holds, and comes to an end.  Threads that run such programs never
deadlock: whoever waits, waits in the end for a thread that can go on (`HoldsInOrder.exists_canStep`).
-/

set_option autoImplicit false

/-- How the operations of an interface use resources. -/
structure Discipline (I : Interface) (R : Type) where
  /-- What has to be free for an operation to be answered so. -/
  needs : (o : I.Op) → I.Ans o → Option R
  /-- What the operation then holds. -/
  takes : (o : I.Op) → I.Ans o → Option R
  gives : I.Op → Option R
  rank : R → ℕ
  needs_of_takes : ∀ {o : I.Op} {a : I.Ans o} {r : R}, takes o a = some r → needs o a = some r

namespace Discipline

variable {I : Interface} {R : Type} (D : Discipline I R)

/-- What is held after an operation. -/
def after (held : Set R) (o : I.Op) (a : I.Ans o) : Set R :=
  {r | D.takes o a = some r ∨ (r ∈ held ∧ D.gives o ≠ some r)}

/-- Everything that is held ranks below the resource. -/
def Below (held : Set R) (r : R) : Prop := ∀ r' ∈ held, D.rank r' < D.rank r

/-- Only what ranks higher is asked for, and only what is held is given back. -/
structure Allows (held : Set R) (o : I.Op) : Prop where
  above : ∀ a r, D.needs o a = some r → D.Below held r
  own : ∀ r, D.gives o = some r → r ∈ held

/-- Uses no resources. -/
structure Aside (o : I.Op) : Prop where
  needs : ∀ a, D.needs o a = none
  gives : D.gives o = none

/-- Gives back one resource, and uses no other. -/
structure Returns (o : I.Op) (r : R) : Prop where
  needs : ∀ a, D.needs o a = none
  gives : D.gives o = some r

variable {D} {held : Set R} {o : I.Op} {r : R}

theorem takes_eq_none {a : I.Ans o} (h : D.needs o a = none) : D.takes o a = none := by
  apply Option.eq_none_iff_forall_ne_some.2
  intro r hr
  rw [D.needs_of_takes hr] at h
  cases h

theorem below_empty : D.Below ∅ r := fun _ h => absurd h (Set.notMem_empty _)

theorem Below.notMem (h : D.Below held r) : r ∉ held := fun hr => lt_irrefl _ (h r hr)

theorem Below.insert {r' : R} (h : D.Below held r') (hr : D.rank r < D.rank r') : D.Below (insert r held) r' := by
  intro r'' hmem
  rcases Set.mem_insert_iff.1 hmem with rfl | hmem
  · exact hr
  · exact h r'' hmem

theorem Aside.allows (h : D.Aside o) : D.Allows held o where
  above := fun a r hr => by simp [h.needs] at hr
  own := fun r hr => by simp [h.gives] at hr

theorem Aside.after (h : D.Aside o) (a : I.Ans o) : D.after held o a = held := by
  ext r
  simp [Discipline.after, takes_eq_none (h.needs a), h.gives]

theorem Returns.allows (h : D.Returns o r) : D.Allows (insert r held) o where
  above := fun a r' hr => by simp [h.needs] at hr
  own := fun r' hr => by
    rw [h.gives, Option.some.injEq] at hr
    exact hr ▸ Set.mem_insert r held

theorem Returns.after (h : D.Returns o r) (a : I.Ans o) (hr : r ∉ held) : D.after (insert r held) o a = held := by
  ext r'
  simp only [Discipline.after, takes_eq_none (h.needs a), h.gives, Set.mem_ofPred_eq, Set.mem_insert_iff, ne_eq,
    Option.some.injEq, reduceCtorEq, false_or]
  constructor
  · rintro ⟨rfl | hmem, hne⟩
    · exact absurd rfl hne
    · exact hmem
  · intro hmem
    exact ⟨.inr hmem, fun heq => hr (heq ▸ hmem)⟩

/-- What is taken is held as well. -/
theorem after_takes {a : I.Ans o} (htakes : D.takes o a = some r) (hgives : D.gives o = none) :
    D.after held o a = insert r held := by
  ext r'
  simp [after, htakes, hgives, eq_comm]

/-- Nothing changes without taking and giving. -/
theorem after_kept {a : I.Ans o} (htakes : D.takes o a = none) (hgives : D.gives o = none) :
    D.after held o a = held := by
  ext r'
  simp [after, htakes, hgives]

end Discipline

/-! ## Programs -/

namespace Prog

variable {I : Interface} {R ε α β : Type} {D : Discipline I R} {held mid last : Set R}

/-- Once it holds `held`, the program asks only for what ranks higher, and it ends with `last` held. -/
def Orderly (D : Discipline I R) (last : Set R) : Set R → Prog I ε α → Prop
  | held, ret _ => held = last
  | held, raise _ => held = last
  | _, spin => False
  | held, call o k => D.Allows held o ∧ ∀ a, (k a).Orderly D last (D.after held o a)

theorem Orderly.of_eq {p : Prog I ε α} (h : held = mid) (hp : p.Orderly D last mid) : p.Orderly D last held := by
  rwa [h]

theorem Orderly.bind {p : Prog I ε α} {f : α → Prog I ε β} (hp : p.Orderly D last held)
    (hf : ∀ a, (f a).Orderly D last last) : (p >>= f).Orderly D last held := by
  induction p generalizing held with
  | ret a => exact .of_eq hp (hf a)
  | raise e => exact hp
  | spin => exact hp
  | call o k ih => exact ⟨hp.1, fun a => ih a (hp.2 a)⟩

theorem Orderly.tryCatch {p : Prog I ε α} {f : ε → Prog I ε α} (hp : p.Orderly D last held)
    (hf : ∀ e, (f e).Orderly D last last) : (p.tryCatch f).Orderly D last held := by
  induction p generalizing held with
  | ret a => exact hp
  | raise e => exact .of_eq hp (hf e)
  | spin => exact hp
  | call o k ih => exact ⟨hp.1, fun a => ih a (hp.2 a)⟩

/-- What the last block gives back, the body may still hold, however it ends. -/
theorem Orderly.tryFinally {p : Prog I ε α} {f : Prog I ε Unit} (hp : p.Orderly D mid held)
    (hf : f.Orderly D last mid) : (p.tryFinally f).Orderly D last held := by
  induction p generalizing held with
  | ret a =>
    obtain rfl : held = mid := hp
    exact hf.bind fun _ => rfl
  | raise e =>
    obtain rfl : held = mid := hp
    exact hf.bind fun _ => rfl
  | spin => exact hp
  | call o k ih => exact ⟨hp.1, fun a => ih a (hp.2 a)⟩

theorem Orderly.aside {o : I.Op} {k : I.Ans o → Prog I ε α} (ho : D.Aside o)
    (hk : ∀ a, (k a).Orderly D last held) : (call o k).Orderly D last held := by
  refine ⟨ho.allows, fun a => ?_⟩
  rw [ho.after a]
  exact hk a

theorem Orderly.returns {o : I.Op} {r : R} {k : I.Ans o → Prog I ε α} (ho : D.Returns o r) (hr : r ∉ held)
    (hk : ∀ a, (k a).Orderly D last held) : (call o k).Orderly D last (insert r held) := by
  refine ⟨ho.allows, fun a => ?_⟩
  rw [ho.after a hr]
  exact hk a

theorem orderly_raiseIf (c : Prop) [Decidable c] (e : ε) : (raiseIf c e : Prog I ε Unit).Orderly D held held := by
  unfold raiseIf
  split_ifs <;> rfl

theorem orderly_ofExcept (x : Except ε α) : (ofExcept x : Prog I ε α).Orderly D held held := by
  cases x <;> rfl

/-- A program over another interface, whose operations use the same resources. -/
theorem Orderly.lift {J : Interface} {E : Discipline J R} {f : I.Op → J.Op} {g : (o : I.Op) → J.Ans (f o) → I.Ans o}
    (hneeds : ∀ o a, E.needs (f o) a = D.needs o (g o a)) (htakes : ∀ o a, E.takes (f o) a = D.takes o (g o a))
    (hgives : ∀ o, E.gives (f o) = D.gives o) (hrank : E.rank = D.rank) {p : Prog I ε α}
    (hp : p.Orderly D last held) : (p.lift f g).Orderly E last held := by
  induction p generalizing held with
  | ret a => exact hp
  | raise e => exact hp
  | spin => exact hp
  | call o k ih =>
    obtain ⟨⟨habove, hown⟩, hk⟩ := hp
    refine ⟨⟨fun a r hr => ?_, fun r hr => ?_⟩, fun a => ?_⟩
    · rw [hneeds] at hr
      have hbelow := habove _ r hr
      unfold Discipline.Below at hbelow ⊢
      rwa [hrank]
    · rw [hgives] at hr
      exact hown r hr
    · have hafter : E.after held (f o) a = D.after held o (g o a) := by
        unfold Discipline.after
        rw [htakes, hgives]
      rw [hafter]
      exact ih _ (hk _)

end Prog

/-! ## Pools -/

/-- A state and, for each resource that is in use, the thread that holds it. -/
structure Owned (R τ σ : Type) where
  owner : R → Option τ
  state : σ

section Owned

variable {I : Interface} {R τ ε α σ : Type} [DecidableEq R] [DecidableEq τ] (D : Discipline I R)
  (sem : σ → (o : I.Op) → I.Ans o → σ → Prop)

/-- What an operation of thread `t` may answer and does: it waits for what it needs. -/
structure OwnedSem (t : τ) (s : Owned R τ σ) (o : I.Op) (a : I.Ans o) (s' : Owned R τ σ) : Prop where
  answered : sem s.state o a s'.state
  free : ∀ r, D.needs o a = some r → s.owner r = none
  owner : ∀ r, s'.owner r =
    if D.takes o a = some r then some t else if D.gives o = some r then none else s.owner r

def ownedStep (p : Pool τ I ε α (Owned R τ σ)) (l : τ × Prog.Event I) (q : Pool τ I ε α (Owned R τ σ)) : Prop :=
  p.OpStep (OwnedSem D sem l.1) l.1 l.2.1 l.2.2 q

/-- Thread `t` can take a step of the given kind. -/
def CanStep (ok : Prog.Event I → Prop) (p : Pool τ I ε α (Owned R τ σ)) (t : τ) : Prop :=
  ∃ e q, ok e ∧ ownedStep D sem p (t, e) q

/-- Thread `t` cannot go on, and `u` holds what it needs. -/
def BlockedOn (ok : Prog.Event I → Prop) (p : Pool τ I ε α (Owned R τ σ)) (t u : τ) : Prop :=
  ¬ CanStep D sem ok p t ∧ ∃ o k a r, p.threads t = some (.call o k) ∧ D.needs o a = some r ∧
    p.shared.owner r = some u

/-- The threads keep the order of the ranks, and own what they hold. -/
structure HoldsInOrder (p : Pool τ I ε α (Owned R τ σ)) (held : τ → Set R) : Prop where
  orderly : ∀ t prog, p.threads t = some prog → prog.Orderly D ∅ (held t)
  idle : ∀ t, p.threads t = none → held t = ∅
  owns : ∀ r t, p.shared.owner r = some t ↔ r ∈ held t

variable {D sem} {ok : Prog.Event I → Prop} {p q : Pool τ I ε α (Owned R τ σ)} {held : τ → Set R} {t : τ}

/-- Nobody else holds what a thread takes or gives back. -/
theorem OwnedSem.owns {s s' : Owned R τ σ} {o : I.Op} {a : I.Ans o} (h : OwnedSem D sem t s o a s')
    (hs : ∀ r u, s.owner r = some u ↔ r ∈ held u) (hallows : D.Allows (held t) o) (r : R) (u : τ) :
    s'.owner r = some u ↔ r ∈ Function.update held t (D.after (held t) o a) u := by
  have hother : u ≠ t → Function.update held t (D.after (held t) o a) u = held u := fun hu =>
    Function.update_of_ne hu _ _
  have hself : Function.update held t (D.after (held t) o a) t = D.after (held t) o a := Function.update_self ..
  rw [h.owner]
  by_cases htakes : D.takes o a = some r
  · have hfree := h.free r (D.needs_of_takes htakes)
    rw [if_pos htakes]
    by_cases hu : u = t
    · subst hu
      rw [hself]
      exact iff_of_true rfl (.inl htakes)
    · rw [hother hu, ← hs, hfree]
      simp [Ne.symm hu]
  rw [if_neg htakes]
  by_cases hgives : D.gives o = some r
  · have hown := (hs r t).2 (hallows.own r hgives)
    rw [if_pos hgives]
    by_cases hu : u = t
    · subst hu
      rw [hself]
      simp [Discipline.after, htakes, hgives]
    · rw [hother hu, ← hs, hown]
      simp [Ne.symm hu]
  · rw [if_neg hgives, hs]
    by_cases hu : u = t
    · subst hu
      rw [hself]
      simp [Discipline.after, htakes, hgives]
    · rw [hother hu]

theorem HoldsInOrder.step (h : HoldsInOrder D p held) {l : τ × Prog.Event I} (hstep : ownedStep D sem p l q) :
    HoldsInOrder D q (Function.update held l.1 (D.after (held l.1) l.2.1 l.2.2)) := by
  obtain ⟨t, o, a⟩ := l
  obtain ⟨k, hk, hsem, hthreads⟩ := hstep
  have horderly := h.orderly t _ hk
  refine ⟨fun u prog hu => ?_, fun u hu => ?_, hsem.owns h.owns horderly.1⟩
  · rw [hthreads] at hu
    by_cases hut : u = t
    · subst hut
      rw [Function.update_self] at hu ⊢
      obtain rfl := Option.some.inj hu
      exact horderly.2 a
    · rw [Function.update_of_ne hut] at hu ⊢
      exact h.orderly u prog hu
  · rw [hthreads] at hu
    by_cases hut : u = t
    · subst hut
      rw [Function.update_self] at hu
      cases hu
    · rw [Function.update_of_ne hut] at hu ⊢
      exact h.idle u hu

theorem HoldsInOrder.steps {tr : List (τ × Prog.Event I)} (h : HoldsInOrder D p held)
    (hrun : Steps (ownedStep D sem) p tr q) : ∃ held', HoldsInOrder D q held' :=
  hrun.invariant (P := fun p => ∃ held, HoldsInOrder D p held) (fun _ _ _ ⟨_, hp⟩ hstep => ⟨_, hp.step hstep⟩) ⟨_, h⟩

omit [DecidableEq R] [DecidableEq τ] in
/-- A thread that holds something has not ended. -/
theorem HoldsInOrder.running (h : HoldsInOrder D p held) {r : R} (hr : p.shared.owner r = some t) : p.Running t := by
  have hheld : (held t).Nonempty := ⟨r, (h.owns r t).1 hr⟩
  cases ht : p.threads t with
  | none => exact absurd (h.idle t ht) hheld.ne_empty
  | some prog =>
    have horderly := h.orderly t prog ht
    cases prog with
    | ret a => exact absurd horderly hheld.ne_empty
    | raise e => exact absurd horderly hheld.ne_empty
    | spin => exact absurd horderly id
    | call o k => exact ⟨o, k, ht⟩

/-- A thread takes its next step, or what it needs is held. -/
theorem canStep_or_waitsFor (hanswer : ∀ s o, ∃ a s', ok ⟨o, a⟩ ∧ sem s o a s') {o : I.Op} {k : I.Ans o → Prog I ε α}
    (ht : p.threads t = some (.call o k)) : CanStep D sem ok p t ∨
      ∃ a r u, D.needs o a = some r ∧ p.shared.owner r = some u ∧ BlockedOn D sem ok p t u := by
  by_cases hcan : CanStep D sem ok p t
  · exact .inl hcan
  obtain ⟨a, s', hok, hsem⟩ := hanswer p.shared.state o
  have hheld : ∃ r, D.needs o a = some r ∧ p.shared.owner r ≠ none := by
    by_contra hfree
    simp only [not_exists, not_and, not_not] at hfree
    let owner : R → Option τ := fun r =>
      if D.takes o a = some r then some t else if D.gives o = some r then none else p.shared.owner r
    have hstep : OwnedSem D sem t p.shared o a ⟨owner, s'⟩ := ⟨hsem, hfree, fun _ => rfl⟩
    exact hcan ⟨⟨o, a⟩, _, hok, Pool.opStep_call ht hstep⟩
  obtain ⟨r, hr, howner⟩ := hheld
  obtain ⟨u, hu⟩ := Option.ne_none_iff_exists'.1 howner
  exact .inr ⟨a, r, u, hr, hu, hcan, o, k, a, r, ht, hr, hu⟩

/-- Whoever waits, waits in the end for a thread that can go on. -/
theorem HoldsInOrder.exists_canStep (hanswer : ∀ s o, ∃ a s', ok ⟨o, a⟩ ∧ sem s o a s') {bound : ℕ}
    (hbound : ∀ r, D.rank r < bound) (h : HoldsInOrder D p held) (ht : p.Running t) :
    ∃ u, Relation.ReflTransGen (BlockedOn D sem ok p) t u ∧ CanStep D sem ok p u := by
  -- The induction is on the ranks that are left: the holder of a resource needs only what ranks higher.
  have hrank : ∀ n t o k, p.threads t = some (.call o k) → (∀ a r, D.needs o a = some r → bound ≤ D.rank r + n) →
      ∃ u, Relation.ReflTransGen (BlockedOn D sem ok p) t u ∧ CanStep D sem ok p u := by
    intro n
    induction n with
    | zero =>
      intro t o k ht hneeds
      rcases canStep_or_waitsFor hanswer ht with hcan | ⟨a, r, u, hr, -, -⟩
      · exact ⟨t, .refl, hcan⟩
      · have hle := hneeds a r hr
        have hlt := hbound r
        omega
    | succ n ih =>
      intro t o k ht hneeds
      rcases canStep_or_waitsFor hanswer ht with hcan | ⟨a, r, u, hr, hu, hwaits⟩
      · exact ⟨t, .refl, hcan⟩
      · obtain ⟨o', k', hu'⟩ := h.running hu
        have hneeds' : ∀ a' r', D.needs o' a' = some r' → bound ≤ D.rank r' + n := by
          intro a' r' hr'
          have hlt := (h.orderly u _ hu').1.above a' r' hr' r ((h.owns r u).1 hu)
          have hle := hneeds a r hr
          omega
        obtain ⟨v, hchain, hcan⟩ := ih u o' k' hu' hneeds'
        exact ⟨v, .head hwaits hchain, hcan⟩
  obtain ⟨o, k, ht⟩ := ht
  exact hrank bound t o k ht fun _ _ _ => Nat.le_add_left ..

end Owned
