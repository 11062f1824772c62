import McritSimilarity.Lib.Machine
import McritSimilarity.Lib.Pool
import McritSimilarity.Lib.Runs

/-!
# Threads with a block under a lock

Every thread of a pool takes a lock, runs a block and releases the lock.  Whatever the order of the
operations, a block runs as if it ran alone: it starts in a state in which the lock is free and ends in
one that it can reach from there (`Exclusive.step`, `Exclusive.release`).
-/

set_option autoImplicit false

namespace Prog

variable {I : Interface} {ε α σ : Type} {sem : σ → (o : I.Op) → I.Ans o → σ → Prop}

/-- The program that has ended. -/
def ended : Outcome ε α → Prog I ε α
  | .returned a => ret a
  | .raised e => raise e
  | .pending => spin

/-- A thread of a pool can run its program to the end while the others wait. -/
theorem RunsTo.steps {τ : Type} [DecidableEq τ] {p : Prog I ε α} {s u : σ} {out : Outcome ε α}
    (h : RunsTo sem p s out u) (pool : Pool τ I ε α σ) (t : τ) (hs : pool.shared = s)
    (ht : pool.threads t = some p) :
    ∃ tr q, Steps (fun p (l : τ × Event I) q => p.OpStep sem l.1 l.2.1 l.2.2 q) pool tr q ∧ q.shared = u ∧
      q.threads t = some (ended out) := by
  induction h generalizing pool with
  | ret => exact ⟨[], pool, .refl _, hs, ht⟩
  | raise => exact ⟨[], pool, .refl _, hs, ht⟩
  | @call o k a s s' u out hsem _ ih =>
    obtain ⟨tr, q, hrun, hq, hend⟩ := ih ⟨s', Function.update pool.threads t (some (k a))⟩ rfl
      (Function.update_self _ _ _)
    exact ⟨(t, ⟨o, a⟩) :: tr, q, .cons ⟨k, ht, by rw [hs]; exact hsem, rfl⟩ hrun, hq, hend⟩

end Prog

/-! ## The lock -/

section Exclusive

open Prog

variable {τ : Type} [DecidableEq τ] {I : Interface} {ε α σ : Type}

/-- A block between the operations that take and release the lock. -/
def guarded (lock unlock : I.Op) (block : Prog I ε α) : Prog I ε α :=
  .call lock fun _ => block.tryFinally (.call unlock fun _ => .ret ())

/-- The operations with the lock, which is the first part of the state. -/
inductive LockSem (lock unlock : I.Op) (sem : σ → (o : I.Op) → I.Ans o → σ → Prop) :
    Bool × σ → (o : I.Op) → I.Ans o → Bool × σ → Prop where
  | acquire (s : σ) (a : I.Ans lock) : LockSem lock unlock sem (false, s) lock a (true, s)
  | release (held : Bool) (s : σ) (a : I.Ans unlock) : LockSem lock unlock sem (held, s) unlock a (false, s)
  | other (held : Bool) {s s' : σ} {o : I.Op} {a : I.Ans o} (hlock : o ≠ lock) (hunlock : o ≠ unlock)
      (h : sem s o a s') : LockSem lock unlock sem (held, s) o a (held, s')

/-- A step of a thread. -/
def guardedStep (lock unlock : I.Op) (sem : σ → (o : I.Op) → I.Ans o → σ → Prop)
    (p : Pool τ I ε α (Bool × σ)) (l : τ × Event I) (q : Pool τ I ε α (Bool × σ)) : Prop :=
  p.OpStep (LockSem lock unlock sem) l.1 l.2.1 l.2.2 q

/-- No thread has taken the lock yet. -/
def guardedPool (lock unlock : I.Op) (block : τ → Prog I ε α) (s : σ) : Pool τ I ε α (Bool × σ) :=
  ⟨(false, s), fun t => some (guarded lock unlock (block t))⟩

/-- What the threads rely on: a block neither takes nor releases the lock, and a block that starts in a
good state that admits it, ends in a good state. -/
structure GuardedBlocks (lock unlock : I.Op) (sem : σ → (o : I.Op) → I.Ans o → σ → Prop)
    (block : τ → Prog I ε α) (Good : σ → Prop) (Admits : τ → σ → Prop) : Prop where
  distinct : lock ≠ unlock
  calls : ∀ t, (block t).OnlyCalls fun o => o ≠ lock ∧ o ≠ unlock
  good : ∀ t s out u, Good s → Admits t s → RunsTo sem (block t) s out u → Good u

/-- The owner of the lock is inside its block, which runs as if it ran alone; all others are before or
behind theirs. -/
structure Exclusive (lock unlock : I.Op) (sem : σ → (o : I.Op) → I.Ans o → σ → Prop)
    (block : τ → Prog I ε α) (Good : σ → Prop) (Admits : τ → σ → Prop) (owner : Option τ)
    (p : Pool τ I ε α (Bool × σ)) : Prop where
  held : p.shared.1 = owner.isSome
  free : owner = none → Good p.shared.2
  inside : ∀ t, owner = some t → ∃ rest start,
    p.threads t = some (rest.tryFinally (.call unlock fun _ => .ret ())) ∧
      rest.OnlyCalls (fun o => o ≠ lock ∧ o ≠ unlock) ∧ Good start ∧ Admits t start ∧
        ∀ out u, RunsTo sem rest p.shared.2 out u → RunsTo sem (block t) start out u
  outside : ∀ t, owner ≠ some t → p.threads t = some (guarded lock unlock (block t)) ∨
    ∃ out, p.threads t = some (ended out)

variable {lock unlock : I.Op} {sem : σ → (o : I.Op) → I.Ans o → σ → Prop} {block : τ → Prog I ε α}
  {Good : σ → Prop} {Admits : τ → σ → Prop} {owner : Option τ} {p q : Pool τ I ε α (Bool × σ)}

omit [DecidableEq τ] in
theorem exclusive_guardedPool {s : σ} (hs : Good s) :
    Exclusive lock unlock sem block Good Admits none (guardedPool lock unlock block s) where
  held := rfl
  free := fun _ => hs
  inside := nofun
  outside := fun _ _ => Or.inl rfl

/-- The step of a thread that is not the owner takes the free lock. -/
theorem Exclusive.acquire (hp : Exclusive lock unlock sem block Good Admits owner p)
    (hblocks : GuardedBlocks lock unlock sem block Good Admits) {t : τ} (ht : owner ≠ some t) {o : I.Op}
    {a : I.Ans o} (h : p.OpStep (LockSem lock unlock sem) t o a q)
    (hadmits : o = lock → Admits t p.shared.2) :
    o = lock ∧ Exclusive lock unlock sem block Good Admits (some t) q := by
  obtain ⟨k, hk, hsem, hthreads⟩ := h
  rcases hp.outside t ht with hbefore | ⟨out, hended⟩
  · rw [hk, Option.some.injEq, guarded, Prog.call.injEq] at hbefore
    obtain ⟨rfl, hk'⟩ := hbefore
    rw [heq_eq_eq] at hk'
    subst hk'
    generalize hshared : p.shared = before at hsem
    generalize hshared' : q.shared = after at hsem
    have hheld := hp.held
    cases hsem with
    | release held s => exact absurd rfl hblocks.distinct
    | other held hlock hunlock h => exact absurd rfl hlock
    | acquire s =>
      rw [hshared] at hheld
      have hnone : owner = none := by simpa using hheld
      refine ⟨rfl, ?_, nofun, fun u hu => ?_, fun u hu => ?_⟩
      · rw [hshared']
        rfl
      · obtain rfl := Option.some.inj hu
        refine ⟨block t, s, ?_, hblocks.calls t, ?_, ?_, ?_⟩
        · rw [hthreads, Function.update_self]
        · have hgood := hp.free hnone
          rwa [hshared] at hgood
        · have hstart := hadmits rfl
          rwa [hshared] at hstart
        · rw [hshared']
          exact fun _ _ h => h
      · have hut : u ≠ t := fun heq => hu (congrArg some heq.symm)
        rw [hthreads, Function.update_of_ne hut]
        exact hp.outside u (by rw [hnone]; exact nofun)
  · rw [hk, Option.some.injEq] at hended
    cases out <;> cases hended

/-- The owner has run its block to its end and releases the lock. -/
theorem Exclusive.leave (hblocks : GuardedBlocks lock unlock sem block Good Admits) {t : τ}
    (hp : Exclusive lock unlock sem block Good Admits (some t) p) {start : σ} {out : Outcome ε α}
    (hgood : Good start) (hadmits : Admits t start) (hend : RunsTo sem (block t) start out p.shared.2)
    {a : I.Ans unlock} (hsem : LockSem lock unlock sem p.shared unlock a q.shared)
    (hthreads : q.threads = Function.update p.threads t (some (ended out))) :
    Exclusive lock unlock sem block Good Admits none q ∧ q.shared.2 = p.shared.2 := by
  generalize hshared : p.shared = before at hsem hend
  generalize hshared' : q.shared = after at hsem
  cases hsem with
  | acquire s => exact absurd rfl hblocks.distinct
  | other held hlock hunlock h => exact absurd rfl hunlock
  | release held s =>
    refine ⟨⟨by rw [hshared']; rfl, fun _ => ?_, nofun, fun u _ => ?_⟩, rfl⟩
    · rw [hshared']
      exact hblocks.good t start _ _ hgood hadmits hend
    · rw [hthreads]
      by_cases hu : u = t
      · subst hu
        exact Or.inr ⟨out, Function.update_self _ _ _⟩
      · rw [Function.update_of_ne hu]
        exact hp.outside u fun heq => hu (Option.some.inj heq).symm

/-- The owner goes on with its block, or releases the lock at its end. -/
theorem Exclusive.proceed (hblocks : GuardedBlocks lock unlock sem block Good Admits) {t : τ}
    (hp : Exclusive lock unlock sem block Good Admits (some t) p) {o : I.Op} {a : I.Ans o}
    (h : p.OpStep (LockSem lock unlock sem) t o a q) :
    (o ≠ lock ∧ o ≠ unlock ∧ Exclusive lock unlock sem block Good Admits (some t) q) ∨
      o = unlock ∧ Exclusive lock unlock sem block Good Admits none q ∧ q.shared.2 = p.shared.2 ∧
        ∃ start out, Good start ∧ Admits t start ∧ q.threads t = some (ended out) ∧
          RunsTo sem (block t) start out p.shared.2 := by
  obtain ⟨k, hk, hsem, hthreads⟩ := h
  obtain ⟨rest, start, hrest, hcalls, hgood, hadmits, hruns⟩ := hp.inside t rfl
  rw [hk, Option.some.injEq] at hrest
  cases rest with
  | ret b =>
    cases hrest
    have hend := hruns _ _ (.ret b _)
    obtain ⟨hq, hshared⟩ := hp.leave hblocks hgood hadmits hend hsem hthreads
    exact Or.inr ⟨rfl, hq, hshared, start, _, hgood, hadmits, by rw [hthreads, Function.update_self]; rfl, hend⟩
  | raise e =>
    cases hrest
    have hend := hruns _ _ (.raise e _)
    obtain ⟨hq, hshared⟩ := hp.leave hblocks hgood hadmits hend hsem hthreads
    exact Or.inr ⟨rfl, hq, hshared, start, _, hgood, hadmits, by rw [hthreads, Function.update_self]; rfl, hend⟩
  | spin => cases hrest
  | call o' k' =>
    left
    cases hrest
    obtain ⟨⟨hlock, hunlock⟩, hcalls⟩ := hcalls
    generalize hshared : p.shared = before at hsem hruns
    generalize hshared' : q.shared = after at hsem
    cases hsem with
    | acquire s => exact absurd rfl hlock
    | release held s => exact absurd rfl hunlock
    | @other held s s' _ _ _ _ h =>
      have hheld := hp.held
      rw [hshared] at hheld
      refine ⟨hlock, hunlock, by rw [hshared']; exact hheld, nofun, fun u hu => ?_, fun u hu => ?_⟩
      · cases hu
        refine ⟨k' a, start, by rw [hthreads, Function.update_self], hcalls a, hgood, hadmits, ?_⟩
        rw [hshared']
        exact fun out u hrun => hruns out u (.call h hrun)
      · rw [hthreads, Function.update_of_ne fun heq => hu (congrArg some heq.symm)]
        exact hp.outside u hu

/-- Every step keeps some owner. -/
theorem Exclusive.step (hblocks : GuardedBlocks lock unlock sem block Good Admits)
    (hp : ∃ owner, Exclusive lock unlock sem block Good Admits owner p) {t : τ} {o : I.Op} {a : I.Ans o}
    (hadmits : o = lock → Admits t p.shared.2) (h : p.OpStep (LockSem lock unlock sem) t o a q) :
    ∃ owner, Exclusive lock unlock sem block Good Admits owner q := by
  obtain ⟨owner, hp⟩ := hp
  by_cases ht : owner = some t
  · subst ht
    rcases hp.proceed hblocks h with ⟨-, -, hq⟩ | ⟨-, hq, -⟩
    · exact ⟨_, hq⟩
    · exact ⟨_, hq⟩
  · exact ⟨_, (hp.acquire hblocks ht h hadmits).2⟩

/-- A thread that releases the lock has run its block, from a good state that admitted it. -/
theorem Exclusive.release (hblocks : GuardedBlocks lock unlock sem block Good Admits)
    (hp : ∃ owner, Exclusive lock unlock sem block Good Admits owner p) {t : τ} {a : I.Ans unlock} {b : α}
    (h : p.OpStep (LockSem lock unlock sem) t unlock a q) (hq : q.threads t = some (.ret b)) :
    q.shared.2 = p.shared.2 ∧ ∃ start, Good start ∧ Admits t start ∧
      RunsTo sem (block t) start (.returned b) p.shared.2 := by
  obtain ⟨owner, hp⟩ := hp
  by_cases ht : owner = some t
  · subst ht
    rcases hp.proceed hblocks h with ⟨-, hne, -⟩ | ⟨-, -, hshared, start, out, hgood, hadmits, hend, hrun⟩
    · exact absurd rfl hne
    · rw [hq, Option.some.injEq] at hend
      cases out with
      | returned b' =>
        cases hend
        exact ⟨hshared, start, hgood, hadmits, hrun⟩
      | _ => cases hend
  · exact absurd (hp.acquire hblocks ht h fun heq => absurd heq.symm hblocks.distinct).1
      (Ne.symm hblocks.distinct)

end Exclusive
