import Mathlib.Logic.Function.Basic
import McritSimilarity.Lib.Machine
import McritSimilarity.Lib.Prog

/-!
# Threads over a shared state

A pool runs programs as threads, one operation at a time and in any order.  What an operation may
answer in a state, and the state it leaves, is a relation; where it relates nothing, the operation
waits.  `Pool.onlyCalls_opStep` keeps track of what the threads may still call, and `Pool.steps_runs` gives the run
of a schedule, in which each thread has a handler of its own.
-/

set_option autoImplicit false

/-- A shared state and, for each thread that was started, what is left of its program. -/
structure Pool (τ : Type) (I : Interface) (ε α σ : Type) where
  shared : σ
  threads : τ → Option (Prog I ε α)

namespace Pool

variable {τ : Type} [DecidableEq τ] {I : Interface} {ε α σ : Type}

/-- Thread `t` calls `o`, which is answered by `a`. -/
def OpStep (sem : σ → (o : I.Op) → I.Ans o → σ → Prop) (p : Pool τ I ε α σ) (t : τ) (o : I.Op)
    (a : I.Ans o) (q : Pool τ I ε α σ) : Prop :=
  ∃ k, p.threads t = some (.call o k) ∧ sem p.shared o a q.shared ∧
    q.threads = Function.update p.threads t (some (k a))

/-- The thread has not ended. -/
def Running (p : Pool τ I ε α σ) (t : τ) : Prop := ∃ o k, p.threads t = some (.call o k)

/-- Every operation that thread `t` may still call satisfies `P t`. -/
def OnlyCalls (P : τ → I.Op → Prop) (p : Pool τ I ε α σ) : Prop :=
  ∀ t prog, p.threads t = some prog → prog.OnlyCalls (P t)

variable {sem : σ → (o : I.Op) → I.Ans o → σ → Prop} {p q : Pool τ I ε α σ} {t : τ} {o : I.Op}
  {a : I.Ans o}

theorem opStep_call {k : I.Ans o → Prog I ε α} {s' : σ} (ht : p.threads t = some (.call o k))
    (hsem : sem p.shared o a s') :
    OpStep sem p t o a ⟨s', Function.update p.threads t (some (k a))⟩ :=
  ⟨k, ht, hsem, rfl⟩

theorem OpStep.running (h : OpStep sem p t o a q) : p.Running t := by
  obtain ⟨k, hk, -, -⟩ := h
  exact ⟨o, k, hk⟩

theorem OpStep.answered (h : OpStep sem p t o a q) : sem p.shared o a q.shared := by
  obtain ⟨k, -, hsem, -⟩ := h
  exact hsem

/-- A step leaves the other threads alone. -/
theorem OpStep.threads_of_ne {u : τ} (h : OpStep sem p t o a q) (hu : u ≠ t) : q.threads u = p.threads u := by
  obtain ⟨k, -, -, hthreads⟩ := h
  rw [hthreads, Function.update_of_ne hu]

/-- A thread that runs after a step ran before it. -/
theorem OpStep.running_of {u : τ} (h : OpStep sem p t o a q) (hu : q.Running u) : p.Running u := by
  by_cases hut : u = t
  · rw [hut]
    exact h.running
  · obtain ⟨o', k', hk'⟩ := hu
    exact ⟨o', k', by rwa [h.threads_of_ne hut] at hk'⟩

theorem onlyCalls_op {P : τ → I.Op → Prop} (hp : p.OnlyCalls P) (h : OpStep sem p t o a q) :
    P t o := by
  obtain ⟨k, hk, -, -⟩ := h
  exact (hp t _ hk).1

theorem onlyCalls_opStep {P : τ → I.Op → Prop} (hp : p.OnlyCalls P) (h : OpStep sem p t o a q) :
    q.OnlyCalls P := by
  obtain ⟨k, hk, -, hthreads⟩ := h
  intro u prog hu
  rw [hthreads] at hu
  by_cases hut : u = t
  · subst hut
    rw [Function.update_self] at hu
    obtain rfl := Option.some.inj hu
    exact (hp u _ hk).2 a
  · rw [Function.update_of_ne hut] at hu
    exact hp u prog hu

/-- A pool with one more thread. -/
def spawn (p : Pool τ I ε α σ) (t : τ) (prog : Prog I ε α) : Pool τ I ε α σ :=
  ⟨p.shared, Function.update p.threads t (some prog)⟩

@[simp] theorem shared_spawn (p : Pool τ I ε α σ) (t : τ) (prog : Prog I ε α) :
    (p.spawn t prog).shared = p.shared := rfl

@[simp] theorem threads_spawn_self (p : Pool τ I ε α σ) (t : τ) (prog : Prog I ε α) :
    (p.spawn t prog).threads t = some prog :=
  Function.update_self _ _ _

theorem threads_spawn_of_ne {u : τ} (hu : u ≠ t) (p : Pool τ I ε α σ) (prog : Prog I ε α) :
    (p.spawn t prog).threads u = p.threads u :=
  Function.update_of_ne hu _ _

theorem running_of_spawn {u : τ} {prog : Prog I ε α} (hu : u ≠ t)
    (h : (p.spawn t prog).Running u) : p.Running u := by
  obtain ⟨o, k, h⟩ := h
  exact ⟨o, k, by rwa [threads_spawn_of_ne hu] at h⟩

variable (sem) in
/-- A thread whose program has an execution can take its first operation. -/
theorem exists_opStep {prog : Prog I ε α} {tr : List (Prog.Event I)} {out : Outcome ε α} {s' : σ}
    (ht : p.threads t = some prog) (hexec : prog.Exec (⟨o, a⟩ :: tr) out)
    (hsem : sem p.shared o a s') :
    ∃ q prog', OpStep sem p t o a q ∧ q.shared = s' ∧ q.threads t = some prog' ∧
      prog'.Exec tr out := by
  cases hexec with
  | @call _ k _ _ _ h =>
    refine ⟨⟨s', Function.update p.threads t (some (k a))⟩, k a, ⟨k, ht, hsem, rfl⟩, rfl, ?_, h⟩
    exact Function.update_self t (some (k a)) p.threads

/-! ## Schedules -/

section Schedules

variable (h : τ → Prog.Handler I σ) (ready : τ → σ → I.Op → Bool)

/-- The next operation of a thread, answered by its handler. -/
def advance (p : Pool τ I ε α σ) (t : τ) : Pool τ I ε α σ :=
  match p.threads t with
  | some (.call o k) => ⟨(h t o p.shared).2, Function.update p.threads t (some (k (h t o p.shared).1))⟩
  | _ => p

/-- The next operation of a thread. -/
def nextOp (p : Pool τ I ε α σ) (t : τ) : Option I.Op :=
  match p.threads t with
  | some (.call o _) => some o
  | _ => none

/-- What a thread has returned. -/
def returned (p : Pool τ I ε α σ) (t : τ) : Option α :=
  match p.threads t with
  | some (.ret a) => some a
  | _ => none

/-- Whether a thread has a next operation and need not wait. -/
def isReady (p : Pool τ I ε α σ) (t : τ) : Bool := (p.nextOp t).any (ready t p.shared)

/-- The threads take their steps in the order of a schedule. -/
def runs (p : Pool τ I ε α σ) : List τ → Pool τ I ε α σ
  | [] => p
  | t :: schedule => runs (p.advance h t) schedule

/-- The operations of a schedule, with their answers. -/
def traceOf (p : Pool τ I ε α σ) : List τ → List (τ × Prog.Event I)
  | [] => []
  | t :: schedule =>
    match p.nextOp t with
    | some o => (t, ⟨o, (h t o p.shared).1⟩) :: traceOf (p.advance h t) schedule
    | none => traceOf p schedule

/-- No thread of the schedule has to wait. -/
def allReady (p : Pool τ I ε α σ) : List τ → Bool
  | [] => true
  | t :: schedule => p.isReady ready t && allReady (p.advance h t) schedule

variable {h ready} {sem : τ → σ → (o : I.Op) → I.Ans o → σ → Prop}

omit [DecidableEq τ] in
theorem threads_of_returned {x : α} (hx : p.returned t = some x) : p.threads t = some (.ret x) := by
  unfold returned at hx
  split at hx
  · next hret => rwa [← Option.some.inj hx]
  · cases hx

omit [DecidableEq τ] in
theorem running_of_nextOp (ho : p.nextOp t = some o) : p.Running t := by
  unfold nextOp at ho
  split at ho
  · next o' k hprog => exact ⟨o', k, hprog⟩
  · cases ho

theorem opStep_advance (hsem : ∀ t s o, ready t s o = true → sem t s o (h t o s).1 (h t o s).2)
    (ho : p.nextOp t = some o) (hready : ready t p.shared o = true) :
    OpStep (sem t) p t o (h t o p.shared).1 (p.advance h t) := by
  unfold nextOp at ho
  unfold advance
  split at ho
  · next o' k hprog =>
    obtain rfl := Option.some.inj ho
    exact ⟨k, hprog, hsem _ _ _ hready, rfl⟩
  · cases ho

theorem steps_runs (hsem : ∀ t s o, ready t s o = true → sem t s o (h t o s).1 (h t o s).2) {schedule : List τ}
    (hready : p.allReady h ready schedule = true) :
    Steps (fun p (l : τ × Prog.Event I) q => OpStep (sem l.1) p l.1 l.2.1 l.2.2 q) p (p.traceOf h schedule)
      (p.runs h schedule) := by
  induction schedule generalizing p with
  | nil => exact .refl p
  | cons t schedule ih =>
    rw [allReady, Bool.and_eq_true, isReady, Option.any_eq_true] at hready
    obtain ⟨⟨o, ho, hfirst⟩, hrest⟩ := hready
    rw [traceOf, ho]
    exact .cons (opStep_advance hsem ho hfirst) (ih hrest)

theorem threads_advance_of_ne {u : τ} (hu : u ≠ t) : (p.advance h t).threads u = p.threads u := by
  unfold advance
  split
  · exact Function.update_of_ne hu _ _
  · rfl

theorem threads_runs_replicate {u : τ} (hu : u ≠ t) (n : ℕ) :
    (p.runs h (List.replicate n t)).threads u = p.threads u := by
  induction n generalizing p with
  | zero => rfl
  | succ n ih => exact ih.trans (threads_advance_of_ne hu)

/-- A thread takes its steps while all others stand still. -/
theorem steps_replicate {cond : Pool τ I ε α σ → τ × Prog.Event I → Prop}
    (hsem : ∀ t s o, ready t s o = true → sem t s o (h t o s).1 (h t o s).2) {n : ℕ}
    (hready : p.allReady h ready (List.replicate n t) = true)
    (hcond : ∀ q : Pool τ I ε α σ, (∀ u, u ≠ t → q.threads u = p.threads u) → ∀ e, cond q (t, e)) :
    Steps (restrict (fun p (l : τ × Prog.Event I) q => OpStep (sem l.1) p l.1 l.2.1 l.2.2 q) cond) p
      (p.traceOf h (List.replicate n t)) (p.runs h (List.replicate n t)) := by
  induction n generalizing p with
  | zero => exact .refl p
  | succ n ih =>
    rw [List.replicate_succ, allReady, Bool.and_eq_true, isReady, Option.any_eq_true] at hready
    obtain ⟨⟨o, ho, hfirst⟩, hrest⟩ := hready
    rw [List.replicate_succ, traceOf, ho]
    refine .cons ⟨hcond p (fun _ _ => rfl) _, opStep_advance hsem ho hfirst⟩ (ih hrest fun q hq => ?_)
    exact hcond q fun u hu => (hq u hu).trans (threads_advance_of_ne hu)

end Schedules

end Pool
