import Mathlib.Data.Int.Notation
import McritSimilarity.Lib.Protocol

/-!
# Pausing the cyclic collector

`gcPaused` is `_gc_paused` around a body: a counter and a remembered flag under a lock, over the one switch of the
process.  Threads that touch these only through `gcPaused` (`OnlyPauses`) keep to `gcProtocol`, and `PauseInv` relates
the bodies that run to the counter, the flag and the switch.  `gcGivenBack`: the collector is off while a body runs, and
as before when none does.
-/

set_option autoImplicit false

namespace McritSimilarity

open Prog

/-! ## Operations -/

/-- The two blocks under `_gc_lock`. -/
inductive GcBlock where
  | enter
  | leave
  deriving DecidableEq, Repr

/-- `W` are the operations of the bodies. -/
inductive GcOp (W : Interface) where
  | acquire (block : GcBlock)
  | release (block : GcBlock)
  | getPausers
  | setPausers (n : ℤ)
  | getResume
  | setResume (resume : Bool)
  | isEnabled
  | enable
  | disable
  | body (o : W.Op)

@[reducible] def GcOp.Ans {W : Interface} : GcOp W → Type
  | getPausers => ℤ
  | getResume => Bool
  | isEnabled => Bool
  | body o => W.Ans o
  | _ => Unit

def GcI (W : Interface) : Interface := ⟨GcOp W, GcOp.Ans⟩

/-- `_gc_lock`, `_gc_pausers`, `_gc_resume` and the switch of the collector. -/
structure GcState where
  locked : Bool
  pausers : ℤ
  resume : Bool
  enabled : Bool
  deriving DecidableEq, Repr

/-- The module when it is imported. -/
def GcState.start (enabled : Bool) : GcState := ⟨false, 0, false, enabled⟩

section Programs

variable {W : Interface} {ε α τ : Type}

/-- A thread waits for the lock while another one has it. -/
def GcState.ready (s : GcState) : GcOp W → Bool
  | .acquire _ => !s.locked
  | _ => true

/-- What a body does is answered in any way. -/
def GcState.Answers (s : GcState) : (o : GcOp W) → o.Ans → Prop
  | .getPausers, n => n = s.pausers
  | .getResume, resume => resume = s.resume
  | .isEnabled, enabled => enabled = s.enabled
  | _, _ => True

def GcState.after (s : GcState) : GcOp W → GcState
  | .acquire _ => { s with locked := true }
  | .release _ => { s with locked := false }
  | .setPausers n => { s with pausers := n }
  | .setResume resume => { s with resume := resume }
  | .enable => { s with enabled := true }
  | .disable => { s with enabled := false }
  | _ => s

/-- An operation, its answer and its effect. -/
def GcSem (s : GcState) (o : GcOp W) (a : o.Ans) (t : GcState) : Prop :=
  s.ready o = true ∧ s.Answers o a ∧ t = s.after o

/-! ## The context manager -/

abbrev GcProg (W : Interface) (ε α : Type) := Prog (GcI W) ε α

def gcCall (o : GcOp W) : GcProg W ε o.Ans := Prog.op (I := GcI W) o

/-- A block under `_gc_lock`. -/
def withGcLock (block : GcBlock) (p : GcProg W ε Unit) : GcProg W ε Unit := do
  gcCall (.acquire block)
  p.tryFinally (gcCall (.release block))

/-- `_gc_paused` up to its `yield`. -/
def gcEnter : GcProg W ε Unit := withGcLock .enter do
  let pausers : ℤ ← gcCall .getPausers
  if pausers = 0 then do
    let enabled ← gcCall .isEnabled
    gcCall (.setResume enabled)
    gcCall .disable
  else pure ()
  let pausers : ℤ ← gcCall .getPausers
  gcCall (.setPausers (pausers + 1))

/-- Its `finally`. -/
def gcLeave : GcProg W ε Unit := withGcLock .leave do
  let pausers : ℤ ← gcCall .getPausers
  gcCall (.setPausers (pausers - 1))
  let pausers : ℤ ← gcCall .getPausers
  if pausers = 0 then do
    let resume : Bool ← gcCall .getResume
    if resume = true then gcCall .enable else pure ()
  else pure ()

/-- `with _gc_paused(): body`. -/
def gcPaused (body : GcProg W ε α) : GcProg W ε α := do
  gcEnter
  body.tryFinally gcLeave

/-- The programs that touch the collector, its lock and its variables only in `gcPaused`. -/
inductive OnlyPauses : {α : Type} → GcProg W ε α → Prop where
  | ret {α : Type} (a : α) : OnlyPauses (.ret a)
  | raise {α : Type} (e : ε) : OnlyPauses (.raise e : GcProg W ε α)
  | spin {α : Type} : OnlyPauses (.spin : GcProg W ε α)
  | body (o : W.Op) : OnlyPauses (gcCall (.body o))
  | bind {α β : Type} {p : GcProg W ε α} {q : α → GcProg W ε β} (hp : OnlyPauses p) (hq : ∀ a, OnlyPauses (q a)) :
      OnlyPauses (p >>= q)
  | tryCatch {α : Type} {p : GcProg W ε α} {q : ε → GcProg W ε α} (hp : OnlyPauses p) (hq : ∀ e, OnlyPauses (q e)) :
      OnlyPauses (p.tryCatch q)
  | tryFinally {α : Type} {p : GcProg W ε α} {q : GcProg W ε Unit} (hp : OnlyPauses p) (hq : OnlyPauses q) :
      OnlyPauses (p.tryFinally q)
  | gcPaused {α : Type} {p : GcProg W ε α} (hp : OnlyPauses p) : OnlyPauses (gcPaused p)

/-! ## Threads -/

abbrev GcEvent (τ : Type) (W : Interface) := τ × Event (GcI W)

/-- A body runs from the end of its entry to the start of its exit. -/
def afterEvent [DecidableEq τ] (bodies : List τ) (l : GcEvent τ W) : List τ :=
  match l.2.1 with
  | .release .enter => l.1 :: bodies
  | .acquire .leave => bodies.erase l.1
  | _ => bodies

end Programs

/-! ## The stages of a thread -/

/-- Where a thread stands in `_gc_paused`: outside the two blocks under the lock, or before one of their operations. -/
inductive GcPosition where
  | outside
  | counting
  | sampling
  | remembering (enabled : Bool)
  | stopping
  | recounting
  | adding (n : ℤ)
  | entered
  | uncounting
  | subtracting (n : ℤ)
  | checking
  | asking
  | resuming
  | left

/-- `depth` is the number of bodies of the thread that run. -/
structure GcStage where
  depth : ℕ
  position : GcPosition

/-- The operation neither takes nor releases the lock. -/
def GcOp.Silent {W : Interface} (o : GcOp W) : Prop := ∀ block, o ≠ .acquire block ∧ o ≠ .release block

namespace GcStage

variable {W : Interface}

def allowed : GcStage → GcOp W → Prop
  | ⟨_, .outside⟩, .body _ => True
  | ⟨_, .outside⟩, .acquire .enter => True
  | ⟨_ + 1, .outside⟩, .acquire .leave => True
  | ⟨_, .counting⟩, .getPausers => True
  | ⟨_, .sampling⟩, .isEnabled => True
  | ⟨_, .remembering enabled⟩, .setResume resume => resume = enabled
  | ⟨_, .stopping⟩, .disable => True
  | ⟨_, .recounting⟩, .getPausers => True
  | ⟨_, .adding n⟩, .setPausers m => m = n + 1
  | ⟨_, .entered⟩, .release .enter => True
  | ⟨_, .uncounting⟩, .getPausers => True
  | ⟨_, .subtracting n⟩, .setPausers m => m = n - 1
  | ⟨_, .checking⟩, .getPausers => True
  | ⟨_, .asking⟩, .getResume => True
  | ⟨_, .resuming⟩, .enable => True
  | ⟨_, .left⟩, .release .leave => True
  | _, _ => False

def next : GcStage → (o : GcOp W) → o.Ans → GcStage
  | ⟨d, .outside⟩, .acquire .enter, _ => ⟨d, .counting⟩
  | ⟨d + 1, .outside⟩, .acquire .leave, _ => ⟨d, .uncounting⟩
  | ⟨d, .counting⟩, .getPausers, n => ⟨d, if (n : ℤ) = 0 then .sampling else .recounting⟩
  | ⟨d, .sampling⟩, .isEnabled, enabled => ⟨d, .remembering enabled⟩
  | ⟨d, .remembering _⟩, .setResume _, _ => ⟨d, .stopping⟩
  | ⟨d, .stopping⟩, .disable, _ => ⟨d, .recounting⟩
  | ⟨d, .recounting⟩, .getPausers, n => ⟨d, .adding n⟩
  | ⟨d, .adding _⟩, .setPausers _, _ => ⟨d, .entered⟩
  | ⟨d, .entered⟩, .release .enter, _ => ⟨d + 1, .outside⟩
  | ⟨d, .uncounting⟩, .getPausers, n => ⟨d, .subtracting n⟩
  | ⟨d, .subtracting _⟩, .setPausers _, _ => ⟨d, .checking⟩
  | ⟨d, .checking⟩, .getPausers, n => ⟨d, if (n : ℤ) = 0 then .asking else .left⟩
  | ⟨d, .asking⟩, .getResume, resume => ⟨d, if resume = true then .resuming else .left⟩
  | ⟨d, .resuming⟩, .enable, _ => ⟨d, .left⟩
  | ⟨d, .left⟩, .release .leave, _ => ⟨d, .outside⟩
  | stage, _, _ => stage

variable {st : GcStage} {o : GcOp W} {a : o.Ans}

/-- A thread outside the blocks goes on with its bodies, or takes the lock. -/
theorem outside_cases (hposition : st.position = .outside) (hallowed : st.allowed o) :
    (∃ o', o = .body o' ∧ st.next o a = st) ∨ (o = .acquire .enter ∧ st.next o a = ⟨st.depth, .counting⟩) ∨
      o = .acquire .leave ∧ ∃ d, st.depth = d + 1 ∧ st.next o a = ⟨d, .uncounting⟩ := by
  obtain ⟨d, position⟩ := st
  obtain rfl : position = .outside := hposition
  cases o with
  | body o' => exact .inl ⟨o', rfl, rfl⟩
  | acquire block =>
    cases block with
    | enter => exact .inr (.inl ⟨rfl, rfl⟩)
    | leave =>
      cases d with
      | zero => exact hallowed.elim
      | succ d => exact .inr (.inr ⟨rfl, d, rfl, rfl⟩)
  | _ => exact hallowed.elim

/-- A thread inside a block stays there, or releases the lock. -/
theorem inside_cases (hposition : st.position ≠ .outside) (hallowed : st.allowed o) :
    (o.Silent ∧ (st.next o a).position ≠ .outside ∧
        (st.next o a).depth = st.depth) ∨
      (o = .release .enter ∧ st.next o a = ⟨st.depth + 1, .outside⟩) ∨
        o = .release .leave ∧ st.next o a = ⟨st.depth, .outside⟩ := by
  obtain ⟨d, position⟩ := st
  cases position with
  | outside => exact absurd rfl hposition
  | entered =>
    cases o with
    | release block =>
      cases block with
      | enter => exact .inr (.inl ⟨rfl, rfl⟩)
      | leave => exact hallowed.elim
    | _ => exact hallowed.elim
  | left =>
    cases o with
    | release block =>
      cases block with
      | enter => exact hallowed.elim
      | leave => exact .inr (.inr ⟨rfl, rfl⟩)
    | _ => exact hallowed.elim
  | _ =>
    cases o with
    | acquire => exact hallowed.elim
    | release => exact hallowed.elim
    | _ =>
      first
      | exact hallowed.elim
      | refine .inl ⟨fun _ => ⟨by simp, by simp⟩, ?_, rfl⟩
        simp only [next]
        first | (split_ifs <;> simp) | simp

end GcStage

/-- What a thread does in which of its stages. -/
def gcProtocol (W : Interface) : Protocol (GcI W) where
  State := GcStage
  allowed := GcStage.allowed
  next := GcStage.next

section Follows

variable {W : Interface} {ε : Type}

/-- A program ends where it began. -/
def EndsAtDepth {α : Type} (d : ℕ) (_ : Outcome ε α) (stage : GcStage) : Prop := stage = ⟨d, .outside⟩

/-- A block under the lock raises nothing. -/
def ReturnsAtDepth (d : ℕ) (out : Outcome ε Unit) (stage : GcStage) : Prop :=
  out = .returned () ∧ stage = ⟨d, .outside⟩

theorem follows_gcEnter (d : ℕ) : (gcEnter : GcProg W ε Unit).Follows (gcProtocol W)
    (ReturnsAtDepth (d + 1)) (⟨d, .outside⟩ : GcStage) := by
  refine ⟨trivial, fun _ => ⟨trivial, fun (n : ℤ) => ?_⟩⟩
  by_cases hn : n = 0
  · subst hn
    exact ⟨trivial, fun _ => ⟨rfl, fun _ => ⟨trivial, fun _ => ⟨trivial, fun _ => ⟨rfl, fun _ => ⟨trivial, fun _ =>
      ⟨rfl, rfl⟩⟩⟩⟩⟩⟩⟩
  · have hnext : (gcProtocol W).next (⟨d, .counting⟩ : GcStage) .getPausers n = (⟨d, .recounting⟩ : GcStage) :=
      congrArg (GcStage.mk d) (if_neg hn)
    show Follows (gcProtocol W) _ ((gcProtocol W).next (⟨d, .counting⟩ : GcStage) .getPausers n)
      (Prog.tryFinally (if n = 0 then _ else _) _)
    rw [hnext, if_neg hn]
    exact ⟨trivial, fun _ => ⟨rfl, fun _ => ⟨trivial, fun _ => ⟨rfl, rfl⟩⟩⟩⟩

theorem follows_gcLeave (d : ℕ) : (gcLeave : GcProg W ε Unit).Follows (gcProtocol W)
    (ReturnsAtDepth d) (⟨d + 1, .outside⟩ : GcStage) := by
  refine ⟨trivial, fun _ => ⟨trivial, fun (n : ℤ) => ⟨rfl, fun _ => ⟨trivial, fun (m : ℤ) => ?_⟩⟩⟩⟩
  show Follows (gcProtocol W) _ ((gcProtocol W).next (⟨d, .checking⟩ : GcStage) .getPausers m)
    (Prog.tryFinally (if m = 0 then _ else _) _)
  by_cases hm : m = 0
  · subst hm
    refine ⟨trivial, fun (resume : Bool) => ?_⟩
    cases resume with
    | false => exact ⟨trivial, fun _ => ⟨rfl, rfl⟩⟩
    | true => exact ⟨trivial, fun _ => ⟨trivial, fun _ => ⟨rfl, rfl⟩⟩⟩
  · have hnext : (gcProtocol W).next (⟨d, .checking⟩ : GcStage) .getPausers m = (⟨d, .left⟩ : GcStage) :=
      congrArg (GcStage.mk d) (if_neg hm)
    rw [hnext, if_neg hm]
    exact ⟨trivial, fun _ => ⟨rfl, rfl⟩⟩

/-- Whatever a body does and however it ends, its exit follows. -/
theorem follows_gcPaused {α : Type} {p : GcProg W ε α} {d : ℕ}
    (hp : p.Follows (gcProtocol W) (EndsAtDepth (d + 1)) (⟨d + 1, .outside⟩ : GcStage)) :
    (gcPaused p).Follows (gcProtocol W) (EndsAtDepth d) (⟨d, .outside⟩ : GcStage) := by
  refine Follows.bind ((follows_gcEnter d).mono fun out stage hstage => ?_)
  obtain ⟨rfl, rfl⟩ := hstage
  refine Follows.tryFinally (hp.mono fun out stage hstage => ?_)
  obtain rfl : stage = ⟨d + 1, .outside⟩ := hstage
  cases out with
  | pending => trivial
  | raised e =>
    refine (follows_gcLeave d).mono fun out stage hstage => ?_
    obtain ⟨rfl, rfl⟩ := hstage
    rfl
  | returned a =>
    refine (follows_gcLeave d).mono fun out stage hstage => ?_
    obtain ⟨rfl, rfl⟩ := hstage
    rfl

/-- A program that uses the collector only through `gcPaused` ends at the depth at which it began. -/
theorem OnlyPauses.follows {α : Type} {p : GcProg W ε α} (hp : OnlyPauses p) (d : ℕ) :
    p.Follows (gcProtocol W) (EndsAtDepth d) (⟨d, .outside⟩ : GcStage) := by
  induction hp generalizing d with
  | ret => rfl
  | raise => rfl
  | spin => trivial
  | body => exact ⟨trivial, fun _ => rfl⟩
  | gcPaused _ ih => exact follows_gcPaused (ih (d + 1))
  | bind _ _ ihp ihq =>
    refine Follows.bind ((ihp d).mono fun out stage hstage => ?_)
    obtain rfl : stage = ⟨d, .outside⟩ := hstage
    cases out with
    | returned a => exact ihq a d
    | raised e => rfl
    | pending => trivial
  | tryCatch _ _ ihp ihq =>
    refine Follows.tryCatch ((ihp d).mono fun out stage hstage => ?_)
    obtain rfl : stage = ⟨d, .outside⟩ := hstage
    cases out with
    | returned a => rfl
    | raised e => exact ihq e d
    | pending => trivial
  | tryFinally _ _ ihp ihq =>
    refine Follows.tryFinally ((ihp d).mono fun out stage hstage => ?_)
    obtain rfl : stage = ⟨d, .outside⟩ := hstage
    cases out with
    | pending => trivial
    | returned a =>
      refine (ihq d).mono fun out stage hstage => ?_
      obtain rfl : stage = ⟨d, .outside⟩ := hstage
      cases out <;> trivial
    | raised e =>
      refine (ihq d).mono fun out stage hstage => ?_
      obtain rfl : stage = ⟨d, .outside⟩ := hstage
      cases out <;> trivial

end Follows

/-! ## The switch -/

/-- The collector is off, and what it was is remembered. -/
def GcState.Paused (s : GcState) (enabled : Bool) : Prop := s.enabled = false ∧ s.resume = enabled

/-- What holds before an operation of the thread that has the lock, or outside while the lock is free, with `n` bodies
running; `enabled` is what the collector was at first. -/
def GcState.At (s : GcState) (enabled : Bool) (n : ℕ) : GcPosition → Prop
  | .outside => s.pausers = n ∧ if n = 0 then s.enabled = enabled else s.Paused enabled
  | .counting => s.pausers = n ∧ if n = 0 then s.enabled = enabled else s.Paused enabled
  | .sampling => n = 0 ∧ s.pausers = 0 ∧ s.enabled = enabled
  | .remembering b => n = 0 ∧ s.pausers = 0 ∧ b = enabled
  | .stopping => n = 0 ∧ s.pausers = 0 ∧ s.resume = enabled
  | .recounting => s.pausers = n ∧ s.Paused enabled
  | .adding m => s.pausers = n ∧ m = n ∧ s.Paused enabled
  | .entered => s.pausers = n + 1 ∧ s.Paused enabled
  | .uncounting => s.pausers = n + 1 ∧ s.Paused enabled
  | .subtracting m => m = n + 1 ∧ s.Paused enabled
  | .checking => s.pausers = n ∧ s.Paused enabled
  | .asking => n = 0 ∧ s.pausers = 0 ∧ s.Paused enabled
  | .resuming => n = 0 ∧ s.pausers = 0 ∧ enabled = true
  | .left => s.pausers = n ∧ if n = 0 then s.enabled = enabled else s.Paused enabled

/-- The bodies that run after an operation. -/
def GcOp.bodies {W : Interface} (n : ℕ) : GcOp W → ℕ
  | release .enter => n + 1
  | acquire .leave => n - 1
  | _ => n

section Switch

variable {W : Interface} {s t : GcState} {enabled : Bool} {n d : ℕ} {position : GcPosition} {o : GcOp W} {a : o.Ans}

theorem GcOp.Silent.bodies (ho : o.Silent) : o.bodies n = n := by
  cases o with
  | acquire block => exact absurd rfl (ho block).1
  | release block => exact absurd rfl (ho block).2
  | _ => rfl

theorem GcOp.Silent.locked (ho : o.Silent) : (s.after o).locked = s.locked := by
  cases o with
  | acquire block => exact absurd rfl (ho block).1
  | release block => exact absurd rfl (ho block).2
  | _ => rfl

/-- A block under the lock, one operation further. -/
theorem GcState.At.step (h : s.At enabled n position) (hposition : position ≠ .outside)
    (hallowed : GcStage.allowed ⟨d, position⟩ o) (hsem : GcSem s o a t) :
    t.At enabled (o.bodies n) (GcStage.next ⟨d, position⟩ o a).position := by
  obtain ⟨-, ha, rfl⟩ := hsem
  cases position with
  | outside => exact absurd rfl hposition
  | counting =>
    cases o with
    | getPausers =>
      obtain rfl : a = s.pausers := ha
      show s.At enabled n (if s.pausers = 0 then .sampling else .recounting)
      obtain ⟨hcount, hs⟩ := h
      by_cases hn : n = 0
      · rw [if_pos hn] at hs
        rw [if_pos (by omega)]
        exact ⟨hn, by omega, hs⟩
      · rw [if_neg hn] at hs
        rw [if_neg (by omega)]
        exact ⟨hcount, hs⟩
    | _ => exact hallowed.elim
  | sampling =>
    cases o with
    | isEnabled => exact ⟨h.1, h.2.1, Eq.trans ha h.2.2⟩
    | _ => exact hallowed.elim
  | remembering b =>
    cases o with
    | setResume resume => exact ⟨h.1, h.2.1, Eq.trans hallowed h.2.2⟩
    | _ => exact hallowed.elim
  | stopping =>
    cases o with
    | disable =>
      obtain ⟨hn, hcount, hresume⟩ := h
      have hpausers : s.pausers = (n : ℤ) := by omega
      exact ⟨hpausers, rfl, hresume⟩
    | _ => exact hallowed.elim
  | recounting =>
    cases o with
    | getPausers => exact ⟨h.1, Eq.trans ha h.1, h.2⟩
    | _ => exact hallowed.elim
  | adding m =>
    cases o with
    | setPausers k => exact ⟨Eq.trans hallowed (congrArg (· + 1) h.2.1), h.2.2⟩
    | _ => exact hallowed.elim
  | entered =>
    cases o with
    | release block =>
      cases block with
      | enter =>
        obtain ⟨hcount, hs⟩ := h
        have hpausers : s.pausers = ((n + 1 : ℕ) : ℤ) := by omega
        refine ⟨hpausers, ?_⟩
        show if n + 1 = 0 then s.enabled = enabled else s.Paused enabled
        rwa [if_neg (Nat.succ_ne_zero n)]
      | leave => exact hallowed.elim
    | _ => exact hallowed.elim
  | uncounting =>
    cases o with
    | getPausers => exact ⟨Eq.trans ha h.1, h.2⟩
    | _ => exact hallowed.elim
  | subtracting m =>
    cases o with
    | setPausers k =>
      obtain rfl : k = m - 1 := hallowed
      obtain ⟨hm, hs⟩ := h
      have hcount : m - 1 = (n : ℤ) := by omega
      exact ⟨hcount, hs⟩
    | _ => exact hallowed.elim
  | checking =>
    cases o with
    | getPausers =>
      obtain rfl : a = s.pausers := ha
      show s.At enabled n (if s.pausers = 0 then .asking else .left)
      obtain ⟨hcount, hs⟩ := h
      by_cases hn : n = 0
      · rw [if_pos (by omega)]
        exact ⟨hn, by omega, hs⟩
      · rw [if_neg (by omega)]
        exact ⟨hcount, by rwa [if_neg hn]⟩
    | _ => exact hallowed.elim
  | asking =>
    cases o with
    | getResume =>
      obtain rfl : a = s.resume := ha
      show s.At enabled n (if s.resume = true then .resuming else .left)
      obtain ⟨hn, hcount, hoff, hresume⟩ := h
      split_ifs with hon
      · exact ⟨hn, hcount, hresume.symm.trans hon⟩
      · rw [Bool.not_eq_true] at hon
        exact ⟨by omega, by rw [if_pos hn, hoff, ← hresume, hon]⟩
    | _ => exact hallowed.elim
  | resuming =>
    cases o with
    | enable =>
      obtain ⟨hn, hcount, hresume⟩ := h
      have hpausers : s.pausers = (n : ℤ) := by omega
      refine ⟨hpausers, ?_⟩
      show if n = 0 then true = enabled else _
      rw [if_pos hn, hresume]
    | _ => exact hallowed.elim
  | left =>
    cases o with
    | release block =>
      cases block with
      | enter => exact hallowed.elim
      | leave => exact h
    | _ => exact hallowed.elim

end Switch

/-! ## The threads together -/

section Together

variable {W : Interface} {ε α τ : Type} [DecidableEq τ] {enabled : Bool} {bodies : List τ} {stage : τ → GcStage}
  {s s' : GcState} {owner : Option τ} {t : τ} {o : GcOp W} {a : o.Ans}

theorem afterEvent_silent (ho : o.Silent) : afterEvent bodies (t, ⟨o, a⟩) = bodies := by
  cases o with
  | acquire block => exact absurd rfl (ho block).1
  | release block => exact absurd rfl (ho block).2
  | _ => rfl

/-- Where the thread with the lock stands. -/
def ownerPosition (stage : τ → GcStage) : Option τ → GcPosition
  | none => .outside
  | some t => (stage t).position

/-- The bodies that run are those of the threads, one thread at most has the lock, and the switch is as it has to be
where that stands. -/
structure PauseInv (enabled : Bool) (bodies : List τ) (stage : τ → GcStage) (s : GcState) (owner : Option τ) :
    Prop where
  depth : ∀ t, (stage t).depth = bodies.count t
  locked : s.locked = owner.isSome
  inside : ∀ t, owner = some t ↔ (stage t).position ≠ .outside
  shared : s.At enabled bodies.length (ownerPosition stage owner)

section Update

variable {st : GcStage} {bodies' : List τ} (h : PauseInv enabled bodies stage s owner)
  (howner : ∀ u, u ≠ t → owner ≠ some u) (hcount : ∀ u, u ≠ t → bodies'.count u = bodies.count u)
  (hdepth : st.depth = bodies'.count t) (hshared : s'.At enabled bodies'.length st.position)

include h hcount hdepth

theorem PauseInv.depth_update (u : τ) : (Function.update stage t st u).depth = bodies'.count u := by
  by_cases hut : u = t
  · subst hut
    rwa [Function.update_self]
  · rw [Function.update_of_ne hut, hcount u hut]
    exact h.depth u

include howner hshared

/-- The thread has the lock. -/
theorem PauseInv.hold (hlocked : s'.locked = true) (hposition : st.position ≠ .outside) :
    PauseInv enabled bodies' (Function.update stage t st) s' (some t) := by
  refine ⟨h.depth_update hcount hdepth, hlocked, fun u => ?_, ?_⟩
  · by_cases hut : u = t
    · subst hut
      rw [Function.update_self]
      exact ⟨fun _ => hposition, fun _ => rfl⟩
    · rw [Function.update_of_ne hut, ← h.inside u]
      exact ⟨fun htu => absurd (Option.some.inj htu).symm hut, fun hu => absurd hu (howner u hut)⟩
  · rw [ownerPosition, Function.update_self]
    exact hshared

/-- No thread has the lock. -/
theorem PauseInv.free (hlocked : s'.locked = false) (hposition : st.position = .outside) :
    PauseInv enabled bodies' (Function.update stage t st) s' none := by
  refine ⟨h.depth_update hcount hdepth, hlocked, fun u => ?_, ?_⟩
  · by_cases hut : u = t
    · subst hut
      rw [Function.update_self]
      exact ⟨(fun hnone => by cases hnone), fun hne => absurd hposition hne⟩
    · rw [Function.update_of_ne hut, ← h.inside u]
      exact ⟨(fun hnone => by cases hnone), fun hu => absurd hu (howner u hut)⟩
  · rwa [hposition] at hshared

end Update

/-- A thread that takes the lock finds it free. -/
theorem PauseInv.owner_eq_none (h : PauseInv enabled bodies stage s owner) {block : GcBlock} {a : Unit}
    (hsem : GcSem (W := W) s (.acquire block) a s') : owner = none := by
  have hfree : s.locked = false := by simpa [GcState.ready] using hsem.1
  rw [h.locked] at hfree
  exact Option.isNone_iff_eq_none.1 (by simpa using hfree)

/-- The step lemma. -/
theorem PauseInv.step (h : PauseInv enabled bodies stage s owner) (hallowed : (stage t).allowed o)
    (hsem : GcSem s o a s') : ∃ owner',
      PauseInv enabled (afterEvent bodies (t, ⟨o, a⟩)) (Function.update stage t ((stage t).next o a)) s' owner' := by
  by_cases hposition : (stage t).position = .outside
  · rcases GcStage.outside_cases hposition hallowed (a := a) with ⟨o', rfl, hnext⟩ | ⟨rfl, hnext⟩ | ⟨rfl, d, hd, hnext⟩
    · obtain rfl : s' = s := hsem.2.2
      rw [hnext, Function.update_eq_self]
      exact ⟨owner, h⟩
    · obtain rfl := h.owner_eq_none hsem
      obtain ⟨-, -, rfl⟩ := hsem
      rw [hnext]
      exact ⟨some t, h.hold (fun _ _ hu => by cases hu) (fun _ _ => rfl) (h.depth t) h.shared rfl (by simp)⟩
    · obtain rfl := h.owner_eq_none hsem
      obtain ⟨-, -, rfl⟩ := hsem
      have hcount : bodies.count t = d + 1 := (h.depth t).symm.trans hd
      have hmem : t ∈ bodies := List.count_pos_iff.1 (by omega)
      have hlength := List.length_erase_of_mem hmem
      have hpos := List.length_pos_of_mem hmem
      obtain ⟨hpausers, hpaused⟩ := h.shared
      rw [if_neg (by omega)] at hpaused
      rw [hnext]
      refine ⟨some t, h.hold (fun _ _ hu => by cases hu) (fun u hu => ?_) ?_ ⟨?_, hpaused⟩ rfl (by simp)⟩
      · exact List.count_erase_of_ne hu
      · show d = (bodies.erase t).count t
        rw [List.count_erase_self]
        omega
      · show s.pausers = ((bodies.erase t).length : ℤ) + 1
        omega
  · have hmine : owner = some t := (h.inside t).2 hposition
    subst hmine
    have hothers : ∀ u, u ≠ t → some t ≠ some u := fun u hu htu => hu (Option.some.inj htu).symm
    have hafter : s'.At enabled (o.bodies bodies.length) ((stage t).next o a).position :=
      h.shared.step hposition hallowed hsem
    have hheld : s.locked = true := h.locked
    rcases GcStage.inside_cases hposition hallowed (a := a) with ⟨ho, hnext, hdepth⟩ | ⟨rfl, hnext⟩ | ⟨rfl, hnext⟩
    · rw [ho.bodies] at hafter
      have hbodies : afterEvent bodies (t, ⟨o, a⟩) = bodies := afterEvent_silent ho
      rw [hbodies]
      exact ⟨some t, h.hold hothers (fun _ _ => rfl) (hdepth.trans (h.depth t)) hafter
        (hsem.2.2 ▸ ho.locked.trans hheld) hnext⟩
    · rw [hnext] at hafter ⊢
      refine ⟨none, h.free hothers (fun u hu => ?_) ?_ hafter (by rw [hsem.2.2]; rfl) rfl⟩
      · exact List.count_cons_of_ne hu.symm
      · show (stage t).depth + 1 = (t :: bodies).count t
        rw [List.count_cons_self, h.depth t]
    · rw [hnext] at hafter ⊢
      exact ⟨none, h.free hothers (fun _ _ => rfl) (h.depth t) hafter (by rw [hsem.2.2]; rfl) rfl⟩

end Together

/-! ## Two loads that overlap -/

end McritSimilarity
