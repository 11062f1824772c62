import Mathlib.Data.List.Basic
import Mathlib.Logic.Function.Basic
import McritSimilarity.Cache.LockedCache
import McritSimilarity.Lib.Machine

/-!
# `LockedCache`: whole calls

Threads that call `get`, `set`, `clear` and `get_or_set` of one cache, one block under the lock at a
time.  What runs outside the lock (factories, `weigh`, `should_stop`, waiting) is a step of its own
whose label says how it ended.  A factory that calls the cache again counts as another thread.

`singleFlight` is the result: at most one thread builds a key, waiters wait for a thread that will wake
them, and a call that raises leaves the cache as it was.
-/

set_option autoImplicit false

namespace McritSimilarity

/-- The keyword arguments of `get_or_set`. -/
structure GetOrSet where
  cacheEmpty : Bool
  /-- Whether `should_stop` was given. -/
  stoppable : Bool
  deriving DecidableEq, Repr

/-- How a call ended. -/
inductive CallEnd (ν : Type) where
  | returned (value : Option ν)
  /-- `McritJobError("MCRIT visit cancelled")`. -/
  | cancelled
  /-- An exception of the factory or of `weigh`. -/
  | raised
  deriving DecidableEq, Repr

/-- Where a thread stands.  `weighing` and `storing` belong to a `set`, which has no event, or to a
`get_or_set` that has claimed its key. -/
inductive Stage (κ ν : Type) where
  | done (last : Option (CallEnd ν))
  | looking (key : κ) (call : GetOrSet)
  | waiting (key : κ) (call : GetOrSet) (event : ℕ)
  | polling (key : κ) (call : GetOrSet) (event : ℕ)
  | building (key : κ) (call : GetOrSet) (event : ℕ)
  | weighing (key : κ) (event : Option ℕ) (value : ν)
  | storing (key : κ) (event : Option ℕ) (value : ν) (weight : Option ℤ)
  | releasing (key : κ) (event : ℕ) (last : CallEnd ν)
  deriving DecidableEq, Repr

/-- A cache with its events (`events` were made so far) and the threads that use it. -/
structure CacheState (τ κ ν : Type) where
  cache : LockedCache κ ν
  inflight : OrderedMap κ ℕ
  events : ℕ
  isSet : ℕ → Bool
  stage : τ → Stage κ ν

/-- A step of a thread; the answer of what ran outside the lock. -/
inductive CacheLabel (τ κ ν : Type) where
  | get (t : τ) (key : κ)
  | clear (t : τ)
  | set (t : τ) (key : κ) (value : ν)
  | getOrSet (t : τ) (key : κ) (call : GetOrSet)
  /-- The block under the lock at the head of the loop; `stop` is the answer of `should_stop`. -/
  | look (t : τ) (stop : Bool)
  /-- `event.wait` returns `True`. -/
  | wake (t : τ)
  /-- `event.wait(0.25)` returns `False`. -/
  | timeout (t : τ)
  | poll (t : τ) (stop : Bool)
  /-- The factory ends; `none` when it raises. -/
  | build (t : τ) (value : Option ν)
  /-- `_weight_of` ends, with 0 in a cache without `weigh`; `none` when `weigh` raises. -/
  | weigh (t : τ) (weight : Option ℤ)
  | store (t : τ)
  | release (t : τ)
  deriving DecidableEq, Repr

namespace CacheLabel

variable {τ κ ν : Type}

def thread : CacheLabel τ κ ν → τ
  | get t _ => t
  | clear t => t
  | set t _ _ => t
  | getOrSet t _ _ => t
  | look t _ => t
  | wake t => t
  | timeout t => t
  | poll t _ => t
  | build t _ => t
  | weigh t _ => t
  | store t => t
  | release t => t

/-- The label begins a call of a thread. -/
def Begins (t : τ) : CacheLabel τ κ ν → Prop
  | get u _ => u = t
  | clear u => u = t
  | set u _ _ => u = t
  | getOrSet u _ _ => u = t
  | _ => False

/-- A factory or `weigh` raises. -/
def Raises : CacheLabel τ κ ν → Prop
  | build _ value => value = none
  | weigh _ weight => weight = none
  | _ => False

end CacheLabel

namespace Stage

variable {κ ν : Type}

/-- The key that a thread has claimed and not released, with its event. -/
def claim? : Stage κ ν → Option (κ × ℕ)
  | building key _ event => some (key, event)
  | weighing key event _ => event.map (key, ·)
  | storing key event _ _ => event.map (key, ·)
  | releasing key event _ => some (key, event)
  | _ => none

/-- The key and the event that a thread waits for. -/
def waitsFor? : Stage κ ν → Option (κ × ℕ)
  | waiting key _ event => some (key, event)
  | polling key _ event => some (key, event)
  | _ => none

/-- The call has not claimed its key yet. -/
def Searching : Stage κ ν → Prop
  | looking _ _ => True
  | waiting _ _ _ => True
  | polling _ _ _ => True
  | _ => False

/-- The call ends with the exception of its factory or of `weigh`. -/
def Raised : Stage κ ν → Prop
  | done last => last = some .raised
  | releasing _ _ last => last = .raised
  | _ => False

/-- The call ends, and without such an exception. -/
def Settled : Stage κ ν → Prop
  | done last => last ≠ some .raised
  | releasing _ _ last => last ≠ .raised
  | _ => False

/-- The end of a call from `storing` or from a failed `weigh`: a claim is released first. -/
def finish (key : κ) (event : Option ℕ) (last : CallEnd ν) : Stage κ ν :=
  match event with
  | none => done (some last)
  | some e => releasing key e last

theorem claim?_finish (key : κ) (event : Option ℕ) (last : CallEnd ν) :
    (finish key event last).claim? = event.map (key, ·) := by
  cases event <;> rfl

theorem settled_finish (key : κ) (event : Option ℕ) (value : Option ν) :
    (finish key event (.returned value)).Settled := by
  cases event <;> nofun

theorem not_searching_finish (key : κ) (event : Option ℕ) (last : CallEnd ν) :
    ¬ (finish key event last).Searching := by
  cases event <;> exact id

theorem Raised.not_settled {stage : Stage κ ν} (h : stage.Raised) : ¬ stage.Settled := by
  cases stage with
  | done last => exact not_not.2 h
  | releasing key event last => exact not_not.2 h
  | _ => exact id

theorem waitsFor?_finish (key : κ) (event : Option ℕ) (last : CallEnd ν) :
    (finish key event last).waitsFor? = none := by
  cases event <;> rfl

end Stage

namespace CacheState

variable {τ κ ν : Type} [DecidableEq τ] [DecidableEq κ]

def init (cache : LockedCache κ ν) : CacheState τ κ ν where
  cache := cache
  inflight := .empty
  events := 0
  isSet := fun _ => false
  stage := fun _ => .done none

/-- The state after a thread has come to a stage. -/
def move (s : CacheState τ κ ν) (t : τ) (stage : Stage κ ν) : CacheState τ κ ν :=
  { s with stage := Function.update s.stage t stage }

omit [DecidableEq κ] in
@[simp] theorem stage_move_self (s : CacheState τ κ ν) (t : τ) (stage : Stage κ ν) :
    (s.move t stage).stage t = stage := Function.update_self _ _ _

def withCache (s : CacheState τ κ ν) (cache : LockedCache κ ν) : CacheState τ κ ν :=
  { s with cache := cache }

/-- `event = threading.Event(); self._inflight[key] = event`. -/
def claim (s : CacheState τ κ ν) (key : κ) : CacheState τ κ ν :=
  { s with inflight := s.inflight.put key s.events, events := s.events + 1 }

/-- `self._inflight.pop(key, None); event.set()`. -/
def unclaim (s : CacheState τ κ ν) (key : κ) (event : ℕ) : CacheState τ κ ν :=
  { s with
    inflight := s.inflight.erase key
    isSet := Function.update s.isSet event true }

/-- The block under the lock at the head of the loop of `get_or_set`. -/
def look (s : CacheState τ κ ν) (t : τ) (key : κ) (call : GetOrSet) (stop : Bool) :
    CacheState τ κ ν :=
  match s.cache.find? key with
  | some value =>
    (s.withCache (s.cache.touch key)).move t (.done (some (.returned (some value))))
  | none =>
    match s.inflight.find? key with
    | some event => s.move t (.waiting key call event)
    | none =>
      if call.stoppable ∧ stop = true then s.move t (.done (some .cancelled))
      else (s.claim key).move t (.building key call s.events)

variable (empty : ν → Bool)

/-- One step; `none` when the thread is not at the stage the step starts from.  `empty` are `None` and
the empty containers, which are cached only with `cache_empty`. -/
def next (s : CacheState τ κ ν) : CacheLabel τ κ ν → Option (CacheState τ κ ν)
  | .get t key =>
    match s.stage t with
    | .done _ => some ((s.withCache (s.cache.get key).2).move t
        (.done (some (.returned (s.cache.get key).1))))
    | _ => none
  | .clear t =>
    match s.stage t with
    | .done _ => some ((s.withCache s.cache.clear).move t (.done (some (.returned none))))
    | _ => none
  | .set t key value =>
    match s.stage t with
    | .done _ => some (s.move t (.weighing key none value))
    | _ => none
  | .getOrSet t key call =>
    match s.stage t with
    | .done _ => some (s.move t (.looking key call))
    | _ => none
  | .look t stop =>
    match s.stage t with
    | .looking key call => some (s.look t key call stop)
    | _ => none
  | .wake t =>
    match s.stage t with
    | .waiting key call event => if s.isSet event then some (s.move t (.looking key call)) else none
    | _ => none
  | .timeout t =>
    match s.stage t with
    | .waiting key call event =>
      if call.stoppable ∧ s.isSet event = false then some (s.move t (.polling key call event)) else none
    | _ => none
  | .poll t stop =>
    match s.stage t with
    | .polling key call event =>
      if stop then some (s.move t (.done (some .cancelled)))
      else some (s.move t (.waiting key call event))
    | _ => none
  | .build t value =>
    match s.stage t with
    | .building key call event =>
      match value with
      | some value =>
        if call.cacheEmpty ∨ empty value = false then some (s.move t (.weighing key (some event) value))
        else some (s.move t (.storing key (some event) value none))
      | none => some (s.move t (.releasing key event .raised))
    | _ => none
  | .weigh t weight =>
    match s.stage t with
    | .weighing key event value =>
      match weight with
      | some weight =>
        if s.cache.weighs = true ∨ weight = 0 then some (s.move t (.storing key event value (some weight)))
        else none
      | none => if s.cache.weighs = true then some (s.move t (.finish key event .raised)) else none
    | _ => none
  | .store t =>
    match s.stage t with
    | .storing key event value (some weight) =>
      some ((s.withCache (s.cache.store key value weight)).move t
        (.finish key event (.returned (some value))))
    | .storing key event value none => some (s.move t (.finish key event (.returned (some value))))
    | _ => none
  | .release t =>
    match s.stage t with
    | .releasing key event last => some ((s.unclaim key event).move t (.done (some last)))
    | _ => none

def Step (s : CacheState τ κ ν) (l : CacheLabel τ κ ν) (s' : CacheState τ κ ν) : Prop :=
  s.next empty l = some s'

/-! ## What a step does to claims and waiters -/

/-- A step of a thread from the stage `old` to `new`: it leaves claims and events alone, it starts to
wait for a claimed key, it claims a free key, or it releases its claim. -/
inductive Effect (s s' : CacheState τ κ ν) (old new : Stage κ ν) : Prop where
  | keeps (hinflight : s'.inflight = s.inflight) (hevents : s'.events = s.events)
      (hset : s'.isSet = s.isSet) (hclaim : new.claim? = old.claim?)
      (hwaits : new.waitsFor? = none ∨ new.waitsFor? = old.waitsFor?)
  | waits (key : κ) (event : ℕ) (hinflight : s'.inflight = s.inflight)
      (hevents : s'.events = s.events) (hset : s'.isSet = s.isSet) (hclaim : new.claim? = old.claim?)
      (hfound : s.inflight.find? key = some event) (hwaits : new.waitsFor? = some (key, event))
  | claims (key : κ) (hfree : s.inflight.find? key = none) (hold : old.claim? = none)
      (hinflight : s'.inflight = s.inflight.put key s.events) (hevents : s'.events = s.events + 1)
      (hset : s'.isSet = s.isSet) (hclaim : new.claim? = some (key, s.events))
      (hwaits : new.waitsFor? = none)
  | releases (key : κ) (event : ℕ) (hold : old.claim? = some (key, event))
      (hinflight : s'.inflight = s.inflight.erase key) (hevents : s'.events = s.events)
      (hset : s'.isSet = Function.update s.isSet event true) (hclaim : new.claim? = none)
      (hwaits : new.waitsFor? = none)

/-- What a step of a thread from the stage `old` to `new` does to the cache and to the call. -/
structure Progress (s s' : CacheState τ κ ν) (old new : Stage κ ν) (begins : Prop) : Prop where
  cache : s'.cache = s.cache ∨ new.Settled
  settled : begins ∨ (old.Settled → new.Settled)
  searching : begins ∨ (new.Searching → old.Searching)

theorem Effect.of_move {s : CacheState τ κ ν} {old new : Stage κ ν} (cache : LockedCache κ ν) (t : τ)
    (hclaim : new.claim? = old.claim?)
    (hwaits : new.waitsFor? = none ∨ new.waitsFor? = old.waitsFor?) :
    Effect s ((s.withCache cache).move t new) old new :=
  .keeps rfl rfl rfl hclaim hwaits

omit [DecidableEq κ] in
theorem Progress.of_move {s : CacheState τ κ ν} {t : τ} {old new : Stage κ ν} {begins : Prop}
    (hsettled : old.Settled → new.Settled) (hsearching : new.Searching → old.Searching) :
    Progress s (s.move t new) old new begins :=
  ⟨Or.inl rfl, Or.inr hsettled, Or.inr hsearching⟩

theorem look_effect (s : CacheState τ κ ν) (t : τ) (key : κ) (call : GetOrSet) (stop : Bool) :
    ∃ new, (s.look t key call stop).stage = Function.update s.stage t new ∧
      Effect s (s.look t key call stop) (.looking key call) new ∧
        Progress s (s.look t key call stop) (.looking key call) new False := by
  unfold look
  split
  · exact ⟨_, rfl, .of_move _ t rfl (Or.inl rfl), Or.inr nofun, Or.inr nofun, Or.inr nofun⟩
  · split
    · next event hevent =>
      exact ⟨_, rfl, .waits key event rfl rfl rfl rfl hevent rfl, .of_move nofun fun _ => trivial⟩
    · next hfree =>
      split_ifs
      · exact ⟨_, rfl, .keeps rfl rfl rfl rfl (Or.inl rfl), .of_move nofun nofun⟩
      · exact ⟨_, rfl, .claims key hfree rfl rfl rfl rfl rfl rfl,
          Or.inl rfl, Or.inr nofun, Or.inr nofun⟩

variable {empty}

theorem Step.effect {s s' : CacheState τ κ ν} {l : CacheLabel τ κ ν} (h : s.Step empty l s') :
    ∃ new, s'.stage = Function.update s.stage l.thread new ∧ Effect s s' (s.stage l.thread) new ∧
      Progress s s' (s.stage l.thread) new (l.Begins l.thread) := by
  cases l with
  | get t key =>
    simp only [Step, next] at h
    split at h
    · next hstage =>
      cases h
      rw [CacheLabel.thread, hstage]
      exact ⟨_, rfl, .of_move _ t rfl (Or.inl rfl), Or.inr nofun, Or.inl rfl, Or.inl rfl⟩
    · cases h
  | clear t =>
    simp only [Step, next] at h
    split at h
    · next hstage =>
      cases h
      rw [CacheLabel.thread, hstage]
      exact ⟨_, rfl, .of_move _ t rfl (Or.inl rfl), Or.inr nofun, Or.inl rfl, Or.inl rfl⟩
    · cases h
  | set t key value =>
    simp only [Step, next] at h
    split at h
    · next hstage =>
      cases h
      rw [CacheLabel.thread, hstage]
      exact ⟨_, rfl, .of_move s.cache t rfl (Or.inl rfl), Or.inl rfl, Or.inl rfl, Or.inl rfl⟩
    · cases h
  | getOrSet t key call =>
    simp only [Step, next] at h
    split at h
    · next hstage =>
      cases h
      rw [CacheLabel.thread, hstage]
      exact ⟨_, rfl, .of_move s.cache t rfl (Or.inl rfl), Or.inl rfl, Or.inl rfl, Or.inl rfl⟩
    · cases h
  | look t stop =>
    simp only [Step, next] at h
    split at h
    · next key call hstage =>
      cases h
      rw [CacheLabel.thread, hstage]
      exact look_effect s t key call stop
    · cases h
  | wake t =>
    simp only [Step, next] at h
    split at h
    · next key call event hstage =>
      split_ifs at h
      cases h
      rw [CacheLabel.thread, hstage]
      exact ⟨_, rfl, .of_move s.cache t rfl (Or.inl rfl), .of_move nofun fun _ => trivial⟩
    · cases h
  | timeout t =>
    simp only [Step, next] at h
    split at h
    · next key call event hstage =>
      split_ifs at h
      cases h
      rw [CacheLabel.thread, hstage]
      exact ⟨_, rfl, .of_move s.cache t rfl (Or.inr rfl), .of_move nofun fun _ => trivial⟩
    · cases h
  | poll t stop =>
    simp only [Step, next] at h
    split at h
    · next key call event hstage =>
      rw [CacheLabel.thread, hstage]
      split_ifs at h
      · cases h
        exact ⟨_, rfl, .of_move s.cache t rfl (Or.inl rfl), .of_move nofun nofun⟩
      · cases h
        exact ⟨_, rfl, .of_move s.cache t rfl (Or.inr rfl), .of_move nofun fun _ => trivial⟩
    · cases h
  | build t value =>
    simp only [Step, next] at h
    split at h
    · next key call event hstage =>
      rw [CacheLabel.thread, hstage]
      split at h
      · split_ifs at h
        · cases h
          exact ⟨_, rfl, .of_move s.cache t rfl (Or.inl rfl), .of_move nofun nofun⟩
        · cases h
          exact ⟨_, rfl, .of_move s.cache t rfl (Or.inl rfl), .of_move nofun nofun⟩
      · cases h
        exact ⟨_, rfl, .of_move s.cache t rfl (Or.inl rfl), .of_move nofun nofun⟩
    · cases h
  | weigh t weight =>
    simp only [Step, next] at h
    split at h
    · next key event value hstage =>
      rw [CacheLabel.thread, hstage]
      split at h
      · split_ifs at h
        cases h
        exact ⟨_, rfl, .of_move s.cache t rfl (Or.inl rfl), .of_move nofun nofun⟩
      · split_ifs at h
        cases h
        exact ⟨_, rfl, .of_move s.cache t (Stage.claim?_finish _ _ _)
          (Or.inl (Stage.waitsFor?_finish _ _ _)),
          .of_move nofun fun h => (Stage.not_searching_finish _ _ _ h).elim⟩
    · cases h
  | store t =>
    simp only [Step, next] at h
    split at h
    · next key event value weight hstage =>
      cases h
      rw [CacheLabel.thread, hstage]
      exact ⟨_, rfl, .of_move _ t (Stage.claim?_finish _ _ _) (Or.inl (Stage.waitsFor?_finish _ _ _)),
        Or.inr (Stage.settled_finish _ _ _), Or.inr nofun,
        Or.inr fun h => (Stage.not_searching_finish _ _ _ h).elim⟩
    · next key event value hstage =>
      cases h
      rw [CacheLabel.thread, hstage]
      exact ⟨_, rfl, .of_move s.cache t (Stage.claim?_finish _ _ _)
        (Or.inl (Stage.waitsFor?_finish _ _ _)),
        .of_move nofun fun h => (Stage.not_searching_finish _ _ _ h).elim⟩
    · cases h
  | release t =>
    simp only [Step, next] at h
    split at h
    · next key event last hstage =>
      cases h
      rw [CacheLabel.thread, hstage]
      exact ⟨_, rfl, .releases key event rfl rfl rfl rfl rfl rfl, Or.inl rfl,
        Or.inr fun h heq => h (Option.some.inj heq), Or.inr nofun⟩
    · cases h

/-! ## The invariant -/

/-- The in-flight events are those of the threads that have claimed a key, one for each key; waiters
wait for one of them or for an event that is set. -/
structure Inv (s : CacheState τ κ ν) : Prop where
  holds : ∀ t key event, (s.stage t).claim? = some (key, event) → s.inflight.find? key = some event
  held : ∀ key event, s.inflight.find? key = some event →
    ∃ t, (s.stage t).claim? = some (key, event)
  unique : ∀ t u key event event', (s.stage t).claim? = some (key, event) →
    (s.stage u).claim? = some (key, event') → t = u
  waits : ∀ t key event, (s.stage t).waitsFor? = some (key, event) →
    s.isSet event = true ∨ s.inflight.find? key = some event

omit [DecidableEq τ] in
theorem inv_init (cache : LockedCache κ ν) : (init cache : CacheState τ κ ν).Inv where
  holds := nofun
  held := nofun
  unique := nofun
  waits := nofun

section Steps

variable {s s' : CacheState τ κ ν} {t : τ} {new : Stage κ ν}

omit [DecidableEq κ] in
theorem claim?_update (s : CacheState τ κ ν) (t u : τ) (new : Stage κ ν) :
    (Function.update s.stage t new u).claim? =
      if u = t then new.claim? else (s.stage u).claim? := by
  rw [Function.update_apply]
  split_ifs <;> rfl

omit [DecidableEq κ] in
theorem waitsFor?_update (s : CacheState τ κ ν) (t u : τ) (new : Stage κ ν) :
    (Function.update s.stage t new u).waitsFor? =
      if u = t then new.waitsFor? else (s.stage u).waitsFor? := by
  rw [Function.update_apply]
  split_ifs <;> rfl

omit [DecidableEq τ] in
/-- A step that changes no claim keeps what the invariant says about claims. -/
theorem Inv.of_claims (h : s.Inv) (hinflight : s'.inflight = s.inflight)
    (hclaims : ∀ u, (s'.stage u).claim? = (s.stage u).claim?)
    (hwaits : ∀ u key event, (s'.stage u).waitsFor? = some (key, event) →
      s'.isSet event = true ∨ s.inflight.find? key = some event) : s'.Inv where
  holds := fun u key event hu => by
    rw [hclaims] at hu
    rw [hinflight]
    exact h.holds u key event hu
  held := fun key event hfound => by
    rw [hinflight] at hfound
    obtain ⟨u, hu⟩ := h.held key event hfound
    exact ⟨u, by rw [hclaims, hu]⟩
  unique := fun u v key event event' hu hv => by
    rw [hclaims] at hu hv
    exact h.unique u v key event event' hu hv
  waits := fun u key event hu => by
    rw [hinflight]
    exact hwaits u key event hu

/-- A claim of a free key keeps the invariant. -/
theorem Inv.of_put (h : s.Inv) {key : κ} (hstage : s'.stage = Function.update s.stage t new)
    (hfree : s.inflight.find? key = none) (hold : (s.stage t).claim? = none)
    (hinflight : s'.inflight = s.inflight.put key s.events) (hset : s'.isSet = s.isSet)
    (hclaim : new.claim? = some (key, s.events)) (hwaits : new.waitsFor? = none) : s'.Inv := by
  -- No other thread has claimed the key, since nothing was in flight for it.
  have hother : ∀ u event, (s.stage u).claim? ≠ some (key, event) := fun u event hu => by
    have hfound := h.holds u key event hu
    rw [hfree] at hfound
    cases hfound
  refine ⟨fun u key' event hu => ?_, fun key' event hfound => ?_,
    fun u v key' event event' hu hv => ?_, fun u key' event hu => ?_⟩
  · rw [hinflight, OrderedMap.find?_put]
    rw [hstage, claim?_update] at hu
    split_ifs at hu with hut
    · rw [hclaim, Option.some.injEq, Prod.mk.injEq] at hu
      rw [if_pos hu.1.symm, hu.2]
    · have hne : key' ≠ key := fun heq => hother u event (by rw [← heq, hu])
      rw [if_neg hne]
      exact h.holds u key' event hu
  · rw [hinflight, OrderedMap.find?_put] at hfound
    split_ifs at hfound with hkey
    · refine ⟨t, ?_⟩
      rw [hstage, claim?_update, if_pos rfl, hclaim, hkey]
      rw [Option.some.injEq] at hfound
      rw [hfound]
    · obtain ⟨u, hu⟩ := h.held key' event hfound
      have hut : u ≠ t := by
        rintro rfl
        rw [hold] at hu
        cases hu
      exact ⟨u, by rw [hstage, claim?_update, if_neg hut, hu]⟩
  · rw [hstage, claim?_update] at hu hv
    split_ifs at hu hv with hut hvt hvt
    · rw [hut, hvt]
    · rw [hclaim, Option.some.injEq, Prod.mk.injEq] at hu
      exact (hother v event' (by rw [hu.1, hv])).elim
    · rw [hclaim, Option.some.injEq, Prod.mk.injEq] at hv
      exact (hother u event (by rw [hv.1, hu])).elim
    · exact h.unique u v key' event event' hu hv
  · rw [hset]
    rw [hstage, waitsFor?_update] at hu
    split_ifs at hu with hut
    · rw [hwaits] at hu
      cases hu
    · rcases h.waits u key' event hu with hset | hfound
      · exact Or.inl hset
      · have hne : key' ≠ key := by
          rintro rfl
          rw [hfree] at hfound
          cases hfound
        rw [hinflight, OrderedMap.find?_put, if_neg hne]
        exact Or.inr hfound

/-- The release of a claim keeps the invariant: its waiters wait for an event that is set now. -/
theorem Inv.of_erase (h : s.Inv) {key : κ} {event : ℕ}
    (hstage : s'.stage = Function.update s.stage t new)
    (hold : (s.stage t).claim? = some (key, event)) (hinflight : s'.inflight = s.inflight.erase key)
    (hset : s'.isSet = Function.update s.isSet event true) (hclaim : new.claim? = none)
    (hwaits : new.waitsFor? = none) : s'.Inv := by
  have hother : ∀ u event', u ≠ t → (s.stage u).claim? ≠ some (key, event') :=
    fun u event' hut hu => hut (h.unique u t key event' event hu hold)
  have hfound := h.holds t key event hold
  refine ⟨fun u key' event' hu => ?_, fun key' event' hfound' => ?_,
    fun u v key' event₁ event₂ hu hv => ?_, fun u key' event' hu => ?_⟩
  · rw [hstage, claim?_update] at hu
    split_ifs at hu with hut
    · rw [hclaim] at hu
      cases hu
    · have hne : key' ≠ key := fun heq => hother u event' hut (by rw [← heq, hu])
      rw [hinflight, OrderedMap.find?_erase, if_neg hne]
      exact h.holds u key' event' hu
  · rw [hinflight, OrderedMap.find?_erase] at hfound'
    split_ifs at hfound' with hkey
    obtain ⟨u, hu⟩ := h.held key' event' hfound'
    have hut : u ≠ t := by
      rintro rfl
      rw [hold, Option.some.injEq, Prod.mk.injEq] at hu
      exact hkey hu.1.symm
    exact ⟨u, by rw [hstage, claim?_update, if_neg hut, hu]⟩
  · rw [hstage, claim?_update] at hu hv
    split_ifs at hu hv with hut hvt hvt
    · rw [hut, hvt]
    · rw [hclaim] at hu
      cases hu
    · rw [hclaim] at hv
      cases hv
    · exact h.unique u v key' event₁ event₂ hu hv
  · rw [hstage, waitsFor?_update] at hu
    split_ifs at hu with hut
    · rw [hwaits] at hu
      cases hu
    · rw [hset, hinflight, Function.update_apply, OrderedMap.find?_erase]
      split_ifs with hevent hkey hkey
      · exact Or.inl rfl
      · exact Or.inl rfl
      · rcases h.waits u key' event' hu with hset' | hfound'
        · exact Or.inl hset'
        · rw [hkey, hfound, Option.some.injEq] at hfound'
          exact (hevent hfound'.symm).elim
      · exact h.waits u key' event' hu

theorem inv_step (h : s.Inv) {l : CacheLabel τ κ ν} (hstep : s.Step empty l s') : s'.Inv := by
  obtain ⟨new, hstage, heffect, -⟩ := hstep.effect
  have hsame : new.claim? = (s.stage l.thread).claim? → ∀ u, (s'.stage u).claim? = (s.stage u).claim? := by
    intro hclaim u
    rw [hstage, claim?_update]
    split_ifs with hut
    · rw [hclaim, hut]
    · rfl
  cases heffect with
  | keeps hinflight hevents hset hclaim hwaits =>
    refine h.of_claims hinflight (hsame hclaim) fun u key event hu => ?_
    rw [hset]
    rw [hstage, waitsFor?_update] at hu
    split_ifs at hu with hut
    · rcases hwaits with hnone | hold
      · rw [hnone] at hu
        cases hu
      · rw [hold] at hu
        exact h.waits l.thread key event hu
    · exact h.waits u key event hu
  | waits key event hinflight hevents hset hclaim hfound hwaits =>
    refine h.of_claims hinflight (hsame hclaim) fun u key' event' hu => ?_
    rw [hset]
    rw [hstage, waitsFor?_update] at hu
    split_ifs at hu with hut
    · rw [hwaits, Option.some.injEq, Prod.mk.injEq] at hu
      obtain ⟨rfl, rfl⟩ := hu
      exact Or.inr hfound
    · exact h.waits u key' event' hu
  | claims key hfree hold hinflight hevents hset hclaim hwaits =>
    exact h.of_put hstage hfree hold hinflight hset hclaim hwaits
  | releases key event hold hinflight hevents hset hclaim hwaits =>
    exact h.of_erase hstage hold hinflight hset hclaim hwaits

end Steps

/-! ## Runs of a call -/

section Runs

variable {s s' u : CacheState τ κ ν} {l : CacheLabel τ κ ν} {tr : List (CacheLabel τ κ ν)} {t : τ}

theorem Step.settled (h : s.Step empty l s') (hbegins : ¬ l.Begins t)
    (hs : (s.stage t).Settled) : (s'.stage t).Settled := by
  obtain ⟨new, hstage, -, hprogress⟩ := h.effect
  rw [hstage, Function.update_apply]
  split_ifs with ht
  · subst ht
    exact hprogress.settled.resolve_left hbegins hs
  · exact hs

theorem Step.searching (h : s.Step empty l s') (hbegins : ¬ l.Begins t)
    (hs : (s'.stage t).Searching) : (s.stage t).Searching := by
  obtain ⟨new, hstage, -, hprogress⟩ := h.effect
  rw [hstage, Function.update_apply] at hs
  split_ifs at hs with ht
  · subst ht
    exact hprogress.searching.resolve_left hbegins hs
  · exact hs

/-- A call that is about to end without an exception never raises one. -/
theorem Step.cache_eq_of_raised (h : s.Step empty l s') (hrun : Steps (Step empty) s' tr u)
    (hcall : ∀ l' ∈ tr, ¬ l'.Begins l.thread) (hraised : (u.stage l.thread).Raised) :
    s'.cache = s.cache := by
  obtain ⟨new, hstage, -, hprogress⟩ := h.effect
  refine hprogress.cache.resolve_right fun hnew => ?_
  have hsettled : (s'.stage l.thread).Settled := by
    rw [hstage, Function.update_self]
    exact hnew
  exact hraised.not_settled (hrun.invariant_labels (P := fun s => (s.stage l.thread).Settled)
    (fun _ _ _ hs hl hstep => hstep.settled hl hs) hcall hsettled)

/-- A call that still searches has not run its factory. -/
theorem not_mem_build (hrun : Steps (Step empty) s tr u) (hcall : ∀ l ∈ tr, ¬ l.Begins t)
    (hu : (u.stage t).Searching) (value : Option ν) : .build t value ∉ tr := by
  intro hmem
  obtain ⟨tr₁, tr₂, s₁, s₂, rfl, -, hbuild, hrest⟩ := hrun.exists_of_mem hmem
  have hpast : ¬ (s₂.stage t).Searching := fun hs => by
    have hbuilding := hbuild.searching (t := t) id hs
    simp only [Step, next] at hbuild
    split at hbuild
    · next hstage =>
      rw [hstage] at hbuilding
      exact hbuilding
    · cases hbuild
  refine hrest.invariant_labels (P := fun s => ¬ (s.stage t).Searching)
    (fun _ _ _ hs hl hstep hs' => hs (hstep.searching hl hs')) (fun l hl => ?_) hpast hu
  exact hcall l (List.mem_append_right _ (List.mem_cons_of_mem _ hl))

theorem raised_of_raises (h : s.Step empty l s') (hl : l.Raises) : (s'.stage l.thread).Raised := by
  cases l with
  | build t value =>
    cases hl
    simp only [Step, next] at h
    split at h
    · cases h
      rw [CacheLabel.thread, stage_move_self]
      rfl
    · cases h
  | weigh t weight =>
    cases hl
    simp only [Step, next] at h
    split at h
    · next key event value hstage =>
      split_ifs at h
      cases h
      rw [CacheLabel.thread, stage_move_self]
      cases event <;> rfl
    · cases h
  | _ => exact hl.elim

/-- A thread that looks for a key that is neither cached nor in flight can claim it. -/
theorem step_claim {key : κ} {call : GetOrSet} (ht : s.stage t = .looking key call)
    (hmiss : s.cache.find? key = none) (hfree : s.inflight.find? key = none) :
    s.Step empty (.look t false) ((s.claim key).move t (.building key call s.events)) := by
  simp only [Step, next, ht, look, hmiss, hfree, Bool.false_eq_true, and_false, if_false]

end Runs

/-! ## Single flight -/

variable (empty)

/-- A cache that threads use builds each key once at a time and never wedges. -/
structure SingleFlight (τ : Type) {κ ν : Type} [DecidableEq τ] [DecidableEq κ] (empty : ν → Bool)
    (cache : LockedCache κ ν) : Prop where
  /-- At most one thread runs the factory of a key. -/
  oneBuilder : ∀ s : CacheState τ κ ν, Reachable (· = init cache) (Step empty) s →
    ∀ t u key call call' event event', s.stage t = .building key call event →
      s.stage u = .building key call' event' → t = u
  /-- An event is in flight for a key exactly while one thread is between its claim and its release. -/
  inflight : ∀ s : CacheState τ κ ν, Reachable (· = init cache) (Step empty) s →
    ∀ key, (∃ event, s.inflight.find? key = some event) ↔
      ∃! t, ∃ event, (s.stage t).claim? = some (key, event)
  /-- A thread waits for an event that is set, or for that of a thread that has claimed the key. -/
  waiters : ∀ s : CacheState τ κ ν, Reachable (· = init cache) (Step empty) s →
    ∀ t key event, (s.stage t).waitsFor? = some (key, event) → s.isSet event = true ∨
      s.inflight.find? key = some event ∧ ∃ u, (s.stage u).claim? = some (key, event)
  /-- A call whose factory or `weigh` raises comes to the stages `Raised`. -/
  raised : ∀ (s s' : CacheState τ κ ν) (l : CacheLabel τ κ ν), s.Step empty l s' → l.Raises →
    (s'.stage l.thread).Raised
  /-- No step of such a call changes the items, the weights or the total weight. -/
  unchanged : ∀ (s s' u : CacheState τ κ ν) (l : CacheLabel τ κ ν) (tr : List (CacheLabel τ κ ν)),
    s.Step empty l s' → Steps (Step empty) s' tr u → (∀ l' ∈ tr, ¬ l'.Begins l.thread) →
      (u.stage l.thread).Raised → s'.cache = s.cache
  /-- The call can release its key, propagates its exception, and the key can be claimed again. -/
  released : ∀ (s : CacheState τ κ ν) t key event, s.stage t = .releasing key event .raised →
    ∃ s', s.Step empty (.release t) s' ∧ s'.stage t = .done (some .raised) ∧
      s'.inflight.find? key = none ∧ ∀ u call, s'.stage u = .looking key call →
        s'.cache.find? key = none → ∃ s'' event', s'.Step empty (.look u false) s'' ∧
          s''.stage u = .building key call event'
  /-- A call whose `should_stop` is true when it would claim the key ends, and its factory has not
  run. -/
  stopped : ∀ (s u : CacheState τ κ ν) t key call (tr : List (CacheLabel τ κ ν)),
    Steps (Step empty) s tr u → (∀ l ∈ tr, ¬ l.Begins t) → u.stage t = .looking key call →
      call.stoppable = true → u.cache.find? key = none → u.inflight.find? key = none →
        (∀ value, .build t value ∉ tr) ∧ ∀ u', u.Step empty (.look t true) u' →
          u'.stage t = .done (some .cancelled) ∧ u'.inflight = u.inflight

theorem reachable_inv {cache : LockedCache κ ν} {s : CacheState τ κ ν}
    (h : Reachable (· = init cache) (Step empty) s) : s.Inv :=
  h.invariant (P := Inv) (fun _ hs => hs ▸ inv_init cache) fun _ _ _ hs hstep => inv_step hs hstep

theorem singleFlight (cache : LockedCache κ ν) : SingleFlight τ empty cache where
  oneBuilder := fun s hs t u key call call' event event' ht hu =>
    (reachable_inv empty hs).unique t u key event event' (by rw [ht]; rfl) (by rw [hu]; rfl)
  inflight := fun s hs key => by
    have hinv := reachable_inv empty hs
    constructor
    · rintro ⟨event, hfound⟩
      obtain ⟨t, ht⟩ := hinv.held key event hfound
      exact ⟨t, ⟨event, ht⟩, fun u ⟨event', hu⟩ => hinv.unique u t key event' event hu ht⟩
    · rintro ⟨t, ⟨event, ht⟩, -⟩
      exact ⟨event, hinv.holds t key event ht⟩
  waiters := fun s hs t key event ht => by
    have hinv := reachable_inv empty hs
    rcases hinv.waits t key event ht with hset | hfound
    · exact Or.inl hset
    · exact Or.inr ⟨hfound, hinv.held key event hfound⟩
  raised := fun s s' l => raised_of_raises
  unchanged := fun s s' u l tr => Step.cache_eq_of_raised
  released := fun s t key event ht => by
    have hfree : ((s.unclaim key event).move t (.done (some .raised))).inflight.find? key = none := by
      simp only [move, unclaim, OrderedMap.find?_erase, if_true]
    refine ⟨(s.unclaim key event).move t (.done (some .raised)), ?_, stage_move_self _ _ _, hfree, ?_⟩
    · simp only [Step, next, ht]
    · intro u call hu hmiss
      exact ⟨_, _, step_claim hu hmiss hfree, stage_move_self _ _ _⟩
  stopped := fun s u t key call tr hrun hcall hu hstoppable hfree hinflight => by
    refine ⟨not_mem_build hrun hcall (by rw [hu]; trivial), fun u' hstep => ?_⟩
    simp only [Step, next, hu, look, hfree, hinflight, hstoppable, and_self, if_true,
      Option.some.injEq] at hstep
    subst hstep
    exact ⟨Function.update_self t _ _, rfl⟩

end CacheState

end McritSimilarity
