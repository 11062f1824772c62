import McritSimilarity.Cache.GetOrSet
import McritSimilarity.Cache.SingleFlight
import McritSimilarity.Lib.Resources

/-!
# Calls of a cache as programs

Where other modules use a cache, `get_or_set` is the program `getOrSet`: it claims its key in one operation, builds,
stores and releases.  The lock, the events and the waiting of `SingleFlight` do not show there.
`refinesAtomicCalls`: whatever threads do with a cache, block by block, is what such programs do.
-/

set_option autoImplicit false

namespace McritSimilarity

/-! ## Programs -/

inductive CacheOp (κ ν : Type) where
  | get (key : κ)
  | clear
  | claim (key : κ) (stoppable : Bool)
  /-- The factory runs. -/
  | build (key : κ)
  | weigh (value : ν)
  | store (key : κ) (value : ν) (weight : ℤ)
  | release (key : κ)

@[reducible] def CacheOp.Ans {κ ν : Type} : CacheOp κ ν → Type
  | get _ => Option ν
  | clear => Unit
  | claim _ _ => Claim ν
  | build _ => Except PyError ν
  | weigh _ => Except PyError ℤ
  | store _ _ _ => Unit
  | release _ => Unit

def CacheI (κ ν : Type) : Interface := ⟨CacheOp κ ν, CacheOp.Ans⟩

abbrev CacheProg (κ ν α : Type) := Prog (CacheI κ ν) PyError α

inductive CacheCall (κ ν : Type) where
  | get (key : κ)
  | clear
  | set (key : κ) (value : ν)
  | getOrSet (key : κ) (call : GetOrSet)

section Programs

variable {κ ν : Type}

def cacheOp (o : CacheOp κ ν) : CacheProg κ ν o.Ans := Prog.op (I := CacheI κ ν) o

/-- A value is measured before the lock is taken. -/
def weighAndStore (key : κ) (value : ν) : CacheProg κ ν Unit := do
  let weight ← cacheOp (.weigh value) >>= Prog.ofExcept
  cacheOp (.store key value weight)

def setCall (key : κ) (value : ν) : CacheProg κ ν ν := do
  weighAndStore key value
  return value

/-- The value that the factory has built is stored, but `None` and empty containers only with `cache_empty`. -/
def storeBuilt (empty : ν → Bool) (key : κ) (call : GetOrSet) (value : ν) : CacheProg κ ν Unit :=
  if call.cacheEmpty ∨ empty value = false then weighAndStore key value else pure ()

def getOrSetCall (empty : ν → Bool) (key : κ) (call : GetOrSet) : CacheProg κ ν ν :=
  getOrSet (cacheOp (.claim key call.stoppable)) (storeBuilt empty key call) (cacheOp (.release key))
    (cacheOp (.build key) >>= Prog.ofExcept)

def CacheCall.program (empty : ν → Bool) : CacheCall κ ν → CacheProg κ ν (Option ν)
  | get key => cacheOp (.get key)
  | clear => do
    cacheOp .clear
    return none
  | set key value => do
    let value ← setCall key value
    return some value
  | getOrSet key call => do
    let value ← getOrSetCall empty key call
    return some value

end Programs

/-! ## Threads that run programs -/

section Threads

variable {τ κ ν : Type} [DecidableEq κ]

/-- A key belongs to the thread that has claimed it. -/
def cacheDiscipline (κ ν : Type) : Discipline (CacheI κ ν) κ where
  needs := fun o a =>
    match o, a with
    | .claim key _, .claimed => some key
    | _, _ => none
  takes := fun o a =>
    match o, a with
    | .claim key _, .claimed => some key
    | _, _ => none
  gives := fun
    | .release key => some key
    | _ => none
  rank := fun _ => 0
  needs_of_takes := id

/-- What an operation may answer and does to the cache.  A call that may be stopped may stop at its claim. -/
def cacheSem (c : LockedCache κ ν) : (o : CacheOp κ ν) → o.Ans → LockedCache κ ν → Prop
  | .get key, a, c' => (a, c') = c.get key
  | .clear, _, c' => c' = c.clear
  | .claim key stoppable, a, c' =>
    (a = claimOf c key ∧ c' = (c.get key).2) ∨ (stoppable = true ∧ a = .stopped ∧ c' = c)
  | .build _, _, c' => c' = c
  | .weigh _, a, c' => c' = c ∧ (c.weighs = true ∨ a = .ok 0)
  | .store key value weight, _, c' => c' = c.store key value weight
  | .release _, _, c' => c' = c

abbrev AtomicPool (τ κ ν : Type) := Pool τ (CacheI κ ν) PyError (Option ν) (Owned κ τ (LockedCache κ ν))

inductive AtomicLabel (τ κ ν : Type) where
  | call (t : τ) (c : CacheCall κ ν)
  | op (t : τ) (e : Prog.Event (CacheI κ ν))

/-- Nobody has called the cache yet. -/
def atomicPool (c : LockedCache κ ν) : AtomicPool τ κ ν := ⟨⟨fun _ => none, c⟩, fun _ => none⟩

variable [DecidableEq τ]

/-- A thread makes a call, or goes on with the one it has made. -/
def atomicStep (empty : ν → Bool) (p : AtomicPool τ κ ν) : AtomicLabel τ κ ν → AtomicPool τ κ ν → Prop
  | .call t c, q => ¬ p.Running t ∧ q = p.spawn t (c.program empty)
  | .op t e, q => ownedStep (cacheDiscipline κ ν) cacheSem p (t, e) q

end Threads

/-! ## What shows outside -/

/-- Calls, and what runs outside of the lock. -/
inductive CacheShown (τ κ ν : Type) where
  | call (t : τ) (c : CacheCall κ ν)
  | built (t : τ) (value : Option ν)
  | weighed (t : τ) (weight : Option ℤ)

section Shown

variable {τ κ ν : Type}

def CacheLabel.shown : CacheLabel τ κ ν → Option (CacheShown τ κ ν)
  | get t key => some (.call t (.get key))
  | clear t => some (.call t .clear)
  | set t key value => some (.call t (.set key value))
  | getOrSet t key call => some (.call t (.getOrSet key call))
  | build t value => some (.built t value)
  | weigh t weight => some (.weighed t weight)
  | _ => none

def AtomicLabel.shown : AtomicLabel τ κ ν → Option (CacheShown τ κ ν)
  | call t c => some (.call t c)
  | op t ⟨.build _, a⟩ => some (.built t a.toOption)
  | op t ⟨.weigh _, a⟩ => some (.weighed t a.toOption)
  | op _ _ => none

end Shown

/-! ## What is left of a call -/

section Left

variable {κ ν : Type} (empty : ν → Bool) (failure : PyError)

/-- The end of a call, whose factory and `weigh` raise `failure`. -/
def CallEnd.program : CallEnd ν → CacheProg κ ν (Option ν)
  | returned value => .ret value
  | cancelled => .raise visitCancelled
  | raised => .raise failure

/-- The rest of a call after its value is built.  A claim is released at last. -/
def finishing (key : κ) (event : Option ℕ) (p : CacheProg κ ν ν) : CacheProg κ ν (Option ν) :=
  match event with
  | none => do
    let value ← p
    return some value
  | some _ => do
    let value ← p.tryFinally (cacheOp (.release key))
    return some value

/-- What is left of the call of a thread. -/
def Stage.program : Stage κ ν → Option (CacheProg κ ν (Option ν))
  | done last => last.map (CallEnd.program failure)
  | looking key call => some (CacheCall.program empty (.getOrSet key call))
  | waiting key call _ => some (CacheCall.program empty (.getOrSet key call))
  | polling key call _ => some (CacheCall.program empty (.getOrSet key call))
  | building key call event => some (finishing key (some event) do
    let value ← cacheOp (.build key) >>= Prog.ofExcept
    storeBuilt empty key call value
    return value)
  | weighing key event value => some (finishing key event (setCall key value))
  | storing key event value (some weight) => some (finishing key event do
    cacheOp (.store key value weight)
    return value)
  | storing key event value none => some (finishing key event (pure value))
  | releasing key _ last => some (.call (I := CacheI κ ν) (.release key) fun _ => last.program failure)

/-- Only a call that may be stopped polls. -/
def Stage.PollsToStop : Stage κ ν → Prop
  | polling _ call _ => call.stoppable = true
  | _ => True

/-- The key that a thread has claimed. -/
def Stage.held (stage : Stage κ ν) : Set κ := {key | ∃ event, stage.claim? = some (key, event)}

theorem Stage.held_congr {old new : Stage κ ν} (h : new.claim? = old.claim?) : new.held = old.held := by
  unfold held
  rw [h]

theorem Stage.held_of_none {stage : Stage κ ν} (h : stage.claim? = none) : stage.held = ∅ := by
  unfold held
  simp [h]

theorem Stage.held_of_some {stage : Stage κ ν} {key : κ} {event : ℕ} (h : stage.claim? = some (key, event)) :
    stage.held = insert key ∅ := by
  unfold held
  ext key'
  simp [h, eq_comm]

theorem Stage.pollsToStop_finish (key : κ) (event : Option ℕ) (last : CallEnd ν) :
    (finish key event last).PollsToStop := by
  cases event <;> trivial

variable {empty failure}

theorem program_finish_returned (key : κ) (event : Option ℕ) (value : ν) :
    (Stage.finish key event (.returned (some value)) : Stage κ ν).program empty failure =
      some (finishing key event (pure value)) := by
  cases event <;> rfl

theorem program_finish_raised (key : κ) (event : Option ℕ) :
    (Stage.finish key event .raised : Stage κ ν).program empty failure =
      some (finishing key event (.raise failure)) := by
  cases event <;> rfl

end Left

/-! ## Refinement -/

section Refinement

variable {τ κ ν : Type} [DecidableEq κ] {empty : ν → Bool} {failure : PyError}

/-- Beside thread `t`, the programs stand where the threads of the cache stand. -/
structure CacheState.MatchesBeside (empty : ν → Bool) (failure : PyError) (t : τ) (s : CacheState τ κ ν)
    (p : AtomicPool τ κ ν) : Prop where
  cache : p.shared.state = s.cache
  owner : ∀ key u, p.shared.owner key = some u ↔ key ∈ (s.stage u).held
  polls : ∀ u, (s.stage u).PollsToStop
  others : ∀ u, u ≠ t → p.threads u = (s.stage u).program empty failure

/-- All programs stand where the threads of the cache stand. -/
structure CacheState.Matches (empty : ν → Bool) (failure : PyError) (s : CacheState τ κ ν)
    (p : AtomicPool τ κ ν) : Prop where
  cache : p.shared.state = s.cache
  owner : ∀ key u, p.shared.owner key = some u ↔ key ∈ (s.stage u).held
  polls : ∀ u, (s.stage u).PollsToStop
  threads : ∀ u, p.threads u = (s.stage u).program empty failure

namespace CacheState

omit [DecidableEq κ] in
theorem matches_init (c : LockedCache κ ν) : (init c : CacheState τ κ ν).Matches empty failure (atomicPool c) where
  cache := rfl
  owner := fun key t => iff_of_false nofun (by simp [init, Stage.held, Stage.claim?])
  polls := fun _ => trivial
  threads := fun _ => rfl

variable [DecidableEq τ] {s s' : CacheState τ κ ν} {p : AtomicPool τ κ ν} {t : τ} {new : Stage κ ν} {o : CacheOp κ ν}
  {a : o.Ans} {k : o.Ans → CacheProg κ ν (Option ν)}

omit [DecidableEq κ] [DecidableEq τ] in
theorem Matches.beside (h : s.Matches empty failure p) : s.MatchesBeside empty failure t p :=
  ⟨h.cache, h.owner, h.polls, fun u _ => h.threads u⟩

omit [DecidableEq κ] in
theorem polls_update (h : ∀ u, (s.stage u).PollsToStop) (hstage : s'.stage = Function.update s.stage t new)
    (hpolls : new.PollsToStop) (u : τ) : (s'.stage u).PollsToStop := by
  rw [hstage]
  by_cases hu : u = t
  · rwa [hu, Function.update_self]
  · rw [Function.update_of_ne hu]
    exact h u

omit [DecidableEq κ] in
theorem MatchesBeside.matches (h : s.MatchesBeside empty failure t p) (hcache : s'.cache = s.cache)
    (hstage : s'.stage = Function.update s.stage t new) (hclaim : new.claim? = (s.stage t).claim?)
    (hpolls : new.PollsToStop) (hthread : p.threads t = new.program empty failure) :
    s'.Matches empty failure p where
  cache := h.cache.trans hcache.symm
  polls := polls_update h.polls hstage hpolls
  owner := fun key u => by
    rw [h.owner, hstage]
    by_cases hu : u = t
    · rw [hu, Function.update_self, Stage.held_congr hclaim]
    · rw [Function.update_of_ne hu]
  threads := fun u => by
    rw [hstage]
    by_cases hu : u = t
    · rw [hu, Function.update_self, hthread]
    · rw [Function.update_of_ne hu, h.others u hu]

/-- A step that is an operation of the program. -/
theorem MatchesBeside.op (h : s.MatchesBeside empty failure t p) (hstage : s'.stage = Function.update s.stage t new)
    (hpolls : new.PollsToStop)
    (hcall : p.threads t = some (.call (I := CacheI κ ν) o k)) (hnew : new.program empty failure = some (k a))
    (hsem : cacheSem s.cache o a s'.cache)
    (hfree : ∀ key, (cacheDiscipline κ ν).needs o a = some key → ∀ u, key ∉ (s.stage u).held)
    (hallows : (cacheDiscipline κ ν).Allows (s.stage t).held o)
    (hheld : new.held = (cacheDiscipline κ ν).after (s.stage t).held o a) :
    ∃ q, atomicStep empty p (.op t ⟨o, a⟩) q ∧ s'.Matches empty failure q := by
  let owner : κ → Option τ := fun key =>
    if (cacheDiscipline κ ν).takes o a = some key then some t
    else if (cacheDiscipline κ ν).gives o = some key then none else p.shared.owner key
  have hanswer : OwnedSem (cacheDiscipline κ ν) cacheSem t p.shared o a ⟨owner, s'.cache⟩ := by
    refine ⟨?_, fun key hkey => ?_, fun _ => rfl⟩
    · rw [h.cache]
      exact hsem
    · rw [Option.eq_none_iff_forall_ne_some]
      exact fun u hu => hfree key hkey u ((h.owner key u).1 hu)
  let q : AtomicPool τ κ ν := ⟨⟨owner, s'.cache⟩, Function.update p.threads t (some (k a))⟩
  have howner : ∀ key u, p.shared.owner key = some u ↔ key ∈ (fun u => (s.stage u).held) u := h.owner
  refine ⟨q, Pool.opStep_call hcall hanswer, rfl, fun key u => ?_, polls_update h.polls hstage hpolls, fun u => ?_⟩
  · rw [hanswer.owns howner hallows, hstage]
    by_cases hu : u = t
    · rw [hu, Function.update_self, Function.update_self, hheld]
    · rw [Function.update_of_ne hu, Function.update_of_ne hu]
  · show Function.update p.threads t (some (k a)) u = _
    rw [hstage]
    by_cases hu : u = t
    · rw [hu, Function.update_self, Function.update_self, hnew]
    · rw [Function.update_of_ne hu, Function.update_of_ne hu, h.others u hu]

/-- An operation that neither claims nor releases. -/
theorem MatchesBeside.aside (h : s.MatchesBeside empty failure t p)
    (hcall : p.threads t = some (.call (I := CacheI κ ν) o k)) (ho : (cacheDiscipline κ ν).Aside o)
    (hstage : s'.stage = Function.update s.stage t new) (hclaim : new.claim? = (s.stage t).claim?)
    (hpolls : new.PollsToStop) (hnew : new.program empty failure = some (k a))
    (hsem : cacheSem s.cache o a s'.cache) : ∃ q, atomicStep empty p (.op t ⟨o, a⟩) q ∧ s'.Matches empty failure q := by
  refine h.op hstage hpolls hcall hnew hsem (fun key hkey => ?_) ho.allows ?_
  · rw [ho.needs a] at hkey
    cases hkey
  · rw [ho.after a, Stage.held_congr hclaim]

/-- A call begins. -/
theorem Matches.begins (h : s.Matches empty failure p) {last : Option (CallEnd ν)} (ht : s.stage t = .done last)
    (c : CacheCall κ ν) : atomicStep empty p (.call t c) (p.spawn t (c.program empty)) ∧
      s.MatchesBeside empty failure t (p.spawn t (c.program empty)) := by
  have hended : ¬ p.Running t := by
    rintro ⟨o, k, hrunning⟩
    rw [h.threads, ht] at hrunning
    cases last with
    | none => cases hrunning
    | some last => cases last <;> cases hrunning
  refine ⟨⟨hended, rfl⟩, h.cache, h.owner, h.polls, fun u hu => ?_⟩
  rw [Pool.threads_spawn_of_ne hu, h.threads]

/-- What a step of the cache is to the programs. -/
def Shows (empty : ν → Bool) (failure : PyError) (p : AtomicPool τ κ ν) (l : CacheLabel τ κ ν)
    (s' : CacheState τ κ ν) : Prop :=
  ∃ tr q, Steps (atomicStep empty) p tr q ∧ tr.filterMap AtomicLabel.shown = l.shown.toList ∧
    s'.Matches empty failure q

/-- A step within a call that the programs do not show. -/
theorem Matches.stay (h : s.Matches empty failure p) {l : CacheLabel τ κ ν} (hl : l.shown = none)
    (hstage : s'.stage = Function.update s.stage t new) (hcache : s'.cache = s.cache)
    (hclaim : new.claim? = (s.stage t).claim?) (hpolls : new.PollsToStop)
    (hprogram : new.program empty failure = (s.stage t).program empty failure) : Shows empty failure p l s' := by
  refine ⟨[], p, .refl p, by rw [hl]; rfl, h.beside.matches hcache hstage hclaim hpolls ?_⟩
  rw [h.threads, hprogram]

theorem shows_op {l : CacheLabel τ κ ν} (hl : AtomicLabel.shown (.op t ⟨o, a⟩ : AtomicLabel τ κ ν) = l.shown)
    (h : ∃ q, atomicStep empty p (.op t ⟨o, a⟩) q ∧ s'.Matches empty failure q) : Shows empty failure p l s' := by
  obtain ⟨q, hstep, hq⟩ := h
  refine ⟨_, q, .single hstep, ?_, hq⟩
  rw [List.filterMap_cons, hl]
  cases l.shown <;> rfl

/-- A call that is one operation. -/
theorem Matches.shows_call (h : s.Matches empty failure p) {last : Option (CallEnd ν)} (ht : s.stage t = .done last)
    {c : CacheCall κ ν} (hcall : c.program empty = .call (I := CacheI κ ν) o k) (ho : (cacheDiscipline κ ν).Aside o)
    (hshown : AtomicLabel.shown (.op t ⟨o, a⟩ : AtomicLabel τ κ ν) = none) {l : CacheLabel τ κ ν}
    (hl : l.shown = some (.call t c)) (hstage : s'.stage = Function.update s.stage t new)
    (hclaim : new.claim? = none) (hpolls : new.PollsToStop) (hnew : new.program empty failure = some (k a))
    (hsem : cacheSem s.cache o a s'.cache) : Shows empty failure p l s' := by
  obtain ⟨hbegins, hbeside⟩ := h.begins ht c
  have hspawned : (p.spawn t (c.program empty)).threads t = some (.call (I := CacheI κ ν) o k) := by
    rw [Pool.threads_spawn_self, hcall]
  obtain ⟨q, hstep, hq⟩ := hbeside.aside hspawned ho hstage (by rw [hclaim, ht]; rfl) hpolls hnew hsem
  refine ⟨_, q, .cons hbegins (.single hstep), ?_, hq⟩
  rw [List.filterMap_cons, List.filterMap_cons, hshown, hl]
  rfl

/-- A call that goes on. -/
theorem Matches.shows_begin (h : s.Matches empty failure p) {last : Option (CallEnd ν)} (ht : s.stage t = .done last)
    {c : CacheCall κ ν} {l : CacheLabel τ κ ν} (hl : l.shown = some (.call t c)) (hcache : s'.cache = s.cache)
    (hstage : s'.stage = Function.update s.stage t new) (hclaim : new.claim? = none) (hpolls : new.PollsToStop)
    (hprogram : new.program empty failure = some (c.program empty)) : Shows empty failure p l s' := by
  obtain ⟨hbegins, hbeside⟩ := h.begins ht c
  refine ⟨_, _, .single hbegins, ?_, hbeside.matches hcache hstage (by rw [hclaim, ht]; rfl) hpolls ?_⟩
  · rw [hl]
    rfl
  · rw [Pool.threads_spawn_self, hprogram]

omit [DecidableEq τ] in
/-- A key that is not in flight belongs to nobody. -/
theorem Inv.notMem_held (h : s.Inv) {key : κ} (hfree : s.inflight.find? key = none) (u : τ) :
    key ∉ (s.stage u).held := by
  rintro ⟨event, hclaim⟩
  rw [h.holds u key event hclaim] at hfree
  cases hfree

/-- How a call of `get_or_set` goes on from its claim. -/
structure GoesOnFrom (empty : ν → Bool) (failure : PyError) (key : κ) (call : GetOrSet)
    (k : Claim ν → CacheProg κ ν (Option ν)) : Prop where
  program : CacheCall.program empty (.getOrSet key call) = .call (I := CacheI κ ν) (.claim key call.stoppable) k
  hit : ∀ value, k (.hit value) = .ret (some value)
  stopped : k .stopped = .raise visitCancelled
  claimed : ∀ event, (Stage.building key call event).program empty failure = some (k .claimed)

omit [DecidableEq κ] in
theorem exists_goesOnFrom (key : κ) (call : GetOrSet) : ∃ k, GoesOnFrom empty failure key call k :=
  ⟨_, rfl, fun _ => rfl, rfl, fun _ => rfl⟩

/-- A call that has claimed nothing yet gets an answer to its claim. -/
theorem Matches.answered (h : s.Matches empty failure p) {key : κ} {call : GetOrSet}
    {k : Claim ν → CacheProg κ ν (Option ν)} (hk : GoesOnFrom empty failure key call k)
    (ht : (s.stage t).program empty failure = some (CacheCall.program empty (.getOrSet key call)))
    (hnone : (s.stage t).claim? = none) {a : Claim ν} {l : CacheLabel τ κ ν} (hl : l.shown = none)
    (hstage : s'.stage = Function.update s.stage t new) (hpolls : new.PollsToStop)
    (hnew : new.program empty failure = some (k a)) (hsem : cacheSem s.cache (.claim key call.stoppable) a s'.cache)
    (hfree : a = .claimed → ∀ u, key ∉ (s.stage u).held)
    (hheld : new.held = (cacheDiscipline κ ν).after ∅ (.claim key call.stoppable) a) : Shows empty failure p l s' := by
  have hcall : p.threads t = some (.call (I := CacheI κ ν) (.claim key call.stoppable) k) := by
    rw [h.threads, ht, hk.program]
  have hempty : (s.stage t).held = ∅ := Stage.held_of_none hnone
  have hallows : (cacheDiscipline κ ν).Allows (s.stage t).held (.claim key call.stoppable) := by
    rw [hempty]
    exact ⟨fun _ _ _ => Discipline.below_empty, nofun⟩
  refine shows_op (o := .claim key call.stoppable) (a := a) hl.symm
    (h.beside.op hstage hpolls hcall hnew hsem ?_ hallows ?_)
  · intro key' hkey
    cases a with
    | claimed => exact Option.some.inj hkey ▸ hfree rfl
    | _ => cases hkey
  · rw [hheld, hempty]

/-- The head of the loop of `get_or_set` claims the key, hits or stops; or it waits, which does not show. -/
theorem Matches.look (h : s.Matches empty failure p) (hinv : s.Inv) {key : κ} {call : GetOrSet}
    (ht : s.stage t = .looking key call) (stop : Bool) :
    Shows empty failure p (.look t stop : CacheLabel τ κ ν) (s.look t key call stop) := by
  obtain ⟨k, hk⟩ : ∃ k, GoesOnFrom empty failure key call k := exists_goesOnFrom key call
  have hprogram : (s.stage t).program empty failure = some (CacheCall.program empty (.getOrSet key call)) := by
    rw [ht]
    rfl
  have hnone : (s.stage t).claim? = none := by
    rw [ht]
    rfl
  unfold CacheState.look
  cases hfind : s.cache.find? key with
  | some value =>
    have hget : s.cache.get key = (some value, s.cache.touch key) := by
      unfold LockedCache.get
      rw [hfind]
    refine h.answered hk hprogram hnone (a := .hit value) rfl rfl trivial ?_ (.inl ⟨?_, ?_⟩) nofun ?_
    · rw [hk.hit]
      rfl
    · exact (claimOf_some hfind).symm
    · rw [hget]
      rfl
    · exact (Stage.held_of_none rfl).trans (Discipline.after_kept rfl rfl).symm
  | none =>
    dsimp only
    have hget : s.cache.get key = (none, s.cache) := by
      unfold LockedCache.get
      rw [hfind]
    cases hflight : s.inflight.find? key with
    | some event => exact h.stay rfl rfl rfl hnone.symm trivial hprogram.symm
    | none =>
      dsimp only
      split_ifs with hstop
      · refine h.answered hk hprogram hnone (a := .stopped) rfl rfl trivial ?_ (.inr ⟨hstop.1, rfl, rfl⟩) nofun ?_
        · rw [hk.stopped]
          rfl
        · exact (Stage.held_of_none rfl).trans (Discipline.after_kept rfl rfl).symm
      · refine h.answered hk hprogram hnone (a := .claimed) rfl rfl trivial (hk.claimed _) (.inl ⟨?_, ?_⟩) ?_ ?_
        · exact (claimOf_none hfind).symm
        · rw [hget]
          rfl
        · exact fun _ => hinv.notMem_held hflight
        · exact (Stage.held_of_some rfl).trans (Discipline.after_takes rfl rfl).symm

/-- A waiting call stops. -/
theorem Matches.stopped (h : s.Matches empty failure p) {key : κ} {call : GetOrSet} {event : ℕ} {stop : Bool}
    (hstage : s.stage t = .polling key call event) :
    Shows empty failure p (.poll t stop : CacheLabel τ κ ν) (s.move t (.done (some .cancelled))) := by
  obtain ⟨k, hk⟩ : ∃ k, GoesOnFrom empty failure key call k := exists_goesOnFrom key call
  have hstoppable : call.stoppable = true := by
    have hpolls := h.polls t
    rwa [hstage] at hpolls
  refine h.answered hk (by rw [hstage]; rfl) (by rw [hstage]; rfl) (a := .stopped) rfl rfl trivial ?_
    (.inr ⟨hstoppable, rfl, rfl⟩) nofun ?_
  · rw [hk.stopped]
    rfl
  · exact (Stage.held_of_none rfl).trans (Discipline.after_kept rfl rfl).symm

/-- The rest of a call once the factory has answered. -/
def afterBuild (empty : ν → Bool) (key : κ) (call : GetOrSet) (event : ℕ) (a : Except PyError ν) :
    CacheProg κ ν (Option ν) :=
  finishing key (some event) do
    let value ← Prog.ofExcept a
    storeBuilt empty key call value
    return value

omit [DecidableEq κ] in
theorem afterBuild_ok (key : κ) (call : GetOrSet) (event : ℕ) (value : ν) :
    afterBuild empty key call event (.ok value) = finishing key (some event)
      (if call.cacheEmpty ∨ empty value = false then setCall key value else pure value) := by
  show finishing key (some event) (storeBuilt empty key call value >>= fun _ => pure value) = _
  unfold storeBuilt
  split_ifs <;> rfl

/-- The factory has run. -/
theorem Matches.built (h : s.Matches empty failure p) {key : κ} {call : GetOrSet} {event : ℕ}
    (hstage : s.stage t = .building key call event) (hpolls : new.PollsToStop)
    (hclaim : new.claim? = some (key, event)) {a : Except PyError ν}
    (hnew : new.program empty failure = some (afterBuild empty key call event a)) :
    Shows empty failure p (.build t a.toOption : CacheLabel τ κ ν) (s.move t new) := by
  have hcall : p.threads t = some (.call (I := CacheI κ ν) (.build key) (afterBuild empty key call event)) := by
    rw [h.threads, hstage]
    rfl
  refine shows_op (o := .build key) (a := a) rfl (h.beside.aside hcall ⟨fun _ => rfl, rfl⟩ rfl ?_ hpolls hnew rfl)
  rw [hstage, hclaim]
  rfl

/-- The rest of a call once `weigh` has answered. -/
def afterWeigh (key : κ) (event : Option ℕ) (value : ν) (a : Except PyError ℤ) : CacheProg κ ν (Option ν) :=
  finishing key event do
    let weight ← Prog.ofExcept a
    cacheOp (.store key value weight)
    return value

/-- `weigh` has run. -/
theorem Matches.weighed (h : s.Matches empty failure p) {key : κ} {event : Option ℕ} {value : ν}
    (hstage : s.stage t = .weighing key event value) (hpolls : new.PollsToStop)
    (hclaim : new.claim? = event.map (key, ·)) {a : Except PyError ℤ}
    (hnew : new.program empty failure = some (afterWeigh key event value a))
    (hweight : s.cache.weighs = true ∨ a = .ok 0) :
    Shows empty failure p (.weigh t a.toOption : CacheLabel τ κ ν) (s.move t new) := by
  have hset : setCall key value = .call (I := CacheI κ ν) (.weigh value) fun a => do
      let weight ← Prog.ofExcept a
      cacheOp (.store key value weight)
      return value := by
    unfold setCall weighAndStore
    rw [Prog.bind_assoc, Prog.bind_assoc]
    rfl
  have hcall : p.threads t = some (.call (I := CacheI κ ν) (.weigh value) (afterWeigh key event value)) := by
    rw [h.threads, hstage]
    show some (finishing key event (setCall key value)) = _
    rw [hset]
    cases event <;> rfl
  refine shows_op (o := .weigh value) (a := a) rfl (h.beside.aside hcall ⟨fun _ => rfl, rfl⟩ rfl ?_ hpolls hnew
    ⟨rfl, hweight⟩)
  rw [hstage, hclaim]
  rfl

/-- The value is stored. -/
theorem Matches.stored (h : s.Matches empty failure p) {key : κ} {event : Option ℕ} {value : ν} {weight : ℤ}
    (hstage : s.stage t = .storing key event value (some weight)) :
    Shows empty failure p (.store t : CacheLabel τ κ ν) ((s.withCache (s.cache.store key value weight)).move t
      (.finish key event (.returned (some value)))) := by
  have hcall : p.threads t = some (.call (I := CacheI κ ν) (.store key value weight) fun _ =>
      finishing key event (pure value)) := by
    rw [h.threads, hstage]
    cases event <;> rfl
  refine shows_op (o := .store key value weight) (a := ()) rfl (h.beside.aside hcall ⟨fun _ => rfl, rfl⟩ rfl ?_
    (Stage.pollsToStop_finish _ _ _) (program_finish_returned _ _ _) rfl)
  rw [hstage, Stage.claim?_finish]
  rfl

/-- The claim is released. -/
theorem Matches.released (h : s.Matches empty failure p) {key : κ} {event : ℕ} {last : CallEnd ν}
    (hstage : s.stage t = .releasing key event last) :
    Shows empty failure p (.release t : CacheLabel τ κ ν) ((s.unclaim key event).move t (.done (some last))) := by
  have hheld : (s.stage t).held = insert key ∅ := Stage.held_of_some (by rw [hstage]; rfl)
  have hreturns : (cacheDiscipline κ ν).Returns (.release key) key := ⟨fun _ => rfl, rfl⟩
  have hcall : p.threads t = some (.call (I := CacheI κ ν) (.release key) fun _ => last.program failure) := by
    rw [h.threads, hstage]
    rfl
  refine shows_op (o := .release key) (a := ()) rfl (h.beside.op rfl trivial hcall rfl rfl nofun ?_ ?_)
  · rw [hheld]
    exact hreturns.allows
  · rw [hheld, hreturns.after () (Set.notMem_empty key)]
    exact Stage.held_of_none rfl

theorem Matches.step (h : s.Matches empty failure p) (hinv : s.Inv) {l : CacheLabel τ κ ν}
    (hstep : s.Step empty l s') : Shows empty failure p l s' := by
  cases l with
  | get t key =>
    simp only [Step, next] at hstep
    split at hstep
    · next hstage =>
      cases hstep
      exact h.shows_call (o := .get key) (a := (s.cache.get key).1) hstage rfl ⟨fun _ => rfl, rfl⟩ rfl rfl rfl rfl
        trivial rfl rfl
    · cases hstep
  | clear t =>
    simp only [Step, next] at hstep
    split at hstep
    · next hstage =>
      cases hstep
      exact h.shows_call (o := .clear) (a := ()) hstage rfl ⟨fun _ => rfl, rfl⟩ rfl rfl rfl rfl trivial rfl rfl
    · cases hstep
  | set t key value =>
    simp only [Step, next] at hstep
    split at hstep
    · next hstage =>
      cases hstep
      exact h.shows_begin hstage rfl rfl rfl rfl trivial rfl
    · cases hstep
  | getOrSet t key call =>
    simp only [Step, next] at hstep
    split at hstep
    · next hstage =>
      cases hstep
      exact h.shows_begin hstage rfl rfl rfl rfl trivial rfl
    · cases hstep
  | look t stop =>
    simp only [Step, next] at hstep
    split at hstep
    · next key call hstage =>
      cases hstep
      exact h.look hinv hstage stop
    · cases hstep
  | wake t =>
    simp only [Step, next] at hstep
    split at hstep
    · next key call event hstage =>
      split_ifs at hstep
      cases hstep
      exact h.stay rfl rfl rfl (by rw [hstage]; rfl) trivial (by rw [hstage]; rfl)
    · cases hstep
  | timeout t =>
    simp only [Step, next] at hstep
    split at hstep
    · next key call event hstage =>
      split_ifs at hstep with htimeout
      cases hstep
      exact h.stay rfl rfl rfl (by rw [hstage]; rfl) htimeout.1 (by rw [hstage]; rfl)
    · cases hstep
  | poll t stop =>
    simp only [Step, next] at hstep
    split at hstep
    · next key call event hstage =>
      split_ifs at hstep
      · cases hstep
        exact h.stopped hstage
      · cases hstep
        exact h.stay rfl rfl rfl (by rw [hstage]; rfl) trivial (by rw [hstage]; rfl)
    · cases hstep
  | build t value =>
    simp only [Step, next] at hstep
    split at hstep
    · next key call event hstage =>
      split at hstep
      · next value =>
        split_ifs at hstep with hcached
        · cases hstep
          refine h.built (a := .ok value) hstage ?_ rfl ?_
          · trivial
          · rw [afterBuild_ok, if_pos hcached]
            rfl
        · cases hstep
          refine h.built (a := .ok value) hstage ?_ rfl ?_
          · trivial
          · rw [afterBuild_ok, if_neg hcached]
            rfl
      · cases hstep
        refine h.built (a := .error failure) hstage ?_ rfl rfl
        trivial
    · cases hstep
  | weigh t weight =>
    simp only [Step, next] at hstep
    split at hstep
    · next key event value hstage =>
      split at hstep
      · next weight =>
        split_ifs at hstep with hweight
        cases hstep
        refine h.weighed (a := .ok weight) hstage ?_ rfl ?_ (hweight.imp_right (congrArg Except.ok))
        · trivial
        · cases event <;> rfl
      · split_ifs at hstep with hweighs
        cases hstep
        refine h.weighed (a := .error failure) hstage (Stage.pollsToStop_finish _ _ _) (Stage.claim?_finish _ _ _) ?_
          (.inl hweighs)
        rw [program_finish_raised]
        rfl
    · cases hstep
  | store t =>
    simp only [Step, next] at hstep
    split at hstep
    · next key event value weight hstage =>
      cases hstep
      exact h.stored hstage
    · next key event value hstage =>
      cases hstep
      refine h.stay rfl rfl rfl ?_ (Stage.pollsToStop_finish _ _ _) ?_
      · rw [hstage, Stage.claim?_finish]
        rfl
      · rw [hstage, program_finish_returned]
        rfl
    · cases hstep
  | release t =>
    simp only [Step, next] at hstep
    split at hstep
    · next key event last hstage =>
      cases hstep
      exact h.released hstage
    · cases hstep

/-- Whatever threads do with a cache, programs do as well: the same calls are made, factories and `weigh` end in the
same ways, the cache is then the same, each key belongs to the thread that has claimed it, and each thread has left of
its program what it has left of its call. -/
theorem refinesAtomicCalls (empty : ν → Bool) (failure : PyError) (cache : LockedCache κ ν)
    {tr : List (CacheLabel τ κ ν)} (hrun : Steps (Step empty) (init cache) tr s) :
    ∃ tr' p, Steps (atomicStep empty) (atomicPool cache) tr' p ∧
      tr'.filterMap AtomicLabel.shown = tr.filterMap CacheLabel.shown ∧ s.Matches empty failure p := by
  have hsteps : ∀ (s : CacheState τ κ ν) (p : AtomicPool τ κ ν) l s', s.Matches empty failure p ∧ s.Inv →
      s.Step empty l s' → ∃ tr q, Steps (atomicStep empty) p tr q ∧
        tr.filterMap AtomicLabel.shown = l.shown.toList ∧ s'.Matches empty failure q ∧ s'.Inv := by
    rintro s p l s' ⟨hp, hinv⟩ hstep
    obtain ⟨tr, q, hatomic, hshown, hq⟩ := hp.step hinv hstep
    exact ⟨tr, q, hatomic, hshown, hq, inv_step hinv hstep⟩
  obtain ⟨tr', p, hatomic, hshown, hp, -⟩ := hrun.refines hsteps ⟨matches_init cache, inv_init cache⟩
  exact ⟨tr', p, hatomic, hshown, hp⟩

/-- One thread builds a value, and another that has waited for it gets it. -/
def sharedBuild : List (CacheLabel Bool ℕ ℕ) :=
  [.getOrSet true 0 ⟨false, false⟩, .look true false, .getOrSet false 0 ⟨false, false⟩, .look false false,
    .build true (some 7), .weigh true (some 0), .store true, .release true, .wake false, .look false false]

theorem refinesAtomicCalls_sharedBuild : ∃ tr p,
    Steps (atomicStep fun _ => false) (atomicPool (.new none none false)) tr p ∧
      tr.filterMap AtomicLabel.shown = sharedBuild.filterMap CacheLabel.shown ∧
        p.threads true = some (.ret (some 7)) ∧ p.threads false = some (.ret (some 7)) := by
  have hrun : Steps (Step fun _ => false) (init (.new none none false)) sharedBuild _ :=
    .cons rfl (.cons rfl (.cons rfl (.cons rfl (.cons rfl
      (.cons rfl (.cons rfl (.cons rfl (.cons rfl (.single rfl)))))))))
  obtain ⟨tr, p, hatomic, hshown, hp⟩ := refinesAtomicCalls (fun _ => false) visitCancelled (.new none none false) hrun
  exact ⟨tr, p, hatomic, hshown, hp.threads true, hp.threads false⟩

end CacheState

end Refinement

end McritSimilarity
