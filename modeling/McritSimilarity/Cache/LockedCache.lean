import Mathlib.Data.Finset.Card
import Mathlib.Data.Int.Notation
import McritSimilarity.Lib.OrderedMap

/-!
# `LockedCache`: the blocks under the lock

The state a `LockedCache` protects with its lock, and the critical sections of `get`, `set` and
`clear`.  `_weigh` runs before the lock is taken, so `_store` takes the weight it returned.
The whole calls, with their factories and waiters, are in `SingleFlight`.

As a map the cache is described by `find?`: a store puts its key (`find?_store_self`) and can only
forget other keys (`find?_store_of_ne`), a hit changes nothing (`find?_touch`).  `Recent.store` says
which keys it does not forget: those that are in recent use and have room.
-/

set_option autoImplicit false

namespace McritSimilarity

/-- The limits, the items in order of use and their weights. -/
structure LockedCache (κ ν : Type) where
  maxItems : Option ℤ
  maxWeight : Option ℤ
  /-- Whether `weigh` was given. -/
  weighs : Bool
  items : OrderedMap κ ν
  weights : OrderedMap κ ℤ
  totalWeight : ℤ

namespace LockedCache

variable {κ ν : Type}

/-- `LockedCache(max_items, max_weight=max_weight, weigh=weigh)`. -/
def new (maxItems : Option ℤ) (maxWeight : Option ℤ) (weighs : Bool) : LockedCache κ ν where
  maxItems := maxItems
  maxWeight := maxWeight
  weighs := weighs
  items := .empty
  weights := .empty
  totalWeight := 0

def tooMany (c : LockedCache κ ν) : Bool :=
  match c.maxItems with
  | some limit => decide ((c.items.size : ℤ) > limit)
  | none => false

def tooHeavy (c : LockedCache κ ν) : Bool :=
  match c.maxWeight with
  | some limit => decide (c.totalWeight > limit)
  | none => false

def overLimit (c : LockedCache κ ν) : Bool :=
  decide (c.items.size > 1) && (c.tooMany || c.tooHeavy)

variable [DecidableEq κ]

/-- `self._total_weight -= self._weights.pop(key, 0)`. -/
def dropWeight (c : LockedCache κ ν) (key : κ) : LockedCache κ ν :=
  { c with
    totalWeight := c.totalWeight - (c.weights.find? key).getD 0
    weights := c.weights.erase key }

/-- `evicted, _ = self._items.popitem(last=False)` and the end of its weight. -/
def evictOldest (c : LockedCache κ ν) : LockedCache κ ν :=
  match c.items.keys with
  | [] => c
  | evicted :: _ => dropWeight { c with items := c.items.popFirst } evicted

/-- `while self._over_limit(): …`.  Each round drops one item and the loop stops at one item, so
the number of items bounds its rounds. -/
def evictLoop : ℕ → LockedCache κ ν → LockedCache κ ν
  | 0, c => c
  | n + 1, c => if c.overLimit then evictLoop n c.evictOldest else c

/-- The entry itself, before evictions. -/
def insertNewest (c : LockedCache κ ν) (key : κ) (value : ν) (weight : ℤ) : LockedCache κ ν :=
  let c := c.dropWeight key
  let c := { c with items := (c.items.put key value).moveToEnd key }
  if c.weighs then
    { c with weights := c.weights.put key weight, totalWeight := c.totalWeight + weight }
  else c

def store (c : LockedCache κ ν) (key : κ) (value : ν) (weight : ℤ) : LockedCache κ ν :=
  let c := c.insertNewest key value weight
  evictLoop c.items.size c

/-- The cached value of a key; `none` for a miss. -/
def find? (c : LockedCache κ ν) (key : κ) : Option ν := c.items.find? key

/-- `self._items.move_to_end(key)` of a hit. -/
def touch (c : LockedCache κ ν) (key : κ) : LockedCache κ ν :=
  { c with items := c.items.moveToEnd key }

def get (c : LockedCache κ ν) (key : κ) : Option ν × LockedCache κ ν :=
  match c.find? key with
  | none => (none, c)
  | some value => (some value, c.touch key)

def clear (c : LockedCache κ ν) : LockedCache κ ν :=
  { c with items := .empty, weights := .empty, totalWeight := 0 }

/-- A cache that has forgotten one key. -/
def evict (c : LockedCache κ ν) (key : κ) : LockedCache κ ν :=
  { c.dropWeight key with items := c.items.erase key }

/-! ## Items -/

@[simp] theorem items_dropWeight (c : LockedCache κ ν) (key : κ) :
    (c.dropWeight key).items = c.items := rfl

theorem items_evictOldest (c : LockedCache κ ν) : c.evictOldest.items = c.items.popFirst := by
  unfold evictOldest
  split
  · next h =>
    have hentries : c.items.entries = [] := by simpa [OrderedMap.keys] using h
    apply OrderedMap.ext
    simp [OrderedMap.popFirst, hentries]
  · rfl

theorem items_insertNewest (c : LockedCache κ ν) (key : κ) (value : ν) (weight : ℤ) :
    (c.insertNewest key value weight).items = c.items.append key value := by
  simp only [insertNewest]
  split_ifs <;> simp only [items_dropWeight, OrderedMap.moveToEnd_put]

/-- The evictions of a store drop a prefix of the items, and never the newest one. -/
theorem items_evictLoop (n : ℕ) (c : LockedCache κ ν) (hc : c.items.size ≠ 0) :
    ∃ dropped kept, c.items.entries = dropped ++ kept ∧ kept ≠ [] ∧
      (evictLoop n c).items.entries = kept := by
  induction n generalizing c with
  | zero => exact ⟨[], c.items.entries, rfl, by simpa [OrderedMap.size] using hc, rfl⟩
  | succ n ih =>
    rw [evictLoop]
    split_ifs with hover
    · have hsize : 1 < c.items.size := by
        simp only [overLimit, Bool.and_eq_true, decide_eq_true_eq] at hover
        exact hover.1
      have hpop : c.evictOldest.items.size ≠ 0 := by
        rw [items_evictOldest, OrderedMap.size_popFirst]
        omega
      obtain ⟨dropped, kept, hentries, hkept, hloop⟩ := ih c.evictOldest hpop
      rw [items_evictOldest] at hentries
      cases hc' : c.items.entries with
      | nil => simp [OrderedMap.size, hc'] at hsize
      | cons e rest =>
        refine ⟨e :: dropped, kept, ?_, hkept, hloop⟩
        simp only [OrderedMap.popFirst, hc', List.tail_cons] at hentries
        rw [hentries, List.cons_append]
    · exact ⟨[], c.items.entries, rfl, by simpa [OrderedMap.size] using hc, rfl⟩

/-- A store leaves a suffix of the older items, then the new entry. -/
theorem entries_store (c : LockedCache κ ν) (key : κ) (value : ν) (weight : ℤ) :
    ∃ dropped kept, (c.items.erase key).entries = dropped ++ kept ∧
      (c.store key value weight).items.entries = kept ++ [(key, value)] := by
  have hsize : (c.insertNewest key value weight).items.size ≠ 0 := by
    simp [items_insertNewest, OrderedMap.append, OrderedMap.size]
  obtain ⟨dropped, kept, hentries, hkept, hloop⟩ :=
    items_evictLoop (c.insertNewest key value weight).items.size _ hsize
  rw [items_insertNewest] at hentries
  obtain ⟨init, last, rfl⟩ := List.eq_nil_or_concat kept |>.resolve_left hkept
  simp only [OrderedMap.append, List.concat_eq_append] at hentries hloop
  rw [← List.append_assoc] at hentries
  obtain ⟨hinit, hlast⟩ := List.append_inj' hentries rfl
  refine ⟨dropped, init, hinit, ?_⟩
  rw [List.singleton_inj] at hlast
  rw [hlast]
  exact hloop

/-! ## The cache as a map -/

theorem find?_store_self (c : LockedCache κ ν) (key : κ) (value : ν) (weight : ℤ) :
    (c.store key value weight).find? key = some value := by
  obtain ⟨_, kept, -, hstore⟩ := c.entries_store key value weight
  rw [find?, OrderedMap.find?_eq_some_iff, hstore]
  simp

/-- A store never changes what another key holds, except that it may evict it. -/
theorem find?_store_of_ne {c : LockedCache κ ν} {key j : κ} (hj : j ≠ key) {value : ν} {weight : ℤ}
    {v : ν} (h : (c.store key value weight).find? j = some v) : c.find? j = some v := by
  obtain ⟨dropped, kept, herase, hstore⟩ := c.entries_store key value weight
  rw [find?, OrderedMap.find?_eq_some_iff, hstore] at h
  have hmem : (j, v) ∈ (c.items.erase key).entries := by
    rw [herase]
    simp only [List.mem_append, List.mem_singleton, Prod.mk.injEq] at h
    rcases h with h | ⟨rfl, -⟩
    · exact List.mem_append_right _ h
    · exact absurd rfl hj
  rw [← OrderedMap.find?_eq_some_iff, OrderedMap.find?_erase, if_neg hj] at hmem
  exact hmem

@[simp] theorem find?_touch (c : LockedCache κ ν) (key j : κ) :
    (c.touch key).find? j = c.find? j :=
  c.items.find?_moveToEnd key j

@[simp] theorem find?_evict (c : LockedCache κ ν) (key j : κ) :
    (c.evict key).find? j = if j = key then none else c.find? j :=
  c.items.find?_erase key j

@[simp] theorem find?_clear (c : LockedCache κ ν) (j : κ) : c.clear.find? j = none := rfl

@[simp] theorem get_fst (c : LockedCache κ ν) (key : κ) : (c.get key).1 = c.find? key := by
  unfold get
  split <;> simp_all

@[simp] theorem find?_get (c : LockedCache κ ν) (key j : κ) :
    (c.get key).2.find? j = c.find? j := by
  unfold get
  split <;> simp

/-! ## Caches without limits -/

/-- A cache that never evicts. -/
structure Unlimited (c : LockedCache κ ν) : Prop where
  items : c.maxItems = none
  weight : c.maxWeight = none

omit [DecidableEq κ] in
theorem unlimited_new (weighs : Bool) : (new none none weighs : LockedCache κ ν).Unlimited := ⟨rfl, rfl⟩

theorem Unlimited.touch {c : LockedCache κ ν} (h : c.Unlimited) (key : κ) : (c.touch key).Unlimited :=
  ⟨h.items, h.weight⟩

theorem Unlimited.insertNewest {c : LockedCache κ ν} (h : c.Unlimited) (key : κ) (value : ν) (weight : ℤ) :
    (c.insertNewest key value weight).Unlimited := by
  simp only [LockedCache.insertNewest]
  split_ifs <;> exact ⟨h.items, h.weight⟩

omit [DecidableEq κ] in
theorem Unlimited.overLimit {c : LockedCache κ ν} (h : c.Unlimited) : c.overLimit = false := by
  simp [LockedCache.overLimit, tooMany, tooHeavy, h.items, h.weight]

theorem Unlimited.store_eq {c : LockedCache κ ν} (h : c.Unlimited) (key : κ) (value : ν) (weight : ℤ) :
    c.store key value weight = c.insertNewest key value weight := by
  show evictLoop (c.insertNewest key value weight).items.size _ = _
  cases (c.insertNewest key value weight).items.size with
  | zero => rfl
  | succ n => rw [evictLoop, (h.insertNewest key value weight).overLimit, if_neg nofun]

theorem Unlimited.store {c : LockedCache κ ν} (h : c.Unlimited) (key : κ) (value : ν) (weight : ℤ) :
    (c.store key value weight).Unlimited := by
  rw [h.store_eq]
  exact h.insertNewest key value weight

theorem Unlimited.find?_store {c : LockedCache κ ν} (h : c.Unlimited) (key j : κ) (value : ν) (weight : ℤ) :
    (c.store key value weight).find? j = if j = key then some value else c.find? j := by
  rw [h.store_eq, find?, items_insertNewest]
  exact c.items.find?_append key j value

/-! ## Keys in recent use -/

/-- A cache whose only limit is a number of items. -/
structure Holds (c : LockedCache κ ν) (n : ℕ) : Prop where
  items : c.maxItems = some (n : ℤ)
  weight : c.maxWeight = none

omit [DecidableEq κ] in
theorem Holds.overLimit {c : LockedCache κ ν} {n : ℕ} (h : c.Holds n) (hn : 0 < n) :
    c.overLimit = true ↔ n < c.items.size := by
  have hitems : c.tooMany = decide ((n : ℤ) < c.items.size) := by simp [tooMany, h.items]
  have hweight : c.tooHeavy = false := by simp [tooHeavy, h.weight]
  simp only [LockedCache.overLimit, hitems, hweight, Bool.or_false, Bool.and_eq_true,
    decide_eq_true_eq]
  omega

omit [DecidableEq κ] in
theorem holds_new (n : ℕ) (weighs : Bool) :
    (new (some n) none weighs : LockedCache κ ν).Holds n := ⟨rfl, rfl⟩

theorem Holds.evictOldest {c : LockedCache κ ν} {n : ℕ} (h : c.Holds n) : c.evictOldest.Holds n := by
  unfold LockedCache.evictOldest
  split
  · exact h
  · exact ⟨h.items, h.weight⟩

theorem Holds.evictLoop {c : LockedCache κ ν} {n : ℕ} (h : c.Holds n) (rounds : ℕ) :
    (evictLoop rounds c).Holds n := by
  induction rounds generalizing c with
  | zero => exact h
  | succ rounds ih =>
    rw [LockedCache.evictLoop]
    split_ifs
    · exact ih h.evictOldest
    · exact h

theorem Holds.insertNewest {c : LockedCache κ ν} {n : ℕ} (h : c.Holds n) (key : κ) (value : ν)
    (weight : ℤ) : (c.insertNewest key value weight).Holds n := by
  simp only [LockedCache.insertNewest]
  split_ifs
  · exact ⟨h.items, h.weight⟩
  · exact ⟨h.items, h.weight⟩

theorem Holds.store {c : LockedCache κ ν} {n : ℕ} (h : c.Holds n) (key : κ) (value : ν)
    (weight : ℤ) : (c.store key value weight).Holds n :=
  (h.insertNewest key value weight).evictLoop _

theorem Holds.get {c : LockedCache κ ν} {n : ℕ} (h : c.Holds n) (key : κ) :
    (c.get key).2.Holds n := by
  unfold LockedCache.get
  split
  · exact h
  · exact ⟨h.items, h.weight⟩

/-- The loop drops the items beyond the limit, oldest first. -/
theorem Holds.entries_evictLoop {c : LockedCache κ ν} {n : ℕ} (h : c.Holds n) (hn : 0 < n)
    {rounds : ℕ} (hrounds : c.items.size ≤ n + rounds) :
    (LockedCache.evictLoop rounds c).items.entries = c.items.entries.drop (c.items.size - n) := by
  induction rounds generalizing c with
  | zero =>
    have hdrop : c.items.size - n = 0 := by omega
    rw [hdrop, List.drop_zero]
    rfl
  | succ rounds ih =>
    rw [LockedCache.evictLoop]
    split_ifs with hover
    · rw [h.overLimit hn] at hover
      have hsize : c.evictOldest.items.size = c.items.size - 1 := by
        rw [items_evictOldest, OrderedMap.size_popFirst]
      have hdrop : c.items.size - n = (c.items.size - 1 - n) + 1 := by omega
      rw [ih h.evictOldest (by omega), hsize, items_evictOldest, hdrop]
      exact List.drop_tail
    · rw [h.overLimit hn] at hover
      have hdrop : c.items.size - n = 0 := by omega
      rw [hdrop, List.drop_zero]

/-- A store keeps the `n` newest entries. -/
theorem Holds.entries_store {c : LockedCache κ ν} {n : ℕ} (h : c.Holds n) (hn : 0 < n) (key : κ) (value : ν)
    (weight : ℤ) : (c.store key value weight).items.entries =
      (c.items.append key value).entries.drop ((c.items.append key value).size - n) := by
  have hloop : (c.store key value weight).items.entries = _ :=
    (h.insertNewest key value weight).entries_evictLoop hn
      (Nat.le_add_left (c.insertNewest key value weight).items.size n)
  rwa [items_insertNewest] at hloop

theorem Holds.size_store_le {c : LockedCache κ ν} {n : ℕ} (h : c.Holds n) (hn : 0 < n) (key : κ) (value : ν)
    (weight : ℤ) : (c.store key value weight).items.size ≤ n := by
  rw [OrderedMap.size, h.entries_store hn, List.length_drop]
  show (c.items.append key value).size - ((c.items.append key value).size - n) ≤ n
  omega

/-- The newest items are those under the keys `ks`. -/
def Recent (c : LockedCache κ ν) (ks : Finset κ) : Prop :=
  ∃ older recent, c.items.entries = older ++ recent ∧ (∀ e ∈ older, e.1 ∉ ks) ∧ ∀ e ∈ recent, e.1 ∈ ks

omit [DecidableEq κ] in
theorem recent_empty (c : LockedCache κ ν) : c.Recent ∅ :=
  ⟨c.items.entries, [], by simp, by simp, by simp⟩

/-- A lookup adds its key. -/
theorem Recent.get {c : LockedCache κ ν} {ks : Finset κ} (h : c.Recent ks) (key : κ) :
    (c.get key).2.Recent (insert key ks) := by
  obtain ⟨older, recent, hentries, holder, hrecent⟩ := h
  unfold LockedCache.get
  split
  · next hmiss =>
    refine ⟨older, recent, hentries, fun e he hmem => ?_, fun e he => Finset.mem_insert_of_mem (hrecent e he)⟩
    rcases Finset.mem_insert.1 hmem with hkey | hmem
    · rw [find?, OrderedMap.find?_eq_none_iff] at hmiss
      refine hmiss (hkey ▸ List.mem_map_of_mem ?_)
      rw [hentries]
      exact List.mem_append_left _ he
    · exact holder e he hmem
  · next value hhit =>
    have htouch : (c.touch key).items = c.items.append key value := by
      simp only [touch, OrderedMap.moveToEnd]
      rw [show c.items.find? key = some value from hhit]
    refine ⟨older.filter fun e => e.1 ≠ key, (recent.filter fun e => e.1 ≠ key) ++ [(key, value)],
      ?_, fun e he hmem => ?_, fun e he => ?_⟩
    · simp only [htouch, OrderedMap.append, OrderedMap.erase, hentries, List.filter_append,
        List.append_assoc]
    · simp only [List.mem_filter, decide_eq_true_eq] at he
      rcases Finset.mem_insert.1 hmem with hkey | hmem
      · exact he.2 hkey
      · exact holder e he.1 hmem
    · rcases List.mem_append.1 he with he | he
      · exact Finset.mem_insert_of_mem (hrecent e (List.mem_filter.1 he).1)
      · rw [List.mem_singleton.1 he]
        exact Finset.mem_insert_self _ _

/-- As long as there is room for the recent keys, a store of one of them evicts none. -/
theorem Recent.store {c : LockedCache κ ν} {ks : Finset κ} (h : c.Recent ks) {n : ℕ}
    (hc : c.Holds n) (hks : ks.card ≤ n) {key : κ} (hkey : key ∈ ks) (value : ν) (weight : ℤ) :
    (c.store key value weight).Recent ks ∧
      ∀ j ∈ ks, j ≠ key → (c.store key value weight).find? j = c.find? j := by
  obtain ⟨older, recent, hentries, holder, hrecent⟩ := h
  have hn : 0 < n := lt_of_lt_of_le (Finset.card_pos.2 ⟨key, hkey⟩) hks
  have holderFilter : (older.filter fun e => e.1 ≠ key) = older :=
    List.filter_eq_self.2 fun e he => by
      have hne : e.1 ≠ key := fun heq => holder e he (heq ▸ hkey)
      simpa using hne
  have hinsert : (c.items.append key value).entries =
      older ++ ((recent.filter fun e => e.1 ≠ key) ++ [(key, value)]) := by
    simp only [OrderedMap.append, OrderedMap.erase, hentries, List.filter_append, holderFilter,
      List.append_assoc]
  have hmem : ∀ e ∈ (recent.filter fun e => e.1 ≠ key) ++ [(key, value)], e.1 ∈ ks := by
    intro e he
    rcases List.mem_append.1 he with he | he
    · exact hrecent e (List.mem_filter.1 he).1
    · rw [List.mem_singleton.1 he]
      exact hkey
  have hlength : ((recent.filter fun e => e.1 ≠ key) ++ [(key, value)]).length ≤ n := by
    have hnodup : (((recent.filter fun e => e.1 ≠ key) ++ [(key, value)]).map Prod.fst).Nodup := by
      have := (c.items.append key value).nodup
      rw [hinsert, List.map_append] at this
      exact this.of_append_right
    calc _ = (((recent.filter fun e => e.1 ≠ key) ++ [(key, value)]).map Prod.fst).length :=
          (List.length_map _).symm
      _ = (((recent.filter fun e => e.1 ≠ key) ++ [(key, value)]).map Prod.fst).toFinset.card :=
          (List.toFinset_card_of_nodup hnodup).symm
      _ ≤ ks.card := by
          refine Finset.card_le_card fun j hj => ?_
          obtain ⟨e, he, rfl⟩ := List.mem_map.1 (List.mem_toFinset.1 hj)
          exact hmem e he
      _ ≤ n := hks
  have hstore : (c.store key value weight).items.entries =
      older.drop ((c.items.append key value).size - n) ++
        ((recent.filter fun e => e.1 ≠ key) ++ [(key, value)]) := by
    have hsize : (c.items.append key value).size - n ≤ older.length := by
      rw [OrderedMap.size, hinsert, List.length_append]
      omega
    rw [hc.entries_store hn, hinsert, List.drop_append_of_le_length hsize]
  refine ⟨⟨_, _, hstore, fun e he => holder e (List.mem_of_mem_drop he), hmem⟩, fun j hj hne => ?_⟩
  ext v
  have hdropped : (j, v) ∉ older.drop ((c.items.append key value).size - n) :=
    fun he => holder _ (List.mem_of_mem_drop he) hj
  have holder' : (j, v) ∉ older := fun he => holder _ he hj
  rw [find?, find?, OrderedMap.find?_eq_some_iff, OrderedMap.find?_eq_some_iff, hstore, hentries]
  simp [hdropped, holder', hne]

end LockedCache

end McritSimilarity
