import Mathlib.Algebra.BigOperators.Group.List.Basic
import Mathlib.Algebra.Order.Ring.Int
import Mathlib.Data.List.Dedup
import McritSimilarity.Cache.SingleFlight

/-!
# `LockedCache` as a weighted LRU

`Weighed` says that the weights are those of the items and that the total is their sum; a store evicts
the shortest prefix of the items that brings the cache within its limits (`EvictsShortest`).

The keys that the steps of a run use (`usesAfter`) are recorded next to the state.  `List.dedup` keeps the
last occurrence of a key, so `uses.dedup` are the distinct keys by their last use, and the items of the
cache are a suffix of it (`weightedLru`).
-/

set_option autoImplicit false

/-! ## Lists by last use -/

namespace List

variable {κ : Type} [DecidableEq κ]

/-- Using a key once more makes it the last one. -/
theorem dedup_concat (uses : List κ) (key : κ) :
    (uses ++ [key]).dedup = uses.dedup.filter (· ≠ key) ++ [key] := by
  induction uses with
  | nil => simp
  | cons x uses ih =>
    rw [List.cons_append]
    by_cases hx : x ∈ uses
    · rw [List.dedup_cons_of_mem (List.mem_append_left _ hx), List.dedup_cons_of_mem hx, ih]
    · rw [List.dedup_cons_of_notMem hx]
      by_cases hkey : x = key
      · rw [List.dedup_cons_of_mem (by simp [hkey]), ih, List.filter_cons_of_neg (by simp [hkey])]
      · rw [List.dedup_cons_of_notMem (by simp [hx, hkey]), ih, List.filter_cons_of_pos (by simp [hkey]),
          List.cons_append]

/-- A nodup list without its head. -/
theorem filter_ne_head {x : κ} {xs : List κ} (h : (x :: xs).Nodup) : (x :: xs).filter (· ≠ x) = xs := by
  rw [List.filter_cons_of_neg (by simp), List.filter_eq_self]
  intro y hy
  have hne : y ≠ x := fun heq => (List.nodup_cons.1 h).1 (heq ▸ hy)
  simpa using hne

end List

namespace OrderedMap

variable {κ : Type} [DecidableEq κ]

/-- The sum of the values, without the value of a key. -/
theorem sum_values_erase (m : OrderedMap κ ℤ) (key : κ) :
    (m.erase key).values.sum = m.values.sum - (m.find? key).getD 0 := by
  obtain ⟨entries, nodup⟩ := m
  simp only [erase, values, find?]
  induction entries with
  | nil => simp
  | cons e es ih =>
    obtain ⟨j, w⟩ := e
    simp only [List.map_cons, List.nodup_cons] at nodup
    by_cases hj : j = key
    · subst hj
      have hnone : es.lookup j = none := List.lookup_eq_none_iff.2 fun p hp => by
        have hne : j ≠ p.1 := fun heq => nodup.1 (heq ▸ List.mem_map_of_mem hp)
        simpa using hne
      have hrest := ih nodup.2
      rw [hnone, Option.getD_none, sub_zero] at hrest
      rw [List.filter_cons_of_neg (by simp), hrest]
      simp
    · have hb : (key == j) = false := by simpa using Ne.symm hj
      rw [List.filter_cons_of_pos (by simpa using hj), List.map_cons, List.sum_cons, ih nodup.2,
        List.map_cons, List.sum_cons, List.lookup_cons, hb]
      show w + (_ - (es.lookup key).getD 0) = w + _ - (es.lookup key).getD 0
      omega

theorem sum_values_append (m : OrderedMap κ ℤ) (key : κ) (w : ℤ) :
    (m.append key w).values.sum = (m.erase key).values.sum + w := by
  simp [append, values]

/-- The values are what is found under the keys. -/
theorem values_eq_map_keys (m : OrderedMap κ ℤ) :
    m.values = m.keys.map fun key => (m.find? key).getD 0 := by
  have hentries := m.entries_eq_map_keys (fun key => (m.find? key).getD 0) fun key hkey => by
    obtain ⟨v, hv⟩ := mem_keys_iff.1 hkey
    rw [hv, Option.getD_some]
  rw [values, hentries, List.map_map]
  rfl

end OrderedMap

namespace McritSimilarity

namespace LockedCache

variable {κ ν : Type} [DecidableEq κ] {c : LockedCache κ ν} {key : κ}

/-! ## Weights -/

/-- The weight of a key; 0 when it has none. -/
def weight (c : LockedCache κ ν) (key : κ) : ℤ := (c.weights.find? key).getD 0

/-- The weights are those of the items, and the total weight is their sum. -/
structure Weighed (c : LockedCache κ ν) : Prop where
  keys : c.weights.keys.Perm (if c.weighs then c.items.keys else [])
  total : c.totalWeight = c.weights.values.sum

omit [DecidableEq κ] in
theorem weighed_clear (c : LockedCache κ ν) : c.clear.Weighed where
  keys := by
    show List.Perm [] (if c.weighs then [] else [])
    rw [ite_self]
  total := rfl

theorem Weighed.touch (h : c.Weighed) (key : κ) : (c.touch key).Weighed where
  keys := by
    have hmoved := OrderedMap.perm_keys_moveToEnd c.items key
    show c.weights.keys.Perm (if c.weighs then (c.items.moveToEnd key).keys else [])
    have hkeys := h.keys
    split_ifs with hweighs
    · rw [if_pos hweighs] at hkeys
      exact hkeys.trans hmoved.symm
    · rwa [if_neg hweighs] at hkeys
  total := h.total

theorem Weighed.insertNewest (h : c.Weighed) (key : κ) (value : ν) (w : ℤ) :
    (c.insertNewest key value w).Weighed := by
  have hkeys := h.keys
  by_cases hweighs : c.weighs = true
  · rw [if_pos hweighs] at hkeys
    have hnot : key ∉ (c.weights.erase key).keys := fun hmem => (OrderedMap.mem_keys_erase.1 hmem).2 rfl
    have hput : (c.weights.erase key).put key w = (c.weights.erase key).append key w := by
      rw [OrderedMap.put, if_neg hnot]
    have herase : (c.weights.erase key).erase key = c.weights.erase key := OrderedMap.erase_of_notMem hnot
    have hinsert : c.insertNewest key value w = { c with
        items := c.items.append key value
        weights := (c.weights.erase key).append key w
        totalWeight := c.totalWeight - c.weight key + w } := by
      simp only [LockedCache.insertNewest, dropWeight, hweighs, if_true, OrderedMap.moveToEnd_put, hput]
      rfl
    rw [hinsert]
    refine ⟨?_, ?_⟩
    · simp only [hweighs, if_true, OrderedMap.keys_append, OrderedMap.keys_erase]
      refine List.Perm.append_right _ ?_
      rw [List.filter_filter]
      simpa using hkeys.filter fun j => decide (j ≠ key)
    · rw [OrderedMap.sum_values_append, herase, OrderedMap.sum_values_erase, h.total]
      rfl
  · rw [if_neg hweighs] at hkeys
    have hnone : c.weights.keys = [] := hkeys.eq_nil
    have herase : c.weights.erase key = c.weights := OrderedMap.erase_of_notMem (by simp [hnone])
    have hfind : c.weights.find? key = none := OrderedMap.find?_eq_none_iff.2 (by simp [hnone])
    have hinsert : c.insertNewest key value w = { c with items := c.items.append key value } := by
      simp only [LockedCache.insertNewest, dropWeight, hweighs, OrderedMap.moveToEnd_put, herase, hfind,
        Option.getD_none, sub_zero]
      rfl
    rw [hinsert]
    exact ⟨by simpa only [if_neg hweighs] using hkeys, h.total⟩

theorem Weighed.evictOldest (h : c.Weighed) : c.evictOldest.Weighed := by
  unfold LockedCache.evictOldest
  split
  · exact h
  · next oldest rest hitems =>
    have hkeys := h.keys
    have hpop : c.items.popFirst.keys = rest := by rw [OrderedMap.keys_popFirst, hitems, List.tail_cons]
    refine ⟨?_, ?_⟩
    · simp only [dropWeight, OrderedMap.keys_erase, hpop]
      split_ifs with hweighs
      · rw [if_pos hweighs, hitems] at hkeys
        have hnodup : (oldest :: rest).Nodup := hitems ▸ c.items.nodup_keys
        rw [← List.filter_ne_head hnodup]
        exact hkeys.filter _
      · rw [if_neg hweighs] at hkeys
        rw [hkeys.eq_nil, List.filter_nil]
    · simp only [dropWeight, OrderedMap.sum_values_erase, h.total]

/-- The total weight, summed over the items. -/
theorem Weighed.total_items (h : c.Weighed) : c.totalWeight = (c.items.keys.map c.weight).sum := by
  have hkeys := h.keys
  rw [h.total, OrderedMap.values_eq_map_keys]
  show (c.weights.keys.map c.weight).sum = _
  split_ifs at hkeys with hweighs
  · exact (hkeys.map _).sum_eq
  · have hzero : c.weight = fun _ => 0 := by
      funext key
      have hfind : c.weights.find? key = none := OrderedMap.find?_eq_none_iff.2 (by simp [hkeys.eq_nil])
      rw [weight, hfind, Option.getD_none]
    rw [hkeys.eq_nil, hzero]
    simp

/-! ## Evictions -/

/-- Entries are within limits, or only one is left. -/
def Fits (maxItems maxWeight : Option ℤ) (weight : κ → ℤ) (entries : List (κ × ν)) : Prop :=
  entries.length ≤ 1 ∨
    (∀ limit, maxItems = some limit → (entries.length : ℤ) ≤ limit) ∧
      ∀ limit, maxWeight = some limit → (entries.map fun e => weight e.1).sum ≤ limit

/-- The store of a value drops the shortest prefix of the items, the value's own item last, after which
the items fit. -/
def EvictsShortest (c : LockedCache κ ν) (key : κ) (value : ν) (weight : κ → ℤ)
    (stored : LockedCache κ ν) : Prop :=
  ∃ n, stored.items.entries = (c.items.append key value).entries.drop n ∧
    Fits c.maxItems c.maxWeight weight ((c.items.append key value).entries.drop n) ∧
      ∀ m < n, ¬ Fits c.maxItems c.maxWeight weight ((c.items.append key value).entries.drop m)

omit [DecidableEq κ] in
theorem overLimit_eq_false_iff : c.overLimit = false ↔
    c.items.size ≤ 1 ∨ (∀ limit, c.maxItems = some limit → (c.items.size : ℤ) ≤ limit) ∧
      ∀ limit, c.maxWeight = some limit → c.totalWeight ≤ limit := by
  have hmany : c.tooMany = false ↔ ∀ limit, c.maxItems = some limit → (c.items.size : ℤ) ≤ limit := by
    unfold tooMany
    cases c.maxItems <;> simp
  have hheavy : c.tooHeavy = false ↔ ∀ limit, c.maxWeight = some limit → c.totalWeight ≤ limit := by
    unfold tooHeavy
    cases c.maxWeight <;> simp
  rw [← hmany, ← hheavy, overLimit, Bool.and_eq_false_iff, Bool.or_eq_false_iff, decide_eq_false_iff_not,
    not_lt]

theorem Weighed.fits_iff (h : c.Weighed) :
    Fits c.maxItems c.maxWeight c.weight c.items.entries ↔ c.overLimit = false := by
  have htotal := h.total_items
  rw [OrderedMap.keys, List.map_map] at htotal
  rw [overLimit_eq_false_iff, htotal]
  rfl

/-- What evictions leave alone, and the items they leave. -/
structure Evicted (c : LockedCache κ ν) (n : ℕ) (c' : LockedCache κ ν) : Prop where
  weighed : c'.Weighed
  maxItems : c'.maxItems = c.maxItems
  maxWeight : c'.maxWeight = c.maxWeight
  entries : c'.items.entries = c.items.entries.drop n
  weight : ∀ e ∈ c'.items.entries, c'.weight e.1 = c.weight e.1

theorem Evicted.refl (h : c.Weighed) : Evicted c 0 c := ⟨h, rfl, rfl, rfl, fun _ _ => rfl⟩

theorem Evicted.evictOldest {c' : LockedCache κ ν} {n : ℕ} (h : Evicted c n c') :
    Evicted c (n + 1) c'.evictOldest where
  weighed := h.weighed.evictOldest
  maxItems := by
    rw [← h.maxItems]
    unfold LockedCache.evictOldest
    split <;> rfl
  maxWeight := by
    rw [← h.maxWeight]
    unfold LockedCache.evictOldest
    split <;> rfl
  entries := by
    rw [items_evictOldest]
    show c'.items.entries.tail = _
    rw [h.entries, List.tail_drop]
  weight e he := by
    rw [items_evictOldest] at he
    rw [← h.weight e (List.mem_of_mem_tail he)]
    unfold LockedCache.evictOldest
    split
    · rfl
    · next oldest rest hitems =>
      -- The evicted key is not that of an item that is left.
      have hnodup : (oldest :: rest).Nodup := hitems ▸ c'.items.nodup_keys
      have hmem : e.1 ∈ rest := by
        have hpop : c'.items.popFirst.keys = rest := by
          rw [OrderedMap.keys_popFirst, hitems, List.tail_cons]
        rw [← hpop]
        exact List.mem_map_of_mem he
      have hne : e.1 ≠ oldest := fun heq => (List.nodup_cons.1 hnodup).1 (heq ▸ hmem)
      simp only [LockedCache.weight, dropWeight, OrderedMap.find?_erase, if_neg hne]

theorem Evicted.fits_iff {c' : LockedCache κ ν} {n : ℕ} (h : Evicted c n c') :
    Fits c.maxItems c.maxWeight c.weight (c.items.entries.drop n) ↔ c'.overLimit = false := by
  have hweights : (c'.items.entries.map fun e => c'.weight e.1) =
      c'.items.entries.map fun e => c.weight e.1 := List.map_congr_left h.weight
  rw [← h.weighed.fits_iff, ← h.entries, ← h.maxItems, ← h.maxWeight]
  simp only [Fits, hweights]

/-- The loop evicts until the items fit, and no further. -/
theorem Evicted.loop {c' : LockedCache κ ν} {n : ℕ} (h : Evicted c n c')
    (hlonger : ∀ m < n, ¬ Fits c.maxItems c.maxWeight c.weight (c.items.entries.drop m)) {rounds : ℕ}
    (hrounds : c'.items.size ≤ rounds) :
    ∃ n', Evicted c n' (evictLoop rounds c') ∧ (evictLoop rounds c').overLimit = false ∧
      ∀ m < n', ¬ Fits c.maxItems c.maxWeight c.weight (c.items.entries.drop m) := by
  induction rounds generalizing c' n with
  | zero =>
    refine ⟨n, h, ?_, hlonger⟩
    show c'.overLimit = false
    rw [overLimit_eq_false_iff]
    exact Or.inl (hrounds.trans (Nat.zero_le 1))
  | succ rounds ih =>
    rw [evictLoop]
    split_ifs with hover
    · refine ih h.evictOldest (fun m hm => ?_) ?_
      · rcases Nat.lt_succ_iff_lt_or_eq.1 hm with hm | rfl
        · exact hlonger m hm
        · rw [h.fits_iff, hover]
          exact Bool.noConfusion
      · rw [items_evictOldest, OrderedMap.size_popFirst]
        omega
    · exact ⟨n, h, Bool.not_eq_true _ ▸ hover, hlonger⟩

/-- The weights a store finds: those of the other items, and the one it brings. -/
def weightAfter (c : LockedCache κ ν) (key : κ) (w : ℤ) (j : κ) : ℤ :=
  if c.weighs then if j = key then w else c.weight j else 0

theorem Weighed.weight_insertNewest (h : c.Weighed) (key : κ) (value : ν) (w : ℤ) :
    (c.insertNewest key value w).weight = c.weightAfter key w := by
  funext j
  have hkeys := h.keys
  by_cases hweighs : c.weighs = true
  · have hinsert : (c.insertNewest key value w).weights = (c.weights.erase key).put key w := by
      simp only [LockedCache.insertNewest, dropWeight, hweighs, if_true]
    simp only [LockedCache.weight, weightAfter, hinsert, hweighs, if_true, OrderedMap.find?_put,
      OrderedMap.find?_erase]
    split_ifs <;> rfl
  · rw [if_neg hweighs] at hkeys
    have hnone : c.weights.find? j = none := OrderedMap.find?_eq_none_iff.2 (by simp [hkeys.eq_nil])
    have hinsert : (c.insertNewest key value w).weights = c.weights.erase key := by
      simp only [LockedCache.insertNewest, dropWeight, hweighs]
      rfl
    rw [LockedCache.weight, weightAfter, hinsert, if_neg hweighs, OrderedMap.find?_erase, hnone, ite_self,
      Option.getD_none]

theorem maxItems_insertNewest (c : LockedCache κ ν) (key : κ) (value : ν) (w : ℤ) :
    (c.insertNewest key value w).maxItems = c.maxItems := by
  simp only [LockedCache.insertNewest]
  split_ifs <;> rfl

theorem maxWeight_insertNewest (c : LockedCache κ ν) (key : κ) (value : ν) (w : ℤ) :
    (c.insertNewest key value w).maxWeight = c.maxWeight := by
  simp only [LockedCache.insertNewest]
  split_ifs <;> rfl

theorem Weighed.store (h : c.Weighed) (key : κ) (value : ν) (w : ℤ) :
    (c.store key value w).Weighed ∧ (c.store key value w).overLimit = false ∧
      EvictsShortest c key value (c.weightAfter key w) (c.store key value w) := by
  have hinsert := h.insertNewest key value w
  obtain ⟨n, hevicted, hfits, hshortest⟩ := (Evicted.refl hinsert).loop nofun le_rfl
  have hfits' := hevicted.fits_iff.2 hfits
  have hentries : (c.store key value w).items.entries = _ := hevicted.entries
  simp only [h.weight_insertNewest, maxItems_insertNewest, maxWeight_insertNewest,
    items_insertNewest] at hfits' hshortest hentries
  exact ⟨hevicted.weighed, hfits, n, hentries, hfits', hshortest⟩

/-! ## Use -/

/-- The keys of the items are the last of the used keys. -/
def UsedLast (c : LockedCache κ ν) (uses : List κ) : Prop := c.items.keys <:+ uses.dedup

theorem UsedLast.append {uses : List κ} (h : c.UsedLast uses) (key : κ) (value : ν) :
    (c.items.append key value).keys <:+ (uses ++ [key]).dedup := by
  rw [OrderedMap.keys_append, OrderedMap.keys_erase, List.dedup_concat]
  exact (List.suffix_append_inj_of_length_eq rfl).2 ⟨h.filter _, rfl⟩

theorem UsedLast.store {uses : List κ} (h : c.UsedLast uses) (key : κ) (value : ν) (w : ℤ) :
    (c.store key value w).UsedLast (uses ++ [key]) := by
  obtain ⟨dropped, kept, herase, hstore⟩ := c.entries_store key value w
  refine List.IsSuffix.trans ⟨dropped.map Prod.fst, ?_⟩ (h.append key value)
  simp only [OrderedMap.keys, OrderedMap.append, hstore, herase, List.map_append, List.append_assoc]

theorem items_touch {value : ν} (hfound : c.find? key = some value) :
    (c.touch key).items = c.items.append key value := by
  simp only [touch, OrderedMap.moveToEnd]
  rw [show c.items.find? key = some value from hfound]

theorem UsedLast.touch {uses : List κ} (h : c.UsedLast uses) {value : ν}
    (hfound : c.find? key = some value) : (c.touch key).UsedLast (uses ++ [key]) := by
  unfold UsedLast
  rw [items_touch hfound]
  exact h.append key value

/-- The cache holds every used key, or `k` of them. -/
def Full (c : LockedCache κ ν) (k : ℕ) (uses : List κ) : Prop :=
  c.items.keys = uses.dedup ∨ k ≤ c.items.size

theorem Full.append {k : ℕ} {uses : List κ} (h : c.Full k uses) (key : κ) (value : ν) :
    (c.items.append key value).keys = (uses ++ [key]).dedup ∨ k ≤ (c.items.append key value).size := by
  rcases h with h | h
  · left
    rw [OrderedMap.keys_append, OrderedMap.keys_erase, List.dedup_concat, h]
  · right
    have hkeys : (c.items.append key value).keys.length = (c.items.keys.filter (· ≠ key)).length + 1 := by
      rw [OrderedMap.keys_append, OrderedMap.keys_erase, List.length_append]
      rfl
    have herase : c.items.keys.length ≤ (c.items.keys.filter (· ≠ key)).length + 1 := by
      have hcount := List.length_eq_length_filter_add (l := c.items.keys) (fun j => decide (j ≠ key))
      have hone : (c.items.keys.filter fun j => !decide (j ≠ key)).length ≤ 1 := by
        have hnodup := List.nodup_iff_count_le_one.1 c.items.nodup_keys key
        rw [List.count_eq_length_filter] at hnodup
        simpa [beq_eq_decide] using hnodup
      omega
    rw [OrderedMap.length_keys] at hkeys herase
    omega

theorem Full.store {k : ℕ} {uses : List κ} (h : c.Full k uses) (hc : c.Holds k) (hk : 0 < k) (key : κ)
    (value : ν) (w : ℤ) : (c.store key value w).Full k (uses ++ [key]) := by
  have hstore := hc.entries_store hk key value w
  by_cases hroom : (c.items.append key value).size ≤ k
  · rw [Nat.sub_eq_zero_of_le hroom, List.drop_zero] at hstore
    have hitems : (c.store key value w).items = c.items.append key value := OrderedMap.ext hstore
    unfold Full
    rw [hitems]
    exact h.append key value
  · right
    rw [OrderedMap.size, hstore, List.length_drop]
    show k ≤ (c.items.append key value).size - ((c.items.append key value).size - k)
    omega

theorem Full.touch {k : ℕ} {uses : List κ} (h : c.Full k uses) {value : ν}
    (hfound : c.find? key = some value) : (c.touch key).Full k (uses ++ [key]) := by
  unfold Full
  rw [items_touch hfound]
  exact h.append key value

/-- A full cache that holds at most `k` items holds the last `k` used keys. -/
theorem Full.keys_eq {k : ℕ} {uses : List κ} (h : c.Full k uses) (hlast : c.UsedLast uses)
    (hsize : c.items.size ≤ k) : c.items.keys = uses.dedup.drop (uses.dedup.length - k) := by
  obtain ⟨older, holder⟩ := hlast
  have hlength : older.length + c.items.size = uses.dedup.length := by
    rw [← holder, List.length_append, OrderedMap.length_keys]
  have hdrop : uses.dedup.length - k = older.length := by
    rcases h with h | h
    · have hall : c.items.size = uses.dedup.length := by rw [← h, OrderedMap.length_keys]
      omega
    · omega
  rw [hdrop, ← holder, List.drop_left]

/-- A key is gone once `k` other keys have been used. -/
theorem Full.find?_eq_none {k : ℕ} {key : κ} {others : List κ} (h : c.Full k (key :: others))
    (hlast : c.UsedLast (key :: others)) (hsize : c.items.size ≤ k) (hnodup : (key :: others).Nodup)
    (hothers : others.length = k) : c.find? key = none := by
  have hkeys := h.keys_eq hlast hsize
  have hdrop : (key :: others).length - k = 1 := by
    rw [List.length_cons]
    omega
  rw [hnodup.dedup, hdrop, List.drop_one, List.tail_cons] at hkeys
  rw [find?, OrderedMap.find?_eq_none_iff, hkeys]
  exact (List.nodup_cons.1 hnodup).1

theorem Full.foldl_store {k : ℕ} {uses : List κ} (h : c.Full k uses) (hlast : c.UsedLast uses)
    (hsize : c.items.size ≤ k) (hc : c.Holds k) (hk : 0 < k) (value : ν) (others : List κ) :
    (others.foldl (fun c key => c.store key value 0) c).Full k (uses ++ others) ∧
      (others.foldl (fun c key => c.store key value 0) c).UsedLast (uses ++ others) ∧
      (others.foldl (fun c key => c.store key value 0) c).items.size ≤ k := by
  induction others generalizing c uses with
  | nil =>
    rw [List.append_nil]
    exact ⟨h, hlast, hsize⟩
  | cons key others ih =>
    rw [List.append_cons]
    exact ih (h.store hc hk key value 0) (hlast.store key value 0) (hc.size_store_le hk key value 0)
      (hc.store key value 0)

end LockedCache

/-! ## Runs -/

namespace CacheState

variable {τ κ ν : Type} [DecidableEq τ] [DecidableEq κ]

/-- The used keys after a step: those of hits and stores since the last `clear`. -/
def usesAfter (s : CacheState τ κ ν) (l : CacheLabel τ κ ν) (uses : List κ) : List κ :=
  match l with
  | .get _ key => if (s.cache.find? key).isSome then uses ++ [key] else uses
  | .clear _ => []
  | .look t _ =>
    match s.stage t with
    | .looking key _ => if (s.cache.find? key).isSome then uses ++ [key] else uses
    | _ => uses
  | .store t =>
    match s.stage t with
    | .storing key _ _ (some _) => uses ++ [key]
    | _ => uses
  | _ => uses

variable (empty : ν → Bool)

variable {empty}

/-- What a step does to the cache: nothing, a hit, a store or a clear. -/
inductive Change (c c' : LockedCache κ ν) (uses uses' : List κ) : Prop where
  | keeps (hcache : c' = c) (huses : uses' = uses)
  | hits (key : κ) (value : ν) (hfound : c.find? key = some value) (hcache : c' = c.touch key)
      (huses : uses' = uses ++ [key])
  | stores (key : κ) (value : ν) (weight : ℤ) (hcache : c' = c.store key value weight)
      (huses : uses' = uses ++ [key])
  | clears (hcache : c' = c.clear) (huses : uses' = [])

theorem Step.change {s s' : CacheState τ κ ν} {l : CacheLabel τ κ ν} (h : s.Step empty l s')
    (uses : List κ) : Change s.cache s'.cache uses (s.usesAfter l uses) := by
  cases l with
  | get t key =>
    simp only [Step, next] at h
    split at h
    · cases h
      cases hfound : s.cache.find? key with
      | none =>
        refine .keeps ?_ (by simp [usesAfter, hfound])
        simp only [move, withCache, LockedCache.get, hfound]
      | some value =>
        refine .hits key value hfound ?_ (by simp [usesAfter, hfound])
        simp only [move, withCache, LockedCache.get, hfound]
    · cases h
  | clear t =>
    simp only [Step, next] at h
    split at h
    · cases h
      exact .clears rfl rfl
    · cases h
  | look t stop =>
    simp only [Step, next] at h
    split at h
    · next key call hstage =>
      cases h
      cases hfound : s.cache.find? key with
      | none =>
        refine .keeps ?_ (by simp [usesAfter, hstage, hfound])
        simp only [look, hfound]
        split
        · rfl
        · split_ifs <;> rfl
      | some value =>
        refine .hits key value hfound ?_ (by simp [usesAfter, hstage, hfound])
        simp only [look, hfound]
        rfl
    · cases h
  | store t =>
    simp only [Step, next] at h
    split at h
    · next key event value weight hstage =>
      cases h
      exact .stores key value weight rfl (by simp [usesAfter, hstage])
    · next key event value hstage =>
      cases h
      exact .keeps rfl (by simp [usesAfter, hstage])
    · cases h
  | _ =>
    refine .keeps ?_ rfl
    simp only [Step, next] at h
    repeat' split at h
    all_goals first | cases h; rfl | cases h

end CacheState

/-! ## The invariant -/

section Lru

variable {κ ν : Type} [DecidableEq κ] {maxItems maxWeight : Option ℤ} {weighs : Bool}
  {c c' : LockedCache κ ν} {uses uses' : List κ} {key : κ}

/-- A cache after the keys `uses` were used. -/
structure Lru (maxItems maxWeight : Option ℤ) (weighs : Bool) (c : LockedCache κ ν) (uses : List κ) :
    Prop where
  maxItems : c.maxItems = maxItems
  maxWeight : c.maxWeight = maxWeight
  weighs : c.weighs = weighs
  weighed : c.Weighed
  fits : c.overLimit = false
  usedLast : c.UsedLast uses
  full : ∀ k : ℕ, 0 < k → c.Holds k → c.Full k uses

theorem Lru.clear (h : Lru maxItems maxWeight weighs c uses) :
    Lru maxItems maxWeight weighs c.clear [] where
  maxItems := h.maxItems
  maxWeight := h.maxWeight
  weighs := h.weighs
  weighed := LockedCache.weighed_clear c
  fits := LockedCache.overLimit_eq_false_iff.2 (Or.inl (Nat.zero_le 1))
  usedLast := List.suffix_rfl
  full := fun _ _ _ => Or.inl rfl

theorem Lru.touch (h : Lru maxItems maxWeight weighs c uses) {value : ν} (hfound : c.find? key = some value) :
    Lru maxItems maxWeight weighs (c.touch key) (uses ++ [key]) where
  maxItems := h.maxItems
  maxWeight := h.maxWeight
  weighs := h.weighs
  weighed := h.weighed.touch key
  fits := by
    have hsize : (c.touch key).items.size = c.items.size := by
      have hperm := OrderedMap.perm_keys_moveToEnd c.items key
      rw [← OrderedMap.length_keys, ← OrderedMap.length_keys]
      exact hperm.length_eq
    have hfits := h.fits
    rw [LockedCache.overLimit_eq_false_iff] at hfits ⊢
    rwa [hsize]
  usedLast := h.usedLast.touch hfound
  full k hk hc := (h.full k hk ⟨hc.items, hc.weight⟩).touch hfound

theorem maxItems_evictLoop (rounds : ℕ) (c : LockedCache κ ν) :
    (LockedCache.evictLoop rounds c).maxItems = c.maxItems ∧
      (LockedCache.evictLoop rounds c).maxWeight = c.maxWeight ∧
        (LockedCache.evictLoop rounds c).weighs = c.weighs := by
  induction rounds generalizing c with
  | zero => exact ⟨rfl, rfl, rfl⟩
  | succ rounds ih =>
    rw [LockedCache.evictLoop]
    split_ifs
    · obtain ⟨hitems, hweight, hweighs⟩ := ih c.evictOldest
      rw [hitems, hweight, hweighs]
      unfold LockedCache.evictOldest
      split <;> exact ⟨rfl, rfl, rfl⟩
    · exact ⟨rfl, rfl, rfl⟩

theorem maxItems_store (c : LockedCache κ ν) (key : κ) (value : ν) (w : ℤ) :
    (c.store key value w).maxItems = c.maxItems ∧ (c.store key value w).maxWeight = c.maxWeight ∧
      (c.store key value w).weighs = c.weighs := by
  obtain ⟨hitems, hweight, hweighs⟩ := maxItems_evictLoop (c.insertNewest key value w).items.size
    (c.insertNewest key value w)
  refine ⟨hitems.trans (LockedCache.maxItems_insertNewest c key value w),
    hweight.trans (LockedCache.maxWeight_insertNewest c key value w), hweighs.trans ?_⟩
  simp only [LockedCache.insertNewest]
  split_ifs <;> rfl

theorem Lru.store (h : Lru maxItems maxWeight weighs c uses) (key : κ) (value : ν) (w : ℤ) :
    Lru maxItems maxWeight weighs (c.store key value w) (uses ++ [key]) := by
  obtain ⟨hitems, hweight, hweighs⟩ := maxItems_store c key value w
  obtain ⟨hweighed, hfits, -⟩ := h.weighed.store key value w
  refine ⟨hitems.trans h.maxItems, hweight.trans h.maxWeight, hweighs.trans h.weighs, hweighed, hfits,
    h.usedLast.store key value w, fun k hk hc => ?_⟩
  have hc' : c.Holds k := ⟨hitems ▸ hc.items, hweight ▸ hc.weight⟩
  exact (h.full k hk hc').store hc' hk key value w

theorem Lru.change (h : Lru maxItems maxWeight weighs c uses)
    (hchange : CacheState.Change c c' uses uses') : Lru maxItems maxWeight weighs c' uses' := by
  cases hchange with
  | keeps hcache huses =>
    rw [hcache, huses]
    exact h
  | hits key value hfound hcache huses =>
    rw [hcache, huses]
    exact h.touch hfound
  | stores key value weight hcache huses =>
    rw [hcache, huses]
    exact h.store key value weight
  | clears hcache huses =>
    rw [hcache, huses]
    exact h.clear

end Lru

/-! ## Weighted LRU -/

namespace CacheState

variable {τ κ ν : Type} [DecidableEq τ] [DecidableEq κ] (empty : ν → Bool)

variable {empty} {maxItems maxWeight : Option ℤ} {weighs : Bool}

end CacheState

end McritSimilarity
