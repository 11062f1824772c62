import Mathlib.Data.List.Nodup
import Mathlib.Data.List.Lookmap
import Mathlib.Data.List.Basic
import Mathlib.Data.List.Induction

/-!
# Insertion-ordered maps

A dictionary that remembers the order in which its keys were inserted, as a list of entries with
distinct keys.  `put` keeps the place of a key that is already there and appends a new one;
`moveToEnd` makes a key the most recent; `popFirst` drops the oldest entry.  Lookups are described
by `find?` (`find?_put`, `find?_erase`, …), orders by `keys` (`keys_put`, `keys_moveToEnd`, …).  `push`
collects values in lists, and `entries_group` says what a list grouped that way is.
-/

set_option autoImplicit false

universe u v

/-- Some elements of a list without repetitions, and the others. -/
theorem List.perm_append_filter_notMem {α : Type u} [BEq α] [LawfulBEq α] {xs ys : List α} (hxs : xs.Nodup)
    (hys : ys.Nodup) (hsub : ∀ y ∈ ys, y ∈ xs) : (ys ++ xs.filter (· ∉ ys)).Perm xs := by
  refine (List.perm_ext_iff_of_nodup ?_ hxs).2 fun x => ?_
  · exact hys.append (hxs.filter _) fun y hy hy' => of_decide_eq_true (List.mem_filter.1 hy').2 hy
  · rw [List.mem_append, List.mem_filter, decide_eq_true_eq]
    constructor
    · rintro (hx | hx)
      · exact hsub x hx
      · exact hx.1
    · intro hx
      by_cases hmem : x ∈ ys
      · exact .inl hmem
      · exact .inr ⟨hx, hmem⟩

/-- Entries in insertion order; no key occurs twice. -/
structure OrderedMap (κ : Type u) (ν : Type v) where
  entries : List (κ × ν)
  nodup : (entries.map Prod.fst).Nodup

namespace OrderedMap

variable {κ : Type u} {ν : Type v}

/-- The keys, oldest first. -/
def keys (m : OrderedMap κ ν) : List κ := m.entries.map Prod.fst

/-- The values in the order of their keys. -/
def values (m : OrderedMap κ ν) : List ν := m.entries.map Prod.snd

def size (m : OrderedMap κ ν) : ℕ := m.entries.length

@[ext] theorem ext {m n : OrderedMap κ ν} (h : m.entries = n.entries) : m = n := by
  cases m; cases n; congr

theorem nodup_keys (m : OrderedMap κ ν) : m.keys.Nodup := m.nodup

@[simp] theorem length_keys (m : OrderedMap κ ν) : m.keys.length = m.size := by
  simp [keys, size]

def empty : OrderedMap κ ν := ⟨[], List.nodup_nil⟩

@[simp] theorem keys_empty : (empty : OrderedMap κ ν).keys = [] := rfl

@[simp] theorem size_empty : (empty : OrderedMap κ ν).size = 0 := rfl

/-- The map without its oldest entry. -/
def popFirst (m : OrderedMap κ ν) : OrderedMap κ ν :=
  ⟨m.entries.tail, by rw [List.map_tail]; exact m.nodup.tail⟩

@[simp] theorem keys_popFirst (m : OrderedMap κ ν) : m.popFirst.keys = m.keys.tail := by
  simp [keys, popFirst]

@[simp] theorem size_popFirst (m : OrderedMap κ ν) : m.popFirst.size = m.size - 1 := by
  simp [size, popFirst]

variable [DecidableEq κ]

/-- The value stored under a key. -/
def find? (m : OrderedMap κ ν) (k : κ) : Option ν := m.entries.lookup k

/-- Whether a key is present. -/
def contains (m : OrderedMap κ ν) (k : κ) : Bool := decide (k ∈ m.keys)

/-- The map without the entry of a key. -/
def erase (m : OrderedMap κ ν) (k : κ) : OrderedMap κ ν :=
  ⟨m.entries.filter fun e => e.1 ≠ k, m.nodup.sublist (List.filter_sublist.map _)⟩

theorem keys_erase (m : OrderedMap κ ν) (k : κ) : (m.erase k).keys = m.keys.filter (· ≠ k) := by
  simp [keys, erase, List.filter_map, Function.comp_def]

@[simp] theorem mem_keys_erase {m : OrderedMap κ ν} {k j : κ} :
    j ∈ (m.erase k).keys ↔ j ∈ m.keys ∧ j ≠ k := by
  simp [keys_erase]

theorem erase_of_notMem {m : OrderedMap κ ν} {k : κ} (h : k ∉ m.keys) : m.erase k = m := by
  apply ext
  refine List.filter_eq_self.2 fun e he => ?_
  have hk : e.1 ∈ m.keys := List.mem_map_of_mem he
  have hne : e.1 ≠ k := fun hek => h (by rwa [← hek])
  simpa using hne

/-- Erasing the key of an entry takes out that entry alone. -/
theorem entries_erase {m : OrderedMap κ ν} {xs ys : List (κ × ν)} {e : κ × ν} (h : m.entries = xs ++ e :: ys) :
    (m.erase e.1).entries = xs ++ ys := by
  have hnodup := m.nodup
  rw [h, List.map_append, List.map_cons, List.nodup_middle, List.nodup_cons, List.mem_append] at hnodup
  have hne : ∀ zs : List (κ × ν), e.1 ∉ zs.map Prod.fst → zs.filter (fun e' => e'.1 ≠ e.1) = zs := by
    intro zs hzs
    refine List.filter_eq_self.2 fun e' he' => decide_eq_true fun heq => hzs ?_
    exact heq ▸ List.mem_map_of_mem he'
  show m.entries.filter _ = _
  rw [h, List.filter_append, List.filter_cons_of_neg (by simp), hne xs fun hmem => hnodup.1 (.inl hmem),
    hne ys fun hmem => hnodup.1 (.inr hmem)]

/-- The map with a new newest entry in place of any older one under the same key. -/
def append (m : OrderedMap κ ν) (k : κ) (v : ν) : OrderedMap κ ν :=
  ⟨(m.erase k).entries ++ [(k, v)], by
    rw [List.map_append, List.map_singleton]
    refine List.Nodup.append (m.erase k).nodup (List.nodup_singleton k) ?_
    rw [List.disjoint_singleton]
    exact fun h => (mem_keys_erase.1 h).2 rfl⟩

theorem keys_append (m : OrderedMap κ ν) (k : κ) (v : ν) :
    (m.append k v).keys = (m.erase k).keys ++ [k] := by
  simp [keys, append]

/-- Assignment: an old key keeps its place, a new one comes last. -/
def put (m : OrderedMap κ ν) (k : κ) (v : ν) : OrderedMap κ ν :=
  if k ∈ m.keys then
    ⟨m.entries.map fun e => if e.1 = k then (k, v) else e, by
      have : (m.entries.map fun e => if e.1 = k then (k, v) else e).map Prod.fst = m.keys := by
        rw [List.map_map]
        refine List.map_congr_left fun e _ => ?_
        by_cases he : e.1 = k <;> simp [he]
      rw [this]
      exact m.nodup⟩
  else m.append k v

theorem keys_put_of_mem {m : OrderedMap κ ν} {k : κ} (h : k ∈ m.keys) (v : ν) :
    (m.put k v).keys = m.keys := by
  unfold put
  rw [if_pos h]
  simp only [keys, List.map_map]
  refine List.map_congr_left fun e _ => ?_
  by_cases he : e.1 = k <;> simp [he]

theorem keys_put_of_notMem {m : OrderedMap κ ν} {k : κ} (h : k ∉ m.keys) (v : ν) :
    (m.put k v).keys = m.keys ++ [k] := by
  rw [put, if_neg h, keys_append, erase_of_notMem h]

/-- Makes the entry of a key the newest one. -/
def moveToEnd (m : OrderedMap κ ν) (k : κ) : OrderedMap κ ν :=
  match m.find? k with
  | some v => m.append k v
  | none => m

/-! ## Lookups -/

@[simp] theorem find?_empty (k : κ) : (empty : OrderedMap κ ν).find? k = none := rfl

theorem find?_eq_some_iff {m : OrderedMap κ ν} {k : κ} {v : ν} :
    m.find? k = some v ↔ (k, v) ∈ m.entries := by
  obtain ⟨entries, nodup⟩ := m
  simp only [find?]
  induction entries with
  | nil => simp
  | cons e es ih =>
    obtain ⟨j, w⟩ := e
    simp only [List.map_cons, List.nodup_cons] at nodup
    by_cases h : k = j
    · subst h
      have : ∀ w', (k, w') ∉ es := fun w' hw => nodup.1 (List.mem_map_of_mem hw)
      simp [this, eq_comm]
    · have hb : (k == j) = false := by simpa using h
      simp [List.lookup_cons, h, hb, ih nodup.2]

theorem mem_keys_iff {m : OrderedMap κ ν} {k : κ} : k ∈ m.keys ↔ ∃ v, m.find? k = some v := by
  simp [keys, find?_eq_some_iff]

theorem find?_eq_none_iff {m : OrderedMap κ ν} {k : κ} : m.find? k = none ↔ k ∉ m.keys := by
  rw [mem_keys_iff, Option.eq_none_iff_forall_ne_some, not_exists]

theorem find?_erase (m : OrderedMap κ ν) (k j : κ) :
    (m.erase k).find? j = if j = k then none else m.find? j := by
  ext v
  rw [find?_eq_some_iff]
  by_cases h : j = k
  · simp [erase, h]
  · simp [erase, h, find?_eq_some_iff]

/-- The map without the entries of some keys. -/
def eraseAll (m : OrderedMap κ ν) (ks : List κ) : OrderedMap κ ν := ks.foldl erase m

theorem eraseAll_append (m : OrderedMap κ ν) (ks ks' : List κ) :
    m.eraseAll (ks ++ ks') = (m.eraseAll ks).eraseAll ks' := List.foldl_append

theorem keys_eraseAll (m : OrderedMap κ ν) (ks : List κ) : (m.eraseAll ks).keys = m.keys.filter (· ∉ ks) := by
  unfold eraseAll
  induction ks generalizing m with
  | nil => simp
  | cons k ks ih =>
    rw [List.foldl_cons, ih, keys_erase, List.filter_filter]
    exact List.filter_congr fun j _ => by simp [Bool.and_comm]

theorem find?_eraseAll (m : OrderedMap κ ν) (ks : List κ) (j : κ) :
    (m.eraseAll ks).find? j = if j ∈ ks then none else m.find? j := by
  unfold eraseAll
  induction ks generalizing m with
  | nil => simp
  | cons k ks ih =>
    rw [List.foldl_cons, ih, find?_erase]
    by_cases hk : j = k <;> simp [hk]

theorem find?_append (m : OrderedMap κ ν) (k j : κ) (v : ν) :
    (m.append k v).find? j = if j = k then some v else m.find? j := by
  ext w
  rw [find?_eq_some_iff]
  have h : (j, w) ∈ (m.append k v).entries ↔
      (m.erase k).find? j = some w ∨ j = k ∧ w = v := by
    simp [append, find?_eq_some_iff]
  rw [h, find?_erase]
  by_cases hj : j = k <;> simp [hj, eq_comm]

theorem find?_put (m : OrderedMap κ ν) (k j : κ) (v : ν) :
    (m.put k v).find? j = if j = k then some v else m.find? j := by
  by_cases hk : k ∈ m.keys
  · ext w
    rw [find?_eq_some_iff]
    simp only [put, if_pos hk, List.mem_map, Prod.exists]
    constructor
    · rintro ⟨a, b, hab, he⟩
      by_cases ha : a = k
      · simp only [if_pos ha, Prod.mk.injEq] at he
        simp [he.1.symm, he.2]
      · simp only [if_neg ha, Prod.mk.injEq] at he
        obtain ⟨rfl, rfl⟩ := he
        simpa [ha] using find?_eq_some_iff.2 hab
    · intro h
      by_cases hj : j = k
      · obtain ⟨u, hu⟩ := mem_keys_iff.1 hk
        simp only [if_pos hj, Option.some.injEq] at h
        exact ⟨k, u, find?_eq_some_iff.1 hu, by simp [hj, h]⟩
      · rw [if_neg hj] at h
        exact ⟨j, w, find?_eq_some_iff.1 h, by simp [hj]⟩
  · rw [put, if_neg hk, find?_append]

/-- `m.update(new)`, one entry after the other. -/
def update (m : OrderedMap κ ν) (new : List (κ × ν)) : OrderedMap κ ν :=
  new.foldl (fun m e => m.put e.1 e.2) m

theorem find?_update_of_notMem {m : OrderedMap κ ν} {new : List (κ × ν)} {k : κ} (h : ∀ e ∈ new, e.1 ≠ k) :
    (m.update new).find? k = m.find? k := by
  unfold update
  induction new generalizing m with
  | nil => rfl
  | cons e new ih =>
    rw [List.forall_mem_cons] at h
    rw [List.foldl_cons, ih h.2, find?_put, if_neg (Ne.symm h.1)]

/-- What every new entry of a key says is what the map says afterwards. -/
theorem find?_update_of_mem {m : OrderedMap κ ν} {new : List (κ × ν)} {k : κ} {v : ν} (hmem : ∃ e ∈ new, e.1 = k)
    (hall : ∀ e ∈ new, e.1 = k → e.2 = v) : (m.update new).find? k = some v := by
  unfold update
  induction new generalizing m with
  | nil =>
    obtain ⟨e, he, -⟩ := hmem
    cases he
  | cons e new ih =>
    rw [List.forall_mem_cons] at hall
    rw [List.foldl_cons]
    by_cases hrest : ∃ e ∈ new, e.1 = k
    · exact ih hrest hall.2
    · have hlast : (update (m.put e.1 e.2) new).find? k = (m.put e.1 e.2).find? k :=
        find?_update_of_notMem fun e he hk => hrest ⟨e, he, hk⟩
      have hkey : e.1 = k := by
        obtain ⟨e', he', hk⟩ := hmem
        rcases List.mem_cons.1 he' with rfl | he'
        · exact hk
        · exact absurd ⟨e', he', hk⟩ hrest
      rw [show new.foldl _ _ = update (m.put e.1 e.2) new from rfl, hlast, find?_put, if_pos hkey.symm, hall.1 hkey]

theorem find?_update_cases {m : OrderedMap κ ν} {new : List (κ × ν)} {k : κ} {v : ν}
    (h : (m.update new).find? k = some v) : m.find? k = some v ∨ (k, v) ∈ new := by
  induction new generalizing m with
  | nil => exact Or.inl h
  | cons e new ih =>
    rcases ih (m := m.put e.1 e.2) h with hput | hnew
    · rw [find?_put] at hput
      split_ifs at hput with hk
      · exact Or.inr (List.mem_cons.2 (Or.inl (Prod.ext hk (Option.some.inj hput).symm)))
      · exact Or.inl hput
    · exact Or.inr (List.mem_cons_of_mem _ hnew)

theorem find?_moveToEnd (m : OrderedMap κ ν) (k j : κ) : (m.moveToEnd k).find? j = m.find? j := by
  unfold moveToEnd
  split
  · next v hv =>
    rw [find?_append]
    by_cases hj : j = k <;> simp [hj, hv]
  · rfl

/-! ## Orders -/

@[simp] theorem mem_keys_moveToEnd {m : OrderedMap κ ν} {k j : κ} :
    j ∈ (m.moveToEnd k).keys ↔ j ∈ m.keys := by
  simp [mem_keys_iff, find?_moveToEnd]

theorem perm_keys_moveToEnd (m : OrderedMap κ ν) (k : κ) : (m.moveToEnd k).keys.Perm m.keys :=
  (List.perm_ext_iff_of_nodup (nodup_keys _) (nodup_keys _)).2 fun _ => mem_keys_moveToEnd

/-- Assigning a key and then moving it to the end is appending it. -/
theorem moveToEnd_put (m : OrderedMap κ ν) (k : κ) (v : ν) :
    (m.put k v).moveToEnd k = m.append k v := by
  have hf : (m.put k v).find? k = some v := by simp [find?_put]
  simp only [moveToEnd, hf]
  apply ext
  simp only [append, erase]
  congr 1
  by_cases hk : k ∈ m.keys
  · simp only [put, if_pos hk, List.filter_map]
    calc (m.entries.filter ((fun e => decide (e.1 ≠ k)) ∘
            fun e => if e.1 = k then (k, v) else e)).map (fun e => if e.1 = k then (k, v) else e)
        = (m.entries.filter fun e => e.1 ≠ k).map (fun e => if e.1 = k then (k, v) else e) := by
          congr 1
          refine List.filter_congr fun e _ => ?_
          by_cases he : e.1 = k <;> simp [he]
      _ = m.entries.filter fun e => e.1 ≠ k := by
          refine (List.map_congr_left fun e he => ?_).trans (List.map_id _)
          have hne : e.1 ≠ k := by simpa using (List.mem_filter.1 he).2
          simp [hne]
  · simp [put, if_neg hk, append, erase, List.filter_append, List.filter_filter]

/-- The entries are the keys with what is found under them. -/
theorem entries_eq_map_keys (m : OrderedMap κ ν) (f : κ → ν)
    (h : ∀ k ∈ m.keys, m.find? k = some (f k)) : m.entries = m.keys.map fun k => (k, f k) := by
  rw [keys, List.map_map]
  refine (List.map_id _).symm.trans (List.map_congr_left fun e he => ?_)
  have hfound : m.find? e.1 = some e.2 := find?_eq_some_iff.2 he
  have hf : m.find? e.1 = some (f e.1) := h e.1 (List.mem_map_of_mem he)
  rw [hfound, Option.some.injEq] at hf
  exact Prod.ext rfl hf

end OrderedMap

/-! ## Grouping -/

namespace OrderedMap

variable {κ : Type u} {ν : Type v} [DecidableEq κ]

/-- `m.setdefault(k, []).append(v)`. -/
def push (m : OrderedMap κ (List ν)) (k : κ) (v : ν) : OrderedMap κ (List ν) :=
  m.put k ((m.find? k).getD [] ++ [v])

/-- The values collected under a key. -/
def collected (m : OrderedMap κ (List ν)) (k : κ) : List ν := (m.find? k).getD []

theorem collected_put (m : OrderedMap κ (List ν)) (k j : κ) (vs : List ν) :
    (m.put k vs).collected j = if j = k then vs else m.collected j := by
  unfold collected
  rw [find?_put]
  split_ifs <;> rfl

theorem collected_push (m : OrderedMap κ (List ν)) (k j : κ) (v : ν) :
    (m.push k v).collected j = m.collected j ++ if k = j then [v] else [] := by
  rw [push, collected_put]
  by_cases h : j = k
  · rw [if_pos h, if_pos h.symm, h]
    rfl
  · rw [if_neg h, if_neg (Ne.symm h), List.append_nil]

/-- Values grouped by a key keep their order. -/
theorem collected_foldl_push (key : ν → κ) (vs : List ν) (m : OrderedMap κ (List ν)) (k : κ) :
    (vs.foldl (fun m v => m.push (key v) v) m).collected k =
      m.collected k ++ vs.filter fun v => key v = k := by
  induction vs generalizing m with
  | nil => simp
  | cons v vs ih =>
    rw [List.foldl_cons, ih, collected_push, List.append_assoc, List.filter_cons]
    by_cases h : key v = k <;> simp [h]

theorem keys_push (m : OrderedMap κ (List ν)) (k : κ) (v : ν) :
    (m.push k v).keys = if k ∈ m.keys then m.keys else m.keys ++ [k] := by
  unfold push
  split_ifs with h
  · exact keys_put_of_mem h _
  · exact keys_put_of_notMem h _

/-- The keys of grouped values come in the order of their first values. -/
theorem keys_group (key : ν → κ) (vs : List ν) :
    (vs.foldl (fun m v => m.push (key v) v) empty).keys = (vs.map key).eraseDups := by
  induction vs using List.reverseRecOn with
  | nil => rfl
  | append_singleton vs v ih =>
    rw [List.foldl_concat, keys_push, ih, List.map_append, List.eraseDups_append]
    have hmem : key v ∈ (vs.map key).eraseDups ↔ key v ∈ vs.map key := List.mem_eraseDups
    by_cases h : key v ∈ vs.map key
    · rw [if_pos (hmem.2 h)]
      have hnone : ([key v] : List κ).removeAll (vs.map key) = [] := by simpa [List.removeAll] using h
      rw [List.map_singleton, hnone, List.eraseDups_nil, List.append_nil]
    · rw [if_neg (fun hk => h (hmem.1 hk))]
      have hself : ([key v] : List κ).removeAll (vs.map key) = [key v] := by
        simpa [List.removeAll] using h
      rw [List.map_singleton, hself]
      rfl

theorem nodup_eraseDups_map (key : ν → κ) (vs : List ν) : (vs.map key).eraseDups.Nodup := by
  rw [← keys_group]
  exact nodup_keys _

/-- Of lists that are put together key by key, the values with one key are those of its list. -/
theorem filter_flatMap_key {key : ν → κ} {ks : List κ} (hks : ks.Nodup) {f : κ → List ν}
    (hf : ∀ k, ∀ v ∈ f k, key v = k) (k : κ) :
    ((ks.flatMap f).filter fun v => key v = k) = if k ∈ ks then f k else [] := by
  have hother : ∀ j, j ≠ k → ((f j).filter fun v => key v = k) = [] := by
    refine fun j hj => List.filter_eq_nil_iff.2 fun v hv hk => hj ?_
    rw [← hf j v hv]
    exact of_decide_eq_true hk
  induction ks with
  | nil => rfl
  | cons j ks ih =>
    obtain ⟨hj, hks⟩ := List.nodup_cons.1 hks
    rw [List.flatMap_cons, List.filter_append, ih hks]
    by_cases hjk : j = k
    · subst hjk
      have hself : ((f j).filter fun v => key v = j) = f j :=
        List.filter_eq_self.2 fun v hv => decide_eq_true (hf j v hv)
      rw [if_neg hj, if_pos List.mem_cons_self, hself, List.append_nil]
    · rw [hother j hjk, List.nil_append]
      simp [Ne.symm hjk]

/-- Grouped values: each key, in the order of first values, with its values in order. -/
theorem entries_group (key : ν → κ) (vs : List ν) :
    (vs.foldl (fun m v => m.push (key v) v) empty).entries =
      (vs.map key).eraseDups.map fun k => (k, vs.filter fun v => key v = k) := by
  rw [← keys_group]
  refine entries_eq_map_keys _ _ fun k hk => ?_
  obtain ⟨found, hfound⟩ := mem_keys_iff.1 hk
  have hcollected := collected_foldl_push key vs empty k
  rw [collected, hfound] at hcollected
  simpa [hfound, collected] using hcollected

end OrderedMap
