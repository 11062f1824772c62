import McritSimilarity.Cache.WeightedLru
import McritSimilarity.MalformedAnswers
import McritSimilarity.NewSession
import McritSimilarity.OffsetLookup

/-!
# Looking up targets among other visits

`_target_functions` with `get_functions_by_ids` behind it, while other visits use `FUNCTION_OFFSETS`:
before each of its operations they may look entries up and store entries.  `LosesNoFunction` says that
the lookup finds every function that is cached when it begins or that the server answers.  The cache
holds `functionOffsetItems` entries and the answers are read back from it, so an entry that is evicted
in between is lost: `not_losesNoFunction`.  `losesNoFunction` is the property for the stores that
evict no entry which is still to be read.
-/

set_option autoImplicit false

namespace McritSimilarity

open Python Prog

/-! ## Batches -/

theorem flatten_slices {α : Type} (xs : List α) (size count : ℕ) :
    ((List.range count).map fun i => (xs.drop (i * size)).take size).flatten = xs.take (count * size) := by
  induction count with
  | zero => simp
  | succ count ih =>
    rw [List.range_succ, List.map_append, List.flatten_append, ih, List.map_singleton,
      List.flatten_singleton, Nat.succ_mul, List.take_add]

/-- Every id is in one batch, in its order. -/
theorem flatten_functionBatches (ids : List ℤ) : (functionBatches ids).flatten = ids := by
  have hcount : ids.length ≤ (ids.length + functionBatch - 1) / functionBatch * functionBatch := by
    simp only [functionBatch]
    omega
  rw [functionBatches, flatten_slices, List.take_of_length_le hcount]

theorem length_le_of_mem_functionBatches {ids batch : List ℤ} (h : batch ∈ functionBatches ids) :
    batch.length ≤ functionBatch := by
  obtain ⟨i, -, rfl⟩ := List.mem_map.1 h
  exact List.length_take_le _ _

/-! ## Answers -/

theorem find?_foldl_put_eq (entries : List (ℤ × Json)) (mapped : OrderedMap ℤ Json) (fid : ℤ) :
    (entries.foldl (fun mapped e => mapped.put e.1 e.2) mapped).find? fid =
      ((entries.filter (·.1 = fid)).getLast?.map Prod.snd).or (mapped.find? fid) := by
  induction entries using List.reverseRecOn with
  | nil => simp
  | append_singleton entries e ih =>
    rw [List.foldl_append, List.foldl_cons, List.foldl_nil, OrderedMap.find?_put, List.filter_append]
    by_cases hfid : fid = e.1
    · simp [hfid]
    · rw [if_neg hfid, ih]
      simp [Ne.symm hfid]

theorem find?_collectTargets (find? : ℤ → Option (ℤ × String)) (fids : List ℤ) (known : Targets) (fid : ℤ) :
    (collectTargets find? fids known).find? fid =
      if fid ∈ fids then (find? fid).or (known.find? fid) else known.find? fid := by
  induction fids generalizing known with
  | nil => rfl
  | cons fid' fids ih =>
    rw [collectTargets, List.foldl_cons]
    refine (ih _).trans ?_
    by_cases hfid : fid = fid'
    · subst hfid
      cases find? fid with
      | none => simp
      | some found => simp [OrderedMap.find?_put]
    · cases find? fid' with
      | none => simp [hfid]
      | some found => simp [OrderedMap.find?_put, hfid]

/-! ## Lookups -/

/-- A lookup: its arguments, `FUNCTION_OFFSETS` when it begins and what the server answers. -/
structure Lookup where
  client : McritClient
  server : String
  ids : List ℤ
  nodup : ids.Nodup
  cache : OffsetCache
  capacity : cache.Holds functionOffsetItems
  room : cache.items.size ≤ functionOffsetItems
  /-- `_request`: the data of an answer, or what it raises. -/
  post : Request → Except PyError Json

/-- The cache, the requests that the lookup has sent and the number of its lookups in the cache. -/
structure LookupState where
  cache : OffsetCache
  sent : List Request
  reads : ℕ

/-- A store in the cache, by the lookup itself or by another visit. -/
structure OffsetStore where
  own : Bool
  key : String × ℤ
  found : ℤ × String

/-- Which stores may happen in which states of a lookup. -/
abbrev Admits := Lookup → LookupState → OffsetStore → Prop

/-- The request for a batch. -/
def functionsRequest (batch : List ℤ) : Request := ⟨"POST", "functions", true, .data (idsText batch)⟩

namespace LookupState

def store (s : LookupState) (w : OffsetStore) : LookupState :=
  { s with cache := s.cache.store w.key w.found 0 }

/-- Another visit looks an entry up. -/
def touch (s : LookupState) (key : String × ℤ) : LookupState := { s with cache := (s.cache.get key).2 }

/-- The lookup looks an entry up. -/
def read (s : LookupState) (key : String × ℤ) : LookupState := { s.touch key with reads := s.reads + 1 }

end LookupState

namespace Lookup

def start (L : Lookup) : LookupState := ⟨L.cache, [], 0⟩

/-- `_request` when a method of the client calls it. -/
def requestHandler (L : Lookup) : Handler RequestI (List Request) :=
  fun (r : Request) sent => (L.post r, sent ++ [r])

/-- The operations of the lookup. -/
inductive Sem (L : Lookup) (admits : Admits) :
    LookupState → (o : VisitOp) → o.Ans → LookupState → Prop where
  | get (s : LookupState) (key : String × ℤ) :
      Sem L admits s (.getOffset key) (s.cache.find? key) (s.read key)
  | set {s : LookupState} {key : String × ℤ} {found : ℤ × String} (h : admits L s ⟨true, key, found⟩) :
      Sem L admits s (.setOffset key found) () (s.store ⟨true, key, found⟩)
  | functions {s : LookupState} {ids : List ℤ} {result : Except PyError (OrderedMap ℤ Json)}
      {sent : List Request}
      (h : (McritClient.getFunctionsByIds ids).asExcept.run (ε := Empty) L.requestHandler s.sent =
        (.returned result, sent)) :
      Sem L admits s (.server L.client (.getFunctionsByIds ids)) result { s with sent := sent }

theorem Sem.get_of {L : Lookup} {admits : Admits} {s : LookupState} {key : String × ℤ}
    {found : Option (ℤ × String)} (h : s.cache.find? key = found) :
    L.Sem admits s (.getOffset key) found (s.read key) := h ▸ .get s key

/-- What other visits do with the cache. -/
inductive Other (L : Lookup) (admits : Admits) : LookupState → LookupState → Prop where
  | get (s : LookupState) (key : String × ℤ) : Other L admits s (s.touch key)
  | set {s : LookupState} {key : String × ℤ} {found : ℤ × String} (h : admits L s ⟨false, key, found⟩) :
      Other L admits s (s.store ⟨false, key, found⟩)

/-- The runs of a lookup among other visits. -/
def Run (L : Lookup) (rt : Runtime) (admits : Admits) (out : Outcome PyError Targets) (s : LookupState) : Prop :=
  RunsTo (I := VisitI) (Amid (L.Other admits) (L.Sem admits)) (lookupTargets rt L.client L.server L.ids)
    L.start out s

/-- What was cached when the lookup began. -/
def cached (L : Lookup) (fid : ℤ) : Option (ℤ × String) := L.cache.find? (L.server, fid)

def missing (L : Lookup) : List ℤ := L.ids.filter fun fid => (L.cached fid).isNone

/-- The answer to a batch, as far as there is one. -/
def answer (L : Lookup) (batch : List ℤ) : Option Json :=
  match L.post (functionsRequest batch) with
  | .ok data => some data
  | .error _ => none

/-- The entry of a function in the answers to some batches; a later one replaces an earlier one. -/
def answered (L : Lookup) (batches : List (List ℤ)) (fid : ℤ) : Option Json :=
  (((batches.filterMap L.answer).flatMap functionEntries).filter (·.1 = fid)).getLast?.map Prod.snd

/-- What is known of a function: what the server answers, or what is cached. -/
def target (L : Lookup) (rt : Runtime) (batches : List (List ℤ)) (fid : ℤ) : Option (ℤ × String) :=
  ((L.answered batches fid).bind (targetFunction rt)).or (L.cached fid)

/-- Each missing id is asked for once, in order; what is known of the requested functions is found, and
nothing else; an error is one of a request. -/
structure FindsTargets (L : Lookup) (rt : Runtime) (batches : List (List ℤ)) (out : Outcome PyError Targets)
    (s : LookupState) : Prop where
  sent : s.sent = batches.map functionsRequest
  sizes : ∀ batch ∈ batches, batch.length ≤ functionBatch
  order : batches.flatten <+: L.missing
  returned : ∀ known, out = .returned known → batches.flatten = L.missing ∧
    ∀ fid, known.find? fid = if fid ∈ L.ids then L.target rt batches fid else none
  raised : ∀ e, out = .raised e → ∃ batch ∈ batches, L.post (functionsRequest batch) = .error e

/-- The requested functions that are still to be read once the missing ones are stored. -/
def unread (L : Lookup) (s : LookupState) : List ℤ := L.ids.drop (s.reads - L.ids.length)

/-- A store evicts no entry that is still to be read.  Where another visit stores one of them, the lookup
knows already whether it is cached, and the other visit stores what the server answers. -/
def KeepsUnread (rt : Runtime) (L : Lookup) (s : LookupState) (w : OffsetStore) : Prop :=
  ∀ fid ∈ L.unread s,
    (w.key ≠ (L.server, fid) → (s.cache.find? (L.server, fid)).isSome = true →
      ((s.store w).cache.find? (L.server, fid)).isSome = true) ∧
    (w.own = false → w.key = (L.server, fid) →
      L.target rt (functionBatches L.missing) fid = some w.found ∧
        ((L.cached fid).isSome = true ∨ fid ∈ L.ids.take s.reads))

end Lookup

/-- No function id is lost between the server and the visit. -/
def LosesNoFunction (rt : Runtime) (admits : Admits) : Prop :=
  ∀ (L : Lookup) out s, L.Run rt admits out s → ∃ batches, L.FindsTargets rt batches out s

/-! ## The answers of the server -/

namespace Lookup

variable {rt : Runtime} {L : Lookup}

/-- The batches are sent in their order, up to the first that is not answered. -/
theorem run_fetchFunctions {batches : List (List ℤ)} {mapped : OrderedMap ℤ Json} {sent sent' : List Request}
    {result : Except PyError (OrderedMap ℤ Json)}
    (h : (fetchFunctions batches mapped).asExcept.run (ε := Empty) L.requestHandler sent =
      (.returned result, sent')) :
    ∃ before, before <+: batches ∧ sent' = sent ++ before.map functionsRequest ∧
      (∀ entries, result = .ok entries →
        before = batches ∧ entries = (batches.filterMap L.answer).foldl addFunctions mapped) ∧
      ∀ e, result = .error e → ∃ batch ∈ before, L.post (functionsRequest batch) = .error e := by
  induction batches generalizing mapped sent with
  | nil =>
    cases h
    refine ⟨[], List.prefix_rfl, by simp, fun entries heq => ?_, fun e heq => nomatch heq⟩
    cases heq
    exact ⟨rfl, rfl⟩
  | cons batch batches ih =>
    replace h : (Prog.ofExcept (L.post (functionsRequest batch)) >>= fun data =>
        fetchFunctions batches (addFunctions mapped data)).asExcept.run (ε := Empty) L.requestHandler
          (sent ++ [functionsRequest batch]) = (.returned result, sent') := h
    cases hpost : L.post (functionsRequest batch) with
    | error e =>
      rw [hpost] at h
      cases h
      refine ⟨[batch], ⟨batches, rfl⟩, rfl, (fun entries heq => nomatch heq), fun e' heq => ?_⟩
      cases heq
      exact ⟨batch, List.mem_singleton_self _, hpost⟩
    | ok data =>
      rw [hpost] at h
      obtain ⟨before, hbefore, hsent, hok, herror⟩ := ih h
      have hanswer : L.answer batch = some data := by rw [answer, hpost]
      refine ⟨batch :: before, List.cons_prefix_cons.2 ⟨rfl, hbefore⟩, by simp [hsent],
        fun entries heq => ?_, fun e heq => ?_⟩
      · obtain ⟨rfl, rfl⟩ := hok entries heq
        rw [List.filterMap_cons_some hanswer]
        exact ⟨rfl, rfl⟩
      · obtain ⟨batch', hmem, he⟩ := herror e heq
        exact ⟨batch', List.mem_cons_of_mem _ hmem, he⟩

/-- The entries of the answers to some batches. -/
theorem find?_answers (batches : List (List ℤ)) (fid : ℤ) :
    ((batches.filterMap L.answer).foldl addFunctions .empty).find? fid = L.answered batches fid := by
  rw [foldl_addFunctions, find?_foldl_put_eq, OrderedMap.find?_empty, Option.or_none]
  rfl

/-- What is known of a function that is stored is what the server answered. -/
theorem mem_targets_answers {batches : List (List ℤ)} {fid : ℤ} {found : ℤ × String} :
    (fid, found) ∈ targetFunctions rt ((batches.filterMap L.answer).foldl addFunctions .empty) ↔
      (L.answered batches fid).bind (targetFunction rt) = some found := by
  rw [mem_targetFunctions, find?_answers, Option.bind_eq_some_iff]

/-! ## The entries that are still to be read -/

/-- `P` holds of what is cached for the functions that are still to be read. -/
def Unread (L : Lookup) (P : ℤ → Option (ℤ × String) → Prop) (s : LookupState) : Prop :=
  ∀ fid ∈ L.unread s, P fid (s.cache.find? (L.server, fid))

/-- Whether a function is cached has been looked up, or is known from the start. -/
def Known (L : Lookup) (reads : ℕ) (fid : ℤ) : Prop := (L.cached fid).isSome = true ∨ fid ∈ L.ids.take reads

variable {P : ℤ → Option (ℤ × String) → Prop} {s s' t : LookupState}

/-- A store that keeps what is still to be read. -/
theorem unread_store {w : OffsetStore} (hw : L.KeepsUnread rt s w)
    (hother : ∀ fid ∈ L.unread s, w.key ≠ (L.server, fid) → P fid (s.cache.find? (L.server, fid)))
    (hkey : ∀ fid ∈ L.unread s, w.key = (L.server, fid) → P fid (some w.found)) :
    L.Unread P (s.store w) := by
  intro fid hfid
  by_cases heq : w.key = (L.server, fid)
  · have hstored : (s.store w).cache.find? (L.server, fid) = some w.found := by
      rw [← heq]
      exact LockedCache.find?_store_self _ _ _ _
    rw [hstored]
    exact hkey fid hfid heq
  · have hkept : (s.store w).cache.find? (L.server, fid) = s.cache.find? (L.server, fid) := by
      cases hafter : (s.store w).cache.find? (L.server, fid) with
      | some found => exact (LockedCache.find?_store_of_ne (Ne.symm heq) hafter).symm
      | none =>
        cases hbefore : s.cache.find? (L.server, fid) with
        | none => rfl
        | some found =>
          have hsome := (hw fid hfid).1 heq (by rw [hbefore]; rfl)
          rw [hafter] at hsome
          cases hsome
    rw [hkept]
    exact hother fid hfid heq

theorem Unread.touch (hs : L.Unread P s) (key : String × ℤ) : L.Unread P (s.touch key) := by
  intro fid hfid
  rw [LookupState.touch, LockedCache.find?_get]
  exact hs fid hfid

/-- What other visits leave as it is, if it is true of what the server answers. -/
theorem other_steps (h : Relation.ReflTransGen (L.Other (KeepsUnread rt)) s t) :
    t.reads = s.reads ∧ t.sent = s.sent ∧
      ∀ P : ℤ → Option (ℤ × String) → Prop, (∀ fid found, L.Known s.reads fid →
        L.target rt (functionBatches L.missing) fid = some found → P fid (some found)) →
          L.Unread P s → L.Unread P t := by
  induction h with
  | refl => exact ⟨rfl, rfl, fun P _ hs => hs⟩
  | tail _ hstep ih =>
    obtain ⟨hreads, hsent, hunread⟩ := ih
    cases hstep with
    | get key => exact ⟨hreads, hsent, fun P hP hs => (hunread P hP hs).touch key⟩
    | set hw =>
      refine ⟨hreads, hsent, fun P hP hs => unread_store hw (fun fid hfid _ => hunread P hP hs fid hfid)
        fun fid hfid heq => ?_⟩
      obtain ⟨htarget, hknown⟩ := (hw fid hfid).2 rfl heq
      rw [hreads] at hknown
      exact hP fid _ hknown htarget

/-! ## The parts of a lookup -/

/-- The operations of the lookup among other visits. -/
abbrev Steps (L : Lookup) (rt : Runtime) : LookupState → (o : VisitI.Op) → VisitI.Ans o → LookupState → Prop :=
  Amid (I := VisitI) (L.Other (KeepsUnread rt)) (L.Sem (KeepsUnread rt))

/-- What is cached is what was cached in the beginning or what the server answers. -/
def AsBefore (L : Lookup) (rt : Runtime) (reads : ℕ) (fid : ℤ) (found : Option (ℤ × String)) : Prop :=
  found = L.cached fid ∨
    L.Known reads fid ∧ found.isSome = true ∧ found = L.target rt (functionBatches L.missing) fid

theorem mem_unread (L : Lookup) {s : LookupState} (hs : s.reads ≤ L.ids.length) {fid : ℤ} (hfid : fid ∈ L.ids) :
    fid ∈ L.unread s := by
  rw [unread, Nat.sub_eq_zero_of_le hs]
  exact hfid

theorem Unread.mono {P' : ℤ → Option (ℤ × String) → Prop} (hs : L.Unread P s)
    (h : ∀ fid found, P fid found → P' fid found) : L.Unread P' s :=
  fun fid hfid => h fid _ (hs fid hfid)

/-- A lookup leaves less to be read. -/
theorem Unread.read (hs : L.Unread P s) (key : String × ℤ) : L.Unread P (s.read key) := by
  intro fid hfid
  refine hs.touch key fid (List.drop_subset_drop_left _ ?_ hfid)
  show s.reads - L.ids.length ≤ s.reads + 1 - L.ids.length
  omega

theorem AsBefore.mono {reads reads' : ℕ} {fid : ℤ} {found : Option (ℤ × String)}
    (h : L.AsBefore rt reads fid found) (hreads : reads ≤ reads') : L.AsBefore rt reads' fid found :=
  h.imp_right fun ⟨hknown, hfound⟩ =>
    ⟨hknown.imp_right fun htaken => List.take_subset_take_left _ hreads htaken, hfound⟩

theorem runsTo_missingOffsets {fids : List ℤ} {out : Outcome PyError (List ℤ)}
    (h : RunsTo (I := VisitI) (L.Steps rt) (missingOffsets L.server fids) s out s')
    (hfids : fids = L.ids.drop s.reads) (hreads : s.reads ≤ L.ids.length) (hs : L.Unread (L.AsBefore rt s.reads) s) :
    out = .returned (fids.filter fun fid => (L.cached fid).isNone) ∧ s'.reads = L.ids.length ∧
      s'.sent = s.sent ∧ L.Unread (L.AsBefore rt L.ids.length) s' := by
  induction fids generalizing s s' out with
  | nil =>
    have hend : s.reads = L.ids.length := by
      have := List.drop_eq_nil_iff.1 hfids.symm
      omega
    cases h
    rw [hend] at hs
    exact ⟨rfl, hend, rfl, hs⟩
  | cons fid fids ih =>
    obtain ⟨hfid, hrest⟩ : fid ∈ L.ids.drop s.reads ∧ fids = L.ids.drop (s.reads + 1) := by
      rw [← List.tail_drop, ← hfids]
      exact ⟨List.mem_cons_self .., rfl⟩
    have hroom : s.reads + 1 ≤ L.ids.length := by
      have := List.length_pos_of_mem hfid
      rw [List.length_drop] at this
      omega
    obtain ⟨a, t, ⟨u, hother, hget⟩, h⟩ := RunsTo.call_cases h
    cases hget
    obtain ⟨hreads', hsent, hunread⟩ := other_steps hother
    have hu : L.Unread (L.AsBefore rt s.reads) u :=
      hunread _ (fun fid found hknown htarget => Or.inr ⟨hknown, rfl, htarget.symm⟩) hs
    have hfound : (u.cache.find? (L.server, fid)).isNone = (L.cached fid).isNone := by
      rcases hu fid (L.mem_unread (by omega) (List.mem_of_mem_drop hfid)) with heq | ⟨hknown, hsome, -⟩
      · rw [heq]
      · have hcached := hknown.resolve_right fun htaken =>
          List.disjoint_take_drop L.nodup le_rfl htaken hfid
        rw [Option.isNone_eq_false_iff.2 hsome, Option.isNone_eq_false_iff.2 hcached]
    have hread : L.Unread (L.AsBefore rt (u.read (L.server, fid)).reads) (u.read (L.server, fid)) :=
      (hu.read _).mono fun fid found h => h.mono (by rw [← hreads']; exact Nat.le_succ _)
    have hdrop : fids = L.ids.drop (u.read (L.server, fid)).reads := by
      rw [hrest, ← hreads']
      rfl
    rw [← hreads'] at hroom
    replace h : RunsTo (I := VisitI) (L.Steps rt) (missingOffsets L.server fids >>= fun rest =>
        ret (if (u.cache.find? (L.server, fid)).isNone then fid :: rest else rest))
          (u.read (L.server, fid)) out s' := h
    rcases h.bind_cases with ⟨e, hraised, rfl⟩ | ⟨rest, s'', hreturned, h⟩
    · exact nomatch (ih hraised hdrop hroom hread).1
    · obtain ⟨hout, hend⟩ := ih hreturned hdrop hroom hread
      cases hout
      cases h
      rw [← hsent]
      refine ⟨?_, hend⟩
      rw [hfound, List.filter_cons]

/-- What is cached is what the server answers, or its function is still to be stored. -/
def Stored (L : Lookup) (rt : Runtime) (found : List (ℤ × ℤ × String)) (fid : ℤ)
    (cached : Option (ℤ × String)) : Prop :=
  (∃ e ∈ found, e.1 = fid) ∨ cached = L.target rt (functionBatches L.missing) fid

theorem runsTo_setOffsets {found : List (ℤ × ℤ × String)} {out : Outcome PyError Unit}
    (h : RunsTo (I := VisitI) (L.Steps rt) (setOffsets L.server found) s out s')
    (hfound : ∀ e ∈ found, L.target rt (functionBatches L.missing) e.1 = some e.2)
    (hs : L.Unread (L.Stored rt found) s) :
    out = .returned () ∧ s'.reads = s.reads ∧ s'.sent = s.sent ∧ L.Unread (L.Stored rt []) s' := by
  induction found generalizing s with
  | nil =>
    cases h
    exact ⟨rfl, rfl, rfl, hs⟩
  | cons e found ih =>
    obtain ⟨a, t, ⟨u, hother, hset⟩, h⟩ := RunsTo.call_cases h
    obtain ⟨hreads, hsent, hunread⟩ := other_steps hother
    have hu : L.Unread (L.Stored rt (e :: found)) u :=
      hunread _ (fun fid value _ htarget => Or.inr htarget.symm) hs
    cases hset with
    | set hw =>
      have hstored : L.Unread (L.Stored rt found) (u.store ⟨true, (L.server, e.1), e.2⟩) := by
        refine unread_store hw (fun fid hfid hne => ?_) fun fid hfid heq => ?_
        · rcases hu fid hfid with ⟨e', he', rfl⟩ | heq
          · rcases List.mem_cons.1 he' with rfl | hrest
            · exact absurd rfl hne
            · exact Or.inl ⟨e', hrest, rfl⟩
          · exact Or.inr heq
        · obtain ⟨-, rfl⟩ := Prod.mk.inj heq
          exact Or.inr (hfound e (List.mem_cons_self ..)).symm
      obtain ⟨hout, hreads', hsent', hend⟩ :=
        ih h (fun e' he' => hfound e' (List.mem_cons_of_mem _ he')) hstored
      exact ⟨hout, hreads'.trans hreads, hsent'.trans hsent, hend⟩

/-- What is missing is asked for in batches, and stored. -/
theorem runsTo_fetchOffsets {out : Outcome PyError Unit}
    (h : RunsTo (I := VisitI) (L.Steps rt) (fetchOffsets rt L.client L.server L.missing) s out s')
    (hreads : s.reads = L.ids.length) (hsent : s.sent = []) (hs : L.Unread (L.AsBefore rt L.ids.length) s) :
    s'.reads = L.ids.length ∧ ∃ batches, batches <+: functionBatches L.missing ∧
      s'.sent = batches.map functionsRequest ∧
      (∀ u, out = .returned u → batches = functionBatches L.missing ∧ L.Unread (L.Stored rt []) s') ∧
      ∀ e, out = .raised e → ∃ batch ∈ batches, L.post (functionsRequest batch) = .error e := by
  by_cases hmissing : L.missing = []
  · rw [fetchOffsets, if_pos hmissing] at h
    cases h
    have hbatches : functionBatches L.missing = [] := by rw [hmissing]; rfl
    refine ⟨hreads, [], List.nil_prefix, hsent, fun _ _ => ⟨hbatches.symm, hs.mono fun fid found h => ?_⟩,
      fun e heq => nomatch heq⟩
    have htarget : L.target rt (functionBatches L.missing) fid = L.cached fid := by rw [hbatches]; rfl
    rcases h with heq | ⟨-, -, heq⟩
    · exact Or.inr (heq.trans htarget.symm)
    · exact Or.inr heq
  · rw [fetchOffsets, if_neg hmissing] at h
    obtain ⟨result, t, ⟨u, hother, hserver⟩, h⟩ := RunsTo.call_cases h
    obtain ⟨hreads', hsent', hunread⟩ := other_steps hother
    have hu : L.Unread (L.AsBefore rt L.ids.length) u :=
      hunread _ (fun fid found hknown htarget => Or.inr ⟨hreads ▸ hknown, rfl, htarget.symm⟩) hs
    cases hserver with
    | functions hanswer =>
      obtain ⟨batches, hasked, hbatches, hok, herror⟩ := run_fetchFunctions hanswer
      rw [hsent', hsent, List.nil_append] at hbatches
      subst hbatches
      cases result with
      | error e =>
        cases h
        refine ⟨hreads'.trans hreads, batches, hasked, rfl, (fun _ heq => nomatch heq), fun e' heq => ?_⟩
        cases heq
        exact herror e rfl
      | ok entries =>
        obtain ⟨rfl, rfl⟩ := hok entries rfl
        have hfound : ∀ e ∈ targetFunctions rt (((functionBatches L.missing).filterMap L.answer).foldl
            addFunctions .empty), L.target rt (functionBatches L.missing) e.1 = some e.2 := by
          intro e he
          rw [target, mem_targets_answers.1 he, Option.some_or]
        have hafter : L.Unread (L.Stored rt (targetFunctions rt (((functionBatches L.missing).filterMap
            L.answer).foldl addFunctions .empty))) u := by
          refine hu.mono fun fid cached h => ?_
          cases htarget : (L.answered (functionBatches L.missing) fid).bind (targetFunction rt) with
          | some found => exact Or.inl ⟨(fid, found), mem_targets_answers.2 htarget, rfl⟩
          | none =>
            have hcached : L.target rt (functionBatches L.missing) fid = L.cached fid := by
              rw [target, htarget, Option.none_or]
            rcases h with heq | ⟨-, -, heq⟩
            · exact Or.inr (heq.trans hcached.symm)
            · exact Or.inr heq
        obtain ⟨rfl, hend, hsame, hstored⟩ := runsTo_setOffsets h hfound hafter
        exact ⟨hend.trans (hreads'.trans hreads), _, List.prefix_rfl, hsame, fun _ _ => ⟨rfl, hstored⟩,
          fun e heq => nomatch heq⟩

/-- What is read back is what the server answers. -/
theorem runsTo_knownOffsets {fids : List ℤ} {known : Targets} {out : Outcome PyError Targets}
    (h : RunsTo (I := VisitI) (L.Steps rt) (knownOffsets L.server fids known) s out s')
    (hfids : fids = L.unread s) (hreads : L.ids.length ≤ s.reads) (hs : L.Unread (L.Stored rt []) s) :
    s'.sent = s.sent ∧
      out = .returned (collectTargets (L.target rt (functionBatches L.missing)) fids known) := by
  induction fids generalizing s known with
  | nil =>
    cases h
    exact ⟨rfl, rfl⟩
  | cons fid fids ih =>
    obtain ⟨a, t, ⟨u, hother, hget⟩, h⟩ := RunsTo.call_cases h
    cases hget
    obtain ⟨hreads', hsent, hunread⟩ := other_steps hother
    have hu : L.Unread (L.Stored rt []) u := hunread _ (fun fid value _ htarget => Or.inr htarget.symm) hs
    have hfid : fid ∈ L.unread u ∧ fids = L.unread (u.read (L.server, fid)) := by
      have hrest : L.unread (u.read (L.server, fid)) = (L.unread s).tail := by
        simp only [unread, LookupState.read, hreads', List.tail_drop]
        congr 1
        omega
      rw [hrest, unread, hreads', ← unread, ← hfids]
      exact ⟨List.mem_cons_self .., rfl⟩
    obtain ⟨hsent', hout⟩ := ih h hfid.2 (by simp only [LookupState.read, hreads']; omega) (hu.read _)
    have hfound : u.cache.find? (L.server, fid) = L.target rt (functionBatches L.missing) fid := by
      rcases hu fid hfid.1 with ⟨e, he, -⟩ | heq
      · exact (List.not_mem_nil he).elim
      · exact heq
    refine ⟨hsent'.trans hsent, ?_⟩
    rw [hout, hfound, collectTargets, collectTargets, List.foldl_cons]
    cases L.target rt (functionBatches L.missing) fid <;> rfl

end Lookup

open Lookup

/-- Where no entry that is still to be read is evicted or replaced, no function id is lost. -/
theorem losesNoFunction (rt : Runtime) : LosesNoFunction rt (KeepsUnread rt) := by
  intro L out s hrun
  have hstart : L.Unread (L.AsBefore rt L.start.reads) L.start := fun fid _ => Or.inl rfl
  have hflatten : ∀ {batches}, batches <+: functionBatches L.missing → batches.flatten <+: L.missing := by
    rintro batches ⟨rest, heq⟩
    refine ⟨rest.flatten, ?_⟩
    rw [← List.flatten_append, heq, flatten_functionBatches]
  rcases hrun.bind_cases with ⟨e, hraised, -⟩ | ⟨missing, s₁, hmissing, hrun⟩
  · exact nomatch (runsTo_missingOffsets hraised rfl (Nat.zero_le _) hstart).1
  obtain ⟨hout, hreads, hsent, hunread⟩ := runsTo_missingOffsets hmissing rfl (Nat.zero_le _) hstart
  cases hout
  rcases hrun.bind_cases with ⟨e, hraised, rfl⟩ | ⟨u, s₂, hfetch, hrun⟩
  · obtain ⟨-, batches, hasked, hsent, -, herror⟩ := runsTo_fetchOffsets hraised hreads hsent hunread
    exact ⟨batches, hsent, fun batch hbatch => length_le_of_mem_functionBatches (hasked.subset hbatch),
      hflatten hasked, (fun known heq => nomatch heq), fun e heq => herror e (by cases heq; rfl)⟩
  · obtain ⟨hreads, batches, hasked, hsent, hreturned, -⟩ := runsTo_fetchOffsets hfetch hreads hsent hunread
    obtain ⟨rfl, hstored⟩ := hreturned u rfl
    have hids : L.ids = L.unread s₂ := by rw [unread, hreads, Nat.sub_self, List.drop_zero]
    obtain ⟨hsame, rfl⟩ := runsTo_knownOffsets hrun hids hreads.ge hstored
    refine ⟨_, hsame.trans hsent, fun batch hbatch => length_le_of_mem_functionBatches hbatch,
      hflatten hasked, fun known heq => ⟨flatten_functionBatches _, fun fid => ?_⟩, fun e heq => nomatch heq⟩
    cases heq
    rw [find?_collectTargets, OrderedMap.find?_empty, Option.or_none]

/-- One of three functions is cached, and the server answers one of the others. -/
def sharedLookup : Lookup where
  client := ⟨remoteServer, none, none, none⟩
  server := remoteServer
  ids := [5, 6, 7]
  nodup := by decide
  cache := (LockedCache.new (some functionOffsetItems) none false).store (remoteServer, 5) (0x5000, "memcpy") 0
  capacity := (LockedCache.holds_new _ _).store _ _ _
  room := by decide +kernel
  post _ := .ok (.dict [("6", functionEntry 0x6000)])

/-- The three functions have been looked up. -/
def lookedUp : LookupState :=
  ((sharedLookup.start.read (remoteServer, 5)).read (remoteServer, 6)).read (remoteServer, 7)

/-- Another visit stores the one that is missing, as the server answers it. -/
def storedMeanwhile : LookupState := lookedUp.store ⟨false, (remoteServer, 6), (0x6000, "")⟩

def askedServer : LookupState := { storedMeanwhile with sent := [functionsRequest [6, 7]] }

/-- The visit stores it as well, and then another visit one of another server. -/
def storedAll : LookupState :=
  (askedServer.store ⟨true, (remoteServer, 6), (0x6000, "")⟩).store ⟨false, ("https://mcrit.test/", 6), (0x7000, "")⟩

def readBack : LookupState := ((storedAll.read (remoteServer, 5)).read (remoteServer, 6)).read (remoteServer, 7)

instance (rt : Runtime) (L : Lookup) (s : LookupState) (w : OffsetStore) : Decidable (L.KeepsUnread rt s w) :=
  inferInstanceAs (Decidable (∀ fid ∈ L.unread s, _))

def foundTargets : Targets := (OrderedMap.empty.put 5 (0x5000, "memcpy")).put 6 (0x6000, "")

theorem run_sharedLookup :
    sharedLookup.Run resetRuntime (KeepsUnread resetRuntime) (.returned foundTargets) readBack := by
  have hmeanwhile : sharedLookup.Other (KeepsUnread resetRuntime) lookedUp storedMeanwhile := .set (by decide +kernel)
  have hown : sharedLookup.KeepsUnread resetRuntime askedServer ⟨true, (remoteServer, 6), (0x6000, "")⟩ := by
    decide +kernel
  have hother : sharedLookup.Other (KeepsUnread resetRuntime)
      (askedServer.store ⟨true, (remoteServer, 6), (0x6000, "")⟩) storedAll := .set (by decide +kernel)
  exact .call ⟨_, .refl, .get _ _⟩ (.call ⟨_, .refl, .get _ _⟩ (.call ⟨_, .refl, .get _ _⟩
    (.call ⟨_, .single hmeanwhile, .functions rfl⟩ (.call ⟨_, .refl, .set hown⟩
    (.call ⟨_, .single hother, .get _ _⟩ (.call ⟨_, .refl, .get _ _⟩ (.call ⟨_, .refl, .get _ _⟩ (.ret _ _))))))))

/-- What was cached and what the server answered is found, whoever stored it. -/
theorem losesNoFunction_sharedLookup : sharedLookup.Run resetRuntime (KeepsUnread resetRuntime)
      (.returned foundTargets) readBack ∧
    ∃ batches, sharedLookup.FindsTargets resetRuntime batches (.returned foundTargets) readBack :=
  ⟨run_sharedLookup, losesNoFunction resetRuntime sharedLookup _ _ run_sharedLookup⟩

/-! ## An entry that other visits push out -/

/-- One function, which is not cached and which the server answers. -/
def evictedLookup : Lookup where
  client := ⟨remoteServer, none, none, none⟩
  server := remoteServer
  ids := [5]
  nodup := List.nodup_singleton 5
  cache := .new (some functionOffsetItems) none false
  capacity := LockedCache.holds_new _ _
  room := Nat.zero_le _
  post _ := .ok (.dict [("5", functionEntry 0x1000)])

/-- Functions of another server. -/
def otherKeys (n : ℕ) : List (String × ℤ) := (List.range n).map fun (i : ℕ) => ("", Int.ofNat i)

def storeAll (keys : List (String × ℤ)) (c : OffsetCache) : OffsetCache :=
  keys.foldl (fun c key => c.store key (0, "") 0) c

/-- Another server with as many functions as there is room for pushes an entry out. -/
theorem find?_storeAll {n : ℕ} (hn : 0 < n) (found : ℤ × String) :
    (storeAll (otherKeys n) ((LockedCache.new (some n) none false).store (remoteServer, 5) found 0)).find?
      (remoteServer, 5) = none := by
  have hnew := LockedCache.holds_new (κ := String × ℤ) (ν := ℤ × String) n false
  have hempty : (LockedCache.new (some n) none false : OffsetCache).Full n [] := Or.inl rfl
  have hlast : (LockedCache.new (some n) none false : OffsetCache).UsedLast [] := List.nil_suffix
  obtain ⟨hfull, hlast, hsize⟩ := (hempty.store hnew hn (remoteServer, 5) found 0).foldl_store
    (hlast.store _ _ _) (hnew.size_store_le hn _ _ _) (hnew.store _ _ _) hn (0, "") (otherKeys n)
  have hother : (remoteServer, (5 : ℤ)) ∉ otherKeys n := by
    intro hmem
    obtain ⟨i, -, heq⟩ := List.mem_map.1 hmem
    exact absurd (Prod.mk.inj heq).1 (by decide)
  have hnodup : (otherKeys n).Nodup :=
    List.Nodup.map (fun i j heq => Int.ofNat.inj (Prod.mk.inj heq).2) List.nodup_range
  exact hfull.find?_eq_none hlast hsize (List.nodup_cons.2 ⟨hother, hnodup⟩) (by simp [otherKeys])

theorem other_storeAll {L : Lookup} (keys : List (String × ℤ)) (s : LookupState) :
    Relation.ReflTransGen (L.Other fun _ _ _ => True) s { s with cache := storeAll keys s.cache } := by
  induction keys generalizing s with
  | nil => exact .refl
  | cons key keys ih =>
    have hset : L.Other (fun _ _ _ => True) s (s.store ⟨false, key, (0, "")⟩) := .set trivial
    exact .head hset (ih _)

/-- The function is stored, pushed out and not found. -/
theorem run_evictedLookup {keys : List (String × ℤ)}
    (h : (storeAll keys (evictedLookup.cache.store (remoteServer, 5) (0x1000, "") 0)).find?
      (remoteServer, 5) = none) :
    ∃ s, evictedLookup.Run resetRuntime (fun _ _ _ => True) (.returned .empty) s := by
  have hget : evictedLookup.Sem (fun _ _ _ => True) ⟨storeAll keys (evictedLookup.cache.store
      (remoteServer, 5) (0x1000, "") 0), [functionsRequest [5]], 1⟩ (.getOffset (remoteServer, 5)) none _ :=
    .get_of h
  exact ⟨_, .call ⟨_, .refl, .get _ _⟩ (.call ⟨_, .refl, .functions rfl⟩ (.call ⟨_, .refl, .set trivial⟩
    (.call ⟨_, other_storeAll keys _, hget⟩ (.ret _ _))))⟩

theorem answered_evictedLookup {batches : List (List ℤ)} (h : batches ≠ []) :
    evictedLookup.answered batches 5 = some (functionEntry 0x1000) := by
  have hentries : ((batches.filterMap evictedLookup.answer).flatMap functionEntries).filter (·.1 = 5) =
      batches.map fun _ => (5, functionEntry 0x1000) := by
    clear h
    induction batches with
    | nil => rfl
    | cons batch batches ih =>
      rw [List.filterMap_cons_some (show evictedLookup.answer batch = some _ from rfl), List.flatMap_cons,
        List.filter_append, ih]
      rfl
  rw [Lookup.answered, hentries, List.getLast?_map, List.getLast?_eq_some_getLast h]
  rfl

theorem not_losesNoFunction : ¬ LosesNoFunction resetRuntime fun _ _ _ => True := by
  intro h
  obtain ⟨s, hrun⟩ := run_evictedLookup (find?_storeAll (by decide) _)
  obtain ⟨batches, hfinds⟩ := h _ _ _ hrun
  obtain ⟨hflatten, hfound⟩ := hfinds.returned _ rfl
  have hbatches : batches ≠ [] := by
    rintro rfl
    exact absurd hflatten (by decide)
  have htarget := hfound 5
  rw [target, answered_evictedLookup hbatches] at htarget
  exact absurd htarget (by decide)

end McritSimilarity
