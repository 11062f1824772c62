import McritSimilarity.Coherence

/-!
# Looking up offsets and labels

`_target_functions` on a coherent process: as long as there is room for the functions it looks up, it
finds for each of them what the server holds now (`lookupTargets_run`).  Other offsets may be evicted on
the way, but none that the lookup has touched or stored.
-/

set_option autoImplicit false

namespace McritSimilarity

open Python Prog

section OffsetLookup

variable {rt : Runtime} {fuel : ℕ}

/-- The offset and label of a function that a server holds now. -/
def currentTarget (server : McritServer rt fuel) (fid : ℤ) : Option (ℤ × String) :=
  (server.answers.functions server.content.samples fid).bind (targetFunction rt)

/-- What is known of some functions, in their order. -/
def collectTargets (find? : ℤ → Option (ℤ × String)) (fids : List ℤ) (known : Targets) : Targets :=
  fids.foldl (fun known fid => match find? fid with
    | some found => known.put fid found
    | none => known) known

theorem collectTargets_congr {find? find?' : ℤ → Option (ℤ × String)} {fids : List ℤ}
    (h : ∀ fid ∈ fids, find? fid = find?' fid) (known : Targets) :
    collectTargets find? fids known = collectTargets find?' fids known := by
  unfold collectTargets
  exact List.foldl_ext _ _ _ fun known fid hfid => by rw [h fid hfid]

/-! ## Function entries -/

theorem mem_targetFunctions {entries : OrderedMap ℤ Json} {fid : ℤ} {found : ℤ × String} :
    (fid, found) ∈ targetFunctions rt entries ↔
      ∃ entry, entries.find? fid = some entry ∧ targetFunction rt entry = some found := by
  simp only [targetFunctions, List.mem_filterMap, Option.map_eq_some_iff, Prod.mk.injEq,
    OrderedMap.find?_eq_some_iff]
  constructor
  · rintro ⟨⟨fid', entry⟩, hmem, found', htarget, rfl, rfl⟩
    exact ⟨entry, hmem, htarget⟩
  · rintro ⟨entry, hmem, htarget⟩
    exact ⟨(fid, entry), hmem, found, htarget, rfl, rfl⟩

/-- What a server sends of the functions that are missing. -/
def fetched (server : McritServer rt fuel) (missing : List ℤ) : List (ℤ × ℤ × String) :=
  targetFunctions rt (server.answers.functionsByIds server.content.samples missing)

theorem mem_fetched {server : McritServer rt fuel} {missing : List ℤ} {fid : ℤ} {found : ℤ × String} :
    (fid, found) ∈ fetched server missing ↔ fid ∈ missing ∧ currentTarget server fid = some found := by
  rw [fetched, mem_targetFunctions, server.steady.find?_functionsByIds]
  unfold currentTarget
  by_cases hfid : fid ∈ missing
  · simp only [hfid, ↓reduceIte, true_and, Option.bind_eq_some_iff]
  · simp [hfid]

theorem fetched_nil (server : McritServer rt fuel) : fetched server [] = [] := by
  refine List.eq_nil_iff_forall_not_mem.2 fun ⟨fid, found⟩ he => ?_
  exact (List.not_mem_nil (mem_fetched.1 he).1).elim

/-! ## The cache -/

abbrev OffsetCache := LockedCache (String × ℤ) (ℤ × String)

def touchOffsets (text : String) (fids : List ℤ) (c : OffsetCache) : OffsetCache :=
  fids.foldl (fun c fid => (c.get (text, fid)).2) c

def storeOffsets (text : String) (found : List (ℤ × ℤ × String)) (c : OffsetCache) : OffsetCache :=
  found.foldl (fun c e => c.store (text, e.1) e.2 0) c

variable {text : String} {c : OffsetCache} {n : ℕ} {ks : Finset (String × ℤ)}

theorem find?_touchOffsets (fids : List ℤ) (key : String × ℤ) :
    (touchOffsets text fids c).find? key = c.find? key := by
  induction fids generalizing c with
  | nil => rfl
  | cons fid fids ih =>
    have hrest := ih (c := (c.get (text, fid)).2)
    rw [LockedCache.find?_get] at hrest
    exact hrest

theorem holds_touchOffsets (h : c.Holds n) (fids : List ℤ) : (touchOffsets text fids c).Holds n := by
  induction fids generalizing c with
  | nil => exact h
  | cons fid fids ih => exact ih (h.get _)

/-- The functions that were looked up are the most recent ones. -/
theorem recent_touchOffsets (h : c.Recent ks) (fids : List ℤ) :
    (touchOffsets text fids c).Recent (fids.foldl (fun ks fid => insert (text, fid) ks) ks) := by
  induction fids generalizing c ks with
  | nil => exact h
  | cons fid fids ih => exact ih (h.get _)

theorem holds_storeOffsets (h : c.Holds n) (found : List (ℤ × ℤ × String)) :
    (storeOffsets text found c).Holds n := by
  induction found generalizing c with
  | nil => exact h
  | cons e found ih => exact ih (h.store _ _ _)

/-- What a cache holds after some stores was there before, or has been stored. -/
theorem of_find?_storeOffsets {found : List (ℤ × ℤ × String)} {key : String × ℤ} {value : ℤ × String}
    (h : (storeOffsets text found c).find? key = some value) :
    c.find? key = some value ∨ ∃ fid, key = (text, fid) ∧ (fid, value) ∈ found := by
  induction found generalizing c with
  | nil => exact Or.inl h
  | cons e found ih =>
    rcases ih h with h | ⟨fid, rfl, hmem⟩
    · by_cases hkey : key = (text, e.1)
      · subst hkey
        rw [LockedCache.find?_store_self, Option.some.injEq] at h
        exact Or.inr ⟨e.1, rfl, by simp [← h]⟩
      · exact Or.inl (LockedCache.find?_store_of_ne hkey h)
    · exact Or.inr ⟨fid, rfl, List.mem_cons_of_mem _ hmem⟩

/-- With room for the recent functions, stores of some of them keep what is known of the others. -/
theorem find?_storeOffsets (h : c.Recent ks) (hc : c.Holds n) (hks : ks.card ≤ n)
    {found : List (ℤ × ℤ × String)} (hfound : ∀ e ∈ found, (text, e.1) ∈ ks)
    (hunique : ∀ fid value value', (fid, value) ∈ found → (fid, value') ∈ found → value = value')
    {fid : ℤ} (hfid : (text, fid) ∈ ks) :
    (∀ value, (fid, value) ∈ found → (storeOffsets text found c).find? (text, fid) = some value) ∧
      ((∀ value, (fid, value) ∉ found) →
        (storeOffsets text found c).find? (text, fid) = c.find? (text, fid)) := by
  induction found generalizing c with
  | nil => exact ⟨fun value hvalue => (List.not_mem_nil hvalue).elim, fun _ => rfl⟩
  | cons e found ih =>
    obtain ⟨hrecent, hkept⟩ := h.store hc hks (hfound e (List.mem_cons_self ..)) e.2 0
    obtain ⟨hstored, hother⟩ := ih hrecent (hc.store _ _ _)
      (fun e' he' => hfound e' (List.mem_cons_of_mem _ he'))
      fun fid' value value' hvalue hvalue' =>
        hunique fid' value value' (List.mem_cons_of_mem _ hvalue) (List.mem_cons_of_mem _ hvalue')
    refine ⟨fun value hvalue => ?_, fun hnone => ?_⟩
    · by_cases hlater : (fid, value) ∈ found
      · exact hstored value hlater
      · have hhead : (fid, value) = e := by
          rcases List.mem_cons.1 hvalue with hhead | hmem
          · exact hhead
          · exact absurd hmem hlater
        subst hhead
        have hnone : ∀ value', (fid, value') ∉ found := by
          intro value' hvalue'
          obtain rfl := hunique fid value value' hvalue (List.mem_cons_of_mem _ hvalue')
          exact hlater hvalue'
        exact (hother hnone).trans (LockedCache.find?_store_self _ _ _ _)
    · have hne : (text, fid) ≠ (text, e.1) := by
        intro heq
        rw [Prod.mk.injEq] at heq
        exact hnone e.2 (heq.2 ▸ List.mem_cons_self ..)
      exact (hother fun value hvalue => hnone value (List.mem_cons_of_mem _ hvalue)).trans
        (hkept _ hfid hne)

theorem mem_insertKeys {fids : List ℤ} {key : String × ℤ} :
    key ∈ fids.foldl (fun ks fid => insert (text, fid) ks) ks ↔
      key ∈ ks ∨ ∃ fid ∈ fids, key = (text, fid) := by
  induction fids generalizing ks with
  | nil => simp
  | cons fid fids ih =>
    rw [List.foldl_cons, ih, Finset.mem_insert]
    simp only [List.mem_cons, exists_eq_or_imp]
    tauto

theorem card_insertKeys_le (text : String) (ks : Finset (String × ℤ)) (fids : List ℤ) :
    (fids.foldl (fun ks fid => insert (text, fid) ks) ks).card ≤ ks.card + fids.length := by
  induction fids generalizing ks with
  | nil => exact le_refl _
  | cons fid fids ih =>
    have hinsert := Finset.card_insert_le (text, fid) ks
    have hrest := ih (insert (text, fid) ks)
    rw [List.foldl_cons, List.length_cons]
    omega

/-- The cache once the missing functions of a lookup are stored. -/
def refill (server : McritServer rt fuel) (text : String) (fids : List ℤ) (c : OffsetCache) :
    OffsetCache :=
  storeOffsets text (fetched server (fids.filter fun fid => (c.find? (text, fid)).isNone))
    (touchOffsets text fids c)

theorem holds_refill (h : c.Holds n) (server : McritServer rt fuel) (text : String) (fids : List ℤ) :
    (refill server text fids c).Holds n :=
  holds_storeOffsets (holds_touchOffsets h fids) _

theorem OffsetsOf.touch {url : String} {server : McritServer rt fuel} (h : OffsetsOf c url server)
    (fids : List ℤ) : OffsetsOf (touchOffsets text fids c) url server := by
  intro text' fid found hfound
  rw [find?_touchOffsets] at hfound
  exact h text' fid found hfound

/-- Whatever is cached after a lookup is what the server holds. -/
theorem OffsetsOf.refill {url url' : String} {server server' : McritServer rt fuel}
    (h : OffsetsOf c url' server') (hserver : url' = url → server' = server)
    (htext : clientServer text = .ok url) (fids : List ℤ) :
    OffsetsOf (refill server text fids c) url' server' := by
  intro text' fid found hfound hurl
  rcases of_find?_storeOffsets hfound with hold | ⟨fid', hkey, hmem⟩
  · rw [find?_touchOffsets] at hold
    exact h text' fid found hold hurl
  · rw [Prod.mk.injEq] at hkey
    obtain ⟨rfl, rfl⟩ := hkey
    have hsame : url' = url := by
      rw [htext, Except.ok.injEq] at hurl
      exact hurl.symm
    rw [hserver hsame]
    exact Option.bind_eq_some_iff.1 (mem_fetched.1 hmem).2

/-- After a lookup each of its functions is cached as the server holds it. -/
theorem find?_refill {url : String} {server : McritServer rt fuel} (h : OffsetsOf c url server)
    (hc : c.Holds n) (htext : clientServer text = .ok url) {fids : List ℤ} (hfids : fids.length ≤ n)
    {fid : ℤ} (hfid : fid ∈ fids) :
    (refill server text fids c).find? (text, fid) = currentTarget server fid := by
  have hcard := card_insertKeys_le text ∅ fids
  rw [Finset.card_empty, zero_add] at hcard
  have hkey : ∀ fid ∈ fids, (text, fid) ∈ fids.foldl (fun ks fid => insert (text, fid) ks) ∅ :=
    fun fid hfid => mem_insertKeys.2 (Or.inr ⟨fid, hfid, rfl⟩)
  have hcurrent : ∀ fid' value, (fid', value) ∈ fetched server (fids.filter fun fid =>
      (c.find? (text, fid)).isNone) → currentTarget server fid' = some value :=
    fun fid' value hmem => (mem_fetched.1 hmem).2
  have hroom : ∀ e ∈ fetched server (fids.filter fun fid => (c.find? (text, fid)).isNone),
      (text, e.1) ∈ fids.foldl (fun ks fid => insert (text, fid) ks) ∅ :=
    fun e he => hkey _ (List.mem_filter.1 (mem_fetched.1 he).1).1
  obtain ⟨hstored, hkept⟩ := find?_storeOffsets (recent_touchOffsets c.recent_empty fids)
    (holds_touchOffsets hc fids) (hcard.trans hfids) hroom
    (fun fid' value value' hvalue hvalue' =>
      Option.some.inj ((hcurrent fid' value hvalue).symm.trans (hcurrent fid' value' hvalue')))
    (hkey fid hfid)
  cases hcached : c.find? (text, fid) with
  | some found =>
    obtain ⟨entry, hentry, htarget⟩ := h text fid found hcached htext
    have hnone : ∀ value, (fid, value) ∉ fetched server (fids.filter fun fid =>
        (c.find? (text, fid)).isNone) := by
      intro value hvalue
      have hmissing := (List.mem_filter.1 (mem_fetched.1 hvalue).1).2
      rw [hcached] at hmissing
      cases hmissing
    calc (refill server text fids c).find? (text, fid) = (touchOffsets text fids c).find? (text, fid) :=
          hkept hnone
      _ = some found := by rw [find?_touchOffsets, hcached]
      _ = currentTarget server fid := by
          rw [currentTarget, hentry, Option.bind_some, htarget]
  | none =>
    have hmissing : fid ∈ fids.filter fun fid => (c.find? (text, fid)).isNone :=
      List.mem_filter.2 ⟨hfid, by rw [hcached]; rfl⟩
    cases htarget : currentTarget server fid with
    | some value => exact hstored value (mem_fetched.2 ⟨hmissing, htarget⟩)
    | none =>
      have hnone : ∀ value, (fid, value) ∉ fetched server (fids.filter fun fid =>
          (c.find? (text, fid)).isNone) := by
        intro value hvalue
        rw [hcurrent fid value hvalue] at htarget
        cases htarget
      exact (hkept hnone).trans (by rw [find?_touchOffsets, hcached])

/-! ## The lookup -/

variable {v : VisitCall} {s : VisitState rt fuel} {client : McritClient}

theorem run_missingOffsets (text : String) (fids : List ℤ) (c : OffsetCache) :
    (missingOffsets text fids).run (visitHandler v) (s.withOffsets c) =
      (.returned (fids.filter fun fid => (c.find? (text, fid)).isNone),
        s.withOffsets (touchOffsets text fids c)) := by
  induction fids generalizing c with
  | nil => rfl
  | cons fid fids ih =>
    have hget : (ask (.getOffset (text, fid))).run (visitHandler v) (s.withOffsets c) =
        (.returned (c.find? (text, fid)), s.withOffsets (c.get (text, fid)).2) := by
      rw [← LockedCache.get_fst]
      rfl
    unfold missingOffsets
    rw [run_bind, hget]
    simp only [continueRun, run_bind, ih, pure_eq_ret, run, LockedCache.find?_get, List.filter_cons]
    rfl

theorem run_setOffsets (text : String) (found : List (ℤ × ℤ × String)) (c : OffsetCache) :
    (setOffsets text found).run (visitHandler v) (s.withOffsets c) =
      (.returned (), s.withOffsets (storeOffsets text found c)) := by
  induction found generalizing c with
  | nil => rfl
  | cons e found ih => exact ih (c.store (text, e.1) e.2 0)

theorem run_knownOffsets (text : String) (fids : List ℤ) (known : Targets) (c : OffsetCache) :
    (knownOffsets text fids known).run (visitHandler v) (s.withOffsets c) =
      (.returned (collectTargets (fun fid => c.find? (text, fid)) fids known),
        s.withOffsets (touchOffsets text fids c)) := by
  induction fids generalizing c known with
  | nil => rfl
  | cons fid fids ih =>
    have hget : (ask (.getOffset (text, fid))).run (visitHandler v) (s.withOffsets c) =
        (.returned (c.find? (text, fid)), s.withOffsets (c.get (text, fid)).2) := by
      rw [← LockedCache.get_fst]
      rfl
    unfold knownOffsets
    rw [run_bind, hget]
    simp only [continueRun, ih, LockedCache.find?_get]
    cases hfind : c.find? (text, fid) <;>
      simp only [collectTargets, List.foldl_cons, hfind, touchOffsets]

theorem run_fetchOffsets (client : McritClient) (text : String) (missing : List ℤ) (c : OffsetCache) :
    ∃ content : ServerContent, content.samples = s.samplesOn client.mcritServer ∧
      (fetchOffsets rt client text missing).run (visitHandler v) (s.withOffsets c) =
        (.returned (), (s.withContent client.mcritServer content).withOffsets
          (storeOffsets text (fetched (s.servers client.mcritServer) missing) c)) := by
  by_cases hmissing : missing = []
  · refine ⟨(s.servers client.mcritServer).content, rfl, ?_⟩
    rw [hmissing, fetched_nil, VisitState.withContent_self]
    rfl
  · refine ⟨⟨s.samplesOn client.mcritServer, .getFunctionsByIds missing ::
      (s.servers client.mcritServer).content.asked⟩, rfl, ?_⟩
    unfold fetchOffsets
    rw [if_neg hmissing, run_bind, run_onServer]
    exact run_setOffsets (s := s.withContent client.mcritServer _) text _ c

/-- A lookup finds what the server holds, and leaves a coherent state. -/
theorem lookupTargets_run (hs : Coherent s.toServerProcess)
    (htext : clientServer text = .ok client.mcritServer) {fids : List ℤ}
    (hfids : fids.length ≤ functionOffsetItems) :
    ((lookupTargets rt client text fids).run (visitHandler v) s).1 =
        .returned (collectTargets (currentTarget (s.servers client.mcritServer)) fids .empty) ∧
      Evolves s ((lookupTargets rt client text fids).run (visitHandler v) s).2 s.samplesOn := by
  have hmissing := run_missingOffsets (v := v) (s := s) text fids s.functionOffsets
  obtain ⟨content, hcontent, hfetch⟩ := run_fetchOffsets (v := v) (s := s) client text
    (fids.filter fun fid => (s.functionOffsets.find? (text, fid)).isNone)
    (touchOffsets text fids s.functionOffsets)
  have hrun : (lookupTargets rt client text fids).run (visitHandler v) s =
      (.returned (collectTargets (fun fid => (refill (s.servers client.mcritServer) text fids
          s.functionOffsets).find? (text, fid)) fids .empty),
        (s.withContent client.mcritServer content).withOffsets (touchOffsets text fids
          (refill (s.servers client.mcritServer) text fids s.functionOffsets))) := by
    unfold lookupTargets
    rw [run_bind, show s = s.withOffsets s.functionOffsets from rfl, hmissing]
    simp only [continueRun]
    rw [run_bind, hfetch]
    exact run_knownOffsets text fids .empty _
  have hgrows : Grows (s.samplesOn client.mcritServer) content.samples := hcontent ▸ .refl _
  have hoffsets : ∀ url, OffsetsOf (refill (s.servers client.mcritServer) text fids s.functionOffsets)
      url (s.servers url) :=
    fun url => (hs.offsets url).refill (fun hurl => by rw [hurl]) htext fids
  have hfound := fun (fid : ℤ) (hfid : fid ∈ fids) =>
    find?_refill (hs.offsets client.mcritServer) hs.room htext hfids hfid
  have hafter : Coherent (s.withOffsets (touchOffsets text fids
      (refill (s.servers client.mcritServer) text fids s.functionOffsets))).toServerProcess :=
    hs.withOffsets (holds_touchOffsets (holds_refill hs.room _ _ _) fids) fun url => (hoffsets url).touch fids
  rw [hrun, collectTargets_congr hfound]
  exact ⟨rfl, hafter.withContent _ content hgrows, rfl, VisitState.answers_withContent s _ content,
    (VisitState.samplesOn_withContent s _ content).trans (hcontent ▸ Function.update_eq_self _ _), rfl⟩

end OffsetLookup

end McritSimilarity
