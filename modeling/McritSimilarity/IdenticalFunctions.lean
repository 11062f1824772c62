import McritSimilarity.DiffExplained

/-!
# Functions with nothing to paint

`annotationBlocks_eq_nil_iff`: nothing is painted exactly when both functions have the same digests, each
as often, and their entry blocks have the same one.  What anchoring leaves on the two sides has no digest
in common (`leftover_ne`), so equal digests leave nothing; and the blocks of a pair differ in their
digests (`alignedPairs_ne`), so some instruction of them is painted (`instructionDiff_eq_nil`).
-/

set_option autoImplicit false

namespace McritSimilarity

/-! ## What anchoring leaves -/

section Leftovers

variable {source target : List BlockHash}

/-- The slots hold all targets that are not matched, and a source block is left when its slot is empty. -/
structure AnchorFull (rest : List (Fin target.length)) (st : Anchoring source.length target.length) :
    Prop where
  slots : ∀ j ∈ rest, j ∉ st.matchedTargets → j ∈ st.slots.collected (target.get j).digest
  left : ∀ i ∈ st.sourceLeft, st.slots.collected (source.get i).digest = []

theorem anchorFull_step {rest : List (Fin target.length)} {st : Anchoring source.length target.length}
    (h : AnchorFull rest st) (i : Fin source.length) : AnchorFull rest (anchorStep source target st i) := by
  unfold anchorStep
  cases hslot : st.slots.collected source[i].digest with
  | nil =>
    refine ⟨h.slots, fun k hk => ?_⟩
    rcases List.mem_append.1 hk with hk | hk
    · exact h.left k hk
    · rw [List.mem_singleton.1 hk]
      exact hslot
  | cons j available =>
    refine ⟨fun k hk hfree => ?_, fun k hk => ?_⟩
    · rw [List.mem_append, List.mem_singleton, not_or] at hfree
      have hmem := h.slots k hk hfree.1
      rw [OrderedMap.collected_put]
      split_ifs with hdigest
      · rw [hdigest, hslot] at hmem
        exact (List.mem_cons.1 hmem).resolve_left hfree.2
      · exact hmem
    · have hempty := h.left k hk
      rw [OrderedMap.collected_put]
      split_ifs with hdigest
      · rw [hdigest, hslot] at hempty
        cases hempty
      · exact hempty

theorem anchored_full (source target : List BlockHash) :
    AnchorFull (targetRest source target) (anchored source target) := by
  refine anchored_induction (motive := fun _ st => AnchorFull (targetRest source target) st)
    (fun slots hslots => ⟨fun j hj _ => ?_, fun i hi => (List.not_mem_nil hi).elim⟩) fun _ _ i h => anchorFull_step h i
  rw [hslots]
  exact List.mem_filter.2 ⟨hj, by simp⟩

/-- The indices that are not among the matched ones. -/
def unmatched {n : ℕ} (indices matched : List (Fin n)) : List (Fin n) := indices.filter (· ∉ matched)

/-- The target blocks that anchoring leaves, besides an entry block. -/
def targetLeftover (source target : List BlockHash) : List (Fin target.length) :=
  unmatched (targetRest source target) (anchored source target).matchedTargets

/-- No digest is left on both sides. -/
theorem leftover_ne {i : Fin source.length} {j : Fin target.length}
    (hi : i ∈ (anchored source target).sourceLeft) (hj : j ∈ targetLeftover source target) :
    (source.get i).digest ≠ (target.get j).digest := by
  intro hdigest
  obtain ⟨hrest, hfree⟩ := List.mem_filter.1 hj
  have hslot := (anchored_full source target).slots j hrest (by simpa using hfree)
  rw [← hdigest, (anchored_full source target).left i hi] at hslot
  exact List.not_mem_nil hslot

/-- Equal digests leave nothing. -/
theorem leftover_eq_nil (h : ((sourceRest source target).map fun i => (source.get i).digest).Perm
    ((targetRest source target).map fun j => (target.get j).digest)) :
    (anchored source target).sourceLeft = [] ∧ targetLeftover source target = [] := by
  obtain ⟨anchors, hanchors⟩ := anchored_spec source target
  have hcommon : anchors.map (fun p => (source.get p.1).digest) = anchors.map fun p => (target.get p.2).digest :=
    List.map_congr_left hanchors.digest
  have hsources := hanchors.sources.map fun i => (source.get i).digest
  have htargets := hanchors.perm_targets.map fun j => (target.get j).digest
  rw [List.map_append, List.map_map] at hsources htargets
  have hleft : (anchors.map (fun p => (source.get p.1).digest) ++
      (anchored source target).sourceLeft.map fun i => (source.get i).digest).Perm
        (anchors.map (fun p => (target.get p.2).digest) ++
          (targetLeftover source target).map fun j => (target.get j).digest) :=
    (hsources.trans h).trans htargets.symm
  rw [hcommon, List.perm_append_left_iff] at hleft
  have hnil : (anchored source target).sourceLeft = [] := by
    refine List.eq_nil_iff_forall_not_mem.2 fun i hi => ?_
    obtain ⟨j, hj, heq⟩ := List.mem_map.1 (hleft.mem_iff.1 (List.mem_map_of_mem hi))
    exact leftover_ne hi hj heq.symm
  refine ⟨hnil, ?_⟩
  rw [hnil, List.map_nil] at hleft
  exact List.map_eq_nil_iff.1 (List.nil_perm.1 hleft)

/-- The entry blocks, when both sides have one, agree in their digests. -/
def EntriesAgree (source target : List BlockHash) : Prop :=
  ∀ b ∈ source, ∀ c ∈ target, b.entry = true → c.entry = true → b.digest = c.digest

theorem map_digest_finRange (blocks : List BlockHash) :
    ((List.finRange blocks.length).map fun i => (blocks.get i).digest) = blocks.map BlockHash.digest := by
  apply List.ext_getElem
  · simp
  · simp

theorem unanchored_eq_nil_iff (hs : OneEntry source) (ht : OneEntry target) :
    unanchored source target = ([], []) ↔
      (source.map BlockHash.digest).Perm (target.map BlockHash.digest) ∧ EntriesAgree source target := by
  constructor
  · intro h
    obtain ⟨anchors, hdigest, hsplit, hsplit', hentries⟩ := unanchored_spec source target
    rw [h, List.append_nil] at hsplit hsplit'
    rw [h] at hentries
    refine ⟨?_, fun b hb c hc hbentry hcentry => ?_⟩
    · have hsources := hsplit.map fun i => (source.get i).digest
      have htargets := hsplit'.map fun j => (target.get j).digest
      rw [List.map_map, map_digest_finRange] at hsources htargets
      have hcommon : anchors.map (fun p => (source.get p.1).digest) = anchors.map fun p => (target.get p.2).digest :=
        List.map_congr_left hdigest
      exact (hsources.symm.trans (List.Perm.of_eq hcommon)).trans htargets
    · obtain ⟨i, hi, rfl⟩ := List.getElem_of_mem hb
      obtain ⟨j, hj, rfl⟩ := List.getElem_of_mem hc
      have hboth := bothEntries_of_entry hs ht (i := ⟨i, hi⟩) (j := ⟨j, hj⟩) hbentry hcentry
      rcases hentries _ hboth with hmem | ⟨hmem, -⟩
      · exact hdigest _ hmem
      · exact (List.not_mem_nil hmem).elim
  · rintro ⟨hperm, hagree⟩
    rw [← map_digest_finRange, ← map_digest_finRange] at hperm
    unfold unanchored
    cases hentries : bothEntries source target with
    | none =>
      obtain ⟨hsource, htarget⟩ := rest_of_none hentries
      rw [← hsource, ← htarget] at hperm
      obtain ⟨hsl, htl⟩ := leftover_eq_nil hperm
      exact Prod.ext hsl htl
    | some p =>
      obtain ⟨i, j⟩ := p
      obtain ⟨hi, hj⟩ := bothEntries_eq_some hentries
      obtain ⟨hsource, htarget⟩ := perm_rest hentries
      have hdigest : source[i].digest = target[j].digest :=
        hagree _ (List.getElem_mem _) _ (List.getElem_mem _) hi hj
      have hrest := ((hsource.map fun i => source[i].digest).trans hperm).trans
        (htarget.map fun j => target[j].digest).symm
      rw [List.map_append, List.map_append, List.map_singleton, List.map_singleton, hdigest,
        List.perm_append_right_iff] at hrest
      obtain ⟨hsl, htl⟩ := leftover_eq_nil hrest
      simp only [hdigest, ne_eq, not_true_eq_false, ↓reduceIte]
      exact Prod.ext hsl htl

end Leftovers

/-! ## Pairs -/

section Pairs

variable (sm : SequenceMatcher) {source target : List BlockHash}

/-- The blocks of a pair differ: all but the entry blocks are leftovers of anchoring. -/
theorem alignedPairs_ne (hs : OneEntry source) (ht : OneEntry target) :
    ∀ p ∈ alignedPairs sm source target (unanchored source target),
      (source.get p.1).digest ≠ (target.get p.2).digest := by
  intro p hp
  obtain ⟨anchors, -, hsplit, hsplit', -⟩ := unanchored_spec source target
  have hwithin := (alignedPairs_spec sm (nodup_left hsplit) (nodup_left hsplit')).1.within p hp
  by_cases hleft : unanchored source target =
      ((anchored source target).sourceLeft, targetLeftover source target)
  · rw [hleft] at hwithin
    exact leftover_ne hwithin.1 hwithin.2
  · obtain ⟨i, j, hentries, hdigest, hboth⟩ : ∃ i j, bothEntries source target = some (i, j) ∧
        (source.get i).digest ≠ (target.get j).digest ∧ unanchored source target =
          ((anchored source target).sourceLeft ++ [i], targetLeftover source target ++ [j]) := by
      unfold unanchored at hleft ⊢
      cases hentries : bothEntries source target with
      | none =>
        rw [hentries] at hleft
        exact absurd rfl hleft
      | some q =>
        rw [hentries] at hleft
        by_cases hdigest : source[q.1].digest = target[q.2].digest
        · simp only [hdigest, ne_eq, not_true_eq_false, ↓reduceIte] at hleft
          exact absurd rfl hleft
        · exact ⟨q.1, q.2, rfl, hdigest, by simp only [hdigest, ne_eq, not_false_eq_true, ↓reduceIte]; rfl⟩
    obtain ⟨hi, hj⟩ := bothEntries_eq_some hentries
    have hfirst : leftoverEntries source target (unanchored source target) = some (i, j) :=
      leftoverEntries_of_entry hs ht hi hj (by simp [hboth]) (by simp [hboth])
    rw [alignedPairs, hfirst] at hp
    rcases List.mem_cons.1 hp with rfl | hp
    · exact hdigest
    · have hrest := (changedPairs_spec sm ((nodup_left hsplit).filter (· ≠ i))
        ((nodup_left hsplit').filter (· ≠ j))).within p hp
      rw [hboth] at hrest
      simp only [List.mem_filter, List.mem_append, List.mem_singleton, decide_eq_true_eq] at hrest
      exact leftover_ne (hrest.1.1.resolve_right hrest.1.2) (hrest.2.1.resolve_right hrest.2.2)

/-- A run without paint is a copy, or empty. -/
theorem eq_nil_of_paintRun {block : BlockHash} {tag : OpTag} {instructions : List InstructionHash}
    (h : paintRun block tag instructions = []) (htag : tag ≠ .equal) : instructions = [] := by
  cases tag with
  | equal => exact absurd rfl htag
  | _ => exact List.map_eq_nil_iff.1 h

/-- A script that paints nothing copies everything. -/
theorem map_escaped_eq {left right : BlockHash} {ops : List Opcode}
    (h : ValidScript (left.instructions.map InstructionHash.escaped)
      (right.instructions.map InstructionHash.escaped) 0 0 ops)
    (hleft : (ops.flatMap fun op => paintRun left op.tag (slice left.instructions op.i1 op.i2)) = [])
    (hright : (ops.flatMap fun op => paintRun right op.tag (slice right.instructions op.j1 op.j2)) = []) :
    left.instructions.map InstructionHash.escaped = right.instructions.map InstructionHash.escaped := by
  have hruns : ∀ r ∈ runsOf left.instructions right.instructions ops,
      r.left.map InstructionHash.escaped = r.right.map InstructionHash.escaped := by
    intro r hr
    have htag := h.runOk r hr
    obtain ⟨op, hop, rfl⟩ := List.mem_map.1 hr
    by_cases hequal : op.tag = .equal
    · simp only [hequal] at htag
      exact htag
    · rw [eq_nil_of_paintRun (List.flatMap_eq_nil_iff.1 hleft op hop) hequal,
        eq_nil_of_paintRun (List.flatMap_eq_nil_iff.1 hright op hop) hequal]
  have hleftRuns := h.flatMap_left
  have hrightRuns := h.flatMap_right
  rw [List.drop_zero] at hleftRuns hrightRuns
  calc left.instructions.map InstructionHash.escaped
      = (runsOf left.instructions right.instructions ops).flatMap fun r =>
          r.left.map InstructionHash.escaped := by rw [← List.map_flatMap, hleftRuns]
    _ = (runsOf left.instructions right.instructions ops).flatMap fun r =>
          r.right.map InstructionHash.escaped := List.flatMap_congr hruns
    _ = right.instructions.map InstructionHash.escaped := by rw [← List.map_flatMap, hrightRuns]

/-- The escaped text of a block with instructions is that of its instructions. -/
def TextOfInstructions (block : BlockHash) : Prop :=
  block.instructions ≠ [] → block.escaped = String.join (block.instructions.map InstructionHash.escaped)

/-- A pair without paint has one escaped text. -/
theorem instructionDiff_eq_nil {left right : BlockHash} (hleft : TextOfInstructions left)
    (hright : TextOfInstructions right) (h : instructionDiff sm left right = ([], [])) :
    left.escaped = right.escaped := by
  unfold instructionDiff at h
  split_ifs at h with hempty
  · cases h
  · rw [not_or] at hempty
    obtain ⟨hl, hr⟩ := Prod.mk.inj h
    rw [hleft hempty.1, hright hempty.2, map_escaped_eq (sm.valid _ _) hl hr]

/-- Something is painted as soon as something is left over. -/
theorem annotations_eq_nil_iff (hs : OneEntry source) (ht : OneEntry target)
    (htexts : ∀ b ∈ source, ∀ c ∈ target, b.escaped = c.escaped → b.digest = c.digest)
    (hsource : ∀ b ∈ source, TextOfInstructions b) (htarget : ∀ c ∈ target, TextOfInstructions c) :
    annotations sm source target = ([], []) ↔ unanchored source target = ([], []) := by
  constructor
  · intro h
    obtain ⟨hsourceOut, htargetOut⟩ := Prod.mk.inj h
    rw [List.map_eq_nil_iff, List.append_eq_nil_iff, List.map_eq_nil_iff] at hsourceOut htargetOut
    have hpairs : alignedPairs sm source target (unanchored source target) = [] := by
      refine List.eq_nil_iff_forall_not_mem.2 fun p hp => ?_
      have hdiff : instructionDiff sm (source.get p.1) (target.get p.2) = ([], []) :=
        Prod.ext (List.flatMap_eq_nil_iff.1 hsourceOut.2 p hp) (List.flatMap_eq_nil_iff.1 htargetOut.2 p hp)
      have htext := instructionDiff_eq_nil sm (hsource _ (List.getElem_mem _))
        (htarget _ (List.getElem_mem _)) hdiff
      exact alignedPairs_ne sm hs ht p hp
        (htexts _ (List.getElem_mem _) _ (List.getElem_mem _) htext)
    rw [hpairs] at hsourceOut htargetOut
    refine Prod.ext ?_ ?_
    · simpa using hsourceOut.1
    · simpa using htargetOut.1
  · intro h
    have hpairs : alignedPairs sm source target ([], []) = [] := by
      simp [alignedPairs, leftoverEntries, changedPairs]
    simp only [annotations, h, hpairs]
    rfl

/-- Nothing is painted exactly when both functions have the same digests, each as often, and their entry
blocks agree. -/
theorem annotationBlocks_eq_nil_iff (hsourceNil : source ≠ []) (htargetNil : target ≠ [])
    (hs : OneEntry source) (ht : OneEntry target)
    (htexts : ∀ b ∈ source ++ target, ∀ c ∈ source ++ target, b.digest = c.digest ↔ b.escaped = c.escaped)
    (hinstructions : ∀ b ∈ source ++ target, TextOfInstructions b) :
    annotationBlocks sm source target = ([], []) ↔
      (source.map BlockHash.digest).Perm (target.map BlockHash.digest) ∧ EntriesAgree source target := by
  rw [annotationBlocks, if_neg (not_or.2 ⟨hsourceNil, htargetNil⟩), annotations_eq_nil_iff sm hs ht,
    unanchored_eq_nil_iff hs ht]
  · exact fun b hb c hc => (htexts b (List.mem_append_left _ hb) c (List.mem_append_right _ hc)).2
  · exact fun b hb => hinstructions b (List.mem_append_left _ hb)
  · exact fun c hc => hinstructions c (List.mem_append_right _ hc)

end Pairs

theorem annotationBlocks_eq_nil_iff_example :
    annotationBlocks coarseMatcher exampleSource exampleSource.reverse = ([], []) ↔
      (exampleSource.map BlockHash.digest).Perm (exampleSource.reverse.map BlockHash.digest) ∧
        EntriesAgree exampleSource exampleSource.reverse :=
  annotationBlocks_eq_nil_iff coarseMatcher (by decide) (by decide) (by unfold OneEntry; decide)
    (by unfold OneEntry; decide) (by decide) (by unfold TextOfInstructions; decide)

end McritSimilarity
