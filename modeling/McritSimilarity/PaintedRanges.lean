import Mathlib.Data.Int.ConditionallyCompleteOrder
import Mathlib.Order.CompletePartialOrder
import Mathlib.Order.Interval.Set.Disjoint
import McritSimilarity.DiffExplained

/-!
# Painted ranges

The ranges of the annotations of a diff.  What a single block is painted (`PaintsBlock`) lies in its range; as each
block of a side is painted once (`painted_of_parts`), the painted ranges of the side are disjoint, and only the entry
block is painted at the entry address.
-/

set_option autoImplicit false

namespace McritSimilarity

/-! ## Ranges -/

def InstructionHash.range (ins : InstructionHash) : Set ℤ := Set.Ico ins.offset (ins.offset + ins.size)

def BlockHash.range (block : BlockHash) : Set ℤ := Set.Ico block.offset (block.offset + block.size)

/-- The range that an annotation paints. -/
def BlockAnnotation.range (a : BlockAnnotation) : Set ℤ :=
  match a.instruction with
  | some ins => ins.range
  | none => a.block.range

/-- The instructions of a block lie in it, in order and without overlap. -/
structure BlockHash.InPlace (block : BlockHash) : Prop where
  within : ∀ ins ∈ block.instructions, ins.range ⊆ block.range
  ordered : block.instructions.Pairwise fun ins ins' => ins.offset + ins.size ≤ ins'.offset

/-- The blocks of a side, with disjoint ranges and at most one entry block. -/
structure Layout (blocks : List BlockHash) : Prop where
  apart : blocks.Pairwise fun block block' => Disjoint block.range block'.range
  inPlace : ∀ block ∈ blocks, block.InPlace
  oneEntry : OneEntry blocks

/-- The annotations of a side paint disjoint ranges of its own blocks, and its entry address as changed only. -/
structure Painted (blocks : List BlockHash) (out : List BlockAnnotation) : Prop where
  own : ∀ a ∈ out, a.block ∈ blocks
  instruction : ∀ a ∈ out, ∀ ins, a.instruction = some ins → ins ∈ a.block.instructions
  disjoint : out.Pairwise fun a a' => Disjoint a.range a'.range
  header : ∀ a ∈ out, ∀ entry ∈ blocks, entry.entry = true → entry.range.Nonempty →
    IsLeast a.range entry.offset → a.changed = true

theorem painted_nil (blocks : List BlockHash) : Painted blocks [] where
  own := fun _ h => absurd h List.not_mem_nil
  instruction := fun _ h => absurd h List.not_mem_nil
  disjoint := .nil
  header := fun _ h => absurd h List.not_mem_nil

theorem disjoint_range_of_le {ins ins' : InstructionHash} (h : ins.offset + ins.size ≤ ins'.offset) :
    Disjoint ins.range ins'.range :=
  Set.disjoint_left.2 fun _ hx hx' => absurd hx'.1 (not_le.2 (hx.2.trans_le h))

theorem offset_mem_range {block : BlockHash} (h : block.range.Nonempty) : block.offset ∈ block.range :=
  ⟨le_rfl, Set.nonempty_Ico.1 h⟩

theorem eq_of_isLeast_Ico {start stop x : ℤ} (h : IsLeast (Set.Ico start stop) x) : start = x :=
  le_antisymm h.1.1 (h.2 ⟨le_rfl, h.1.1.trans_lt h.1.2⟩)

/-! ## The paint of one block -/

/-- These annotations are paint of the block: of it, or of instructions of it. -/
structure PaintsBlock (block : BlockHash) (paint : List BlockAnnotation) : Prop where
  own : ∀ a ∈ paint, a.block = block
  instruction : ∀ a ∈ paint, ∀ ins, a.instruction = some ins → ins ∈ block.instructions
  disjoint : block.InPlace → paint.Pairwise fun a a' => Disjoint a.range a'.range
  header : ∀ a ∈ paint, block.entry = true → IsLeast a.range block.offset → a.changed = true

theorem paintsBlock_nil (block : BlockHash) : PaintsBlock block [] where
  own := fun _ h => absurd h List.not_mem_nil
  instruction := fun _ h => absurd h List.not_mem_nil
  disjoint := fun _ => .nil
  header := fun _ h => absurd h List.not_mem_nil

theorem paintsBlock_whole {block : BlockHash} {changed : Bool} (h : block.entry = true → changed = true) :
    PaintsBlock block [⟨block, changed, none⟩] where
  own := by simp
  instruction := by simp
  disjoint := fun _ => List.pairwise_singleton _ _
  header := by
    intro a ha hentry _
    obtain rfl := List.mem_singleton.1 ha
    exact h hentry

theorem mem_runPaint {block : BlockHash} {tag : OpTag} {instructions : List InstructionHash} {a : BlockAnnotation}
    (h : a ∈ runPaint block tag instructions) : ∃ ins ∈ instructions,
      a = ⟨block, tag = .replace || (block.entry && ins.offset = block.offset), some ins⟩ := by
  unfold runPaint at h
  split_ifs at h
  · cases h
  · obtain ⟨ins, hins, rfl⟩ := List.mem_map.1 h
    exact ⟨ins, hins, rfl⟩

theorem pairwise_runPaint {block : BlockHash} {tag : OpTag} {instructions : List InstructionHash}
    (h : instructions.Pairwise fun ins ins' => ins.offset + ins.size ≤ ins'.offset) :
    (runPaint block tag instructions).Pairwise fun a a' => Disjoint a.range a'.range := by
  unfold runPaint
  split_ifs
  · exact .nil
  · exact List.pairwise_map.2 (h.imp disjoint_range_of_le)

/-- Runs that make up the instructions of a block paint it. -/
theorem paintsBlock_runs {ρ : Type} {block : BlockHash} {runs : List ρ} (tag : ρ → OpTag)
    {instructions : ρ → List InstructionHash} (hruns : runs.flatMap instructions = block.instructions) :
    PaintsBlock block (runs.flatMap fun r => runPaint block (tag r) (instructions r)) := by
  have hmem : ∀ a ∈ runs.flatMap fun r => runPaint block (tag r) (instructions r), ∃ ins ∈ block.instructions,
      ∃ replaced : Bool, a = ⟨block, replaced || (block.entry && ins.offset = block.offset), some ins⟩ := by
    intro a ha
    obtain ⟨r, hr, ha⟩ := List.mem_flatMap.1 ha
    obtain ⟨ins, hins, rfl⟩ := mem_runPaint ha
    exact ⟨ins, hruns ▸ List.mem_flatMap.2 ⟨r, hr, hins⟩, _, rfl⟩
  refine ⟨fun a ha => ?_, fun a ha ins hins => ?_, fun hplace => ?_, fun a ha hentry hleast => ?_⟩
  · obtain ⟨ins, -, replaced, rfl⟩ := hmem a ha
    rfl
  · obtain ⟨ins', hins', replaced, rfl⟩ := hmem a ha
    obtain rfl := Option.some.inj hins
    exact hins'
  · have hordered := hplace.ordered
    rw [← hruns, List.pairwise_flatMap] at hordered
    rw [List.pairwise_flatMap]
    refine ⟨fun r hr => pairwise_runPaint (hordered.1 r hr), hordered.2.imp fun hrr a ha a' ha' => ?_⟩
    obtain ⟨ins, hins, rfl⟩ := mem_runPaint ha
    obtain ⟨ins', hins', rfl⟩ := mem_runPaint ha'
    exact disjoint_range_of_le (hrr ins hins ins' hins')
  · obtain ⟨ins, -, replaced, rfl⟩ := hmem a ha
    have hoffset : ins.offset = block.offset := eq_of_isLeast_Ico hleast
    simp [hentry, hoffset]

theorem PairPaint.paintsBlock {left right : BlockHash} {paint paint' : List BlockAnnotation}
    (h : PairPaint left right paint paint') : PaintsBlock left paint ∧ PaintsBlock right paint' := by
  cases h with
  | same => exact ⟨paintsBlock_nil left, paintsBlock_nil right⟩
  | whole => exact ⟨paintsBlock_whole fun _ => rfl, paintsBlock_whole fun _ => rfl⟩
  | aligned runs _ _ hleft hright => exact ⟨paintsBlock_runs _ hleft, paintsBlock_runs _ hright⟩

/-- The paint of a block lies in the block. -/
theorem PaintsBlock.range_subset {block : BlockHash} {paint : List BlockAnnotation} (h : PaintsBlock block paint)
    (hplace : block.InPlace) {a : BlockAnnotation} (ha : a ∈ paint) : a.range ⊆ block.range := by
  have hblock := h.own a ha
  unfold BlockAnnotation.range
  cases hins : a.instruction with
  | none => exact hblock ▸ subset_rfl
  | some ins => exact hplace.within ins (h.instruction a ha ins hins)

/-! ## The paint of a side -/

section Side

variable {blocks : List BlockHash} {out : List BlockAnnotation}

theorem Layout.disjoint_get (h : Layout blocks) {i j : Fin blocks.length} (hij : i ≠ j) :
    Disjoint (blocks.get i).range (blocks.get j).range := by
  have hpairwise := List.pairwise_iff_get.1 h.apart
  rcases lt_or_gt_of_ne hij with hlt | hgt
  · exact hpairwise i j hlt
  · exact (hpairwise j i hgt).symm

/-- A side whose blocks are painted at most once each. -/
theorem painted_of_parts (hlayout : Layout blocks) (parts : List (Fin blocks.length × List BlockAnnotation))
    (hnodup : (parts.map Prod.fst).Nodup) (hparts : ∀ part ∈ parts, PaintsBlock (blocks.get part.1) part.2)
    (hout : out.Perm (parts.flatMap Prod.snd)) : Painted blocks out := by
  have hpart : ∀ a ∈ out, ∃ part ∈ parts, a ∈ part.2 := fun a ha => List.mem_flatMap.1 (hout.mem_iff.1 ha)
  have hsubset : ∀ part ∈ parts, ∀ a ∈ part.2, a.range ⊆ (blocks.get part.1).range := fun part hmem a ha =>
    (hparts part hmem).range_subset (hlayout.inPlace _ (List.get_mem _ _)) ha
  refine ⟨fun a ha => ?_, fun a ha ins hins => ?_, ?_, fun a ha entry hmem hentry hne hleast => ?_⟩
  · obtain ⟨part, hmem, ha⟩ := hpart a ha
    rw [(hparts part hmem).own a ha]
    exact List.get_mem _ _
  · obtain ⟨part, hmem, ha⟩ := hpart a ha
    rw [(hparts part hmem).own a ha]
    exact (hparts part hmem).instruction a ha ins hins
  · refine (hout.pairwise_iff fun hdisjoint => hdisjoint.symm).2 (List.pairwise_flatMap.2 ⟨fun part hmem => ?_, ?_⟩)
    · exact (hparts part hmem).disjoint (hlayout.inPlace _ (List.get_mem _ _))
    · refine (List.pairwise_map.1 hnodup).imp_of_mem fun hmem hmem' hne a ha a' ha' => ?_
      exact (hlayout.disjoint_get hne).mono (hsubset _ hmem a ha) (hsubset _ hmem' a' ha')
  · obtain ⟨part, hpartmem, ha⟩ := hpart a ha
    obtain ⟨j, rfl⟩ := List.get_of_mem hmem
    -- Two blocks that share an address are one block.
    have hsame : part.1 = j := by
      by_contra hij
      exact Set.disjoint_left.1 (hlayout.disjoint_get hij) (hsubset part hpartmem a ha hleast.1) (offset_mem_range hne)
    subst hsame
    exact (hparts part hpartmem).header a ha hentry hleast

/-- A side that is painted by pairs, and as a whole where no pair has the block. -/
theorem painted_side (hlayout : Layout blocks) {π : Type} {pairs : List π} {index : π → Fin blocks.length}
    {paint : π → List BlockAnnotation} (hnodup : (pairs.map index).Nodup)
    (hpaint : ∀ p ∈ pairs, PaintsBlock (blocks.get (index p)) (paint p))
    (hout : out.Perm ((((List.finRange blocks.length).filter (· ∉ pairs.map index)).map
      fun i => wholePaint (blocks.get i)) ++ pairs.flatMap paint)) : Painted blocks out := by
  let rest := (List.finRange blocks.length).filter (· ∉ pairs.map index)
  refine painted_of_parts hlayout
    (rest.map (fun i => (i, [wholePaint (blocks.get i)])) ++ pairs.map fun p => (index p, paint p)) ?_ ?_ ?_
  · rw [List.map_append, List.map_map, List.map_map]
    refine List.Nodup.append ?_ hnodup fun i hi hi' => ?_
    · exact (List.map_id rest).symm ▸ (List.nodup_finRange _).filter _
    · obtain ⟨i', hrest, rfl⟩ := List.mem_map.1 hi
      exact of_decide_eq_true (List.mem_filter.1 hrest).2 hi'
  · intro part hpart
    rcases List.mem_append.1 hpart with h | h
    · obtain ⟨i, -, rfl⟩ := List.mem_map.1 h
      exact paintsBlock_whole id
    · obtain ⟨p, hp, rfl⟩ := List.mem_map.1 h
      exact hpaint p hp
  · rw [List.flatMap_append, List.flatMap_map, List.flatMap_map]
    rwa [List.map_eq_flatMap] at hout

end Side

/-- The painted ranges of both sides are in place. -/
theorem painted_annotationBlocks (sm : SequenceMatcher) {source target : List BlockHash} (hs : Layout source)
    (ht : Layout target) : Painted source (annotationBlocks sm source target).1 ∧
      Painted target (annotationBlocks sm source target).2 := by
  unfold annotationBlocks
  split_ifs
  · exact ⟨painted_nil source, painted_nil target⟩
  · obtain ⟨pairs, paint, h⟩ := exists_explains sm hs.oneEntry ht.oneEntry
    exact ⟨painted_side hs h.nodup_source (fun p hp => (h.pair p hp).paintsBlock.1) h.source_out,
      painted_side ht h.nodup_target (fun p hp => (h.pair p hp).paintsBlock.2) h.target_out⟩

theorem layout_exampleSource : Layout exampleSource where
  apart := by simp [exampleSource, BlockHash.range, Set.Ico_disjoint_Ico]
  inPlace := by
    intro block hblock
    rcases List.mem_pair.1 hblock with rfl | rfl <;> exact ⟨by simp [InstructionHash.range, BlockHash.range], by simp⟩
  oneEntry := by unfold OneEntry; decide

theorem layout_exampleTarget : Layout exampleTarget where
  apart := by simp [exampleTarget, BlockHash.range, Set.Ico_disjoint_Ico]
  inPlace := by
    intro block hblock
    rcases List.mem_pair.1 hblock with rfl | rfl <;> exact ⟨by simp [InstructionHash.range, BlockHash.range], by simp⟩
  oneEntry := by unfold OneEntry; decide

theorem painted_example : Painted exampleSource (annotationBlocks coarseMatcher exampleSource exampleTarget).1 ∧
    Painted exampleTarget (annotationBlocks coarseMatcher exampleSource exampleTarget).2 :=
  painted_annotationBlocks coarseMatcher layout_exampleSource layout_exampleTarget

end McritSimilarity
