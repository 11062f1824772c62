import Mathlib.Algebra.Order.Field.Rat
import Mathlib.Data.Fin.Basic
import Mathlib.Data.List.Sort
import Mathlib.Data.List.FinRange
import McritSimilarity.Lib.EditScript
import McritSimilarity.Lib.OrderedMap

/-!
# Block annotations

`annotationBlocks` aligns the hashed blocks of two functions: equal digests anchor, entry blocks pair
with each other, the rest is paired by similarity, and the instructions of a pair are aligned in turn.
Blocks are named by their index in the list they come from, as `Fin` of its length.  `difflib` is a
`SequenceMatcher`: three ratios and the opcodes, of which only what `get_opcodes` promises is known.
-/

set_option autoImplicit false

namespace McritSimilarity

structure InstructionHash where
  offset : ℤ
  size : ℤ
  escaped : String
  deriving DecidableEq, Repr

structure BlockHash where
  offset : ℤ
  size : ℤ
  digest : ℤ
  escaped : String := ""
  instructions : List InstructionHash := []
  entry : Bool := false
  deriving DecidableEq, Repr

/-- A range to paint: an instruction of the block, or the whole block. -/
structure BlockAnnotation where
  block : BlockHash
  changed : Bool
  instruction : Option InstructionHash := none
  deriving DecidableEq, Repr

/-- `difflib.SequenceMatcher` with `autojunk` off: its ratios of two texts, the second one being the
sequence whose analysis is cached, and the opcodes for two lists of texts. -/
structure SequenceMatcher where
  realQuickRatio : String → String → ℚ
  quickRatio : String → String → ℚ
  ratio : String → String → ℚ
  getOpcodes : List String → List String → List Opcode
  valid : ∀ a b, ValidScript a b 0 0 (getOpcodes a b)

/-- `_CHANGED_RATIO`. -/
def changedRatio : ℚ := 1 / 2

/-- `_FUZZY_WORK_BUDGET`. -/
def fuzzyWorkBudget : ℕ := 40000000

variable (sm : SequenceMatcher)

/-- `_ratio(_scorer(right), left)`. -/
def fuzzyRatio (right left : String) : ℚ :=
  if left = "" then 0
  else if sm.realQuickRatio left right < changedRatio ∨ sm.quickRatio left right < changedRatio then 0
  else sm.ratio left right

section Blocks

variable (source target : List BlockHash)

/-- The index of the first entry block. -/
def entryIndex (blocks : List BlockHash) : Option (Fin blocks.length) :=
  (List.finRange blocks.length).find? fun i => blocks[i].entry

/-- The two entry blocks, when both sides have one. -/
def bothEntries : Option (Fin source.length × Fin target.length) :=
  match entryIndex source, entryIndex target with
  | some i, some j => some (i, j)
  | _, _ => none

/-! ## Anchoring equal digests -/

/-- Free target blocks by digest. -/
abbrev Slots (n : ℕ) := OrderedMap ℤ (List (Fin n))

/-- `slots.setdefault(block.digest, []).append(index)`. -/
def addSlot (slots : Slots target.length) (j : Fin target.length) : Slots target.length :=
  slots.push target[j].digest j

/-- The variables of the loop over the source blocks. -/
structure Anchoring (m n : ℕ) where
  slots : Slots n
  matchedTargets : List (Fin n)
  sourceLeft : List (Fin m)

def anchorStep (st : Anchoring source.length target.length) (i : Fin source.length) :
    Anchoring source.length target.length :=
  match st.slots.collected source[i].digest with
  | j :: available => { st with
      slots := st.slots.put source[i].digest available
      matchedTargets := st.matchedTargets ++ [j] }
  | [] => { st with sourceLeft := st.sourceLeft ++ [i] }

/-- The source blocks the loop goes over. -/
def sourceRest : List (Fin source.length) :=
  (List.finRange source.length).filter fun i => (bothEntries source target).map Prod.fst ≠ some i

def targetRest : List (Fin target.length) :=
  (List.finRange target.length).filter fun j => (bothEntries source target).map Prod.snd ≠ some j

/-- The state after the loop. -/
def anchored : Anchoring source.length target.length :=
  (sourceRest source target).foldl (anchorStep source target)
    ⟨(targetRest source target).foldl (addSlot target) .empty, [], []⟩

/-- `_unanchored`. -/
def unanchored : List (Fin source.length) × List (Fin target.length) :=
  let sourceLeft := (anchored source target).sourceLeft
  let targetLeft := (targetRest source target).filter (· ∉ (anchored source target).matchedTargets)
  match bothEntries source target with
  | some (i, j) =>
    if source[i].digest ≠ target[j].digest then (sourceLeft ++ [i], targetLeft ++ [j])
    else (sourceLeft, targetLeft)
  | none => (sourceLeft, targetLeft)

/-! ## Pairing the leftovers -/

abbrev Pair := Fin source.length × Fin target.length

/-- The character comparisons that scoring all pairs takes. -/
def fuzzyWork (sourceLeft : List (Fin source.length)) (targetLeft : List (Fin target.length)) : ℕ :=
  (sourceLeft.map fun i => source[i].escaped.length).sum *
    (targetLeft.map fun j => target[j].escaped.length).sum

def pairRatio (p : Pair source target) : ℚ := fuzzyRatio sm target[p.2].escaped source[p.1].escaped

/-- Whether a pair is similar enough. -/
def similar (p : Pair source target) : Bool :=
  target[p.2].escaped ≠ "" && changedRatio ≤ pairRatio sm source target p

/-- `key=lambda item: (-item[0], item[1], item[2])`. -/
def scoredLe (p q : ℚ × Pair source target) : Prop :=
  q.1 < p.1 ∨ q.1 = p.1 ∧ (p.2.1 < q.2.1 ∨ p.2.1 = q.2.1 ∧ p.2.2 ≤ q.2.2)

instance : DecidableRel (scoredLe source target) := fun _ _ => inferInstanceAs (Decidable (_ ∨ _))

/-- The scored pairs in the order in which they are taken. -/
def scoredPairs (sourceLeft : List (Fin source.length)) (targetLeft : List (Fin target.length)) :
    List (ℚ × Pair source target) :=
  (targetLeft.flatMap fun j => (sourceLeft.filter fun i => similar sm source target (i, j)).map
    fun i => (pairRatio sm source target (i, j), i, j)).insertionSort (scoredLe source target)

/-- The loop over the scored pairs, with the indices used so far. -/
def greedyPairs : List (ℚ × Pair source target) → List (Fin source.length) →
    List (Fin target.length) → List (Pair source target)
  | [], _, _ => []
  | (_, i, j) :: scored, usedSource, usedTarget =>
    if i ∈ usedSource ∨ j ∈ usedTarget then greedyPairs scored usedSource usedTarget
    else (i, j) :: greedyPairs scored (i :: usedSource) (j :: usedTarget)

/-- `_changed_pairs`. -/
def changedPairs (sourceLeft : List (Fin source.length)) (targetLeft : List (Fin target.length)) :
    List (Pair source target) :=
  if sourceLeft = [] ∨ targetLeft = [] then []
  else if fuzzyWorkBudget < fuzzyWork source target sourceLeft targetLeft then
    (sourceLeft.zip targetLeft).filter (similar sm source target)
  else greedyPairs source target (scoredPairs sm source target sourceLeft targetLeft) [] []

/-! ## Painting -/

/-- The annotations of one side of a run. -/
def paintRun (block : BlockHash) (tag : OpTag) (instructions : List InstructionHash) :
    List BlockAnnotation :=
  match tag with
  | .equal => []
  | .replace => instructions.map fun ins => ⟨block, true, some ins⟩
  | _ => instructions.map fun ins => ⟨block, false, some ins⟩

/-- `_instruction_diff`. -/
def instructionDiff (left right : BlockHash) : List BlockAnnotation × List BlockAnnotation :=
  if left.instructions = [] ∨ right.instructions = [] then
    ([⟨left, true, none⟩], [⟨right, true, none⟩])
  else
    let opcodes := sm.getOpcodes (left.instructions.map InstructionHash.escaped)
      (right.instructions.map InstructionHash.escaped)
    (opcodes.flatMap fun op => paintRun left op.tag (slice left.instructions op.i1 op.i2),
      opcodes.flatMap fun op => paintRun right op.tag (slice right.instructions op.j1 op.j2))

/-- Whether an annotation starts at the address of its entry block. -/
def atEntry (a : BlockAnnotation) : Bool :=
  a.block.entry && (match a.instruction with
    | some ins => ins.offset
    | none => a.block.offset) = a.block.offset

/-- `_entry_changed` of one annotation. -/
def entryChanged (a : BlockAnnotation) : BlockAnnotation :=
  if atEntry a then { a with changed := true } else a

/-- The pair of leftover entry blocks. -/
def leftoverEntries (left : List (Fin source.length) × List (Fin target.length)) :
    Option (Pair source target) :=
  match left.1.find? fun i => source[i].entry, left.2.find? fun j => target[j].entry with
  | some i, some j => some (i, j)
  | _, _ => none

/-- The pairs whose instructions are aligned: the leftover entries first. -/
def alignedPairs (left : List (Fin source.length) × List (Fin target.length)) :
    List (Pair source target) :=
  match leftoverEntries source target left with
  | some (i, j) => (i, j) :: changedPairs sm source target (left.1.filter (· ≠ i)) (left.2.filter (· ≠ j))
  | none => changedPairs sm source target left.1 left.2

/-- The whole block, as removed or added. -/
def oneSided (block : BlockHash) : BlockAnnotation := ⟨block, false, none⟩

def pairDiff (p : Pair source target) : List BlockAnnotation × List BlockAnnotation :=
  instructionDiff sm source[p.1] target[p.2]

/-- `_annotations`. -/
def annotations : List BlockAnnotation × List BlockAnnotation :=
  let left := unanchored source target
  let pairs := alignedPairs sm source target left
  let sourceOut := (left.1.filter (· ∉ pairs.map Prod.fst)).map (fun i => oneSided source[i]) ++
    pairs.flatMap fun p => (pairDiff sm source target p).1
  let targetOut := (left.2.filter (· ∉ pairs.map Prod.snd)).map (fun j => oneSided target[j]) ++
    pairs.flatMap fun p => (pairDiff sm source target p).2
  (sourceOut.map entryChanged, targetOut.map entryChanged)

/-- `annotation_blocks`. -/
def annotationBlocks : List BlockAnnotation × List BlockAnnotation :=
  if source = [] ∨ target = [] then ([], []) else annotations sm source target

end Blocks

end McritSimilarity
