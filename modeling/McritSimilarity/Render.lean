import McritSimilarity.Export

/-!
# Renders

What `render_match` passes to `annotation_blocks`: the block hashes of the two functions, taken from
the reports of their views.  SMDA's escaping of instructions and the hash of an escaped block are
parameters.
-/

set_option autoImplicit false

namespace McritSimilarity

/-- `SmdaFunction.getInstructionEscaper`, `getEscapedBinary` and `_u64`. -/
structure Hashing where
  escaper : String → Option (SmdaInstruction → ℤ → ℤ → Except PyError String)
  u64 : String → ℤ

variable (h : Hashing)

def hashInstruction (escape : SmdaInstruction → ℤ → ℤ → Except PyError String) (lower upper : ℤ)
    (i : SmdaInstruction) : Except PyError InstructionHash := do
  let escaped ← escape i lower upper
  return ⟨i.offset, i.bytes.length / 2, escaped⟩

/-- The bytes of the instructions, or else the length of the block. -/
def hashedSize (b : SmdaBlock) (instructions : List InstructionHash) : ℤ :=
  let total := (instructions.map InstructionHash.size).sum
  if total ≤ 0 then max (if b.length = 0 then 1 else b.length) 1 else total

def hashBlock (escape : SmdaInstruction → ℤ → ℤ → Except PyError String) (lower upper entry : ℤ)
    (b : SmdaBlock) : Except PyError BlockHash := do
  let instructions ← b.instructions.mapM (hashInstruction escape lower upper)
  let text := String.join (instructions.map InstructionHash.escaped)
  return {
    offset := b.offset
    size := hashedSize b instructions
    digest := h.u64 text
    escaped := text
    instructions := if instructions.any fun i => i.size ≤ 0 then [] else instructions
    entry := b.offset = entry }

/-- `hash_smda_function`. -/
def hashSmdaFunction (f : SmdaFunction) (architecture : String) (baseAddr binarySize : ℤ) :
    Except PyError (List BlockHash) :=
  match h.escaper architecture with
  | none => .ok []
  | some escape => f.blocks.mapM (hashBlock h escape baseAddr (baseAddr + binarySize) f.offset)

/-- `_hash`: no blocks when the hashing fails. -/
def functionHashes (report : SmdaReport) (f : SmdaFunction) : List BlockHash :=
  match hashSmdaFunction h f report.architecture report.baseAddr report.binarySize with
  | .ok blocks => blocks
  | .error _ => []

/-- `_report_for_view`. -/
def reportForView : Option FileId → ExportProg (Option Report)
  | none => pure none
  | some f => cachedReport f

/-- `_block_hashes`. -/
def blockHashes (report : Option Report) (address : ℤ) : ExportProg (List BlockHash) :=
  match report with
  | none => pure []
  | some report =>
    match smdaFunction report.data address with
    | none => pure []
    | some f => cached .picBlocks (report.data.sha256, f.offset) false (pure (functionHashes h report.data f))

/-- A function to render: its view and its address. -/
structure RenderedFunction where
  view : Option FileId
  start : ℤ
  deriving DecidableEq, Repr

/-- The reports of a render and the blocks that are passed to `annotation_blocks`. -/
structure RenderedBlocks where
  sourceReport : Option Report
  targetReport : Option Report
  sourceBlocks : List BlockHash
  targetBlocks : List BlockHash
  deriving DecidableEq, Repr

/-- `render_match` up to `annotation_blocks`. -/
def renderBlocks (source target : RenderedFunction) : ExportProg RenderedBlocks := do
  let sourceReport ← reportForView source.view
  let targetReport ← reportForView target.view
  let sourceBlocks ← blockHashes h sourceReport source.start
  let targetBlocks ← blockHashes h targetReport target.start
  return ⟨sourceReport, targetReport, sourceBlocks, targetBlocks⟩

/-- The annotations `render_match` paints. -/
def renderMatch (sm : SequenceMatcher) (source target : RenderedFunction) :
    ExportProg (List BlockAnnotation × List BlockAnnotation) := do
  let blocks ← renderBlocks h source target
  return annotationBlocks sm blocks.sourceBlocks blocks.targetBlocks

end McritSimilarity
