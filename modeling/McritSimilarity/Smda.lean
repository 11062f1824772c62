import McritSimilarity.Python.Json

/-!
# SMDA reports

The part of an SMDA report that the plugin reads: the functions by offset, with their blocks and
instructions, and the fields that identify the binary.
-/

set_option autoImplicit false

namespace McritSimilarity

structure SmdaInstruction where
  offset : ℤ
  /-- The instruction bytes in hexadecimal; empty when absent. -/
  bytes : String
  deriving DecidableEq, Repr

structure SmdaBlock where
  offset : ℤ
  length : ℤ
  instructions : List SmdaInstruction
  deriving DecidableEq, Repr

structure SmdaFunction where
  offset : ℤ
  functionName : String
  blocks : List SmdaBlock
  deriving DecidableEq, Repr

structure SmdaReport where
  sha256 : String
  filename : String
  architecture : String
  baseAddr : ℤ
  binarySize : ℤ
  functions : List SmdaFunction
  numFunctions : ℤ
  numInstructions : ℤ
  deriving DecidableEq, Repr

/-- A report of no functions. -/
def emptyReport : SmdaReport := ⟨"aa", "", "", 0, 0, [], 0, 0⟩

/-- `address & ~1`: the address without bit 0. -/
def clearBit0 (address : ℤ) : ℤ := address - address % 2

namespace SmdaReport

/-- `report.getFunction(offset)`. -/
def getFunction (r : SmdaReport) (offset : ℤ) : Option SmdaFunction :=
  r.functions.find? fun f => f.offset = offset

end SmdaReport

/-- `smda_function`: the function at an address, or at the address without its Thumb bit. -/
def smdaFunction (r : SmdaReport) (address : ℤ) : Option SmdaFunction :=
  (r.getFunction address).or (r.getFunction (clearBit0 address))

end McritSimilarity
