import Mathlib.Data.List.Sort
import McritSimilarity.Errors
import McritSimilarity.Lib.OrderedMap
import McritSimilarity.Scoring

/-!
# Parsing matching payloads

`parseVsResult` reads a matching payload, any JSON value, into function matches: rows are filtered,
grouped by source offset, ranked and cut to `max_results` per offset.  An error is an exception that
`parse_vs_result` lets pass.  `targetFunctions` and `withTargetOffsets` add the target offsets.
-/

set_option autoImplicit false

namespace McritSimilarity

open Python

structure FunctionMatch where
  sourceOffset : ℤ
  targetOffset : Option ℤ
  sourceFunctionId : ℤ
  targetFunctionId : ℤ
  targetSampleId : ℤ
  targetFamilyId : ℤ
  score : ℚ
  flags : ℤ
  numBytes : PyFloat
  candidates : ℕ := 1
  bestScore : Option ℚ := none
  runnerUpScore : Option ℚ := none
  pichashCandidates : ℕ := 0
  deriving DecidableEq, Repr

namespace FunctionMatch

/-- The lead over the strongest other candidate; `none` when there is no other. -/
def margin (m : FunctionMatch) : Option ℚ :=
  if m.candidates < 2 then none
  else match m.bestScore, m.runnerUpScore with
    | some best, some runnerUp => some (m.score - if best ≤ m.score then runnerUp else best)
    | _, _ => none

def isPichash (m : FunctionMatch) : Bool := hasFlag m.flags isPichashFlag

end FunctionMatch

/-- `_as_flags`. -/
def asFlags (value : Json) : ℤ :=
  match value with
  | .bool b => if b then isPichashFlag else 0
  | other => match other.toInt with
    | .ok n => n
    | .error _ => 0

/-- `x < y` of two floats; false with a NaN. -/
def floatLt : PyFloat → PyFloat → Bool
  | .finite p, .finite q => p < q
  | .negInf, .finite _ => true
  | .negInf, .posInf => true
  | .finite _, .posInf => true
  | _, _ => false

/-- `_match_sort_key(a) < _match_sort_key(b)`: PicHash first, then the higher score, then more
bytes. -/
def ranksBefore (a b : FunctionMatch) : Bool :=
  if a.isPichash ≠ b.isPichash then a.isPichash
  else if a.score ≠ b.score then b.score < a.score
  else floatLt b.numBytes a.numBytes

/-- The order `sorted` keeps: no later match ranks strictly before an earlier one. -/
def ranksLe (a b : FunctionMatch) : Prop := ranksBefore b a = false

instance : DecidableRel ranksLe := fun a b => inferInstanceAs (Decidable (ranksBefore b a = false))

/-- The filters of `parse_vs_result`. -/
structure MatchFilter where
  minScore : ℚ
  includeLibrary : Bool
  maxResults : ℤ
  targetSampleId : Option ℤ

/-- What the rows of one summary share. -/
structure SummaryHead where
  offset : ℤ
  fid : ℤ
  numBytes : PyFloat
  deriving DecidableEq, Repr

/-- The `try` block of a summary; an exception outside its `except` clause passes. -/
def readSummary (summary : Json) : Except BuiltinError SummaryHead := do
  let offset ← (← summary.getItem "offset").toInt
  let fid ← (← summary.getItem "fid").toInt
  let numBytes ← ((← summary.get "num_bytes").orElse (.int 0)).toFloat
  return ⟨offset, |fid|, numBytes⟩

/-- `except (KeyError, TypeError, ValueError, OverflowError): continue`. -/
def skipUnreadable {α : Type} : Except BuiltinError α → Except PyError (Option α)
  | .ok a => .ok (some a)
  | .error .attributeError => .error (.builtin .attributeError)
  | .error _ => .ok none

/-- The numbers of a row: score, function id, sample id and family id, in the order they are read. -/
def readRow (row : List Json) : Except BuiltinError (PyFloat × ℤ × ℤ × ℤ) := do
  let score ← (row.getD 3 .null).toFloat
  let fid ← (row.getD 2 .null).toInt
  let sample ← (row.getD 1 .null).toInt
  let family ← (row.getD 0 .null).toInt
  return (score, fid, sample, family)

def rowFlags (row : List Json) : ℤ := if 4 < row.length then asFlags (row.getD 4 .null) else 0

/-- One row of a summary: the match it stands for, or `none` when it is skipped. -/
def acceptRow (filter : MatchFilter) (head : SummaryHead) (raw : Json) : Option FunctionMatch :=
  match raw with
  | .list row =>
    if row.length < 4 then none
    else if ¬ filter.includeLibrary ∧ hasFlag (rowFlags row) isLibraryFlag then none
    else match readRow row with
      | .ok (.finite score, fid, sample, family) =>
        if score < filter.minScore then none
        else if filter.targetSampleId.any (· ≠ sample) then none
        else some {
          sourceOffset := head.offset
          targetOffset := none
          sourceFunctionId := head.fid
          targetFunctionId := fid
          targetSampleId := sample
          targetFamilyId := family
          score := score
          flags := rowFlags row
          numBytes := head.numBytes }
      | _ => none
  | _ => none

abbrev Groups := OrderedMap ℤ (List FunctionMatch)

/-- `grouped.setdefault(offset, []).append(match)`. -/
def addToGroup (groups : Groups) (m : FunctionMatch) : Groups :=
  groups.push m.sourceOffset m

/-- The accepted rows of one summary, in order. -/
def summaryMatches (filter : MatchFilter) (summary : Json) : Except PyError (List FunctionMatch) := do
  match ← skipUnreadable (readSummary summary) with
  | none => return []
  | some head => do
    let rows ← uncaught (summary.get "matches" >>= fun ms => (ms.orElse (.list [])).iter)
    return rows.filterMap (acceptRow filter head)

/-- The accepted rows of a payload, in order. -/
def acceptedMatches (filter : MatchFilter) : List Json → Except PyError (List FunctionMatch)
  | [] => return []
  | summary :: summaries => do
    let first ← summaryMatches filter summary
    let rest ← acceptedMatches filter summaries
    return first ++ rest

/-- The running statistics over the ranked candidates of one offset. -/
structure GroupStats where
  bestScore : Option ℚ := none
  runnerUpScore : Option ℚ := none
  pichashCandidates : ℕ := 0
  deriving DecidableEq, Repr

def GroupStats.add (stats : GroupStats) (m : FunctionMatch) : GroupStats :=
  let stats := { stats with
    pichashCandidates := stats.pichashCandidates + if m.isPichash then 1 else 0 }
  if stats.bestScore.all (· ≤ m.score) then
    { stats with runnerUpScore := stats.bestScore, bestScore := some m.score }
  else if stats.runnerUpScore.all (· < m.score) then { stats with runnerUpScore := some m.score }
  else stats

/-- `replace(match, **stats)`. -/
def withStats (count : ℕ) (stats : GroupStats) (m : FunctionMatch) : FunctionMatch :=
  { m with
    candidates := count
    bestScore := stats.bestScore
    runnerUpScore := stats.runnerUpScore
    pichashCandidates := stats.pichashCandidates }

/-- The selected matches of one offset.  Sizes that are NaN, which no order is defined for, may stand in another order
than that of `sorted`. -/
def selectGroup (limit : ℤ) (group : List FunctionMatch) : List FunctionMatch :=
  let ranked := group.insertionSort ranksLe
  let stats := ranked.foldl GroupStats.add {}
  (ranked.take limit.toNat).map (withStats ranked.length stats)

/-- `matches_dict.get("functions") or []` of a payload. -/
def payloadFunctions (payload : Json) : Json :=
  match payload with
  | .dict members =>
    match (members.lookup "matches").getD .null with
    | .dict matchMembers => ((matchMembers.lookup "functions").getD .null).orElse (.list [])
    | _ => .list []
  | _ => .list []

def parseVsResult (payload : Json) (filter : MatchFilter) : Except PyError (List FunctionMatch) := do
  let summaries ← uncaught (payloadFunctions payload).iter
  let accepted ← acceptedMatches filter summaries
  let grouped := accepted.foldl addToGroup .empty
  return grouped.values.flatMap (selectGroup (max 1 filter.maxResults))

/-- `decode_offset`. -/
def decodeOffset (value : Json) (bitness : ℕ := 64) : Option ℤ :=
  match value with
  | .null => none
  | other => match other.toInt with
    | .error _ => none
    | .ok number => if number < 0 then some ((number + 2 ^ bitness) % 2 ^ bitness) else some number

/-- `sub_` and hexadecimal digits. -/
def isDefaultName (text : String) : Bool :=
  match text.toList with
  | 's' :: 'u' :: 'b' :: '_' :: digits =>
    digits ≠ [] && digits.all fun c => c.isDigit || ('a' ≤ c && c ≤ 'f') || ('A' ≤ c && c ≤ 'F')
  | _ => false

variable (rt : Runtime)

/-- `str(value or "")`. -/
def textOrEmpty (value : Json) : String := rt.str (value.orElse (.str ""))

/-- The newest label that is no placeholder. -/
def bestLabel : List Json → String × String → String × String
  | [], best => best
  | label :: labels, best =>
    match label with
    | .dict members =>
      let text := strip (textOrEmpty rt ((members.lookup "function_label").getD .null))
      let stamp := textOrEmpty rt ((members.lookup "timestamp").getD .null)
      if text ≠ "" ∧ ¬ isDefaultName text ∧ best.1 ≤ stamp then bestLabel labels (stamp, text)
      else bestLabel labels best
    | _ => bestLabel labels best

/-- `corpus_label` of a function entry. -/
def corpusLabel (entry : List (String × Json)) : String :=
  match (entry.lookup "function_labels").getD .null with
  | .list labels => (bestLabel rt labels ("", "")).2
  | _ => ""

/-- The offset and label of one function entry. -/
def targetFunction (entry : Json) : Option (ℤ × String) :=
  match entry with
  | .dict members =>
    (decodeOffset ((members.lookup "offset").getD .null)).map fun offset =>
      (offset, corpusLabel rt members)
  | _ => none

/-- `target_functions`. -/
def targetFunctions (entries : OrderedMap ℤ Json) : List (ℤ × ℤ × String) :=
  entries.entries.filterMap fun e => (targetFunction rt e.2).map fun found => (e.1, found)

/-- `with_target_offsets` for the offsets that are known by function id. -/
def withTargetOffsets (offsets : ℤ → Option ℤ) (matched : List FunctionMatch) : List FunctionMatch :=
  matched.map fun m => { m with targetOffset := (offsets m.targetFunctionId).or m.targetOffset }

/-- `list(dict.fromkeys(…))` over the function ids. -/
def uniqueTargetFunctionIds (matched : List FunctionMatch) : List ℤ :=
  ((matched.map FunctionMatch.targetFunctionId).reverse.dedup).reverse

end McritSimilarity
