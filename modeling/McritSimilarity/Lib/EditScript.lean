import Mathlib.Data.List.Basic
import Mathlib.Tactic.Common

/-!
# Edit scripts

An edit script turns one list into another by copying, replacing, deleting and inserting consecutive
runs.  Opcodes name the runs by their bounds (`ValidScript`); `runsOf` cuts the two lists into the
runs themselves, which make up both lists again (`ValidScript.flatMap_left`, `ValidScript.flatMap_right`)
and agree where the script copies (`ValidScript.runOk`).
-/

set_option autoImplicit false

inductive OpTag where
  | equal
  | replace
  | delete
  | insert
  deriving DecidableEq, Repr

/-- One step of a script: `a[i1:i2]` becomes `b[j1:j2]`. -/
structure Opcode where
  tag : OpTag
  i1 : ℕ
  i2 : ℕ
  j1 : ℕ
  j2 : ℕ
  deriving DecidableEq, Repr

variable {α β : Type}

/-- `xs[i:j]`. -/
def slice (xs : List α) (i j : ℕ) : List α := (xs.drop i).take (j - i)

/-- What the tag of an opcode says of its two slices. -/
def TagOk (tag : OpTag) (left right : List α) : Prop :=
  match tag with
  | .equal => left = right
  | .replace => left ≠ [] ∧ right ≠ []
  | .delete => right = []
  | .insert => left = []

/-- The opcodes take `a` from position `i` on to `b` from position `j` on. -/
inductive ValidScript (a b : List α) : ℕ → ℕ → List Opcode → Prop where
  | nil : ValidScript a b a.length b.length []
  | cons {op : Opcode} {ops : List Opcode} (hi : op.i1 ≤ op.i2 ∧ op.i2 ≤ a.length)
      (hj : op.j1 ≤ op.j2 ∧ op.j2 ≤ b.length)
      (htag : TagOk op.tag (slice a op.i1 op.i2) (slice b op.j1 op.j2))
      (hops : ValidScript a b op.i2 op.j2 ops) : ValidScript a b op.i1 op.j1 (op :: ops)

/-- A run of a script with its two sides. -/
structure Run (α : Type) where
  tag : OpTag
  left : List α
  right : List α

/-- The runs of a script. -/
def runsOf (a b : List α) (ops : List Opcode) : List (Run α) :=
  ops.map fun op => ⟨op.tag, slice a op.i1 op.i2, slice b op.j1 op.j2⟩

theorem slice_append_drop {xs : List α} {i j : ℕ} (hij : i ≤ j) :
    slice xs i j ++ xs.drop j = xs.drop i := by
  have hdrop : xs.drop j = (xs.drop i).drop (j - i) := by
    rw [List.drop_drop]
    congr 1
    omega
  rw [slice, hdrop, List.take_append_drop]

theorem map_slice (f : α → β) (xs : List α) (i j : ℕ) :
    slice (xs.map f) i j = (slice xs i j).map f := by
  rw [slice, slice, ← List.map_drop, ← List.map_take]

namespace ValidScript

variable {f : α → β} {a b : List α} {i j : ℕ} {ops : List Opcode}

/-- The left sides of the runs make up the first list. -/
theorem flatMap_left (h : ValidScript (a.map f) (b.map f) i j ops) :
    (runsOf a b ops).flatMap Run.left = a.drop i := by
  induction h with
  | nil => simp [runsOf]
  | @cons op ops hi hj htag hops ih =>
    calc (runsOf a b (op :: ops)).flatMap Run.left
        = slice a op.i1 op.i2 ++ (runsOf a b ops).flatMap Run.left := rfl
      _ = slice a op.i1 op.i2 ++ a.drop op.i2 := by rw [ih]
      _ = a.drop op.i1 := slice_append_drop hi.1

theorem flatMap_right (h : ValidScript (a.map f) (b.map f) i j ops) :
    (runsOf a b ops).flatMap Run.right = b.drop j := by
  induction h with
  | nil => simp [runsOf]
  | @cons op ops hi hj htag hops ih =>
    calc (runsOf a b (op :: ops)).flatMap Run.right
        = slice b op.j1 op.j2 ++ (runsOf a b ops).flatMap Run.right := rfl
      _ = slice b op.j1 op.j2 ++ b.drop op.j2 := by rw [ih]
      _ = b.drop op.j1 := slice_append_drop hj.1

/-- What the tags say holds of the runs, up to `f`. -/
theorem runOk (h : ValidScript (a.map f) (b.map f) i j ops) :
    ∀ r ∈ runsOf a b ops, TagOk r.tag (r.left.map f) (r.right.map f) := by
  induction h with
  | nil => simp [runsOf]
  | @cons op ops hi hj htag hops ih =>
    intro r hr
    rcases List.mem_cons.1 hr with rfl | hr
    · rwa [map_slice, map_slice] at htag
    · exact ih r hr

end ValidScript
