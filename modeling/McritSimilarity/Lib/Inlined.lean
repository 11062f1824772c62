import McritSimilarity.Lib.Faults

/-!
# Executions of inlined programs

`p.inline f` puts a program over `J` in place of each operation of `p`.  `exec_inline_iff`: its executions are those
of `p` with an execution of `f o` for each operation `o`, one after the other, so a property of `p` and one of
every `f o` make one of the whole.
-/

set_option autoImplicit false

/-- The end of a program that returns a result that may be an error. -/
def Outcome.ofExcept {ε α : Type} : Except ε α → Outcome ε α
  | .ok a => .returned a
  | .error e => .raised e

theorem Outcome.ofExcept_injective {ε α : Type} {r r' : Except ε α} (h : Outcome.ofExcept r = Outcome.ofExcept r') :
    r = r' := by
  cases r <;> cases r' <;> cases h <;> rfl

namespace Prog

variable {I J : Interface} {ε δ α : Type}

theorem exec_call_iff {o : I.Op} {k : I.Ans o → Prog I ε α} {tr : List (Event I)} {out : Outcome ε α}
    (hend : out ≠ .pending) : Exec (call o k) tr out ↔ ∃ a tr', tr = ⟨o, a⟩ :: tr' ∧ Exec (k a) tr' out := by
  constructor
  · intro h
    cases h with
    | call a h => exact ⟨a, _, rfl, h⟩
    | pending => exact absurd rfl hend
  · rintro ⟨a, tr', rfl, h⟩
    exact .call a h

theorem exec_ofExcept_iff {r : Except ε α} {tr : List (Event I)} {out : Outcome ε α} (hend : out ≠ .pending) :
    Exec (ofExcept r : Prog I ε α) tr out ↔ tr = [] ∧ out = .ofExcept r := by
  cases r with
  | ok a =>
    constructor
    · intro h
      cases h with
      | ret => exact ⟨rfl, rfl⟩
      | pending => exact absurd rfl hend
    · rintro ⟨rfl, rfl⟩
      exact .ret a
  | error e =>
    constructor
    · intro h
      cases h with
      | raise => exact ⟨rfl, rfl⟩
      | pending => exact absurd rfl hend
    · rintro ⟨rfl, rfl⟩
      exact .raise e

theorem exec_asExcept_iff {p : Prog I ε α} {tr : List (Event I)} {r : Except ε α} :
    Exec (p.asExcept : Prog I δ (Except ε α)) tr (.returned r) ↔ Exec p tr (.ofExcept r) := by
  constructor
  · intro h
    rcases h.asExcept_returned with ⟨a, rfl, ha⟩ | ⟨e, rfl, he⟩
    · exact ha
    · exact he
  · intro h
    generalize hout : Outcome.ofExcept r = out at h
    induction h with
    | ret a =>
      cases r with
      | ok b => cases hout; exact .ret _
      | error e => cases hout
    | raise e =>
      cases r with
      | ok b => cases hout
      | error d => cases hout; exact .ret _
    | pending => cases r <;> cases hout
    | call a _ ih => exact .call a (ih hout)

/-- An operation with the execution of the program in its place. -/
abbrev Inlined (I J : Interface) := Event I × List (Event J)

theorem exec_inline_iff {f : (o : I.Op) → Prog J ε (I.Ans o)} (hf : ∀ o tr e, ¬ Exec (f o) tr (.raised e))
    {p : Prog I ε α} {tr : List (Event J)} {out : Outcome ε α} (hend : out ≠ .pending) :
    Exec (p.inline f) tr out ↔ ∃ calls : List (Inlined I J), tr = (calls.map Prod.snd).flatten ∧
      Exec p (calls.map Prod.fst) out ∧ ∀ call ∈ calls, Exec (f call.1.1) call.2 (.returned call.1.2) := by
  induction p generalizing tr with
  | ret a =>
    constructor
    · intro h
      cases h with
      | ret => exact ⟨[], rfl, .ret a, nofun⟩
      | pending => exact absurd rfl hend
    · rintro ⟨calls, rfl, h, -⟩
      generalize hevents : calls.map Prod.fst = events at h
      cases h with
      | ret =>
        obtain rfl := List.map_eq_nil_iff.1 hevents
        exact .ret a
      | pending => exact absurd rfl hend
  | raise e =>
    constructor
    · intro h
      cases h with
      | raise => exact ⟨[], rfl, .raise e, nofun⟩
      | pending => exact absurd rfl hend
    · rintro ⟨calls, rfl, h, -⟩
      generalize hevents : calls.map Prod.fst = events at h
      cases h with
      | raise =>
        obtain rfl := List.map_eq_nil_iff.1 hevents
        exact .raise e
      | pending => exact absurd rfl hend
  | spin =>
    constructor
    · intro h
      cases h
      exact absurd rfl hend
    · rintro ⟨calls, -, h, -⟩
      generalize calls.map Prod.fst = events at h
      cases h
      exact absurd rfl hend
  | call o k ih =>
    constructor
    · intro h
      rcases Exec.bind_cases (p := f o) h with ⟨e, hraised, -⟩ | ⟨-, rfl⟩ | ⟨a, tr₁, tr₂, rfl, h₁, h₂⟩
      · exact absurd hraised (hf o _ e)
      · exact absurd rfl hend
      · obtain ⟨calls, rfl, hp, hcalls⟩ := (ih a).1 h₂
        exact ⟨(⟨o, a⟩, tr₁) :: calls, rfl, .call a hp, List.forall_mem_cons.2 ⟨h₁, hcalls⟩⟩
    · rintro ⟨calls, rfl, h, hcalls⟩
      generalize hevents : calls.map Prod.fst = events at h
      cases h with
      | pending => exact absurd rfl hend
      | call a h =>
        obtain ⟨⟨e, piece⟩, calls, rfl, rfl, rfl⟩ := List.map_eq_cons_iff.1 hevents
        rw [List.forall_mem_cons] at hcalls
        exact Exec.bind hcalls.1 ((ih a).2 ⟨calls, rfl, h, hcalls.2⟩)

end Prog
