import McritSimilarity.Cache.LockedCache
import McritSimilarity.Errors
import McritSimilarity.Lib.TwoRuns

/-!
# `get_or_set` in a program

A program reaches a cached value through `getOrSet`.  Its operation `claim` is a whole pass of
`LockedCache.get_or_set` up to its claim: it hits, claims the key, or stops while it waits.
`run_getOrSet_hit` and `run_getOrSet_claimed` are its two runs.
-/

set_option autoImplicit false

namespace McritSimilarity

open Prog

/-- What a pass through `get_or_set` comes to. -/
inductive Claim (ν : Type) where
  | hit (value : ν)
  | claimed
  | stopped
  deriving DecidableEq, Repr

variable {I : Interface} {ν σ : Type}

/-- `LockedCache.get_or_set` with a factory. -/
def getOrSet (claim : Prog I PyError (Claim ν)) (store : ν → Prog I PyError Unit)
    (release : Prog I PyError Unit) (factory : Prog I PyError ν) : Prog I PyError ν := do
  match ← claim with
  | .hit value => pure value
  | .stopped => Prog.raise visitCancelled
  | .claimed => Prog.tryFinally (do let value ← factory; store value; return value) release

theorem getOrSet_onlyCalls {P : I.Op → Prop} {claim : Prog I PyError (Claim ν)}
    {store : ν → Prog I PyError Unit} {release : Prog I PyError Unit} {factory : Prog I PyError ν}
    (hclaim : claim.OnlyCalls P) (hstore : ∀ value, (store value).OnlyCalls P)
    (hrelease : release.OnlyCalls P) (hfactory : factory.OnlyCalls P) :
    (getOrSet claim store release factory).OnlyCalls P := by
  refine .bind hclaim fun answer => ?_
  cases answer with
  | hit value => trivial
  | stopped => trivial
  | claimed =>
    refine .tryFinally ?_ hrelease
    exact .bind hfactory fun value => .bind (hstore value) fun _ => trivial

/-! ## Claims of a cache -/

/-- `get_or_set` up to its claim, when nobody else builds the key. -/
def claimOf {κ : Type} [DecidableEq κ] (cache : LockedCache κ ν) (key : κ) : Claim ν :=
  match (cache.get key).1 with
  | some value => .hit value
  | none => .claimed

theorem claimOf_some {κ : Type} [DecidableEq κ] {cache : LockedCache κ ν} {key : κ} {value : ν}
    (h : cache.find? key = some value) : claimOf cache key = .hit value := by
  unfold claimOf
  rw [LockedCache.get_fst, h]

theorem claimOf_none {κ : Type} [DecidableEq κ] {cache : LockedCache κ ν} {key : κ}
    (h : cache.find? key = none) : claimOf cache key = .claimed := by
  unfold claimOf
  rw [LockedCache.get_fst, h]

/-! ## Runs -/

/-- What a value does to the state once it has been built. -/
def storeOutcome (stored : ν → σ → σ) : Outcome PyError ν × σ → σ
  | (.returned value, s) => stored value s
  | (.raised _, s) => s
  | (.pending, s) => s

section Runs

variable {h : Handler I σ} {claim : Prog I PyError (Claim ν)} {store : ν → Prog I PyError Unit}
  {release : Prog I PyError Unit} {factory : Prog I PyError ν} {s t : σ}

theorem run_getOrSet_hit {value : ν} (hclaim : claim.run h s = (.returned (.hit value), t)) :
    (getOrSet claim store release factory).run h s = (.returned value, t) := by
  unfold getOrSet
  rw [run_bind, hclaim]
  rfl

/-- A value that is missing comes from the factory and is stored. -/
theorem run_getOrSet_claimed {stored : ν → σ → σ} (hclaim : claim.run h s = (.returned .claimed, t))
    (hstore : ∀ value u, (store value).run h u = (.returned (), stored value u))
    (hrelease : ∀ u, release.run h u = (.returned (), u)) :
    (getOrSet claim store release factory).run h s =
      ((factory.run h t).1, storeOutcome stored (factory.run h t)) := by
  unfold getOrSet
  rw [run_bind, hclaim]
  simp only [continueRun, run_tryFinally, run_bind]
  generalize factory.run h t = r
  obtain ⟨out, u⟩ := r
  cases out with
  | returned value =>
    simp only [continueRun, run_bind, hstore, finishRun, hrelease, pure_eq_ret, run, storeOutcome]
  | raised e => simp only [continueRun, finishRun, run_bind, hrelease, run, storeOutcome]
  | pending => rfl

end Runs

end McritSimilarity
