import McritSimilarity.Lib.Machine
import McritSimilarity.VisitHolds

/-!
# Visits that wait for each other

Any number of visits of any number of providers, in any order of their operations.  The visits of a provider
share its samples and its entity locks, and all visits share the corpus payloads.  A claim or a lock that somebody
else holds makes a visit wait.

* `visitsNeverDeadlock`: a visit that cannot go on waits for one that can, or that still polls a job.
* `samplesAgree`: per provider, a sample is built by one visit at a time and, once built, never again.
-/

set_option autoImplicit false

namespace McritSimilarity

open Python Prog

/-- What a visit may wait for; `π` are the providers. -/
inductive Resource (π : Type) where
  | sample (provider : π) (key : String × String)
  | corpus (key : CorpusKey)
  | entities (provider : π) (nodeId : ℤ)
  deriving DecidableEq

/-- The resource that a visit holds. -/
def Held.resource {π : Type} (provider : π) : Held → Option (Resource π)
  | .nothing => none
  | .sample key _ => some (.sample provider key)
  | .corpus key => some (.corpus key)
  | .entities nodeId => some (.entities provider nodeId)

/-- The caches and, for each resource that is in use, the visit that holds it. -/
structure VisitCaches (π τ : Type) where
  samples : π → LockedCache (String × String) SampleRef
  corpus : LockedCache CorpusKey Json
  owner : Resource π → Option τ

section Visits

variable {π τ : Type} [DecidableEq π] [DecidableEq τ]

namespace VisitCaches

def take (s : VisitCaches π τ) (r : Resource π) (t : τ) : VisitCaches π τ :=
  { s with owner := Function.update s.owner r (some t) }

def giveBack (s : VisitCaches π τ) (r : Resource π) : VisitCaches π τ :=
  { s with owner := Function.update s.owner r none }

def withSamples (s : VisitCaches π τ) (p : π) (cache : LockedCache (String × String) SampleRef) : VisitCaches π τ :=
  { s with samples := Function.update s.samples p cache }

omit [DecidableEq τ] in
theorem samples_withSamples (s : VisitCaches π τ) (p c : π) (cache : LockedCache (String × String) SampleRef) :
    (s.withSamples p cache).samples c = if c = p then cache else s.samples c :=
  Function.update_apply _ _ _ _

/-- A resource that is free is taken. -/
def Takes (s : VisitCaches π τ) (r : Resource π) (t : τ) (s' : VisitCaches π τ) : Prop :=
  s.owner r = none ∧ s' = s.take r t

end VisitCaches

variable (provider : τ → π)

/-- What an operation of visit `t` may answer and does.  A visit that waits for a claim may be stopped. -/
def waitSem (t : τ) (s : VisitCaches π τ) : (o : VisitOp) → o.Ans → VisitCaches π τ → Prop
  | .claimSample key, .hit ref, s' => (s.samples (provider t)).find? key = some ref ∧
    s' = s.withSamples (provider t) ((s.samples (provider t)).touch key)
  | .claimSample key, .claimed, s' => (s.samples (provider t)).find? key = none ∧
    s.Takes (.sample (provider t) key) t s'
  | .claimSample _, .stopped, s' => s' = s
  | .storeSample key ref, _, s' => s' = s.withSamples (provider t) ((s.samples (provider t)).store key ref 0)
  | .releaseSample key, _, s' => s' = s.giveBack (.sample (provider t) key)
  | .claimCorpus key, .hit payload, s' => s.corpus.find? key = some payload ∧
    s' = { s with corpus := s.corpus.touch key }
  | .claimCorpus key, .claimed, s' => s.corpus.find? key = none ∧ s.Takes (.corpus key) t s'
  | .claimCorpus _, .stopped, s' => s' = s
  | .storeCorpus key payload, _, s' => s' = { s with corpus := s.corpus.store key payload 0 }
  | .releaseCorpus key, _, s' => s' = s.giveBack (.corpus key)
  | .lockEntities nodeId, _, s' => s.Takes (.entities (provider t) nodeId) t s'
  | .unlockEntities nodeId, _, s' => s' = s.giveBack (.entities (provider t) nodeId)
  | _, _, s' => s' = s

abbrev VisitPool (π τ : Type) := Pool τ VisitI PyError Bool (VisitCaches π τ)

def waitStep (p : VisitPool π τ) (l : τ × Event VisitI) (q : VisitPool π τ) : Prop :=
  p.OpStep (waitSem provider l.1) l.1 l.2.1 l.2.2 q

/-- The arguments of a visit. -/
structure EdgeCall where
  fuel : ℕ
  fromNode : SessionNode
  toNode : SessionNode
  config : ProviderConfig

/-- No visit has begun, and the providers are new. -/
structure Fresh (rt : Runtime) (calls : τ → EdgeCall) (p : VisitPool π τ) : Prop where
  threads : ∀ t, p.threads t = some
    (performVisitNodeEdge rt (calls t).fuel (calls t).fromNode (calls t).toNode (calls t).config)
  samples : ∀ provider, p.shared.samples provider = .new none none false
  owner : ∀ r, p.shared.owner r = none

/-! ## Owners -/

/-- Every visit owns what it holds in its protocol. -/
def OwnsHeld (phase : τ → Held) (s : VisitCaches π τ) : Prop :=
  ∀ r t, s.owner r = some t ↔ (phase t).resource (provider t) = some r

variable {provider}

/-- How an operation changes the owners, and what its visit then holds. -/
inductive OwnerStep (t : τ) (p : π) (held : Held) (s s' : VisitCaches π τ) (held' : Held) : Prop where
  | kept (howner : s'.owner = s.owner) (hheld : held'.resource p = held.resource p)
  | taken (r : Resource π) (hheld : held = .nothing) (hfree : s.owner r = none)
      (howner : s'.owner = Function.update s.owner r (some t)) (hheld' : held'.resource p = some r)
  | given (r : Resource π) (hheld : held.resource p = some r) (howner : s'.owner = Function.update s.owner r none)
      (hheld' : held' = .nothing)

omit [DecidableEq τ] in
theorem ownerStep_of_waitSem {t : τ} {held : Held} {s s' : VisitCaches π τ} {o : VisitOp} {a : o.Ans}
    (hallows : held.allows o) (h : waitSem provider t s o a s') :
    OwnerStep t (provider t) held s s' (held.next o a) := by
  cases o with
  | claimSample key =>
    cases a with
    | hit ref => exact .kept (by rw [h.2]; rfl) rfl
    | claimed => exact .taken (.sample (provider t) key) hallows h.2.1 (by rw [h.2.2]; rfl) rfl
    | stopped => exact .kept (by rw [show s' = s from h]) rfl
  | claimCorpus key =>
    cases a with
    | hit payload => exact .kept (by rw [h.2]) rfl
    | claimed => exact .taken (.corpus key) hallows h.2.1 (by rw [h.2.2]; rfl) rfl
    | stopped => exact .kept (by rw [show s' = s from h]) rfl
  | lockEntities nodeId =>
    exact .taken (.entities (provider t) nodeId) hallows h.1 (by rw [h.2]; rfl) rfl
  | storeSample key ref =>
    obtain rfl : held = .sample key false := hallows
    exact .kept (by rw [show s' = _ from h]; rfl) rfl
  | releaseSample key =>
    obtain ⟨stored, rfl⟩ := hallows
    exact .given (.sample (provider t) key) rfl (by rw [show s' = _ from h]; rfl) rfl
  | storeCorpus key payload => exact .kept (by rw [show s' = _ from h]) rfl
  | releaseCorpus key =>
    obtain rfl : held = .corpus key := hallows
    exact .given (.corpus key) rfl (by rw [show s' = _ from h]; rfl) rfl
  | unlockEntities nodeId =>
    obtain rfl : held = .entities nodeId := hallows
    exact .given (.entities (provider t) nodeId) rfl (by rw [show s' = _ from h]; rfl) rfl
  | _ => exact .kept (by rw [show s' = s from h]) rfl

/-- The visit that takes a step owns what it then holds, and the others own what they did. -/
theorem OwnerStep.owner {t : τ} {p : π} {held held' : Held} {s s' : VisitCaches π τ}
    (h : OwnerStep t p held s s' held') (hs : ∀ r, s.owner r = some t ↔ held.resource p = some r)
    (r : Resource π) (u : τ) :
    s'.owner r = some u ↔ if u = t then held'.resource p = some r else s.owner r = some u := by
  cases h with
  | kept howner hheld =>
    rw [howner, hheld]
    split_ifs with hu
    · rw [hu, hs]
    · rfl
  | taken r' hheld hfree howner hheld' =>
    have hnone : ∀ r, s.owner r ≠ some t := fun r hr => by
      rw [hs, hheld] at hr
      cases hr
    rw [howner, hheld', Function.update_apply]
    by_cases hr : r = r'
    · subst hr
      rw [if_pos rfl, hfree]
      by_cases hu : u = t <;> simp [hu, Ne.symm]
    · rw [if_neg hr, Option.some.injEq]
      split_ifs with hu
      · subst hu
        exact iff_of_false (hnone r) (Ne.symm hr)
      · rfl
  | given r' hheld howner hheld' =>
    have howned : s.owner r' = some t := (hs r').2 hheld
    rw [howner, hheld', Function.update_apply]
    by_cases hr : r = r'
    · subst hr
      rw [if_pos rfl, howned]
      by_cases hu : u = t
      · simp [hu, Held.resource]
      · simp [hu, Ne.symm hu]
    · rw [if_neg hr]
      split_ifs with hu
      · subst hu
        rw [hs, hheld]
        simp [Held.resource, Ne.symm hr]
      · rfl

theorem OwnsHeld.step {phase : τ → Held} {t : τ} {s s' : VisitCaches π τ} {o : VisitOp} {a : o.Ans}
    (hs : OwnsHeld provider phase s) (hallows : (phase t).allows o) (h : waitSem provider t s o a s') :
    OwnsHeld provider (Function.update phase t ((phase t).next o a)) s' := by
  intro r u
  rw [(ownerStep_of_waitSem hallows h).owner (fun r => hs r t), Function.update_apply]
  split_ifs with hu
  · rw [hu]
  · exact hs r u

/-! ## No deadlock -/

/-- The resource that an operation waits for. -/
def VisitOp.awaited (p : π) : VisitOp → Option (Resource π)
  | .claimSample key => some (.sample p key)
  | .claimCorpus key => some (.corpus key)
  | .lockEntities nodeId => some (.entities p nodeId)
  | _ => none

/-- The claim was given up for a stop of the session. -/
def IsStopped : Event VisitI → Prop
  | ⟨.claimSample _, .stopped⟩ => True
  | ⟨.claimCorpus _, .stopped⟩ => True
  | _ => False

/-- The visit can take its next step, and not by being stopped. -/
def CanProceed (provider : τ → π) (p : VisitPool π τ) (t : τ) : Prop :=
  ∃ e q, ¬ IsStopped e ∧ waitStep provider p (t, e) q

/-- The answers of the caches to visit `t`; `answer` gives all others. -/
def waitHandler (provider : τ → π) (answer : (o : VisitOp) → o.Ans) (t : τ) : Handler VisitI (VisitCaches π τ)
  | .claimSample key, s =>
    match (s.samples (provider t)).find? key with
    | some ref => (.hit ref, s.withSamples (provider t) ((s.samples (provider t)).touch key))
    | none => (.claimed, s.take (.sample (provider t) key) t)
  | .storeSample key ref, s => ((), s.withSamples (provider t) ((s.samples (provider t)).store key ref 0))
  | .releaseSample key, s => ((), s.giveBack (.sample (provider t) key))
  | .claimCorpus key, s =>
    match s.corpus.find? key with
    | some payload => (.hit payload, { s with corpus := s.corpus.touch key })
    | none => (.claimed, s.take (.corpus key) t)
  | .storeCorpus key payload, s => ((), { s with corpus := s.corpus.store key payload 0 })
  | .releaseCorpus key, s => ((), s.giveBack (.corpus key))
  | .lockEntities nodeId, s => ((), s.take (.entities (provider t) nodeId) t)
  | .unlockEntities nodeId, s => ((), s.giveBack (.entities (provider t) nodeId))
  | o, s => (answer o, s)

/-- Whether visit `t` need not wait: nobody owns what it claims or locks, or it is in a cache. -/
def waitReady (provider : τ → π) (t : τ) (s : VisitCaches π τ) : VisitOp → Bool
  | .claimSample key =>
    ((s.samples (provider t)).find? key).isSome || (s.owner (.sample (provider t) key)).isNone
  | .claimCorpus key => (s.corpus.find? key).isSome || (s.owner (.corpus key)).isNone
  | .lockEntities nodeId => (s.owner (.entities (provider t) nodeId)).isNone
  | _ => true

omit [DecidableEq τ] in
theorem waitSem_ready (provider : τ → π) (answer : (o : VisitOp) → o.Ans) (t : τ) (s : VisitCaches π τ) (o : VisitOp)
    (ho : waitReady provider t s o = true) :
    waitSem provider t s o (waitHandler provider answer t o s).1 (waitHandler provider answer t o s).2 := by
  cases o with
  | claimSample key =>
    cases hfind : (s.samples (provider t)).find? key with
    | some ref =>
      simp only [waitHandler, hfind]
      exact ⟨hfind, rfl⟩
    | none =>
      simp only [waitHandler, hfind]
      exact ⟨hfind, by simpa [waitReady, hfind] using ho, rfl⟩
  | claimCorpus key =>
    cases hfind : s.corpus.find? key with
    | some payload =>
      simp only [waitHandler, hfind]
      exact ⟨hfind, rfl⟩
    | none =>
      simp only [waitHandler, hfind]
      exact ⟨hfind, by simpa [waitReady, hfind] using ho, rfl⟩
  | lockEntities nodeId => exact ⟨Option.isNone_iff_eq_none.1 ho, rfl⟩
  | _ => exact rfl

omit [DecidableEq τ] in
theorem not_isStopped_waitHandler (provider : τ → π) (answer : (o : VisitOp) → o.Ans) (t : τ) (s : VisitCaches π τ)
    (o : VisitOp) : ¬ IsStopped ⟨o, (waitHandler provider answer t o s).1⟩ := by
  cases o with
  | claimSample key => cases hfind : (s.samples (provider t)).find? key <;> simp [waitHandler, hfind, IsStopped]
  | claimCorpus key => cases hfind : s.corpus.find? key <;> simp [waitHandler, hfind, IsStopped]
  | _ => exact id

omit [DecidableEq τ] in
/-- An operation is answered unless somebody holds what it waits for. -/
theorem exists_waitSem (provider : τ → π) (t : τ) (s : VisitCaches π τ) (o : VisitOp)
    (hfree : ∀ r, o.awaited (provider t) = some r → s.owner r = none) :
    ∃ a s', ¬ IsStopped ⟨o, a⟩ ∧ waitSem provider t s o a s' := by
  have hready : waitReady provider t s o = true := by
    cases o with
    | claimSample key => simp [waitReady, hfree _ rfl]
    | claimCorpus key => simp [waitReady, hfree _ rfl]
    | lockEntities nodeId => simp [waitReady, hfree _ rfl]
    | _ => rfl
  exact ⟨_, _, not_isStopped_waitHandler provider idleAnswer t s o,
    waitSem_ready provider idleAnswer t s o hready⟩

omit [DecidableEq π] in
/-- What a visit that holds something does next does not wait. -/
theorem awaited_eq_none {held : Held} {o : VisitOp} (hallows : held.allows o) (hheld : held ≠ .nothing) (p : π) :
    o.awaited p = none := by
  cases o <;> first | rfl | exact absurd hallows hheld

/-- The visits after the operations so far: each keeps to its protocol, and owns what it holds there. -/
structure Ordered (provider : τ → π) (tr : List (τ × Event VisitI)) (p : VisitPool π τ) (phase : τ → Held) : Prop where
  begun : ∀ t, ∃ prog, p.threads t = some prog
  tracked : p.Tracked holdProtocol (fun _ _ held => held = .nothing) (fun _ phase s => OwnsHeld provider phase s)
    tr phase

/-- What visit `l.1` holds after its operation. -/
def phaseAfter (phase : τ → Held) (l : τ × Event VisitI) : τ → Held :=
  Function.update phase l.1 ((phase l.1).next l.2.1 l.2.2)

theorem Ordered.step {tr : List (τ × Event VisitI)} {p q : VisitPool π τ} {phase : τ → Held} {l : τ × Event VisitI}
    (h : Ordered provider tr p phase) (hstep : waitStep provider p l q) :
    (phase l.1).allows l.2.1 ∧ Ordered provider (tr ++ [l]) q (phaseAfter phase l) := by
  obtain ⟨k, hk, -, hthreads⟩ := id hstep
  refine ⟨(h.tracked.1 _ _ hk).1, fun t => ?_, h.tracked.step hstep fun hallowed hsem =>
    OwnsHeld.step h.tracked.2 hallowed hsem⟩
  rw [hthreads, Function.update_apply]
  split_ifs
  · exact ⟨_, rfl⟩
  · exact h.begun t

omit [DecidableEq π] [DecidableEq τ] in
theorem Fresh.ordered {rt : Runtime} {calls : τ → EdgeCall} {p : VisitPool π τ} (h : Fresh rt calls p) :
    Ordered provider [] p fun _ => .nothing where
  begun := fun t => ⟨_, h.threads t⟩
  tracked := by
    refine ⟨fun t prog ht => ?_, fun r t => ?_⟩
    · rw [h.threads, Option.some.injEq] at ht
      subst ht
      exact holdsNothing_performVisitNodeEdge _ _ _ _ _
    · rw [h.owner]
      exact ⟨nofun, nofun⟩

theorem ordered_of_steps {rt : Runtime} {calls : τ → EdgeCall} {p q : VisitPool π τ} {tr : List (τ × Event VisitI)}
    (hfresh : Fresh rt calls p) (hrun : Steps (waitStep provider) p tr q) :
    ∃ phase, Ordered provider tr q phase :=
  hrun.invariant_trace (P := fun tr q => ∃ phase, Ordered provider tr q phase)
    (fun _ _ _ _ ⟨_, hs⟩ hstep => ⟨_, (hs.step hstep).2⟩) ⟨_, hfresh.ordered⟩

/-- A visit that holds something can go on, unless it polls a job. -/
theorem Ordered.canProceed {tr : List (τ × Event VisitI)} {p : VisitPool π τ} {phase : τ → Held}
    (h : Ordered provider tr p phase) {t : τ} (hheld : phase t ≠ .nothing) :
    CanProceed provider p t ∨ p.threads t = some .spin := by
  obtain ⟨prog, ht⟩ := h.begun t
  have hfollows := h.tracked.1 t prog ht
  cases prog with
  | ret b => exact absurd hfollows hheld
  | raise e => exact absurd hfollows hheld
  | spin => exact Or.inr ht
  | call o k =>
    have hawaited := awaited_eq_none (π := π) hfollows.1 hheld (provider t)
    obtain ⟨a, s', hstop, hsem⟩ := exists_waitSem provider t p.shared o
      fun r hr => absurd (hawaited.symm.trans hr) nofun
    exact Or.inl ⟨⟨o, a⟩, _, hstop, Pool.opStep_call ht hsem⟩

/-- In every state that any number of visits reach, a visit that is not at its end can go on, or waits for
another one that can, or that still polls the server for a job. -/
theorem visitsNeverDeadlock {rt : Runtime} {calls : τ → EdgeCall} {p q : VisitPool π τ}
    {tr : List (τ × Event VisitI)} (hfresh : Fresh rt calls p) (hrun : Steps (waitStep provider) p tr q)
    {t : τ} (ht : q.Running t) :
    CanProceed provider q t ∨ ∃ o k r u, q.threads t = some (.call o k) ∧ o.awaited (provider t) = some r ∧
      q.shared.owner r = some u ∧ (CanProceed provider q u ∨ q.threads u = some .spin) := by
  obtain ⟨phase, hq⟩ := ordered_of_steps hfresh hrun
  obtain ⟨o, k, hk⟩ := ht
  by_cases hfree : ∀ r, o.awaited (provider t) = some r → q.shared.owner r = none
  · obtain ⟨a, s', hstop, hsem⟩ := exists_waitSem provider t q.shared o hfree
    exact Or.inl ⟨⟨o, a⟩, _, hstop, Pool.opStep_call hk hsem⟩
  · simp only [not_forall] at hfree
    obtain ⟨r, hr, howner⟩ := hfree
    obtain ⟨u, hu⟩ := Option.ne_none_iff_exists'.1 howner
    have hheld : phase u ≠ .nothing := fun hnothing => by
      have hresource := (hq.tracked.2 r u).1 hu
      rw [hnothing] at hresource
      cases hresource
    exact Or.inr ⟨o, k, r, u, hk, hr, hu, hq.canProceed hheld⟩

/-- A visit at its end owns nothing: whatever ended it, it has given back every claim and lock. -/
theorem endedVisitsOwnNothing {rt : Runtime} {calls : τ → EdgeCall} {p q : VisitPool π τ}
    {tr : List (τ × Event VisitI)} (hfresh : Fresh rt calls p) (hrun : Steps (waitStep provider) p tr q)
    {t : τ} (ht : (∃ b, q.threads t = some (.ret b)) ∨ ∃ e, q.threads t = some (.raise e)) (r : Resource π) :
    q.shared.owner r ≠ some t := by
  obtain ⟨phase, hq⟩ := ordered_of_steps hfresh hrun
  have hnothing : phase t = .nothing := by
    rcases ht with ⟨b, hb⟩ | ⟨e, he⟩
    · exact hq.tracked.1 t _ hb
    · exact hq.tracked.1 t _ he
  intro howner
  have hresource := (hq.tracked.2 r t).1 howner
  rw [hnothing] at hresource
  cases hresource

end Visits

/-! ## Two visits of one provider -/

def edgeRuntime : Runtime := ⟨fun _ => none, fun _ => ""⟩

/-- Both visits are of the edge between two views, and may upload what they export. -/
def edgeCall : EdgeCall :=
  ⟨0, ⟨7, some 0, [], []⟩, ⟨3, some 1, [10], []⟩, { server := remoteServer, persistSamples := true }⟩

/-- The views hold the files `aa` and `bb`.  The server takes `aa` as its sample 5, and refuses whatever is about
`bb`. -/
def edgeAnswer : (o : VisitOp) → o.Ans
  | .exportReport view => .ok { emptyReport with sha256 := if view = 0 then "aa" else "bb" }
  | .server _ (.getSampleBySha256 sha256) => if sha256 = "aa" then .ok none else .error (unavailable "")
  | .server _ (.addReport _) => .ok (.dict [("sample_info", .dict [("sample_id", .int 5)])])
  | o => idleAnswer o

abbrev edgeHandler : Bool → Handler VisitI (VisitCaches Unit Bool) := waitHandler (fun _ => ()) edgeAnswer

abbrev edgeReady : Bool → VisitCaches Unit Bool → VisitOp → Bool := waitReady fun _ => ()

def edgePool : VisitPool Unit Bool :=
  ⟨⟨fun _ => .new none none false, .new (some 4) none false, fun _ => none⟩, fun _ => some
    (performVisitNodeEdge edgeRuntime 0 edgeCall.fromNode edgeCall.toNode edgeCall.config)⟩

theorem fresh_edgePool : Fresh edgeRuntime (fun _ : Bool => edgeCall) edgePool :=
  ⟨fun _ => rfl, fun _ => rfl, fun _ => rfl⟩

/-- The key of the sample of `aa`. -/
def edgeKey : String × String := (remoteServer, "aa")

/-- The first visit claims the sample of `aa`, and the second one comes to claim it as well. -/
def waitingSchedule : List Bool := List.replicate 9 true ++ List.replicate 8 false

def waitingPool : VisitPool Unit Bool := edgePool.runs edgeHandler waitingSchedule

/-- The first one uploads and stores the sample, which the second one then gets; each of them claims the sample of `bb`
and is refused. -/
def endingSchedule : List Bool := List.replicate 4 true ++ List.replicate 6 false ++ List.replicate 5 true

def endedPool : VisitPool Unit Bool := waitingPool.runs edgeHandler endingSchedule

def edgeTrace : List (Bool × Event VisitI) :=
  edgePool.traceOf edgeHandler waitingSchedule ++ waitingPool.traceOf edgeHandler endingSchedule

theorem steps_waitingPool : Steps (waitStep fun _ => ()) edgePool (edgePool.traceOf edgeHandler waitingSchedule)
    waitingPool := by
  have hready : edgePool.allReady edgeHandler edgeReady waitingSchedule = true := by decide +kernel
  exact Pool.steps_runs (waitSem_ready (fun _ => ()) edgeAnswer) hready

theorem steps_endedPool : Steps (waitStep fun _ => ()) edgePool edgeTrace endedPool := by
  have hready : waitingPool.allReady edgeHandler edgeReady endingSchedule = true := by decide +kernel
  exact steps_waitingPool.append (Pool.steps_runs (waitSem_ready (fun _ => ()) edgeAnswer) hready)

/-- The second visit waits for the claim of the first one, which can go on. -/
theorem visitsNeverDeadlock_waitingPool :
    edgeReady false waitingPool.shared (.claimSample edgeKey) = false ∧
      waitingPool.shared.owner (.sample () edgeKey) = some true ∧
        (CanProceed (fun _ => ()) waitingPool false ∨ ∃ o k r u, waitingPool.threads false = some (.call o k) ∧
          o.awaited () = some r ∧ waitingPool.shared.owner r = some u ∧
            (CanProceed (fun _ => ()) waitingPool u ∨ waitingPool.threads u = some .spin)) := by
  have hnext : (waitingPool.nextOp false).isSome = true := by decide +kernel
  obtain ⟨o, ho⟩ := Option.isSome_iff_exists.1 hnext
  exact ⟨by decide +kernel, by decide +kernel,
    visitsNeverDeadlock fresh_edgePool steps_waitingPool (Pool.running_of_nextOp ho)⟩

/-- The sample that an event claims. -/
def claimedSample : Event VisitI → Option (String × String)
  | ⟨.claimSample key, .claimed⟩ => some key
  | _ => none

/-- The first visit has claimed both samples, the second one while it raised, and has given them back. -/
theorem endedVisitsOwnNothing_endedPool :
    (edgeTrace.filter Prod.fst).filterMap (fun l => claimedSample l.2) = [edgeKey, (remoteServer, "bb")] ∧
      endedPool.returned true = some false ∧ ∀ r, endedPool.shared.owner r ≠ some true := by
  have hreturned : endedPool.returned true = some false := by decide +kernel
  exact ⟨by decide +kernel, hreturned,
    endedVisitsOwnNothing fresh_edgePool steps_endedPool (.inl ⟨_, Pool.threads_of_returned hreturned⟩)⟩

end McritSimilarity
