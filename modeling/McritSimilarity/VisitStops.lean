import McritSimilarity.Lib.Protocol
import McritSimilarity.VisitCalls

/-!
# Stopped visits

A visit polls whether its session asks to stop, and so does an export, which is then cancelled.  `stopsWhenAsked`:
once a visit has seen that it should stop, and as long as the session does not take that back, it calls nothing but
the release of a claim and one more poll, and it ends with `False`.  A corpus query that fails falls back to the
query of the edge, also when it failed for a stop; the poll before that query is the one more.  After the error of a
job it is the poll that tells a stop from a failure in the log.
-/

set_option autoImplicit false

namespace McritSimilarity

open Python Prog

/-! ## Polls of a server program -/

def IsStopPoll : Event SampleI → Prop
  | ⟨.shouldStop, stop⟩ => stop = true
  | _ => False

section Polls

variable {rt : Runtime} {fuel : ℕ} {opts : AwaitOptions}

theorem endsAt_ofExcept {α : Type} (r : Except PyError α) : (Prog.ofExcept r : SampleProg α).EndsAt IsStopPoll := by
  cases r <;> trivial

theorem endsAt_raiseIf (c : Prop) [Decidable c] (e : PyError) :
    (Prog.raiseIf c e : SampleProg Unit).EndsAt IsStopPoll := by
  unfold Prog.raiseIf
  split_ifs <;> trivial

theorem request_endsAt (o : ServerOp) : (request o).EndsAt IsStopPoll :=
  fun a => ⟨False.elim, endsAt_ofExcept a⟩

theorem sleep_endsAt (seconds : ℚ) : (sleep seconds).EndsAt IsStopPoll := fun _ => ⟨False.elim, trivial⟩

theorem finishedRound_endsAt (jobId : String) (st : AwaitState) (job : Json) :
    (finishedRound rt jobId opts st job).EndsAt IsStopPoll := by
  unfold finishedRound
  split_ifs
  · refine .bind (request_endsAt _) fun viaJob => ?_
    unfold unwrittenRound
    split_ifs
    · exact .bind (endsAt_raiseIf _ _) fun _ => .bind (sleep_endsAt _) fun _ => trivial
    · trivial
  · refine .bind (.bind (request_endsAt _) fun result => .bind ?_ fun _ =>
      .bind (endsAt_raiseIf _ _) fun _ => trivial) fun _ => trivial
    unfold jobResultIfNull
    split_ifs
    · exact request_endsAt _
    · trivial

theorem presentRound_endsAt (jobId : String) (st : AwaitState) (job : Json) :
    (presentRound rt jobId opts st job).EndsAt IsStopPoll := by
  refine .bind ?_ fun _ => .bind (endsAt_raiseIf _ _) fun _ => .bind (endsAt_raiseIf _ _) fun _ => ?_
  · unfold reportProgress
    split_ifs
    · refine .bind (endsAt_ofExcept _) fun fraction => ?_
      cases fraction with
      | none => trivial
      | some fraction => exact fun _ => ⟨False.elim, trivial⟩
    · trivial
  · split_ifs
    · exact finishedRound_endsAt jobId _ job
    · exact .bind (sleep_endsAt _) fun _ => trivial

/-- A poll that is obeyed. -/
theorem polledStop_endsAt {α : Type} (stops : Bool) (e : PyError) {p : SampleProg α} (hp : p.EndsAt IsStopPoll) :
    (polledStop stops >>= fun stop => Prog.raiseIf stop e >>= fun _ => p : SampleProg α).EndsAt IsStopPoll := by
  unfold polledStop
  split_ifs
  · intro stop
    cases stop with
    | false => exact ⟨fun h => absurd h Bool.false_ne_true, hp⟩
    | true => exact ⟨fun _ => ⟨_, rfl⟩, trivial⟩
  · exact hp

theorem awaitRound_endsAt (jobId : String) (st : AwaitState) : (awaitRound rt jobId opts st).EndsAt IsStopPoll := by
  refine polledStop_endsAt _ _ (.bind (request_endsAt _) fun job => ?_)
  cases job with
  | none => exact .bind (endsAt_raiseIf _ _) fun _ => .bind (sleep_endsAt _) fun _ => trivial
  | some job => exact presentRound_endsAt jobId st job

theorem awaitJob_endsAt (jobId : String) : (awaitJob rt fuel jobId opts).EndsAt IsStopPoll := by
  unfold awaitJob
  generalize { delay := opts.sleepS : AwaitState } = st
  induction fuel generalizing st with
  | zero => trivial
  | succ fuel ih =>
    refine .bind (awaitRound_endsAt jobId st) fun round => ?_
    cases round with
    | inl result => trivial
    | inr next => exact ih next

theorem resolveMatches_endsAt (payload : Json) : (resolveMatches rt fuel payload opts).EndsAt IsStopPoll := by
  unfold resolveMatches
  split_ifs
  · trivial
  · split
    · trivial
    · refine .bind (awaitJob_endsAt _) fun result => ?_
      split_ifs <;> trivial

theorem awaitIndexing_endsAt (jobId : Option String) : (awaitIndexing rt fuel jobId opts).EndsAt IsStopPoll := by
  cases jobId with
  | none => trivial
  | some jobId => exact .bind (awaitJob_endsAt jobId) fun _ => trivial

theorem existingSample_endsAt (sampleInfo : Json) (sha256 : String) :
    (existingSample rt fuel sampleInfo sha256 opts).EndsAt IsStopPoll :=
  .bind (endsAt_ofExcept _) fun _ => .bind (.bind (request_endsAt _) fun _ => trivial) fun jobId =>
    .bind (awaitIndexing_endsAt jobId) fun _ => trivial

theorem ensureSample_endsAt (server : String) (report : SmdaReport) (labels : SampleLabels) :
    (ensureSample rt fuel server report labels opts).EndsAt IsStopPoll := by
  refine .bind (endsAt_raiseIf _ _) fun _ => .bind (request_endsAt _) fun existing => ?_
  cases existing with
  | some existing => exact existingSample_endsAt existing _
  | none =>
    refine .bind (endsAt_raiseIf _ _) fun _ => .bind (request_endsAt _) fun added =>
      .bind (endsAt_ofExcept _) fun info => ?_
    split_ifs
    · exact existingSample_endsAt info _
    · exact .bind (endsAt_ofExcept _) fun _ => .bind (awaitIndexing_endsAt _) fun _ => trivial

theorem matchSampleVs_endsAt (own other : ℤ) (params : MatchingParams) :
    (matchSampleVs rt fuel own other params opts).EndsAt IsStopPoll :=
  .bind (request_endsAt _) fun _ => resolveMatches_endsAt _

theorem matchSampleCorpus_endsAt (own : ℤ) (params : MatchingParams) :
    (matchSampleCorpus rt fuel own params opts).EndsAt IsStopPoll :=
  .bind (request_endsAt _) fun _ => resolveMatches_endsAt _

end Polls

/-! ## The protocol of a stop -/

/-- Whether a visit has seen that it should stop, and how many more operations it may call then. -/
inductive StopState where
  | going
  | seen (left : ℕ)
  deriving DecidableEq

/-- The release of a claim or one more poll. -/
def VisitOp.EndsVisit : VisitOp → Prop
  | .stopRequested => True
  | .releaseSample _ => True
  | .releaseCorpus _ => True
  | _ => False

/-- The visit is told to stop: by a poll, by an export that was cancelled, or while it waits for a claim. -/
def seesStop : Event VisitI → Bool
  | ⟨.stopRequested, true⟩ => true
  | ⟨.exportReport _, .error (.mcrit .job _)⟩ => true
  | ⟨.claimSample _, .stopped⟩ => true
  | ⟨.claimCorpus _, .stopped⟩ => true
  | _ => false

/-- An operation whose answer is no stop. -/
def VisitOp.IsQuiet (o : VisitOp) : Prop := ∀ a, seesStop ⟨o, a⟩ = false

/-- A poll that finds no stop. -/
def findsNoStop : Event VisitI → Bool
  | ⟨.stopRequested, false⟩ => true
  | _ => false

abbrev SeesStop (e : Event VisitI) : Prop := seesStop e = true

namespace StopState

def allows : StopState → VisitOp → Prop
  | seen left, o => left ≠ 0 ∧ o.EndsVisit
  | _, _ => True

def next : StopState → Event VisitI → StopState
  | going, e => if seesStop e then seen 2 else going
  | seen left, e => if findsNoStop e then going else seen (left - 1)

end StopState

def stopProtocol : Protocol VisitI where
  State := StopState
  allowed := StopState.allows
  next s o a := s.next ⟨o, a⟩

/-- A program that has seen a stop raises, and leaves room for one more operation. -/
def Stopping {α : Type} (out : Outcome PyError α) (s : StopState) : Prop :=
  ∀ left, s = .seen left → left ≠ 0 ∧ ∃ e, out = .raised e

abbrev Stops {α : Type} (p : VisitProg α) : Prop := p.Follows stopProtocol Stopping .going

section Rules

variable {α β : Type}

theorem Stops.bind {p : VisitProg α} {f : α → VisitProg β} (hp : Stops p) (hf : ∀ a, Stops (f a)) :
    Stops (p >>= f) := by
  refine Follows.bind (hp.mono fun out s hs => ?_)
  cases out with
  | returned a =>
    cases s with
    | going => exact hf a
    | seen left =>
      obtain ⟨-, e, he⟩ := hs left rfl
      cases he
  | raised e =>
    rintro left rfl
    exact ⟨(hs left rfl).1, e, rfl⟩
  | pending => trivial

/-- A stop that has just been seen, by a program that raises. -/
def JustSeen (out : Outcome PyError α) (s : StopState) : Prop :=
  s = .going ∨ s = .seen 2 ∧ ∃ e, out = .raised e

theorem JustSeen.stopping {out : Outcome PyError α} {s : StopState} (h : JustSeen out s) : Stopping out s := by
  rcases h with rfl | ⟨rfl, hout⟩
  · exact nofun
  · rintro left hleft
    cases hleft
    exact ⟨nofun, hout⟩

/-- An answer that stops the program at once. -/
theorem justSeen_of_endsAt {p : VisitProg α} (hp : p.EndsAt SeesStop) :
    p.Follows stopProtocol JustSeen .going := by
  induction p with
  | ret a => exact Or.inl rfl
  | raise e => exact Or.inl rfl
  | spin => trivial
  | call o k ih =>
    refine ⟨trivial, fun a => ?_⟩
    by_cases hsees : SeesStop ⟨o, a⟩
    · obtain ⟨e, he⟩ := (hp a).1 hsees
      have hnext : stopProtocol.next StopState.going o a = .seen 2 := if_pos hsees
      rw [he, hnext]
      exact Or.inr ⟨rfl, e, rfl⟩
    · have hnext : stopProtocol.next StopState.going o a = .going := if_neg hsees
      rw [hnext]
      exact ih a (hp a).2

theorem stops_of_endsAt {p : VisitProg α} (hp : p.EndsAt SeesStop) : Stops p :=
  (justSeen_of_endsAt hp).mono fun _ _ h => h.stopping

/-- A part that does not poll. -/
theorem endsAt_of_isQuiet {p : VisitProg α} (hp : p.OnlyCalls VisitOp.IsQuiet) : p.EndsAt SeesStop :=
  hp.endsAt fun o a ho hsees => by rw [SeesStop, ho a] at hsees; cases hsees

/-- The release of a claim, which is the last but one operation after a stop. -/
structure IsRelease (release : VisitProg Unit) : Prop where
  going : release.Follows stopProtocol (fun _ s => s = .going) .going
  seen : release.Follows stopProtocol (fun _ s => s = .seen 1) (.seen 2)

theorem stopping_seen {e : PyError} {left : ℕ} (hleft : left ≠ 0) :
    Stopping (.raised e : Outcome PyError α) (.seen left) := by
  rintro left' h
  cases h
  exact ⟨hleft, e, rfl⟩

theorem stops_tryFinally {p : VisitProg α} (hp : p.EndsAt SeesStop) {release : VisitProg Unit}
    (hrelease : IsRelease release) : Stops (p.tryFinally release) := by
  refine Follows.tryFinally ((justSeen_of_endsAt hp).mono fun out s hs => ?_)
  have hgoing : ∀ out : Outcome PyError α, Stopping out .going := fun _ => nofun
  rcases hs with rfl | ⟨rfl, e, rfl⟩
  · cases out with
    | returned a =>
      refine hrelease.going.mono fun out s hs => ?_
      subst hs
      cases out <;> first | exact hgoing _ | trivial
    | raised e =>
      refine hrelease.going.mono fun out s hs => ?_
      subst hs
      cases out <;> first | exact hgoing _ | trivial
    | pending => trivial
  · refine hrelease.seen.mono fun out s hs => ?_
    subst hs
    cases out <;> first | exact stopping_seen nofun | trivial

/-- Where a claim leads that may be given up for a stop. -/
def ClaimStops {ν : Type} : Outcome PyError (Claim ν) → StopState → Prop
  | .returned .stopped, s => s = .seen 2
  | _, s => s = .going

theorem stops_getOrSet {ν : Type} {claim : VisitProg (Claim ν)} {store : ν → VisitProg Unit}
    {release : VisitProg Unit} {factory : VisitProg ν} (hclaim : claim.Follows stopProtocol ClaimStops .going)
    (hfactory : factory.EndsAt SeesStop) (hstore : ∀ value, (store value).EndsAt SeesStop)
    (hrelease : IsRelease release) : Stops (getOrSet claim store release factory) := by
  refine Follows.bind (hclaim.mono fun out s hs => ?_)
  cases out with
  | raised e =>
    obtain rfl : s = .going := hs
    exact nofun
  | pending => trivial
  | returned answer =>
    cases answer with
    | hit value =>
      obtain rfl : s = .going := hs
      exact nofun
    | stopped =>
      obtain rfl : s = .seen 2 := hs
      exact stopping_seen nofun
    | claimed =>
      obtain rfl : s = .going := hs
      have hbuild : (do let value ← factory; store value; return value : VisitProg ν).EndsAt SeesStop :=
        hfactory.bind fun value => EndsAt.bind (hstore value) fun _ => trivial
      exact stops_tryFinally hbuild hrelease

end Rules

/-! ## A visit -/

section Visit

variable {rt : Runtime} {fuel : ℕ} {config : ProviderConfig} {client : McritClient} {fromNode toNode : SessionNode}

theorem onServer_endsAt {α : Type} (client : McritClient) (start stop : ℚ) {p : SampleProg α}
    (hp : p.EndsAt IsStopPoll) : (onServer client start stop p).EndsAt SeesStop := by
  refine hp.lift fun o a hsees => ?_
  cases o with
  | shouldStop =>
    cases a with
    | true => rfl
    | false => cases hsees
  | _ => cases hsees

theorem stops_sample (report : SmdaReport) (span : Span) : Stops (sample rt fuel client config report span) := by
  refine stops_getOrSet ⟨trivial, fun a => ?_⟩ (onServer_endsAt client _ _ (ensureSample_endsAt _ _ _))
    (fun ref a => ⟨nofun, trivial⟩) ⟨⟨trivial, fun _ => rfl⟩, ⟨nofun, trivial⟩, fun _ => rfl⟩
  cases a <;> rfl

theorem stops_sharedPayload (toSample : SampleRef) (ids : Finset ℤ) :
    Stops (sharedPayload rt fuel client config toSample ids) := by
  refine stops_getOrSet ⟨trivial, fun a => ?_⟩ (onServer_endsAt client _ _ (matchSampleCorpus_endsAt _ _))
    (fun payload => ?_) ⟨⟨trivial, fun _ => rfl⟩, ⟨nofun, trivial⟩, fun _ => rfl⟩
  · cases a <;> rfl
  · split_ifs
    · exact fun _ => ⟨nofun, trivial⟩
    · trivial

theorem endsAt_ask {o : VisitOp} (h : ∀ a, seesStop ⟨o, a⟩ = false) : (ask o).EndsAt SeesStop :=
  fun a => ⟨fun hsees => (Bool.false_ne_true ((h a).symm.trans hsees)).elim, trivial⟩

/-- A poll whose answer the program obeys. -/
theorem endsAt_poll {α : Type} {p : VisitProg α} (hp : p.EndsAt SeesStop) :
    (do let stop ← ask .stopRequested; Prog.raiseIf (stop = true) .stopped; p : VisitProg α).EndsAt SeesStop := by
  intro stop
  cases stop with
  | true => exact ⟨fun _ => ⟨_, rfl⟩, trivial⟩
  | false => exact ⟨nofun, hp⟩

theorem advance_endsAt (progress : ℚ) : (advance progress).EndsAt SeesStop := by
  refine fun _ => ⟨nofun, fun stop => ?_⟩
  cases stop with
  | true => exact ⟨fun _ => ⟨_, rfl⟩, trivial⟩
  | false => exact ⟨nofun, trivial⟩

theorem ofExcept_endsAt {α : Type} (r : Except PyError α) : (Prog.ofExcept r : VisitProg α).EndsAt SeesStop := by
  cases r <;> trivial

theorem exportReport_endsAt (view : ViewId) : (exportReport view).EndsAt SeesStop := by
  intro report
  cases report with
  | ok report => exact ⟨nofun, trivial⟩
  | error e => exact ⟨fun _ => ⟨e, rfl⟩, trivial⟩

theorem stops_incomingSampleIds (views : List (Option ViewId)) (ids : Finset ℤ) :
    Stops (incomingSampleIds rt fuel client config views ids) := by
  induction views generalizing ids with
  | nil => exact nofun
  | cons view views ih =>
    cases view with
    | none => exact nofun
    | some view =>
      exact (stops_of_endsAt (exportReport_endsAt view)).bind fun report =>
        (stops_sample report none).bind fun ref => ih _

/-- A failed corpus query is answered by `None`, also when it failed for a stop. -/
theorem corpusPayload_follows (toSample : SampleRef) : (corpusPayload rt fuel client config toNode toSample).Follows
    stopProtocol (fun out s => ∀ left, s = .seen left → left ≠ 0 ∧ out = .returned .null) .going := by
  unfold corpusPayload
  split_ifs
  · exact nofun
  have htry : Stops (tryCorpusPayload rt fuel client config toNode toSample) := by
    refine (stops_incomingSampleIds _ _).bind fun ids => ?_
    cases ids with
    | none => exact nofun
    | some ids => exact stops_sharedPayload toSample ids
  refine Follows.tryCatch (htry.mono fun out s hs => ?_)
  cases out with
  | returned payload =>
    rintro left rfl
    obtain ⟨-, e, he⟩ := hs left rfl
    cases he
  | raised e =>
    rintro left rfl
    exact ⟨(hs left rfl).1, rfl⟩
  | pending => trivial

/-- A program that has seen a stop raises, and `_Stopped` unless it leaves room for one more operation. -/
def Halted {α : Type} (out : Outcome PyError α) (s : StopState) : Prop :=
  ∀ left, s = .seen left → ∃ e, out = .raised e ∧ (left = 0 → e = .stopped)

abbrev Halts {α : Type} (p : VisitProg α) : Prop := p.Follows stopProtocol Halted .going

theorem Stops.halts {α : Type} {p : VisitProg α} (hp : Stops p) : Halts p :=
  hp.mono fun _ _ hs left hleft =>
    have ⟨hroom, e, he⟩ := hs left hleft
    ⟨e, he, fun h => absurd h hroom⟩

theorem Halts.bind {α β : Type} {p : VisitProg α} {f : α → VisitProg β} (hp : Halts p) (hf : ∀ a, Halts (f a)) :
    Halts (p >>= f) := by
  refine Follows.bind (hp.mono fun out s hs => ?_)
  cases out with
  | returned a =>
    cases s with
    | going => exact hf a
    | seen left =>
      obtain ⟨e, he, -⟩ := hs left rfl
      cases he
  | raised e =>
    intro left hleft
    obtain ⟨e', he, hroom⟩ := hs left hleft
    cases he
    exact ⟨e, rfl, hroom⟩
  | pending => trivial

theorem edgeQuery_endsAt (fromSample toSample : SampleRef) :
    (onServer client (55 / 100) (88 / 100) (matchSampleVs rt fuel toSample.sampleId fromSample.sampleId
      (matchingParams config))).EndsAt SeesStop :=
  onServer_endsAt client _ _ (matchSampleVs_endsAt _ _ _)

/-- The poll before an edge query, when a stop was seen before it. -/
theorem edgePayload_follows (fromSample toSample : SampleRef) {left : ℕ} (hleft : left ≠ 0) :
    (edgePayload rt fuel client config fromSample toSample).Follows stopProtocol Halted (.seen left) := by
  refine ⟨⟨hleft, trivial⟩, fun stop => ?_⟩
  cases stop with
  | true => exact fun _ _ => ⟨_, rfl, fun _ => rfl⟩
  | false => exact (stops_of_endsAt (edgeQuery_endsAt fromSample toSample)).halts

theorem halts_matchPayload (fromSample toSample : SampleRef) :
    Halts (matchPayload rt fuel client config toNode fromSample toSample) := by
  have hedge : Halts (edgePayload rt fuel client config fromSample toSample) :=
    (stops_of_endsAt (endsAt_poll (edgeQuery_endsAt fromSample toSample))).halts
  have hrest : ∀ shared : Json, Halts (if shared.isNull then edgePayload rt fuel client config fromSample toSample
      else pure shared) := fun shared => by
    split_ifs
    · exact hedge
    · exact nofun
  unfold matchPayload
  split_ifs
  · refine Follows.bind ((corpusPayload_follows toSample).mono fun out s hs => ?_)
    cases out with
    | returned shared =>
      cases s with
      | going => exact hrest shared
      | seen left =>
        obtain ⟨hleft, hnull⟩ := hs left rfl
        obtain rfl := Outcome.returned.inj hnull
        exact edgePayload_follows fromSample toSample hleft
    | raised e =>
      rintro left rfl
      obtain ⟨-, hnull⟩ := hs left rfl
      cases hnull
    | pending => trivial
  · exact hrest .null

theorem emitPairs_endsAt (pairs : List MatchPair) : (emitPairs fromNode toNode pairs).EndsAt SeesStop := by
  induction pairs with
  | nil => trivial
  | cons pair pairs ih =>
    exact endsAt_poll (.bind (endsAt_ask fun _ => rfl) fun _ => .bind ih fun _ => trivial)

theorem emitMatches_endsAt (matched : List FunctionMatch) (targets : Targets) (sourceIndex targetIndex : EntityIndex) :
    (emitMatches fromNode toNode matched targets sourceIndex targetIndex).EndsAt SeesStop := by
  refine .bind (endsAt_ask fun _ => rfl) fun _ => .bind (emitPairs_endsAt _) fun emitted => ?_
  split_ifs
  · trivial
  · exact .bind (endsAt_ask fun _ => rfl) fun _ => trivial

theorem lookupTargets_endsAt (server : String) (fids : List ℤ) :
    (lookupTargets rt client server fids).EndsAt SeesStop := by
  have hmissing : (missingOffsets server fids).EndsAt SeesStop := by
    induction fids with
    | nil => trivial
    | cons fid fids ih => exact .bind (endsAt_ask fun _ => rfl) fun _ => .bind ih fun _ => trivial
  have hset : ∀ found, (setOffsets server found).EndsAt SeesStop := fun found => by
    induction found with
    | nil => trivial
    | cons e found ih => exact .bind (endsAt_ask fun _ => rfl) fun _ => ih
  have hknown : ∀ known, (knownOffsets server fids known).EndsAt SeesStop := by
    clear hmissing
    induction fids with
    | nil => exact fun _ => trivial
    | cons fid fids ih => exact fun _ => .bind (endsAt_ask fun _ => rfl) fun _ => ih _
  refine .bind hmissing fun missing => .bind ?_ fun _ => hknown _
  unfold fetchOffsets
  split_ifs
  · trivial
  · exact .bind (onServer_endsAt client _ _ (request_endsAt _)) fun _ => hset _

/-- The block under the entity lock does not poll. -/
theorem targetEntities_endsAt (view : ViewId) (report : SmdaReport) (matched : List FunctionMatch) :
    (targetEntities fromNode view report matched).EndsAt SeesStop :=
  endsAt_of_isQuiet <| .bind (ask_onlyCalls fun _ => rfl) fun _ => .tryFinally
    (.bind (ask_onlyCalls fun _ => rfl) fun _ =>
      addMatchOnlyEntities_onlyCalls (fun _ _ _ => rfl) (fun _ _ _ _ => rfl) _ _ _ _ _)
    (ask_onlyCalls fun _ => rfl)

theorem visitPayload_endsAt (fromView : ViewId) (fromReport : SmdaReport) (fromSample : SampleRef) (payload : Json) :
    (visitPayload rt fromNode toNode fromView config client fromReport fromSample payload).EndsAt SeesStop :=
  .bind (ofExcept_endsAt _) fun _ => .bind (lookupTargets_endsAt _ _) fun _ => .bind (advance_endsAt _) fun _ =>
    .bind (endsAt_ask fun _ => rfl) fun _ => .bind (targetEntities_endsAt _ _ _) fun _ => emitMatches_endsAt _ _ _ _

theorem stops_resolve :
    Stops (resolve (fun corpus => ask (.endpoint corpus) >>= Prog.ofExcept) config) :=
  stops_of_endsAt <| endsAt_of_isQuiet <| onlyCalls_resolve (I := VisitI)
    (fun corpus => .bind (ask_onlyCalls (o := .endpoint corpus) fun _ => rfl) fun _ => onlyCalls_ofExcept _) config

theorem stops_visitSetup (fromView toView : ViewId) : Stops (visitSetup rt fuel fromView toView config) := by
  have hadvance := fun progress => stops_of_endsAt (advance_endsAt progress)
  have hexport := fun view => stops_of_endsAt (exportReport_endsAt view)
  refine (hadvance _).bind fun _ => (hexport _).bind fun fromReport => (hadvance _).bind fun _ =>
    (hexport _).bind fun toReport => (hadvance _).bind fun _ => stops_resolve.bind fun config => ?_
  -- The client is not looked into.
  generalize clientFor config = built
  exact Stops.bind (stops_of_endsAt (ofExcept_endsAt _)) fun client =>
    (stops_sample fromReport _).bind fun fromSample => (hadvance _).bind fun _ =>
    (stops_sample toReport _).bind fun toSample => (hadvance _).bind fun _ => nofun

/-- A visit that has seen a stop returns `False`. -/
def GivesUp (out : Outcome PyError Bool) (s : StopState) : Prop := ∀ left, s = .seen left → out = .returned false

/-- The poll of the log is the last operation. -/
theorem visitFailed_follows {e : PyError} {s : StopState} (h : ∀ left, s = .seen left → left = 0 → e = .stopped) :
    (visitFailed e).Follows stopProtocol GivesUp s := by
  by_cases hstopped : e = .stopped
  · subst hstopped
    exact fun _ _ => rfl
  · have hallowed : s.allows .stopRequested := by
      cases s with
      | going => trivial
      | seen left => exact ⟨fun hleft => hstopped (h left rfl hleft), trivial⟩
    rcases visitFailed_cases e with heq | heq <;> rw [heq]
    · exact ⟨hallowed, fun _ _ _ => rfl⟩
    · exact fun _ _ => rfl

theorem performVisitNodeEdge_givesUp (rt : Runtime) (fuel : ℕ) (fromNode toNode : SessionNode)
    (config : ProviderConfig) :
    (performVisitNodeEdge rt fuel fromNode toNode config).Follows stopProtocol GivesUp .going := by
  have hedge : Halts (visitEdge rt fuel fromNode toNode config) := by
    unfold visitEdge
    split_ifs
    · exact nofun
    split
    · refine (stops_visitSetup _ _).halts.bind fun s => (halts_matchPayload _ _).bind fun payload => ?_
      exact (stops_of_endsAt (.bind (advance_endsAt _) fun _ => visitPayload_endsAt _ _ _ _)).halts
    · exact nofun
  refine Follows.tryCatch (hedge.mono fun out s hs => ?_)
  cases out with
  | returned result =>
    rintro left rfl
    obtain ⟨e, he, -⟩ := hs left rfl
    cases he
  | raised e =>
    refine visitFailed_follows fun left hleft hroom => ?_
    obtain ⟨e', he, hstopped⟩ := hs left hleft
    cases he
    exact hstopped hroom
  | pending => trivial

end Visit

/-! ## Runs of a visit -/

namespace StopState

def after (s : StopState) (tr : List (Event VisitI)) : StopState := stopProtocol.after s tr

@[simp] theorem after_cons (s : StopState) (e : Event VisitI) (tr : List (Event VisitI)) :
    s.after (e :: tr) = (s.next e).after tr := rfl

theorem after_append (s : StopState) (tr tr' : List (Event VisitI)) : s.after (tr ++ tr') = (s.after tr).after tr' :=
  stopProtocol.after_append s tr tr'

theorem next_going (e : Event VisitI) : going.next e = if seesStop e then seen 2 else going := rfl

theorem next_seen (left : ℕ) (e : Event VisitI) :
    (seen left).next e = if findsNoStop e then going else seen (left - 1) := rfl

/-- Two operations at most are left after a stop. -/
def IsShort (s : StopState) : Prop := ∀ left, s = seen left → left ≤ 2

theorem IsShort.next {s : StopState} (hs : s.IsShort) (e : Event VisitI) : (s.next e).IsShort := by
  intro left h
  cases s with
  | going =>
    rw [next_going] at h
    split_ifs at h
    cases h
    exact le_rfl
  | seen n =>
    have hn := hs n rfl
    rw [next_seen] at h
    split_ifs at h
    cases h
    omega

theorem IsShort.after {s : StopState} (hs : s.IsShort) (tr : List (Event VisitI)) : (s.after tr).IsShort := by
  induction tr generalizing s with
  | nil => exact hs
  | cons e tr ih => exact ih (hs.next e)

/-- An operation that sees a stop leaves two operations at most. -/
theorem IsShort.next_sees {s : StopState} (hs : s.IsShort) {e : Event VisitI} (hsees : SeesStop e) :
    ∃ left, left ≤ 2 ∧ s.next e = seen left := by
  cases s with
  | going => exact ⟨2, le_rfl, if_pos hsees⟩
  | seen n =>
    have hfinds : findsNoStop e = false := by
      obtain ⟨o, a⟩ := e
      cases o with
      | stopRequested =>
        cases a with
        | true => rfl
        | false => cases hsees
      | _ => rfl
    refine ⟨n - 1, (Nat.sub_le n 1).trans (hs n rfl), ?_⟩
    rw [next_seen, hfinds]
    rfl

/-- What follows a stop that is not taken back. -/
theorem after_seen {tr : List (Event VisitI)} {left : ℕ} (hkept : ∀ e ∈ tr, findsNoStop e = false)
    (hallowed : ∀ before e rest, tr = before ++ e :: rest → ((seen left).after before).allows e.1) :
    tr.length ≤ left ∧ (∀ e ∈ tr, e.1.EndsVisit) ∧ (seen left).after tr = seen (left - tr.length) := by
  induction tr generalizing left with
  | nil => exact ⟨Nat.zero_le _, fun _ he => absurd he List.not_mem_nil, rfl⟩
  | cons e tr ih =>
    have hnext : (seen left).next e = seen (left - 1) := by
      rw [next_seen, hkept e List.mem_cons_self]
      rfl
    obtain ⟨hleft, hends⟩ : left ≠ 0 ∧ e.1.EndsVisit := hallowed [] e tr rfl
    obtain ⟨hlength, hall, hafter⟩ : tr.length ≤ left - 1 ∧ (∀ e ∈ tr, e.1.EndsVisit) ∧
        (seen (left - 1)).after tr = seen (left - 1 - tr.length) :=
      ih (fun e' he' => hkept e' (List.mem_cons_of_mem _ he')) fun before e' rest htr => by
        rw [← hnext, ← after_cons]
        exact hallowed (e :: before) e' rest (by rw [htr, List.cons_append])
    refine ⟨?_, ?_, ?_⟩
    · rw [List.length_cons]
      omega
    · intro e' he'
      rcases List.mem_cons.1 he' with rfl | he'
      · exact hends
      · exact hall e' he'
    · rw [after_cons, hnext, hafter, List.length_cons, Nat.sub_sub, Nat.add_comm 1]

end StopState

/-- A visit that is told to stop calls two more operations at most, and neither starts anything: the release of
its claim and a poll.  It returns `False`, also when a failed corpus query would have been asked again. -/
theorem stopsWhenAsked {rt : Runtime} {fuel : ℕ} {fromNode toNode : SessionNode} {config : ProviderConfig}
    {before after : List (Event VisitI)} {e : Event VisitI} {out : Outcome PyError Bool}
    (h : Exec (performVisitNodeEdge rt fuel fromNode toNode config) (before ++ e :: after) out) (hsees : SeesStop e)
    (hkept : ∀ e' ∈ after, findsNoStop e' = false) :
    after.length ≤ 2 ∧ (∀ e' ∈ after, e'.1.EndsVisit) ∧ (out = .pending ∨ out = .returned false) := by
  obtain ⟨hallowed, hpost⟩ := (performVisitNodeEdge_givesUp rt fuel fromNode toNode config).exec h
  have hstart : StopState.going.IsShort := nofun
  obtain ⟨left, hleft, hseen⟩ := (hstart.after before).next_sees hsees
  have happend : ∀ tr, StopState.going.after (before ++ e :: tr) = (StopState.seen left).after tr := fun tr => by
    rw [StopState.after_append, StopState.after_cons, hseen]
  obtain ⟨hlength, hends, hafter⟩ := StopState.after_seen hkept fun before' e' rest htr => by
    rw [← happend]
    exact hallowed (before ++ e :: before') e' rest (by rw [htr, List.append_assoc, List.cons_append])
  refine ⟨hlength.trans hleft, hends, hpost.imp_right fun hout => hout (left - after.length) ?_⟩
  exact (happend after).trans hafter

/-! ## A stop under a claim -/

def stoppedReport : SmdaReport := { emptyReport with sha256 := "aa" }

/-- The answer to an upload that the server is still to index. -/
def stoppedUpload : Json := .dict [("sample_info", .dict [("sample_id", .int 5)]), ("job_id", .str "j")]

/-- The session asks to stop once the sample has been uploaded. -/
def stoppedHandler : Handler VisitI Bool
  | .exportReport _, uploaded => (.ok stoppedReport, uploaded)
  | .claimSample _, uploaded => (.claimed, uploaded)
  | .server _ (.getSampleBySha256 _), uploaded => (.ok none, uploaded)
  | .server _ (.addReport _), _ => (.ok stoppedUpload, true)
  | .stopRequested, uploaded => (uploaded, uploaded)
  | o, uploaded => (idleAnswer o, uploaded)

def stoppedVisit : VisitProg Bool :=
  performVisitNodeEdge ⟨fun _ => none, fun _ => ""⟩ 4 ⟨7, some 0, [], []⟩ ⟨3, some 1, [10], []⟩
    { server := remoteServer, persistSamples := true }

def stoppedClient : McritClient := ⟨remoteServer, none, none, some 30⟩

def beforeStop : List (Event VisitI) :=
  [⟨.setProgress (.finite (2 / 100)), ()⟩, ⟨.stopRequested, false⟩, ⟨.exportReport 0, Except.ok stoppedReport⟩,
    ⟨.setProgress (.finite (18 / 100)), ()⟩, ⟨.stopRequested, false⟩, ⟨.exportReport 1, Except.ok stoppedReport⟩,
    ⟨.setProgress (.finite (32 / 100)), ()⟩, ⟨.stopRequested, false⟩,
    ⟨.claimSample (remoteServer, "aa"), Claim.claimed⟩,
    ⟨.server stoppedClient (.getSampleBySha256 "aa"), Except.ok none⟩,
    ⟨.server stoppedClient (.addReport ⟨stoppedReport, "", ""⟩), Except.ok stoppedUpload⟩]

/-- The claim is given back, and the log asks once more. -/
def afterStop : List (Event VisitI) := [⟨.releaseSample (remoteServer, "aa"), ()⟩, ⟨.stopRequested, true⟩]

theorem exec_stoppedVisit :
    Exec stoppedVisit (beforeStop ++ ⟨.stopRequested, true⟩ :: afterStop) (.returned false) := by
  have htrace : stoppedVisit.runTrace stoppedHandler false = beforeStop ++ ⟨.stopRequested, true⟩ :: afterStop := by
    with_unfolding_all rfl
  have hout : (stoppedVisit.run stoppedHandler false).1 = .returned false := by
    with_unfolding_all rfl
  rw [← htrace, ← hout]
  exact exec_run stoppedHandler stoppedVisit false

/-- The stop is seen by the poll of a wait for the index, while the visit holds the claim of a sample. -/
theorem stopsWhenAsked_stoppedVisit : Exec stoppedVisit (beforeStop ++ ⟨.stopRequested, true⟩ :: afterStop)
      (.returned false) ∧ afterStop.length ≤ 2 ∧ (∀ e ∈ afterStop, e.1.EndsVisit) ∧
        ∀ out, Exec stoppedVisit (beforeStop ++ ⟨.stopRequested, true⟩ :: afterStop) out →
          out = .pending ∨ out = .returned false := by
  have hkept : ∀ e ∈ afterStop, findsNoStop e = false := by
    intro e he
    rcases List.mem_pair.1 he with rfl | rfl <;> rfl
  obtain ⟨hlength, hends, -⟩ := stopsWhenAsked exec_stoppedVisit rfl hkept
  exact ⟨exec_stoppedVisit, hlength, hends, fun out h => (stopsWhenAsked h rfl hkept).2.2⟩

end McritSimilarity
