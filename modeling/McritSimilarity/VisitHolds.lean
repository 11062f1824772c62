import McritSimilarity.Lib.Protocol
import McritSimilarity.VisitCalls

/-!
# What a visit holds

A visit makes others wait in three ways: it builds a sample or a corpus payload under a claim, or it holds the
entity lock of a node.  `holdProtocol` says what it may call meanwhile.  `holdsNothing_performVisitNodeEdge`: a visit
never claims or locks anything while it holds something, uploads a sample only under its claim, and holds
nothing at its end, however it ends.
-/

set_option autoImplicit false

namespace McritSimilarity

open Python Prog

inductive Held where
  | nothing
  /-- The claim of a sample, and whether the sample has been stored. -/
  | sample (key : String × String) (stored : Bool)
  | corpus (key : CorpusKey)
  | entities (nodeId : ℤ)
  deriving DecidableEq

namespace Held

/-- What a visit may call while it holds something.  Exports and the start of the built-in server may
wait for other threads as well. -/
def allows : Held → VisitOp → Prop
  | held, .claimSample _ => held = nothing
  | held, .claimCorpus _ => held = nothing
  | held, .lockEntities _ => held = nothing
  | held, .exportReport _ => held = nothing
  | held, .endpoint _ => held = nothing
  | held, .updateLabels _ => held = nothing
  | held, .addResult _ _ _ _ => held = nothing
  | held, .storeSample key _ => held = sample key false
  | held, .releaseSample key => ∃ stored, held = sample key stored
  | held, .storeCorpus key _ => held = corpus key
  | held, .releaseCorpus key => held = corpus key
  | held, .createEntity nodeId _ _ => held = entities nodeId
  | held, .unlockEntities nodeId => held = entities nodeId
  | held, .server _ (.addReport upload) => ∃ server, held = sample (server, upload.report.sha256) false
  | _, _ => True

def next (held : Held) : (o : VisitOp) → o.Ans → Held
  | .claimSample key, .claimed => sample key false
  | .storeSample key _, _ => sample key true
  | .claimCorpus key, .claimed => corpus key
  | .lockEntities nodeId, _ => entities nodeId
  | .releaseSample _, _ => nothing
  | .releaseCorpus _, _ => nothing
  | .unlockEntities _, _ => nothing
  | _, _ => held

end Held

def holdProtocol : Protocol VisitI where
  State := Held
  allowed := Held.allows
  next := Held.next

/-- The program keeps to the protocol and ends with nothing held. -/
abbrev HoldsNothing {α : Type} (p : VisitProg α) : Prop :=
  p.Follows holdProtocol (fun _ held => held = .nothing) .nothing

variable {rt : Runtime} {fuel : ℕ}

/-! ## Parts that hold what they held -/

/-- Neither takes nor gives back anything, and may be called at any time. -/
def VisitOp.IsAside : VisitOp → Prop
  | .server _ (.addReport _) => False
  | .server _ _ => True
  | .stopRequested => True
  | .setProgress _ => True
  | .sleep _ => True
  | .getOffset _ => True
  | .setOffset _ _ => True
  | .entities _ => True
  | .functionAt _ _ => True
  | _ => False

/-- May be called while nothing is held, and takes nothing. -/
def VisitOp.IsFree : VisitOp → Prop
  | .exportReport _ => True
  | .endpoint _ => True
  | .updateLabels _ => True
  | .addResult _ _ _ _ => True
  | o => o.IsAside

theorem VisitOp.IsAside.isFree {o : VisitOp} (h : o.IsAside) : o.IsFree := by
  cases o <;> first | exact h | exact h.elim

theorem VisitOp.IsAside.kept {o : VisitOp} (h : o.IsAside) (held : Held) :
    held.allows o ∧ ∀ a, held.next o a = held := by
  cases o with
  | server client o =>
    cases o with
    | addReport => exact h.elim
    | _ => exact ⟨trivial, fun _ => rfl⟩
  | stopRequested => exact ⟨trivial, fun _ => rfl⟩
  | setProgress => exact ⟨trivial, fun _ => rfl⟩
  | sleep => exact ⟨trivial, fun _ => rfl⟩
  | getOffset => exact ⟨trivial, fun _ => rfl⟩
  | setOffset => exact ⟨trivial, fun _ => rfl⟩
  | entities => exact ⟨trivial, fun _ => rfl⟩
  | functionAt => exact ⟨trivial, fun _ => rfl⟩
  | _ => exact h.elim

theorem VisitOp.IsFree.kept {o : VisitOp} (h : o.IsFree) :
    Held.nothing.allows o ∧ ∀ a, Held.nothing.next o a = .nothing := by
  cases o with
  | exportReport => exact ⟨rfl, fun _ => rfl⟩
  | endpoint => exact ⟨rfl, fun _ => rfl⟩
  | updateLabels => exact ⟨rfl, fun _ => rfl⟩
  | addResult => exact ⟨rfl, fun _ => rfl⟩
  | _ =>
    refine VisitOp.IsAside.kept ?_ .nothing
    exact h

theorem holdsNothing_of_isFree {α : Type} {p : VisitProg α} (h : p.OnlyCalls VisitOp.IsFree) :
    HoldsNothing p :=
  h.follows (P := holdProtocol) fun _ ho => ho.kept

/-! ### Requests -/

/-- An upload is one of this sample. -/
def UploadsSample (sha256 : String) : SampleOp → Prop
  | .server (.addReport upload) => upload.report.sha256 = sha256
  | _ => True

theorem NoUpload.uploads {o : SampleOp} (h : NoUpload o) (sha256 : String) : UploadsSample sha256 o := by
  cases o with
  | server o => cases o <;> first | exact h.elim | trivial
  | _ => trivial

theorem ensureSample_uploads (server : String) (report : SmdaReport) (labels : SampleLabels)
    (opts : AwaitOptions) :
    (ensureSample rt fuel server report labels opts).OnlyCalls (UploadsSample report.sha256) := by
  have hexisting : ∀ info, (existingSample rt fuel info report.sha256 opts).OnlyCalls (UploadsSample report.sha256) :=
    fun info => (existingSample_onlyCalls rt fuel info _ opts).mono fun _ ho => ho.uploads _
  refine .bind (onlyCalls_raiseIf _ _) fun _ => .bind (request_onlyCalls trivial) fun existing => ?_
  cases existing with
  | some existing => exact hexisting existing
  | none =>
    refine .bind (onlyCalls_raiseIf _ _) fun _ => .bind (request_onlyCalls rfl) fun added =>
      .bind (onlyCalls_ofExcept _) fun info => ?_
    split_ifs
    · exact hexisting info
    · refine .bind (onlyCalls_ofExcept _) fun _ => .bind ?_ fun _ => trivial
      exact (awaitIndexing_onlyCalls rt fuel _ opts).mono fun _ ho => ho.uploads _

theorem onServer_isAside {α : Type} (client : McritClient) (start stop : ℚ) {p : SampleProg α}
    (h : p.OnlyCalls NoUpload) : (onServer client start stop p).OnlyCalls VisitOp.IsAside := by
  refine h.lift fun o ho => ?_
  cases o with
  | server o => cases o <;> first | exact ho.elim | trivial
  | _ => trivial

/-- Uploads are those of the sample that is held. -/
theorem onServer_follows {α : Type} (client : McritClient) (start stop : ℚ) {p : SampleProg α} (key : String × String)
    (h : p.OnlyCalls (UploadsSample key.2)) : (onServer client start stop p).Follows holdProtocol
      (fun _ held => held = .sample key false) (.sample key false) := by
  refine OnlyCalls.follows (P := holdProtocol)
    (Q := fun o => Held.allows (.sample key false) o ∧ ∀ a, Held.next (.sample key false) o a = .sample key false)
    (h.lift fun o ho => ?_) fun _ ho => ho
  cases o with
  | server o =>
    cases o with
    | addReport upload =>
      refine ⟨⟨key.1, ?_⟩, fun _ => rfl⟩
      rw [show upload.report.sha256 = key.2 from ho]
    | _ => exact ⟨trivial, fun _ => rfl⟩
  | _ => exact ⟨trivial, fun _ => rfl⟩

/-! ## Claims -/

/-- Where a claim leads. -/
def ClaimEnds {ν : Type} (held : Held) : Outcome PyError (Claim ν) → Held → Prop
  | .returned .claimed, h => h = held
  | _, h => h = .nothing

/-- A claim is given back, whatever becomes of the factory. -/
theorem holdsNothing_getOrSet {ν : Type} {claim : VisitProg (Claim ν)} {store : ν → VisitProg Unit}
    {release : VisitProg Unit} {factory : VisitProg ν} (held : Held) (Owned : Held → Prop) (howned : Owned held)
    (hclaim : claim.Follows holdProtocol (ClaimEnds held) .nothing)
    (hfactory : factory.Follows holdProtocol (fun _ h => h = held) held)
    (hstore : ∀ value, (store value).Follows holdProtocol (fun _ => Owned) held)
    (hrelease : ∀ h, Owned h → release.Follows holdProtocol (fun _ h => h = .nothing) h) :
    HoldsNothing (getOrSet claim store release factory) := by
  refine Follows.bind (hclaim.mono fun out h hends => ?_)
  cases out with
  | raised e => exact hends
  | pending => trivial
  | returned answer =>
    cases answer with
    | hit value => exact hends
    | stopped => exact hends
    | claimed =>
      obtain rfl : h = held := hends
      -- The factory and the store end with the claim still held.
      have hbuild : (do let value ← factory; store value; return value : VisitProg ν).Follows holdProtocol
          (fun _ => Owned) h := by
        refine hfactory.andThen (fun value => Follows.bind ((hstore value).mono fun out t ht => ?_)) fun _ => howned
        cases out <;> first | exact ht | trivial
      refine Follows.tryFinally (hbuild.mono fun out t ht => ?_)
      cases out with
      | returned value =>
        refine (hrelease t ht).mono fun out t ht => ?_
        cases out <;> first | exact ht | trivial
      | raised e =>
        refine (hrelease t ht).mono fun out t ht => ?_
        cases out <;> first | exact ht | trivial
      | pending => trivial

theorem holdsNothing_sample (client : McritClient) (config : ProviderConfig) (report : SmdaReport) (span : Span) :
    HoldsNothing (sample rt fuel client config report span) := by
  refine holdsNothing_getOrSet (.sample (config.server, report.sha256) false)
    (fun h => ∃ stored, h = .sample (config.server, report.sha256) stored) ⟨false, rfl⟩ ⟨rfl, fun a => ?_⟩
    ?_ (fun ref => ⟨rfl, fun _ => ⟨true, rfl⟩⟩) fun h howned => ⟨howned, fun _ => rfl⟩
  · cases a <;> rfl
  · exact onServer_follows client _ _ (config.server, report.sha256) (ensureSample_uploads _ _ _ _)

theorem holdsNothing_sharedPayload (client : McritClient) (config : ProviderConfig) (toSample : SampleRef)
    (ids : Finset ℤ) : HoldsNothing (sharedPayload rt fuel client config toSample ids) := by
  refine holdsNothing_getOrSet (.corpus (corpusKey config toSample ids))
    (fun h => h = .corpus (corpusKey config toSample ids)) rfl ⟨rfl, fun a => ?_⟩ ?_ (fun payload => ?_)
    fun h howned => ⟨howned, fun _ => rfl⟩
  · cases a <;> rfl
  · exact (onServer_isAside client _ _ (matchSampleCorpus_onlyCalls _ _ _ _ _)).follows (P := holdProtocol)
      fun _ ho => ho.kept _
  · split_ifs
    · exact ⟨rfl, fun _ => rfl⟩
    · exact rfl

/-! ## A visit -/

section Visit

variable (config : ProviderConfig) (client : McritClient) (fromNode toNode : SessionNode)

theorem ask_isFree {o : VisitOp} (h : o.IsFree) : (ask o).OnlyCalls VisitOp.IsFree := ask_onlyCalls h

theorem advance_isFree (progress : ℚ) : (advance progress).OnlyCalls VisitOp.IsFree :=
  .bind (ask_isFree trivial) fun _ => .bind (ask_isFree trivial) fun _ => onlyCalls_raiseIf _ _

theorem exportReport_isFree (view : ViewId) : (exportReport view).OnlyCalls VisitOp.IsFree :=
  .bind (ask_isFree trivial) fun _ => onlyCalls_ofExcept _

theorem resolve_isFree :
    (resolve (fun corpus => ask (.endpoint corpus) >>= Prog.ofExcept) config).OnlyCalls VisitOp.IsFree :=
  onlyCalls_resolve (I := VisitI)
    (fun corpus => .bind (ask_isFree (o := .endpoint corpus) trivial) fun _ => onlyCalls_ofExcept _) config

theorem onServer_isFree {α : Type} {start stop : ℚ} {p : SampleProg α} (h : p.OnlyCalls NoUpload) :
    (onServer client start stop p).OnlyCalls VisitOp.IsFree :=
  (onServer_isAside client start stop h).mono fun _ ho => ho.isFree

theorem edgePayload_isFree (fromSample toSample : SampleRef) :
    (edgePayload rt fuel client config fromSample toSample).OnlyCalls VisitOp.IsFree :=
  .bind (ask_isFree trivial) fun _ => .bind (onlyCalls_raiseIf _ _) fun _ =>
    onServer_isFree client (matchSampleVs_onlyCalls _ _ _ _ _ _)

theorem lookupTargets_isFree (server : String) (fids : List ℤ) :
    (lookupTargets rt client server fids).OnlyCalls VisitOp.IsFree := by
  have hmissing : (missingOffsets server fids).OnlyCalls VisitOp.IsFree := by
    induction fids with
    | nil => trivial
    | cons fid fids ih => exact .bind (ask_isFree trivial) fun _ => .bind ih fun _ => trivial
  have hset : ∀ found, (setOffsets server found).OnlyCalls VisitOp.IsFree := fun found => by
    induction found with
    | nil => trivial
    | cons e found ih => exact .bind (ask_isFree trivial) fun _ => ih
  have hknown : ∀ known, (knownOffsets server fids known).OnlyCalls VisitOp.IsFree := by
    clear hmissing
    induction fids with
    | nil => exact fun _ => trivial
    | cons fid fids ih => exact fun _ => .bind (ask_isFree trivial) fun _ => ih _
  refine .bind hmissing fun missing => .bind ?_ fun _ => hknown _
  unfold fetchOffsets
  split_ifs
  · trivial
  · exact .bind (onServer_isFree client (request_onlyCalls trivial)) fun _ => hset _

theorem emitMatches_isFree (matched : List FunctionMatch) (targets : Targets) (sourceIndex targetIndex : EntityIndex) :
    (emitMatches fromNode toNode matched targets sourceIndex targetIndex).OnlyCalls VisitOp.IsFree := by
  have hpairs : ∀ pairs, (emitPairs fromNode toNode pairs).OnlyCalls VisitOp.IsFree := fun pairs => by
    induction pairs with
    | nil => trivial
    | cons pair pairs ih =>
      exact .bind (ask_isFree trivial) fun _ => .bind (onlyCalls_raiseIf _ _) fun _ =>
        .bind (ask_isFree trivial) fun _ => .bind ih fun _ => trivial
  refine .bind (ask_isFree trivial) fun _ => .bind (hpairs _) fun emitted => ?_
  split_ifs
  · trivial
  · exact .bind (ask_isFree trivial) fun _ => trivial

variable {config client fromNode toNode}

/-- Something that holds nothing at its end comes before any other such program. -/
theorem HoldsNothing.bind {α β : Type} {p : VisitProg α} {f : α → VisitProg β} (hp : HoldsNothing p)
    (hf : ∀ a, HoldsNothing (f a)) : HoldsNothing (p >>= f) :=
  Follows.andThen hp hf fun _ => rfl

theorem HoldsNothing.tryCatch {α : Type} {p : VisitProg α} {f : PyError → VisitProg α} (hp : HoldsNothing p)
    (hf : ∀ e, HoldsNothing (f e)) : HoldsNothing (p.tryCatch f) := by
  refine Follows.tryCatch (hp.mono fun out held hheld => ?_)
  subst hheld
  cases out with
  | returned a => exact rfl
  | raised e => exact hf e
  | pending => trivial

theorem holdsNothing_incomingSampleIds (views : List (Option ViewId)) (ids : Finset ℤ) :
    HoldsNothing (incomingSampleIds rt fuel client config views ids) := by
  induction views generalizing ids with
  | nil => exact rfl
  | cons view views ih =>
    cases view with
    | none => exact rfl
    | some view =>
      exact (holdsNothing_of_isFree (exportReport_isFree view)).bind fun report =>
        (holdsNothing_sample client config report none).bind fun ref => ih _

theorem holdsNothing_matchPayload (fromSample toSample : SampleRef) :
    HoldsNothing (matchPayload rt fuel client config toNode fromSample toSample) := by
  have hcorpus : HoldsNothing (corpusPayload rt fuel client config toNode toSample) := by
    unfold corpusPayload
    split_ifs
    · exact rfl
    · refine HoldsNothing.tryCatch ?_ fun _ => rfl
      refine (holdsNothing_incomingSampleIds _ _).bind fun ids => ?_
      cases ids with
      | none => exact rfl
      | some ids => exact holdsNothing_sharedPayload client config toSample ids
  refine HoldsNothing.bind ?_ fun shared => ?_
  · split_ifs
    · exact hcorpus
    · exact rfl
  · split_ifs
    · exact holdsNothing_of_isFree (edgePayload_isFree config client fromSample toSample)
    · exact rfl

/-- Entities are created under the lock of their node. -/
theorem holdsNothing_targetEntities (view : ViewId) (report : SmdaReport) (matched : List FunctionMatch) :
    HoldsNothing (targetEntities fromNode view report matched) := by
  have hblock : ∀ index, (addMatchOnlyEntities fromNode view report matched index).OnlyCalls fun o =>
      Held.allows (.entities fromNode.id) o ∧ ∀ a, Held.next (.entities fromNode.id) o a = .entities fromNode.id := by
    intro index
    induction matched generalizing index with
    | nil => trivial
    | cons m matched ih =>
      unfold addMatchOnlyEntities
      split
      · exact ih index
      · split_ifs
        · exact ih index
        · refine .bind (.bind (.bind (ask_onlyCalls ⟨trivial, fun _ => rfl⟩) fun found => ?_) fun found => ?_)
            fun _ => ih _
          · split_ifs
            · trivial
            · exact ask_onlyCalls ⟨trivial, fun _ => rfl⟩
          · split_ifs
            · exact .bind (ask_onlyCalls ⟨rfl, fun _ => rfl⟩) fun _ => trivial
            · trivial
  refine ⟨rfl, fun _ => Follows.tryFinally ?_⟩
  refine Follows.mono (OnlyCalls.follows (P := holdProtocol) (.bind (ask_onlyCalls ⟨trivial, fun _ => rfl⟩)
    fun listed => hblock _) fun _ ho => ho) fun out held hheld => ?_
  subst hheld
  cases out with
  | returned index => exact ⟨rfl, fun _ => rfl⟩
  | raised e => exact ⟨rfl, fun _ => rfl⟩
  | pending => trivial

theorem holdsNothing_visitPayload (fromView : ViewId) (fromReport : SmdaReport) (fromSample : SampleRef)
    (payload : Json) :
    HoldsNothing (visitPayload rt fromNode toNode fromView config client fromReport fromSample payload) :=
  HoldsNothing.bind (holdsNothing_of_isFree (onlyCalls_ofExcept _)) fun _ =>
    HoldsNothing.bind (holdsNothing_of_isFree (lookupTargets_isFree client _ _)) fun _ =>
    HoldsNothing.bind (holdsNothing_of_isFree (advance_isFree _)) fun _ =>
    HoldsNothing.bind (holdsNothing_of_isFree (ask_isFree trivial)) fun _ =>
    HoldsNothing.bind (holdsNothing_targetEntities _ _ _) fun _ =>
      holdsNothing_of_isFree (emitMatches_isFree fromNode toNode _ _ _ _)

theorem holdsNothing_visitSetup (fromView toView : ViewId) :
    HoldsNothing (visitSetup rt fuel fromView toView config) := by
  have hadvance := fun progress => holdsNothing_of_isFree (advance_isFree progress)
  have hexport := fun view => holdsNothing_of_isFree (exportReport_isFree view)
  refine (hadvance _).bind fun _ => (hexport _).bind fun fromReport => (hadvance _).bind fun _ =>
    (hexport _).bind fun toReport => (hadvance _).bind fun _ =>
    (holdsNothing_of_isFree (resolve_isFree config)).bind fun config => ?_
  -- The client is not looked into.
  generalize clientFor config = built
  exact HoldsNothing.bind (holdsNothing_of_isFree (onlyCalls_ofExcept _)) fun client =>
    (holdsNothing_sample client config fromReport _).bind fun fromSample => (hadvance _).bind fun _ =>
    (holdsNothing_sample client config toReport _).bind fun toSample => (hadvance _).bind fun _ => rfl

/-- A visit keeps to the protocol and ends with nothing held, whatever it meets. -/
theorem holdsNothing_performVisitNodeEdge (rt : Runtime) (fuel : ℕ) (fromNode toNode : SessionNode)
    (config : ProviderConfig) : HoldsNothing (performVisitNodeEdge rt fuel fromNode toNode config) := by
  refine HoldsNothing.tryCatch ?_ fun e => holdsNothing_of_isFree (visitFailed_onlyCalls trivial e)
  unfold visitEdge
  split_ifs
  · exact rfl
  split
  · refine (holdsNothing_visitSetup _ _).bind fun s => (holdsNothing_matchPayload _ _).bind fun payload => ?_
    exact (holdsNothing_of_isFree (advance_isFree _)).bind fun _ => holdsNothing_visitPayload _ _ _ _
  · exact rfl

end Visit

end McritSimilarity
