import McritSimilarity.ExportProcess
import McritSimilarity.Lib.Exclusive
import McritSimilarity.Lib.Resources

/-!
# Renders on the UI thread

Exports, preloads, lookups and renders of any open files as threads.  A render has the UI thread to itself, and
`update_analysis_and_wait` ends only while the UI thread is free.  A thread waits besides for the keys that
`get_or_set` is building and for the lock of preloads.

* `rendersNeverDeadlock`: whoever waits, waits in the end for a thread that can go on.
-/

set_option autoImplicit false

namespace McritSimilarity

open Prog

/-! ## What threads wait for -/

inductive ExportResource where
  | uiThread
  /-- `_PRELOAD_LOCK`. -/
  | preload
  | building (key : Σ c : ReportCache, c.Key)
  deriving DecidableEq

/-- A file is hashed inside other blocks. -/
def ExportResource.rank : ExportResource → ℕ
  | uiThread => 0
  | preload => 0
  | building ⟨.rawSha256, _⟩ => 2
  | building _ => 1

namespace ExportOp

/-- What has to be free for an answer. -/
def needs : (o : ExportOp) → o.Ans → Option ExportResource
  | claim c key _, .claimed => some (.building ⟨c, key⟩)
  | updateAnalysis _, _ => some .uiThread
  | lockPreload, _ => some .preload
  | _, _ => none

/-- Analysis needs the UI thread and leaves it free. -/
def takes : (o : ExportOp) → o.Ans → Option ExportResource
  | updateAnalysis _, _ => none
  | o, a => o.needs a

def gives : ExportOp → Option ExportResource
  | release c key => some (.building ⟨c, key⟩)
  | unlockPreload => some .preload
  | _ => none

theorem needs_of_takes {o : ExportOp} {a : o.Ans} {r : ExportResource} (h : o.takes a = some r) :
    o.needs a = some r := by
  cases o with
  | updateAnalysis f => cases h
  | _ => exact h

end ExportOp

/-- How exports, preloads and lookups use what they wait for. -/
def exportDiscipline : Discipline ExportI ExportResource where
  needs := ExportOp.needs
  takes := ExportOp.takes
  gives := ExportOp.gives
  rank := ExportResource.rank
  needs_of_takes := ExportOp.needs_of_takes

/-! ## The calls keep the order -/

section Calls

variable {held : Set ExportResource} {f : FileId}

/-- Nothing is held but what a call holds all along. -/
def Low (held : Set ExportResource) : Prop := ∀ r ∈ held, r.rank = 0

theorem Low.below (h : Low held) (key : Σ c : ReportCache, c.Key) : exportDiscipline.Below held (.building key) := by
  intro r hr
  have hrank : 0 < (ExportResource.building key).rank := by
    obtain ⟨c, key⟩ := key
    cases c <;> simp [ExportResource.rank]
  show r.rank < _
  rw [h r hr]
  exact hrank

/-- A value is built while its key is held. -/
theorem orderly_cached {c : ReportCache} {key : c.Key} {stops : Bool} {factory : ExportProg c.Val}
    (hbelow : exportDiscipline.Below held (.building ⟨c, key⟩))
    (hfactory : factory.Orderly exportDiscipline (insert (.building ⟨c, key⟩) held)
      (insert (.building ⟨c, key⟩) held)) :
    (cached c key stops factory).Orderly exportDiscipline held held := by
  refine ⟨⟨fun a r hr => ?_, nofun⟩, fun answer => ?_⟩
  · cases a with
    | claimed => exact Option.some.inj hr ▸ hbelow
    | _ => cases hr
  · cases answer with
    | hit value => exact Discipline.after_kept rfl rfl
    | stopped => exact Discipline.after_kept rfl rfl
    | claimed =>
      refine Orderly.of_eq (Discipline.after_takes (r := .building ⟨c, key⟩) rfl rfl) ?_
      refine Orderly.tryFinally (hfactory.bind fun value => ?_) ?_
      · exact Orderly.aside ⟨fun _ => rfl, rfl⟩ fun _ => rfl
      · exact Orderly.returns ⟨fun _ => rfl, rfl⟩ hbelow.notMem fun _ => rfl

theorem orderly_rawSha256Cached (hbelow : ∀ key, exportDiscipline.Below held (.building ⟨.rawSha256, key⟩)) :
    (rawSha256Cached f).Orderly exportDiscipline held held := by
  refine Orderly.aside ⟨fun _ => rfl, rfl⟩ fun raw => ?_
  cases raw with
  | none => rfl
  | some raw =>
    show (if raw.length ≤ 0 then pure "" else _ : ExportProg String).Orderly _ _ _
    split_ifs
    · rfl
    · exact orderly_cached (hbelow _) (Orderly.aside ⟨fun _ => rfl, rfl⟩ fun _ => rfl)

theorem orderly_viewCacheKey (hbelow : ∀ key, exportDiscipline.Below held (.building ⟨.rawSha256, key⟩)) :
    (viewCacheKey f).Orderly exportDiscipline held held := by
  refine Orderly.aside ⟨fun _ => rfl, rfl⟩ fun raw => ?_
  cases raw with
  | none => rfl
  | some raw =>
    show (if raw.length ≤ 0 then pure none else _ : ExportProg (Option ReportKey)).Orderly _ _ _
    split_ifs
    · rfl
    · refine (orderly_rawSha256Cached hbelow).bind fun sha256 => ?_
      exact Orderly.aside ⟨fun _ => rfl, rfl⟩ fun _ => rfl

theorem orderly_coldSha256 (hbelow : ∀ key, exportDiscipline.Below held (.building ⟨.rawSha256, key⟩)) :
    (coldSha256 f).Orderly exportDiscipline held held := by
  refine Orderly.aside ⟨fun _ => rfl, rfl⟩ fun raw => ?_
  cases raw with
  | none => rfl
  | some raw =>
    show (if 0 < raw.length ∧ raw.length ≤ coldMaxRawBytes then rawSha256Cached f else pure "" :
      ExportProg String).Orderly _ _ _
    split_ifs
    · exact orderly_rawSha256Cached hbelow
    · rfl

theorem orderly_loadCurrent {sha256 : String} : (loadCurrent f sha256).Orderly exportDiscipline held held := by
  refine Orderly.aside ⟨fun _ => rfl, rfl⟩ fun loaded => ?_
  cases loaded with
  | none => rfl
  | some report => exact Orderly.aside ⟨fun _ => rfl, rfl⟩ fun _ => rfl

theorem orderly_loadSmall {key : ReportKey} : (loadSmall f key).Orderly exportDiscipline held held := by
  refine Orderly.aside ⟨fun _ => rfl, rfl⟩ fun (folder : Bool) => ?_
  show (if folder = false then pure none else _ : ExportProg (Option Report)).Orderly _ _ _
  split_ifs
  · rfl
  · refine Orderly.aside ⟨fun _ => rfl, rfl⟩ fun size => ?_
    cases size with
    | none => rfl
    | some size =>
      show (if size > coldMaxStoredBytes then pure none else loadCurrent f key.1 :
        ExportProg (Option Report)).Orderly _ _ _
      split_ifs
      · rfl
      · exact orderly_loadCurrent

theorem orderly_lookupReport {key : ReportKey} : (lookupReport f key).Orderly exportDiscipline held held := by
  refine Orderly.aside ⟨fun _ => rfl, rfl⟩ fun found => ?_
  cases found with
  | some report => exact Orderly.aside ⟨fun _ => rfl, rfl⟩ fun _ => rfl
  | none =>
    refine Orderly.aside ⟨fun _ => rfl, rfl⟩ fun missed => ?_
    cases missed with
    | some missed => rfl
    | none =>
      refine orderly_loadSmall.bind fun loaded => ?_
      cases loaded with
      | none => exact Orderly.aside ⟨fun _ => rfl, rfl⟩ fun _ => rfl
      | some report =>
        exact Orderly.aside ⟨fun _ => rfl, rfl⟩ fun _ => Orderly.aside ⟨fun _ => rfl, rfl⟩ fun _ => rfl

/-- The file is hashed while the hash of the session is built. -/
theorem orderly_cachedReport (hlow : Low held) : (cachedReport f).Orderly exportDiscipline held held := by
  refine Orderly.aside ⟨fun _ => rfl, rfl⟩ fun found => ?_
  cases found with
  | some key => exact orderly_lookupReport
  | none =>
    have hcold : ∀ key, exportDiscipline.Below (insert (.building ⟨.coldSha256, f⟩) held)
        (.building ⟨.rawSha256, key⟩) :=
      fun key => (hlow.below ⟨.rawSha256, key⟩).insert (Nat.lt_succ_self 1)
    refine (orderly_cached (hlow.below _) (orderly_coldSha256 hcold)).bind fun sha256 => ?_
    split_ifs
    · rfl
    · exact Orderly.aside ⟨fun _ => rfl, rfl⟩ fun _ => orderly_lookupReport

theorem orderly_buildReport : (buildReport f).Orderly exportDiscipline held held := by
  refine Orderly.aside ⟨fun _ => rfl, rfl⟩ fun arch => ?_
  cases arch with
  | none => rfl
  | some arch =>
    refine (orderly_raiseIf _ _).bind fun _ => Orderly.aside ⟨fun _ => rfl, rfl⟩ fun exported => ?_
    exact (orderly_ofExcept _).bind fun report => Orderly.aside ⟨fun _ => rfl, rfl⟩ fun _ => rfl

theorem orderly_loadOrBuild {key : ReportKey} : (loadOrBuild f key).Orderly exportDiscipline held held := by
  have hbuild : (buildAndStore f key.1).Orderly exportDiscipline held held :=
    orderly_buildReport.bind fun report => Orderly.aside ⟨fun _ => rfl, rfl⟩ fun _ => rfl
  refine Orderly.aside ⟨fun _ => rfl, rfl⟩ fun (folder : Bool) => ?_
  show (if folder = false then buildReport f else _).Orderly _ _ _
  split_ifs
  · exact orderly_buildReport
  · refine Orderly.aside ⟨fun _ => rfl, rfl⟩ fun exported => ?_
    have hload : (if Option.isNone exported then loadCurrent f key.1 else pure none :
        ExportProg (Option Report)).Orderly exportDiscipline held held := by
      split_ifs
      · exact orderly_loadCurrent
      · rfl
    refine hload.bind fun loaded => ?_
    cases loaded with
    | none => exact hbuild
    | some report => rfl

theorem orderly_checkStop (stops : Bool) : (checkStop stops).Orderly exportDiscipline held held := by
  unfold checkStop
  split_ifs
  · exact Orderly.aside ⟨fun _ => rfl, rfl⟩ fun (stop : Bool) => orderly_raiseIf (stop = true) _
  · rfl

/-- An export waits for analysis before it holds anything. -/
theorem orderly_exportSmdaReport (stops : Bool) : (exportSmdaReport f stops).Orderly exportDiscipline ∅ ∅ := by
  refine (orderly_checkStop stops).bind fun _ => ⟨⟨fun _ _ _ => Discipline.below_empty, nofun⟩, fun _ => ?_⟩
  refine Orderly.of_eq (Discipline.after_kept rfl rfl) ?_
  refine (orderly_checkStop stops).bind fun _ => ?_
  refine (orderly_viewCacheKey fun _ => Discipline.below_empty).bind fun key => ?_
  cases key with
  | none => exact orderly_buildReport
  | some key =>
    refine (orderly_cached Discipline.below_empty orderly_loadOrBuild).bind fun report => ?_
    exact Orderly.aside ⟨fun _ => rfl, rfl⟩ fun _ => Orderly.aside ⟨fun _ => rfl, rfl⟩ fun _ => rfl

theorem orderly_preloadFile {raw : RawData} (hlow : Low held) :
    (preloadFile f raw).Orderly exportDiscipline held held := by
  refine (orderly_rawSha256Cached fun _ => hlow.below _).bind fun sha256 => ?_
  dsimp only
  split_ifs
  case' pos => refine Orderly.aside ⟨fun _ => rfl, rfl⟩ fun _ => ?_
  all_goals
    refine Orderly.aside ⟨fun _ => rfl, rfl⟩ fun count => Orderly.aside ⟨fun _ => rfl, rfl⟩ fun found => ?_
    cases found with
    | some report => exact Orderly.aside ⟨fun _ => rfl, rfl⟩ fun _ => rfl
    | none =>
      refine orderly_loadCurrent.bind fun loaded => ?_
      cases loaded with
      | none => rfl
      | some report =>
        exact Orderly.aside ⟨fun _ => rfl, rfl⟩ fun _ => Orderly.aside ⟨fun _ => rfl, rfl⟩ fun _ => rfl

theorem orderly_preload (hlow : Low held) : (preload f).Orderly exportDiscipline held held := by
  refine Orderly.aside ⟨fun _ => rfl, rfl⟩ fun (arch : Option String) => ?_
  show (if arch.any (· ∉ smdaArchitectures) then pure () else _ : ExportProg Unit).Orderly _ _ _
  split_ifs
  · rfl
  · refine Orderly.aside ⟨fun _ => rfl, rfl⟩ fun raw =>
      Orderly.aside ⟨fun _ => rfl, rfl⟩ fun (viewType : String) => ?_
    cases raw with
    | none => rfl
    | some raw =>
      show (if viewType = "Raw" ∨ ¬ (0 < raw.length ∧ raw.length ≤ preloadMaxRawBytes) then pure () else _ :
        ExportProg Unit).Orderly _ _ _
      split_ifs
      · rfl
      · refine Orderly.aside ⟨fun _ => rfl, rfl⟩ fun (folder : Bool) => ?_
        show (if folder = false then pure () else _ : ExportProg Unit).Orderly _ _ _
        split_ifs
        · rfl
        · refine Orderly.aside ⟨fun _ => rfl, rfl⟩ fun found => ?_
          cases found with
          | some key => rfl
          | none => exact orderly_preloadFile hlow

theorem orderly_preloadReport : (preloadReport f).Orderly exportDiscipline ∅ ∅ := by
  have hlow : Low (insert ExportResource.preload ∅) := by simp [Low, ExportResource.rank]
  refine ⟨⟨fun _ _ _ => Discipline.below_empty, nofun⟩, fun _ => ?_⟩
  refine Orderly.of_eq (Discipline.after_takes (r := .preload) rfl rfl) ?_
  refine Orderly.tryFinally (Orderly.tryCatch (orderly_preload hlow) fun _ => rfl) ?_
  exact Orderly.returns ⟨fun _ => rfl, rfl⟩ (Set.notMem_empty _) fun _ => rfl

theorem orderly_blockHashes (h : Hashing) {report : Option Report} {address : ℤ} (hlow : Low held) :
    (blockHashes h report address).Orderly exportDiscipline held held := by
  unfold blockHashes
  split
  · rfl
  · split
    · rfl
    · exact orderly_cached (hlow.below _) rfl

theorem orderly_renderBlocks (h : Hashing) {source target : RenderedFunction} (hlow : Low held) :
    (renderBlocks h source target).Orderly exportDiscipline held held := by
  have hreport : ∀ view, (reportForView view).Orderly exportDiscipline held held := by
    intro view
    cases view with
    | none => rfl
    | some f => exact orderly_cachedReport hlow
  refine (hreport _).bind fun sourceReport => (hreport _).bind fun targetReport => ?_
  exact (orderly_blockHashes h hlow).bind fun _ => (orderly_blockHashes h hlow).bind fun _ => rfl

end Calls

/-! ## The UI thread -/

inductive UiOp where
  | takeUi
  | freeUi
  | report (o : ExportOp)

@[reducible] def UiOp.Ans : UiOp → Type
  | takeUi => Unit
  | freeUi => Unit
  | report o => o.Ans

def UiI : Interface := ⟨UiOp, UiOp.Ans⟩

abbrev UiProg := Prog UiI PyError Unit

namespace UiOp

def needs : (o : UiOp) → o.Ans → Option ExportResource
  | takeUi, _ => some .uiThread
  | freeUi, _ => none
  | .report o, a => o.needs a

def takes : (o : UiOp) → o.Ans → Option ExportResource
  | takeUi, _ => some .uiThread
  | freeUi, _ => none
  | .report o, a => o.takes a

def gives : UiOp → Option ExportResource
  | takeUi => none
  | freeUi => some .uiThread
  | .report o => o.gives

theorem needs_of_takes {o : UiOp} {a : o.Ans} {r : ExportResource} (h : o.takes a = some r) : o.needs a = some r := by
  cases o with
  | takeUi => exact h
  | freeUi => cases h
  | report o => exact ExportOp.needs_of_takes h

end UiOp

def uiDiscipline : Discipline UiI ExportResource where
  needs := UiOp.needs
  takes := UiOp.takes
  gives := UiOp.gives
  rank := ExportResource.rank
  needs_of_takes := UiOp.needs_of_takes

/-- A call whose result is not looked at. -/
def besideUi {α : Type} (p : ExportProg α) : UiProg :=
  (do let _ ← p; return () : ExportProg Unit).lift (J := UiI) .report fun _ a => a

/-- The thread of a call.  Binary Ninja renders on the UI thread. -/
def ExportCall.thread (h : Hashing) : ExportCall → UiProg
  | exportReport f stops => besideUi (exportSmdaReport f stops)
  | preload f => besideUi (preloadReport f)
  | cachedReport f => besideUi (McritSimilarity.cachedReport f)
  | render source target => guarded (I := UiI) .takeUi .freeUi (besideUi (renderBlocks h source target))

theorem orderly_besideUi {α : Type} {held : Set ExportResource} {p : ExportProg α}
    (hp : p.Orderly exportDiscipline held held) : (besideUi p).Orderly uiDiscipline held held := by
  have hunit : (do let _ ← p; return () : ExportProg Unit).Orderly exportDiscipline held held := hp.bind fun _ => rfl
  exact Orderly.lift (I := ExportI) (J := UiI) (f := UiOp.report) (fun _ _ => rfl) (fun _ _ => rfl) (fun _ => rfl)
    rfl hunit

theorem orderly_thread (h : Hashing) (c : ExportCall) : (c.thread h).Orderly uiDiscipline ∅ ∅ := by
  cases c with
  | exportReport f stops => exact orderly_besideUi (orderly_exportSmdaReport stops)
  | preload f => exact orderly_besideUi orderly_preloadReport
  | cachedReport f => exact orderly_besideUi (orderly_cachedReport fun _ hr => absurd hr (Set.notMem_empty _))
  | render source target =>
    have hlow : Low (insert ExportResource.uiThread ∅) := by simp [Low, ExportResource.rank]
    refine ⟨⟨fun _ _ _ => Discipline.below_empty, nofun⟩, fun _ => ?_⟩
    refine Orderly.of_eq (Discipline.after_takes (r := .uiThread) rfl rfl) ?_
    refine Orderly.tryFinally (orderly_besideUi (orderly_renderBlocks h hlow)) ?_
    exact Orderly.returns ⟨fun _ => rfl, rfl⟩ (Set.notMem_empty _) fun _ => rfl

/-! ## The process -/

/-- What happens besides the calls: analysis changes, and caches forget. -/
inductive Drift : ExportState → ExportState → Prop where
  | analyse (s : ExportState) (f : FileId) (a : Analysis) : Drift s (s.analyse f a)
  | evict (s : ExportState) (c : ReportCache) (key : c.Key) : Drift s (s.withCache c ((s.caches c).evict key))

/-- What an operation answers and does once it need not wait. -/
def uiSem (s : ExportState) : (o : UiOp) → o.Ans → ExportState → Prop
  | .takeUi, _, t => t = s
  | .freeUi, _, t => t = s
  | .report o, a, t => ∃ w u, Relation.ReflTransGen Drift s u ∧ ExportSem w u o a t

/-- Everything but giving up a claim for a stop of the session. -/
def GoesOn : Event UiI → Prop
  | ⟨.report (.claim _ _ _), .stopped⟩ => False
  | _ => True

section Process

variable {τ : Type} [DecidableEq τ] (h : Hashing) (calls : τ → ExportCall)

abbrev UiPool (τ : Type) := Pool τ UiI PyError Unit (Owned ExportResource τ ExportState)

/-- No call has begun. -/
def uiPool (s : ExportState) : UiPool τ := ⟨⟨fun _ => none, s⟩, fun t => some ((calls t).thread h)⟩

def uiStep : UiPool τ → τ × Event UiI → UiPool τ → Prop := ownedStep uiDiscipline uiSem

def UiWaits : UiPool τ → τ → τ → Prop := BlockedOn uiDiscipline uiSem GoesOn

def UiGoes : UiPool τ → τ → Prop := CanStep uiDiscipline uiSem GoesOn

omit [DecidableEq τ] in
theorem holdsInOrder_uiPool (s : ExportState) : HoldsInOrder uiDiscipline (uiPool h calls s) fun _ => ∅ where
  orderly := fun t _ ht => Option.some.inj ht ▸ orderly_thread h (calls t)
  idle := fun _ _ => rfl
  owns := fun r _ => iff_of_false nofun (Set.notMem_empty r)

/-- Every operation has an answer. -/
theorem exists_uiSem (s : ExportState) (o : UiOp) : ∃ a t, GoesOn ⟨o, a⟩ ∧ uiSem s o a t := by
  let w : CallWorld := ⟨⟨0, 0, .error visitCancelled⟩, fun _ => none⟩
  cases o with
  | takeUi => exact ⟨(), s, trivial, rfl⟩
  | freeUi => exact ⟨(), s, trivial, rfl⟩
  | report o =>
    refine ⟨(exportHandler w o s).1, (exportHandler w o s).2, ?_, w, s, .refl, .handled s o⟩
    cases o with
    | claim c key stops =>
      show GoesOn ⟨.report (.claim c key stops), claimOf (s.caches c) key⟩
      unfold claimOf
      split <;> trivial
    | _ => trivial

theorem ExportResource.rank_lt (r : ExportResource) : r.rank < 3 := by
  cases r with
  | building key =>
    obtain ⟨c, key⟩ := key
    cases c <;> simp [rank]
  | _ => simp [rank]

/-- Whatever calls overlap, one that cannot go on waits, directly or through others, for one that can.  A call that has
ended holds nothing, and a call that holds something never waits for analysis. -/
theorem rendersNeverDeadlock {s : ExportState} {tr : List (τ × Event UiI)} {q : UiPool τ}
    (hrun : Steps uiStep (uiPool h calls s) tr q) (t : τ) :
    (q.Running t → ∃ u, Relation.ReflTransGen (UiWaits q) t u ∧ UiGoes q u) ∧
      ∀ r, q.shared.owner r = some t → q.Running t ∧
        ∀ f k, q.threads t ≠ some (.call (.report (.updateAnalysis f)) k) := by
  obtain ⟨held, hheld⟩ := (holdsInOrder_uiPool h calls s).steps hrun
  refine ⟨hheld.exists_canStep exists_uiSem ExportResource.rank_lt, fun r hr => ⟨hheld.running hr, fun f k ht => ?_⟩⟩
  have hbelow := (hheld.orderly t _ ht).1.above () .uiThread rfl
  exact Nat.not_lt_zero _ (hbelow r ((hheld.owns r t).1 hr))

end Process

/-! ## An export beside a render -/

def unhashed : Hashing := ⟨fun _ => none, fun _ => 0⟩

def overlappingCalls : Bool → ExportCall
  | true => .render ⟨none, 0⟩ ⟨none, 0⟩
  | false => .exportReport 0 false

/-- No file has any bytes. -/
def emptyProcess : ExportState := .start (fun _ => ⟨none, "", none, "", 0, 0, .error visitCancelled⟩) none

/-- The render has taken the UI thread, and the analysis that the export asks for waits for it. -/
theorem rendersNeverDeadlock_overlapping : ∃ q, Steps uiStep (uiPool unhashed overlappingCalls emptyProcess)
    [(true, ⟨.takeUi, ()⟩)] q ∧ q.shared.owner .uiThread = some true ∧
      ∃ u, Relation.ReflTransGen (UiWaits q) false u ∧ UiGoes q u := by
  let owner : ExportResource → Option Bool := fun r => if r = .uiThread then some true else none
  have htake : OwnedSem uiDiscipline uiSem true ⟨fun _ => none, emptyProcess⟩ .takeUi () ⟨owner, emptyProcess⟩ :=
    ⟨rfl, fun _ _ => rfl, fun r => by simp [owner, uiDiscipline, UiOp.takes, UiOp.gives, eq_comm]⟩
  have hrun : Steps uiStep (uiPool unhashed overlappingCalls emptyProcess) [(true, ⟨.takeUi, ()⟩)] _ :=
    .single (Pool.opStep_call rfl htake)
  exact ⟨_, hrun, rfl, (rendersNeverDeadlock unhashed overlappingCalls hrun false).1
    ⟨UiOp.report (.updateAnalysis 0), _, rfl⟩⟩

end McritSimilarity
