import McritSimilarity.Lib.Costs
import McritSimilarity.Lib.Protocol
import McritSimilarity.QuickBounds
import McritSimilarity.Render

/-!
# What a render may do on the UI thread

A render must stay quick.  `rendersWithinBudget`: it hashes at most two files and loads at most two reports, each of
them only after it has found it small, and does nothing else that takes long.
-/

set_option autoImplicit false

/-- The protocol in which everything so far decides what is allowed. -/
def Protocol.history {I : Interface} (allowed : List (Prog.Event I) → I.Op → Prop) : Protocol I where
  State := List (Prog.Event I)
  allowed := allowed
  next := fun before o a => before ++ [⟨o, a⟩]

theorem Protocol.after_history {I : Interface} {allowed : List (Prog.Event I) → I.Op → Prop}
    (before tr : List (Prog.Event I)) : (Protocol.history allowed).after before tr = before ++ tr := by
  induction tr generalizing before with
  | nil => exact (List.append_nil before).symm
  | cons e tr ih =>
    rw [List.append_cons]
    exact ih (before ++ [e])

namespace McritSimilarity

open Prog

/-- The file was found to be small enough for the UI thread. -/
def FoundSmall (f : FileId) (before : List (Event ExportI)) : Prop :=
  ∃ raw : RawData, (⟨.raw f, some raw⟩ : Event ExportI) ∈ before ∧ 0 < raw.length ∧ raw.length ≤ coldMaxRawBytes

/-- The stored report was found to be small enough for the UI thread. -/
def FoundShort (sha256 : String) (before : List (Event ExportI)) : Prop :=
  ∃ size : ℕ, (⟨.storedSize sha256, some size⟩ : Event ExportI) ∈ before ∧ size ≤ coldMaxStoredBytes

/-- What a render may do after the operations so far.  It waits for no report that is being exported and for no
preload, it leaves analysis and exports alone, and it stores no report in the folder. -/
def Affordable (before : List (Event ExportI)) : ExportOp → Prop
  | .hashRaw f => FoundSmall f before
  | .load sha256 => FoundShort sha256 before
  | .claim .reports _ _ => False
  | .updateAnalysis _ => False
  | .exportView _ => False
  | .store _ _ => False
  | .lockPreload => False
  | _ => True

/-- The time that the operations of a render take, by what hashing a small file and loading a small report take. -/
def renderCost (hash load : ℕ) : ExportOp → ℕ
  | .hashRaw _ => hash
  | .load _ => load
  | _ => 0

/-! ## Only what is affordable -/

/-- After what is known, the program does only what is affordable. -/
def Affords {α : Type} (known : List (Event ExportI)) (p : ExportProg α) : Prop :=
  ∀ before, known ⊆ before →
    p.Follows (Protocol.history (I := ExportI) Affordable) (fun _ after => known ⊆ after) before

section Affords

variable {α β : Type} {known : List (Event ExportI)} {f : FileId}

theorem FoundSmall.mono {before after : List (Event ExportI)} (h : FoundSmall f before) (hsub : before ⊆ after) :
    FoundSmall f after := by
  obtain ⟨raw, hraw, hlength⟩ := h
  exact ⟨raw, hsub hraw, hlength⟩

theorem FoundShort.mono {sha256 : String} {before after : List (Event ExportI)} (h : FoundShort sha256 before)
    (hsub : before ⊆ after) : FoundShort sha256 after := by
  obtain ⟨size, hsize, hle⟩ := h
  exact ⟨size, hsub hsize, hle⟩

theorem Affords.bind {p : ExportProg α} {g : α → ExportProg β} (hp : Affords known p) (hg : ∀ a, Affords known (g a)) :
    Affords known (p >>= g) := by
  intro before hbefore
  refine Follows.bind ((hp before hbefore).mono fun out after hafter => ?_)
  cases out with
  | returned a => exact hg a after hafter
  | raised e => exact hafter
  | pending => trivial

theorem Affords.tryFinally {p : ExportProg α} {g : ExportProg Unit} (hp : Affords known p) (hg : Affords known g) :
    Affords known (p.tryFinally g) := by
  intro before hbefore
  refine Follows.tryFinally ((hp before hbefore).mono fun out after hafter => ?_)
  cases out with
  | returned a =>
    refine (hg after hafter).mono fun out t ht => ?_
    cases out <;> first | exact ht | trivial
  | raised e =>
    refine (hg after hafter).mono fun out t ht => ?_
    cases out <;> first | exact ht | trivial
  | pending => trivial

/-- An operation whose answer is known from then on. -/
theorem Affords.learn {o : ExportOp} {k : o.Ans → ExportProg α} (ho : ∀ before, known ⊆ before → Affordable before o)
    (hk : ∀ a, Affords (⟨o, a⟩ :: known) (k a)) : Affords known (Prog.call (I := ExportI) o k) := by
  intro before hbefore
  refine ⟨ho before hbefore, fun a => ?_⟩
  have hlearnt : (⟨o, a⟩ : Event ExportI) :: known ⊆ before ++ [⟨o, a⟩] :=
    List.cons_subset.2 ⟨List.mem_append_right _ List.mem_cons_self, List.subset_append_of_subset_left _ hbefore⟩
  exact (hk a _ hlearnt).mono fun _ _ h => (List.cons_subset.1 h).2

theorem Affords.call {o : ExportOp} {k : o.Ans → ExportProg α} (ho : ∀ before, known ⊆ before → Affordable before o)
    (hk : ∀ a, Affords known (k a)) : Affords known (Prog.call (I := ExportI) o k) :=
  fun before hbefore => ⟨ho before hbefore, fun a => hk a _ (List.subset_append_of_subset_left _ hbefore)⟩

theorem affords_pure (a : α) : Affords known (pure a : ExportProg α) := fun _ h => h

theorem affords_cached {c : ReportCache} (hc : c ≠ .reports) {key : c.Key} {factory : ExportProg c.Val}
    (hfactory : Affords known factory) : Affords known (cached c key false factory) := by
  refine Affords.call (fun _ _ => ?_) fun answer => ?_
  · cases c with
    | reports => exact absurd rfl hc
    | _ => trivial
  · cases answer with
    | hit value => exact affords_pure value
    | stopped => exact fun _ h => h
    | claimed =>
      refine Affords.tryFinally (hfactory.bind fun value => ?_) (.call (fun _ _ => trivial) fun _ => affords_pure ())
      exact .call (fun _ _ => trivial) fun _ => affords_pure value

theorem affords_rawSha256Cached (hsmall : FoundSmall f known) : Affords known (rawSha256Cached f) := by
  refine .call (fun _ _ => trivial) fun raw => ?_
  cases raw with
  | none => exact affords_pure ""
  | some raw =>
    show Affords known (if raw.length ≤ 0 then pure "" else _ : ExportProg String)
    split_ifs
    · exact affords_pure ""
    · refine affords_cached (c := .rawSha256) nofun ?_
      exact .call (fun _ hbefore => hsmall.mono hbefore) fun sha256 => affords_pure sha256

theorem affords_coldSha256 : Affords known (coldSha256 f) := by
  refine .learn (fun _ _ => trivial) fun raw => ?_
  cases raw with
  | none => exact affords_pure ""
  | some raw =>
    show Affords _ (if 0 < raw.length ∧ raw.length ≤ coldMaxRawBytes then rawSha256Cached f else pure "" :
      ExportProg String)
    split_ifs with hlength
    · exact affords_rawSha256Cached ⟨raw, List.mem_cons_self, hlength⟩
    · exact affords_pure ""

theorem affords_loadCurrent {sha256 : String} (hshort : FoundShort sha256 known) :
    Affords known (loadCurrent f sha256) := by
  refine .call (fun _ hbefore => hshort.mono hbefore) fun loaded => ?_
  cases loaded with
  | none => exact affords_pure none
  | some report => exact .call (fun _ _ => trivial) fun _ => affords_pure _

theorem affords_loadSmall {key : ReportKey} : Affords known (loadSmall f key) := by
  refine .call (fun _ _ => trivial) fun (folder : Bool) => ?_
  show Affords known (if folder = false then pure none else _ : ExportProg (Option Report))
  split_ifs
  · exact affords_pure none
  · refine .learn (fun _ _ => trivial) fun size => ?_
    cases size with
    | none => exact affords_pure none
    | some size =>
      show Affords _ (if size > coldMaxStoredBytes then pure none else loadCurrent f key.1 :
        ExportProg (Option Report))
      split_ifs with hsize
      · exact affords_pure none
      · exact affords_loadCurrent ⟨size, List.mem_cons_self, Nat.le_of_not_lt hsize⟩

theorem affords_lookupReport {key : ReportKey} : Affords known (lookupReport f key) := by
  refine .call (fun _ _ => trivial) fun found => ?_
  cases found with
  | some report => exact .call (fun _ _ => trivial) fun _ => affords_pure _
  | none =>
    refine .call (fun _ _ => trivial) fun missed => ?_
    cases missed with
    | some missed => exact affords_pure none
    | none =>
      refine affords_loadSmall.bind fun loaded => ?_
      cases loaded with
      | none => exact .call (fun _ _ => trivial) fun _ => affords_pure none
      | some report =>
        exact .call (fun _ _ => trivial) fun _ => .call (fun _ _ => trivial) fun _ => affords_pure _

theorem affords_cachedReport : Affords known (cachedReport f) := by
  refine .call (fun _ _ => trivial) fun found => ?_
  cases found with
  | some key => exact affords_lookupReport
  | none =>
    refine (affords_cached (c := .coldSha256) nofun affords_coldSha256).bind fun sha256 => ?_
    split_ifs
    · exact affords_pure none
    · exact .call (fun _ _ => trivial) fun _ => affords_lookupReport

theorem affords_blockHashes (h : Hashing) {report : Option Report} {address : ℤ} :
    Affords known (blockHashes h report address) := by
  unfold blockHashes
  split
  · exact affords_pure []
  · split
    · exact affords_pure []
    · exact affords_cached (c := .picBlocks) nofun (affords_pure _)

theorem affords_renderMatch (h : Hashing) (sm : SequenceMatcher) (source target : RenderedFunction) :
    Affords known (renderMatch h sm source target) := by
  have hreport : ∀ view, Affords known (reportForView view) := by
    intro view
    cases view with
    | none => exact affords_pure none
    | some f => exact affords_cachedReport
  refine .bind ?_ fun blocks => affords_pure _
  refine (hreport _).bind fun sourceReport => (hreport _).bind fun targetReport => ?_
  exact (affords_blockHashes h).bind fun _ => (affords_blockHashes h).bind fun _ => affords_pure _

end Affords

/-! ## The cost -/

section Cost

variable {hash load : ℕ} {f : FileId}

theorem cost_cached {c : ReportCache} {key : c.Key} {factory : ExportProg c.Val} {n : ℕ}
    (hfactory : factory.CostsAtMost (renderCost hash load) n) :
    (cached c key false factory).CostsAtMost (renderCost hash load) n := by
  refine .free rfl fun answer => ?_
  cases answer with
  | hit value => trivial
  | stopped => trivial
  | claimed =>
    refine CostsAtMost.tryFinally (n := 0) (CostsAtMost.bind (n := 0) hfactory fun value => ?_) ?_
    · exact .free rfl fun _ => trivial
    · exact .free rfl fun _ => trivial

theorem cost_coldSha256 : (coldSha256 f).CostsAtMost (renderCost hash load) hash := by
  refine .free rfl fun raw => ?_
  cases raw with
  | none => trivial
  | some raw =>
    show CostsAtMost _ _ (if 0 < raw.length ∧ raw.length ≤ coldMaxRawBytes then rawSha256Cached f else pure "" :
      ExportProg String)
    split_ifs
    · refine .free rfl fun raw => ?_
      cases raw with
      | none => trivial
      | some raw =>
        show CostsAtMost _ _ (if raw.length ≤ 0 then pure "" else _ : ExportProg String)
        split_ifs
        · trivial
        · exact cost_cached ⟨le_rfl, fun _ => trivial⟩
    · trivial

theorem cost_lookupReport {key : ReportKey} : (lookupReport f key).CostsAtMost (renderCost hash load) load := by
  have hload : (loadSmall f key).CostsAtMost (renderCost hash load) load := by
    refine .free rfl fun (folder : Bool) => ?_
    show CostsAtMost _ _ (if folder = false then pure none else _ : ExportProg (Option Report))
    split_ifs
    · trivial
    · refine .free rfl fun size => ?_
      cases size with
      | none => trivial
      | some size =>
        show CostsAtMost _ _ (if size > coldMaxStoredBytes then pure none else loadCurrent f key.1 :
          ExportProg (Option Report))
        split_ifs
        · trivial
        · refine ⟨le_rfl, fun loaded => ?_⟩
          cases loaded with
          | none => trivial
          | some report => exact .free rfl fun _ => trivial
  refine .free rfl fun found => ?_
  cases found with
  | some report => exact .free rfl fun _ => trivial
  | none =>
    refine .free rfl fun missed => ?_
    cases missed with
    | some missed => trivial
    | none =>
      refine CostsAtMost.bind (p := loadSmall f key) (n := 0) hload fun loaded => ?_
      cases loaded with
      | none => exact .free rfl fun _ => trivial
      | some report => exact .free rfl fun _ => .free rfl fun _ => trivial

theorem cost_cachedReport : (cachedReport f).CostsAtMost (renderCost hash load) (hash + load) := by
  refine .free rfl fun found => ?_
  cases found with
  | some key => exact cost_lookupReport.mono (Nat.le_add_left ..)
  | none =>
    refine (cost_cached cost_coldSha256).bind fun sha256 => ?_
    split_ifs
    · trivial
    · exact .free rfl fun _ => cost_lookupReport

theorem cost_renderMatch (h : Hashing) (sm : SequenceMatcher) (source target : RenderedFunction) :
    (renderMatch h sm source target).CostsAtMost (renderCost hash load) (2 * (hash + load)) := by
  have hreport : ∀ view, (reportForView view).CostsAtMost (renderCost hash load) (hash + load) := by
    intro view
    cases view with
    | none => trivial
    | some f => exact cost_cachedReport
  have hblocks : ∀ report address, (blockHashes h report address).CostsAtMost (renderCost hash load) 0 := by
    intro report address
    unfold blockHashes
    split
    · trivial
    · split
      · trivial
      · exact cost_cached trivial
  have hrender : (renderBlocks h source target).CostsAtMost (renderCost hash load)
      ((hash + load) + ((hash + load) + (0 + (0 + 0)))) :=
    (hreport _).bind fun _ => (hreport _).bind fun _ => (hblocks _ _).bind fun _ => (hblocks _ _).bind fun _ => trivial
  refine CostsAtMost.mono (CostsAtMost.bind (n := 0) hrender fun _ => ?_) ?_
  · trivial
  · omega

end Cost

/-- Whatever a render meets and wherever it stands, it has only done what is affordable, and its hashing and loading
took no longer than that of two small files and two small reports. -/
theorem rendersWithinBudget (h : Hashing) (sm : SequenceMatcher) (source target : RenderedFunction) (hash load : ℕ)
    {tr : List (Event ExportI)} {out : Outcome PyError (List BlockAnnotation × List BlockAnnotation)}
    (hexec : Exec (renderMatch h sm source target) tr out) :
    price (renderCost hash load) tr ≤ 2 * (hash + load) ∧
      ∀ before e after, tr = before ++ e :: after → Affordable before e.1 := by
  refine ⟨(cost_renderMatch h sm source target).price_le hexec, fun before e after htr => ?_⟩
  have haffords : Affords [] (renderMatch h sm source target) := affords_renderMatch h sm source target
  have hfollows := haffords [] (List.Subset.refl [])
  have hallowed := (hfollows.exec hexec).1 before e after htr
  exact Eq.subst (motive := fun before => Affordable before e.1) (Protocol.after_history [] before) hallowed

/-- The answers for a small file whose report is not in memory, and is found on disk but cannot be loaded. -/
def coldAnswers : (o : ExportOp) → o.Ans
  | .get _ _ => none
  | .set _ _ _ => ()
  | .claim _ _ _ => .claimed
  | .release _ _ => ()
  | .raw _ => some ⟨1, "aa"⟩
  | .hashRaw _ => "aa"
  | .functionCount _ => 1
  | .keptCount _ => (1 : ℤ)
  | .archName _ => none
  | .viewType _ => ""
  | .fileName _ => ""
  | .updateAnalysis _ => ()
  | .exportView _ => .error visitCancelled
  | .hasFolder => true
  | .storedSize _ => some 1
  | .load _ => none
  | .store _ _ => ()
  | .stopRequested => false
  | .lockPreload => ()
  | .unlockPreload => ()

/-- A render of two cold files hashes both and tries to load both reports. -/
theorem rendersWithinBudget_cold : ∃ tr out,
    Exec (renderMatch ⟨fun _ => none, fun _ => 0⟩ prefixMatcher ⟨some 0, 0⟩ ⟨some 1, 0⟩) tr out ∧
      (⟨.hashRaw 1, "aa"⟩ : Event ExportI) ∈ tr ∧ (⟨.load "aa", none⟩ : Event ExportI) ∈ tr ∧
        price (renderCost 15 90) tr ≤ 2 * (15 + 90) := by
  have hexec := exec_trace (I := ExportI) coldAnswers
    (renderMatch ⟨fun _ => none, fun _ => 0⟩ prefixMatcher ⟨some 0, 0⟩ ⟨some 1, 0⟩)
  refine ⟨_, _, hexec, ?_, ?_, (rendersWithinBudget _ prefixMatcher _ _ 15 90 hexec).1⟩
  · exact List.mem_iff_getElem?.2 ⟨22, rfl⟩
  · exact List.mem_iff_getElem?.2 ⟨32, rfl⟩

end McritSimilarity
