import McritSimilarity.VisitWaits

/-!
# Samples shared by visits

The visits of a provider share its samples.  `samplesAgree`: a sample is built by one visit at a time; once it has
been stored, no visit of the provider builds it again, and all of them get the stored reference.  A visit uploads
only a sample that it builds.
-/

set_option autoImplicit false

namespace McritSimilarity

open Python Prog

/-! ## Events -/

/-- The claim of a sample: the visit builds it. -/
def ClaimsSample (key : String × String) : Event VisitI → Prop
  | ⟨.claimSample k, .claimed⟩ => k = key
  | _ => False

def HitsSample (key : String × String) (ref : SampleRef) : Event VisitI → Prop
  | ⟨.claimSample k, .hit found⟩ => k = key ∧ found = ref
  | _ => False

def StoresSample (key : String × String) (ref : SampleRef) : Event VisitI → Prop
  | ⟨.storeSample k stored, _⟩ => k = key ∧ stored = ref
  | _ => False

def ReleasesSample (key : String × String) : Event VisitI → Prop
  | ⟨.releaseSample k, _⟩ => k = key
  | _ => False

def UploadsHash (sha256 : String) : Event VisitI → Prop
  | ⟨.server _ (.addReport upload), _⟩ => upload.report.sha256 = sha256
  | _ => False

section Visits

variable {π τ : Type}

/-- Visit `t` has claimed the sample and not yet given the claim back. -/
def Building (tr : List (τ × Event VisitI)) (t : τ) (key : String × String) : Prop :=
  ∃ before e after, tr = before ++ (t, e) :: after ∧ ClaimsSample key e ∧
    ∀ l ∈ after, l.1 = t → ¬ ReleasesSample key l.2

/-- After a sample has been stored, no visit of the provider stores or claims it, and all get the stored one. -/
def Agrees (provider : τ → π) (l l' : τ × Event VisitI) : Prop :=
  ∀ key ref, StoresSample key ref l.2 → provider l'.1 = provider l.1 →
    ¬ ClaimsSample key l'.2 ∧ (∀ ref', ¬ StoresSample key ref' l'.2) ∧ ∀ ref', HitsSample key ref' l'.2 → ref' = ref

structure SamplesAgree (provider : τ → π) (tr : List (τ × Event VisitI)) : Prop where
  alone : ∀ t u key, Building tr t key → Building tr u key → provider t = provider u → t = u
  uploads : ∀ before t e after sha256, tr = before ++ (t, e) :: after → UploadsHash sha256 e →
    ∃ server, Building before t (server, sha256)
  agrees : tr.Pairwise (Agrees provider)

/-! ## One step -/

theorem building_append {tr : List (τ × Event VisitI)} {l : τ × Event VisitI} {t : τ} {key : String × String} :
    Building (tr ++ [l]) t key ↔ (l.1 = t ∧ ClaimsSample key l.2) ∨
      (Building tr t key ∧ ¬ (l.1 = t ∧ ReleasesSample key l.2)) := by
  constructor
  · rintro ⟨before, e, after, htr, hclaims, hafter⟩
    rcases List.eq_nil_or_concat after with rfl | ⟨after, last, rfl⟩
    · obtain ⟨-, hlast⟩ := List.append_inj' htr rfl
      rw [List.singleton_inj] at hlast
      exact Or.inl ⟨by rw [hlast], by rwa [hlast]⟩
    · rw [List.concat_eq_append, ← List.cons_append, ← List.append_assoc] at htr
      obtain ⟨hinit, hlast⟩ := List.append_inj' htr rfl
      rw [List.singleton_inj] at hlast
      subst hlast
      refine Or.inr ⟨⟨before, e, after, hinit, hclaims, fun l' hl' => hafter l' (by simp [hl'])⟩, ?_⟩
      exact fun ⟨ht, hreleases⟩ => hafter l (by simp) ht hreleases
  · rintro (⟨rfl, hclaims⟩ | ⟨⟨before, e, after, rfl, hclaims, hafter⟩, hkept⟩)
    · exact ⟨tr, l.2, [], rfl, hclaims, by simp⟩
    · refine ⟨before, e, after ++ [l], by simp, hclaims, fun l' hl' ht hreleases => ?_⟩
      rcases List.mem_append.1 hl' with hl' | hl'
      · exact hafter l' hl' ht hreleases
      · rw [List.mem_singleton] at hl'
        subst hl'
        exact hkept ⟨ht, hreleases⟩

/-- Holding a sample begins with its claim and ends with its release. -/
theorem next_sample_iff {held : Held} {o : VisitOp} {a : o.Ans} (hallows : held.allows o) (key : String × String) :
    (∃ stored, held.next o a = .sample key stored) ↔
      ClaimsSample key ⟨o, a⟩ ∨ ((∃ stored, held = .sample key stored) ∧ ¬ ReleasesSample key ⟨o, a⟩) := by
  cases o with
  | claimSample k =>
    obtain rfl : held = .nothing := hallows
    cases a <;> simp [Held.next, ClaimsSample, ReleasesSample]
  | claimCorpus k =>
    obtain rfl : held = .nothing := hallows
    cases a <;> simp [Held.next, ClaimsSample, ReleasesSample]
  | lockEntities nodeId =>
    obtain rfl : held = .nothing := hallows
    simp [Held.next, ClaimsSample, ReleasesSample]
  | storeSample k ref =>
    obtain rfl : held = .sample k false := hallows
    simp [Held.next, ClaimsSample, ReleasesSample]
  | releaseSample k =>
    obtain ⟨stored, rfl⟩ := hallows
    simp [Held.next, ClaimsSample, ReleasesSample]
  | releaseCorpus k =>
    obtain rfl : held = .corpus k := hallows
    simp [Held.next, ClaimsSample, ReleasesSample]
  | unlockEntities nodeId =>
    obtain rfl : held = .entities nodeId := hallows
    simp [Held.next, ClaimsSample, ReleasesSample]
  | _ => simp [Held.next, ClaimsSample, ReleasesSample]

/-- What the samples and the visits' phases have to do with the operations so far. -/
structure Sampled (provider : τ → π) (tr : List (τ × Event VisitI)) (phase : τ → Held) (s : VisitCaches π τ) :
    Prop where
  unlimited : ∀ c, (s.samples c).Unlimited
  missing : ∀ t key, phase t = .sample key false → (s.samples (provider t)).find? key = none
  stored : ∀ l ∈ tr, ∀ key ref, StoresSample key ref l.2 → (s.samples (provider l.1)).find? key = some ref
  building : ∀ t key, Building tr t key ↔ ∃ stored, phase t = .sample key stored
  uploads : ∀ before t e after sha256, tr = before ++ (t, e) :: after → UploadsHash sha256 e →
    ∃ server, Building before t (server, sha256)
  agrees : tr.Pairwise (Agrees provider)

variable [DecidableEq π] [DecidableEq τ] {provider : τ → π} {s s' : VisitCaches π τ}

/-- What an operation does to the samples of a provider. -/
inductive SampleStep (provider : τ → π) (t : τ) (o : VisitOp) (a : o.Ans) (s s' : VisitCaches π τ) : Prop where
  | kept (hfind : ∀ c key, (s'.samples c).find? key = (s.samples c).find? key)
      (hstores : ∀ key ref, ¬ StoresSample key ref ⟨o, a⟩)
  | stored (key : String × String) (ref : SampleRef) (hstores : ∀ k r, StoresSample k r ⟨o, a⟩ ↔ k = key ∧ r = ref)
      (hfind : ∀ c k, (s'.samples c).find? k =
        if c = provider t ∧ k = key then some ref else (s.samples c).find? k)

omit [DecidableEq τ] in
theorem sampleStep_of_samples_eq {t : τ} {o : VisitOp} {a : o.Ans} (hs : ∀ c, (s.samples c).Unlimited)
    (hsamples : s'.samples = s.samples) (hstores : ∀ key ref, ¬ StoresSample key ref ⟨o, a⟩) :
    SampleStep provider t o a s s' ∧ ∀ c, (s'.samples c).Unlimited :=
  ⟨.kept (fun c key => by rw [hsamples]) hstores, fun c => by rw [hsamples]; exact hs c⟩

omit [DecidableEq τ] in
theorem sampleStep_of_waitSem {t : τ} {o : VisitOp} {a : o.Ans} (hs : ∀ c, (s.samples c).Unlimited)
    (h : waitSem provider t s o a s') :
    SampleStep provider t o a s s' ∧ ∀ c, (s'.samples c).Unlimited := by
  cases o with
  | claimSample key =>
    cases a with
    | hit ref =>
      obtain ⟨-, rfl⟩ := h
      refine ⟨.kept (fun c k => ?_) fun _ _ => id, fun c => ?_⟩
      · rw [VisitCaches.samples_withSamples]
        split_ifs with hc
        · rw [hc, LockedCache.find?_touch]
        · rfl
      · rw [VisitCaches.samples_withSamples]
        split_ifs
        · exact (hs _).touch key
        · exact hs c
    | claimed => exact sampleStep_of_samples_eq hs (by rw [h.2.2]; rfl) fun _ _ => id
    | stopped => exact sampleStep_of_samples_eq hs (by rw [show s' = s from h]) fun _ _ => id
  | storeSample key ref =>
    obtain rfl : s' = _ := h
    refine ⟨.stored key ref (fun k r => ⟨fun h => ⟨h.1.symm, h.2.symm⟩, fun h => ⟨h.1.symm, h.2.symm⟩⟩)
      fun c k => ?_, fun c => ?_⟩
    · rw [VisitCaches.samples_withSamples]
      by_cases hc : c = provider t
      · rw [if_pos hc, (hs _).find?_store]
        simp [hc]
      · rw [if_neg hc, if_neg fun h => hc h.1]
    · rw [VisitCaches.samples_withSamples]
      split_ifs
      · exact (hs _).store key ref 0
      · exact hs c
  | claimCorpus key =>
    cases a with
    | hit payload => exact sampleStep_of_samples_eq hs (by rw [h.2]) fun _ _ => id
    | claimed => exact sampleStep_of_samples_eq hs (by rw [h.2.2]; rfl) fun _ _ => id
    | stopped => exact sampleStep_of_samples_eq hs (by rw [show s' = s from h]) fun _ _ => id
  | lockEntities nodeId => exact sampleStep_of_samples_eq hs (by rw [h.2]; rfl) fun _ _ => id
  | releaseSample key => exact sampleStep_of_samples_eq hs (by rw [show s' = _ from h]; rfl) fun _ _ => id
  | releaseCorpus key => exact sampleStep_of_samples_eq hs (by rw [show s' = _ from h]; rfl) fun _ _ => id
  | unlockEntities nodeId => exact sampleStep_of_samples_eq hs (by rw [show s' = _ from h]; rfl) fun _ _ => id
  | storeCorpus key payload => exact sampleStep_of_samples_eq hs (by rw [show s' = _ from h]) fun _ _ => id
  | _ => exact sampleStep_of_samples_eq hs (by rw [show s' = s from h]) fun _ _ => id

omit [DecidableEq τ] in
theorem find?_of_claims {t : τ} {key : String × String} {o : VisitOp} {a : o.Ans} (h : waitSem provider t s o a s')
    (hclaims : ClaimsSample key ⟨o, a⟩) : (s.samples (provider t)).find? key = none := by
  cases o with
  | claimSample k =>
    cases a with
    | claimed =>
      obtain rfl : k = key := hclaims
      exact h.1
    | _ => exact hclaims.elim
  | _ => exact hclaims.elim

omit [DecidableEq τ] in
theorem find?_of_hits {t : τ} {key : String × String} {ref : SampleRef} {o : VisitOp} {a : o.Ans}
    (h : waitSem provider t s o a s') (hhits : HitsSample key ref ⟨o, a⟩) :
    (s.samples (provider t)).find? key = some ref := by
  cases o with
  | claimSample k =>
    cases a with
    | hit found =>
      obtain ⟨rfl, rfl⟩ := hhits
      exact h.1
    | _ => exact hhits.elim
  | _ => exact hhits.elim

/-- A store is one of the sample that is held, and is its first. -/
theorem held_of_stores {held : Held} {o : VisitOp} {a : o.Ans} (hallows : held.allows o) {key : String × String}
    {ref : SampleRef} (hstores : StoresSample key ref ⟨o, a⟩) : held = .sample key false := by
  cases o with
  | storeSample k stored =>
    obtain ⟨rfl, rfl⟩ := hstores
    exact hallows
  | _ => exact hstores.elim

theorem held_of_uploads {held : Held} {o : VisitOp} {a : o.Ans} (hallows : held.allows o) {sha256 : String}
    (huploads : UploadsHash sha256 ⟨o, a⟩) : ∃ server, held = .sample (server, sha256) false := by
  cases o with
  | server client o =>
    cases o with
    | addReport upload =>
      obtain ⟨server, hheld⟩ := hallows
      exact ⟨server, by rw [hheld, show upload.report.sha256 = sha256 from huploads]⟩
    | _ => exact huploads.elim
  | _ => exact huploads.elim

/-- A sample that is held and not stored has just been claimed, or was so before. -/
theorem unstored_cases {held : Held} {o : VisitOp} {a : o.Ans} (hallows : held.allows o) {key : String × String}
    (hnext : held.next o a = .sample key false) :
    ClaimsSample key ⟨o, a⟩ ∨ held = .sample key false ∧ ∀ k ref, ¬ StoresSample k ref ⟨o, a⟩ := by
  cases o with
  | claimSample k =>
    obtain rfl : held = .nothing := hallows
    cases a with
    | claimed =>
      rw [Held.next, Held.sample.injEq] at hnext
      exact Or.inl hnext.1
    | _ => cases hnext
  | claimCorpus k =>
    obtain rfl : held = .nothing := hallows
    cases a <;> cases hnext
  | storeSample k ref => cases hnext
  | lockEntities nodeId => cases hnext
  | releaseSample k => cases hnext
  | releaseCorpus k => cases hnext
  | unlockEntities nodeId => cases hnext
  | _ => exact Or.inr ⟨hnext, fun _ _ => id⟩

section Step

variable {tr : List (τ × Event VisitI)} {phase : τ → Held} {l : τ × Event VisitI}

omit [DecidableEq π] [DecidableEq τ] in
/-- Nothing was stored under a key that is being stored. -/
theorem Sampled.find?_of_stores (h : Sampled provider tr phase s) (hallows : (phase l.1).allows l.2.1)
    {key : String × String} {ref : SampleRef} (hstores : StoresSample key ref l.2) :
    (s.samples (provider l.1)).find? key = none :=
  h.missing l.1 key (held_of_stores hallows hstores)

omit [DecidableEq τ] in
/-- What is stored stays. -/
theorem Sampled.find?_step (h : Sampled provider tr phase s) (hallows : (phase l.1).allows l.2.1)
    (hsample : SampleStep provider l.1 l.2.1 l.2.2 s s') {c : π} {key : String × String} {ref : SampleRef}
    (hfind : (s.samples c).find? key = some ref) : (s'.samples c).find? key = some ref := by
  cases hsample with
  | kept hkept _ => rw [hkept, hfind]
  | stored key' ref' hstores hfind' =>
    rw [hfind', if_neg, hfind]
    rintro ⟨rfl, rfl⟩
    have hnone := h.find?_of_stores hallows ((hstores _ ref').2 ⟨rfl, rfl⟩)
    rw [hnone] at hfind
    cases hfind

theorem Sampled.missing_step (h : Sampled provider tr phase s) (howns : OwnsHeld provider phase s)
    (hallows : (phase l.1).allows l.2.1) (hsem : waitSem provider l.1 s l.2.1 l.2.2 s')
    (hsample : SampleStep provider l.1 l.2.1 l.2.2 s s') (t : τ) (key : String × String)
    (ht : phaseAfter phase l t = .sample key false) : (s'.samples (provider t)).find? key = none := by
  by_cases htl : t = l.1
  · subst htl
    rw [phaseAfter, Function.update_self] at ht
    have hnone : (s.samples (provider l.1)).find? key = none ∧ ∀ k ref, ¬ StoresSample k ref l.2 := by
      rcases unstored_cases hallows ht with hclaims | ⟨hheld, hstores⟩
      · refine ⟨find?_of_claims hsem hclaims, fun k ref hstores => ?_⟩
        rw [held_of_stores hallows hstores] at ht
        obtain ⟨t, o, a⟩ := l
        cases o <;> first | exact hclaims.elim | exact hstores.elim
      · exact ⟨h.missing _ key hheld, hstores⟩
    cases hsample with
    | kept hkept _ => rw [hkept, hnone.1]
    | stored key' ref' hstores _ => exact absurd ((hstores key' ref').2 ⟨rfl, rfl⟩) (hnone.2 _ _)
  · rw [phaseAfter, Function.update_of_ne htl] at ht
    have hnone := h.missing t key ht
    cases hsample with
    | kept hkept _ => rw [hkept, hnone]
    | stored key' ref' hstores hfind =>
      rw [hfind, if_neg, hnone]
      -- The visit that stores would own what `t` owns.
      rintro ⟨hprovider, rfl⟩
      have hl := held_of_stores hallows ((hstores key ref').2 ⟨rfl, rfl⟩)
      have howner : s.owner (.sample (provider t) key) = some t := (howns _ t).2 (by rw [ht]; rfl)
      have howner' : s.owner (.sample (provider t) key) = some l.1 :=
        (howns _ l.1).2 (by rw [hl, hprovider]; rfl)
      rw [howner] at howner'
      exact htl (Option.some.inj howner')

omit [DecidableEq π] [DecidableEq τ] in
theorem Sampled.uploads_step (h : Sampled provider tr phase s) (hallows : (phase l.1).allows l.2.1)
    {before after : List (τ × Event VisitI)} {t : τ} {e : Event VisitI} {sha256 : String}
    (htr : tr ++ [l] = before ++ (t, e) :: after) (huploads : UploadsHash sha256 e) :
    ∃ server, Building before t (server, sha256) := by
  rcases List.eq_nil_or_concat after with rfl | ⟨after, last, rfl⟩
  · obtain ⟨rfl, hlast⟩ := List.append_inj' htr rfl
    rw [List.singleton_inj] at hlast
    subst hlast
    obtain ⟨server, hheld⟩ := held_of_uploads hallows huploads
    exact ⟨server, (h.building _ _).2 ⟨false, hheld⟩⟩
  · rw [List.concat_eq_append, ← List.cons_append, ← List.append_assoc] at htr
    exact h.uploads before t e after sha256 (List.append_inj' htr rfl).1 huploads

omit [DecidableEq τ] in
theorem Sampled.agrees_step (h : Sampled provider tr phase s) (hallows : (phase l.1).allows l.2.1)
    (hsem : waitSem provider l.1 s l.2.1 l.2.2 s') {l' : τ × Event VisitI} (hl' : l' ∈ tr) :
    Agrees provider l' l := by
  intro key ref hstores hprovider
  have hfind := h.stored l' hl' key ref hstores
  rw [← hprovider] at hfind
  refine ⟨fun hclaims => ?_, fun ref' hstores' => ?_, fun ref' hhits => ?_⟩
  · rw [find?_of_claims hsem hclaims] at hfind
    cases hfind
  · rw [h.find?_of_stores hallows hstores'] at hfind
    cases hfind
  · rw [find?_of_hits hsem hhits] at hfind
    exact Option.some.inj hfind

theorem Sampled.step (h : Sampled provider tr phase s) (howns : OwnsHeld provider phase s)
    (hallows : (phase l.1).allows l.2.1) (hsem : waitSem provider l.1 s l.2.1 l.2.2 s') :
    Sampled provider (tr ++ [l]) (phaseAfter phase l) s' := by
  obtain ⟨hsample, hunlimited⟩ := sampleStep_of_waitSem h.unlimited hsem
  refine ⟨hunlimited, h.missing_step howns hallows hsem hsample, fun l' hl' key ref hstores => ?_, fun t key => ?_,
    fun before t e after sha256 => h.uploads_step hallows, ?_⟩
  · rcases List.mem_append.1 hl' with hl' | hl'
    · exact h.find?_step hallows hsample (h.stored l' hl' key ref hstores)
    · rw [List.mem_singleton] at hl'
      subst hl'
      cases hsample with
      | kept _ hnone => exact absurd hstores (hnone key ref)
      | stored key' ref' hstores' hfind =>
        obtain ⟨rfl, rfl⟩ := (hstores' key ref).1 hstores
        rw [hfind, if_pos ⟨rfl, rfl⟩]
  · rw [building_append, h.building, phaseAfter, Function.update_apply]
    by_cases htl : t = l.1
    · subst htl
      rw [if_pos rfl]
      refine Iff.trans ?_ (next_sample_iff (a := l.2.2) hallows key).symm
      simp
    · rw [if_neg htl]
      simp [Ne.symm htl]
  · refine List.pairwise_append.2 ⟨h.agrees, List.pairwise_singleton _ _, fun l' hl' l'' hl'' => ?_⟩
    rw [List.mem_singleton] at hl''
    subst hl''
    exact h.agrees_step hallows hsem hl'

end Step

/-! ## Runs -/

omit [DecidableEq π] [DecidableEq τ] in
theorem Fresh.sampled {rt : Runtime} {calls : τ → EdgeCall} {p : VisitPool π τ} (h : Fresh rt calls p) :
    Sampled provider [] (fun _ => .nothing) p.shared where
  unlimited := fun c => by rw [h.samples]; exact LockedCache.unlimited_new false
  missing := fun t key hheld => by cases hheld
  stored := fun l hl => absurd hl List.not_mem_nil
  building := fun t key => ⟨fun ⟨before, _, _, hnil, _⟩ => by simp at hnil, fun ⟨_, hheld⟩ => by cases hheld⟩
  uploads := fun before t e after sha256 hnil => by simp at hnil
  agrees := .nil

/-- In every run of any number of visits, each provider builds a sample once, and all its visits agree on it. -/
theorem samplesAgree {rt : Runtime} {calls : τ → EdgeCall} {p q : VisitPool π τ} {tr : List (τ × Event VisitI)}
    (hfresh : Fresh rt calls p) (hrun : Steps (waitStep provider) p tr q) : SamplesAgree provider tr := by
  obtain ⟨phase, hordered, hsampled⟩ := hrun.invariant_trace
    (P := fun tr q => ∃ phase, Ordered provider tr q phase ∧ Sampled provider tr phase q.shared)
    (fun _ _ _ _ ⟨_, hordered, hsampled⟩ hstep =>
      ⟨_, (hordered.step hstep).2, hsampled.step hordered.tracked.2 (hordered.step hstep).1 hstep.answered⟩)
    ⟨_, hfresh.ordered, hfresh.sampled⟩
  refine ⟨fun t u key ht hu hprovider => ?_, hsampled.uploads, hsampled.agrees⟩
  obtain ⟨stored, ht⟩ := (hsampled.building t key).1 ht
  obtain ⟨stored', hu⟩ := (hsampled.building u key).1 hu
  have howner := (hordered.tracked.2 (.sample (provider t) key) t).2 (by rw [ht]; rfl)
  have howner' := (hordered.tracked.2 (.sample (provider t) key) u).2 (by rw [hu, hprovider]; rfl)
  rw [howner] at howner'
  exact Option.some.inj howner'

end Visits

/-! ## Two visits of one provider -/

/-- The sample that an event stores. -/
def storedSample : Event VisitI → Option ((String × String) × SampleRef)
  | ⟨.storeSample key ref, _⟩ => some (key, ref)
  | _ => none

/-- The sample that an event gets from the cache. -/
def hitSample : Event VisitI → Option ((String × String) × SampleRef)
  | ⟨.claimSample key, .hit ref⟩ => some (key, ref)
  | _ => none

/-- The report that an event uploads. -/
def uploadedHash : Event VisitI → Option String
  | ⟨.server _ (.addReport upload), _⟩ => some upload.report.sha256
  | _ => none

/-- The first visit uploads and stores the sample of `aa`, and the second one gets that one. -/
theorem samplesAgree_edgeTrace :
    (edgeTrace.filter Prod.fst).filterMap (fun l => uploadedHash l.2) = ["aa"] ∧
      (edgeTrace.filter Prod.fst).filterMap (fun l => storedSample l.2) = [(edgeKey, ⟨5, "aa", false⟩)] ∧
        (edgeTrace.filter (!·.1)).filterMap (fun l => hitSample l.2) = [(edgeKey, ⟨5, "aa", false⟩)] ∧
          SamplesAgree (fun _ => ()) edgeTrace :=
  ⟨by decide +kernel, by decide +kernel, by decide +kernel, samplesAgree fresh_edgePool steps_endedPool⟩

end McritSimilarity
