import McritSimilarity.DiskStages
import McritSimilarity.Lib.FileFrames

/-!
# Stores are atomic for readers

Any number of `store`, `load` and `prune` calls on a folder that is empty when they begin, in any order of
their operations, each of which may fail; a process that dies takes no further step.  `StoredWhole` says
that a report path is without a file or leads to one whole document with its header, that loads return
only reports of such documents, that a store leaves all reports as they are until it renames its file, and
that it leaves no temporary file behind that it could remove.  `storedWhole` proves it for every run.

Each thread keeps to `diskProtocol`.  What it does leaves the handles and the temporary files of the others
alone, and a file with a report path has no handle that could write it.
-/

set_option autoImplicit false

namespace McritSimilarity

open Python Prog

/-! ## Runs -/

section Runs

variable {R τ : Type} (codec : ReportCodec R) (calls : τ → DiskCall R)

abbrev DiskThreads (τ R : Type) := Pool τ (FileI String) PyError (Option R) (Files String)

abbrev DiskEvent (τ : Type) := τ × Prog.Event (FileI String)

/-- All calls before their first step, on an empty folder. -/
def diskPool : DiskThreads τ R := ⟨.empty, fun t => some ((calls t).program codec)⟩

def DiskStep [DecidableEq τ] (p : DiskThreads τ R) (l : DiskEvent τ) (q : DiskThreads τ R) : Prop :=
  p.OpStep (Files.Sem IsTempName) l.1 l.2.1 l.2.2 q

/-- The thread has renamed its temporary file. -/
def HasRenamed (t : τ) (tr : List (DiskEvent τ)) : Prop :=
  ∃ source target, (t, ⟨.replace source target, .ok ()⟩) ∈ tr

/-- What the calls promise after the operations `tr`. -/
structure StoredWhole [DecidableEq τ] (tr : List (DiskEvent τ)) (p : DiskThreads τ R) : Prop where
  whole : ∀ version sha256 content, p.shared.read? (reportPath version sha256) = some content →
    WholeDocument codec calls version sha256 content
  loaded : ∀ t version sha256 fuel report, calls t = .load version sha256 fuel →
    p.threads t = some (.ret (some report)) → ∃ content, WholeDocument codec calls version sha256 content ∧
      parseReport codec version sha256 content = some report
  untouched : ∀ t event q, (calls t).IsStore → DiskStep p (t, event) q →
    ¬ HasRenamed t (tr ++ [(t, event)]) → ∀ version sha256,
      q.shared.read? (reportPath version sha256) = p.shared.read? (reportPath version sha256)
  tidy : ∀ t, (calls t).IsStore →
    (∃ result, p.threads t = some (.ret result)) ∨ (∃ error, p.threads t = some (.raise error)) →
      ∀ fd temp, (t, ⟨.mkstemp, .ok (fd, temp)⟩) ∈ tr → (t, ⟨.unlink temp, .error .failed⟩) ∉ tr →
        p.shared.names temp = none

end Runs

/-! ## Names -/

theorem toList_reportPath (version sha256 : String) : (reportPath version sha256).toList =
    (sha256.toList ++ "-v1".toList) ++ '-' ::
      ("smda".toList ++ ((smdaVersion version).toList ++ ".json.gz".toList)) := by
  simp only [reportPath, formatVersion, reportSuffix, String.toList_append, List.append_assoc]
  rfl

theorem dash_notMem_smdaVersion (version : String) : '-' ∉ (smdaVersion version).toList := by
  intro hmem
  rw [smdaVersion, String.toList_ofList] at hmem
  obtain ⟨c, -, hc⟩ := List.mem_map.1 hmem
  split_ifs at hc with hchar
  · subst hc
    exact absurd hchar (by decide)
  · exact absurd hc (by decide)

/-- A list is cut in one way at the last place of an element. -/
theorem append_cons_inj {α : Type} {a : α} {xs xs' ys ys' : List α} (hys : a ∉ ys) (hys' : a ∉ ys')
    (h : xs ++ a :: ys = xs' ++ a :: ys') : xs = xs' ∧ ys = ys' := by
  have hrest : ∀ {zs ys ys' : List α}, a ∉ ys → a :: ys = zs ++ a :: ys' → zs = [] ∧ ys = ys' := by
    intro zs ys ys' hys h
    cases zs with
    | nil =>
      rw [List.nil_append, List.cons.injEq] at h
      exact ⟨rfl, h.2⟩
    | cons b zs =>
      rw [List.cons_append, List.cons.injEq] at h
      exact absurd (h.2 ▸ List.mem_append_right zs (List.mem_cons_self ..)) hys
  rcases List.append_eq_append_iff.1 h with ⟨zs, rfl, hzs⟩ | ⟨zs, rfl, hzs⟩
  · obtain ⟨rfl, rfl⟩ := hrest hys hzs
    exact ⟨(List.append_nil _).symm, rfl⟩
  · obtain ⟨rfl, rfl⟩ := hrest hys' hzs
    exact ⟨List.append_nil _, rfl⟩

/-- Two calls that share a file are for the same binary and the same version of `smda`. -/
theorem reportPath_inj {version version' sha256 sha256' : String}
    (h : reportPath version sha256 = reportPath version' sha256') :
    sha256 = sha256' ∧ smdaVersion version = smdaVersion version' := by
  have hdash : ∀ version, '-' ∉ "smda".toList ++ ((smdaVersion version).toList ++ ".json.gz".toList) := by
    intro version hmem
    rw [List.mem_append, List.mem_append] at hmem
    rcases hmem with hmem | hmem | hmem
    · exact absurd hmem (by decide)
    · exact dash_notMem_smdaVersion version hmem
    · exact absurd hmem (by decide)
  have hlist := congrArg String.toList h
  rw [toList_reportPath, toList_reportPath] at hlist
  obtain ⟨hsha, hversion⟩ := append_cons_inj (hdash _) (hdash _) hlist
  rw [List.append_cancel_right_eq] at hsha
  rw [List.append_cancel_left_eq, List.append_cancel_right_eq] at hversion
  exact ⟨String.toList_inj.1 hsha, String.toList_inj.1 hversion⟩

/-- No temporary file has the path of a report. -/
theorem reportPath_not_temp (version sha256 : String) : ¬ IsTempName (reportPath version sha256) := by
  rintro ⟨middle, h⟩
  have hreport : (reportPath version sha256).toList.getLast? = some 'z' := by
    rw [reportPath, String.toList_append, List.getLast?_append]
    rfl
  have htemp : ("." ++ middle ++ ".tmp").toList.getLast? = some 'p' := by
    rw [String.toList_append, List.getLast?_append]
    rfl
  rw [h, htemp] at hreport
  exact absurd hreport (by decide)

/-! ## What the threads keep -/

section Kept

variable {R τ : Type} (codec : ReportCodec R) (calls : τ → DiskCall R)

/-- What a stage says of the folder. -/
def DiskStage.Holds (s : Files String) : DiskStage → Prop
  | reading fd name done => ∃ file, s.handles fd = some ⟨file, done.length, false⟩ ∧ s.Sealed file ∧
      IsDocument codec calls name (s.content file) ∧ done <+: s.content file
  | finished _ name content => IsDocument codec calls name content
  | loaded name content => IsDocument codec calls name content
  | writing fd temp done => ∃ file, s.handles fd = some ⟨file, done.length, true⟩ ∧ s.content file = done ∧
      (s.names temp = none ∨ s.names temp = some file)
  | closed temp content => ∀ file, s.names temp = some file → s.content file = content ∧ s.Sealed file
  | renamed temp => s.names temp = none
  | dropped temp => s.names temp = none
  | _ => True

/-- Every file under another name than a temporary one is a whole report. -/
structure WholeReports (s : Files String) : Prop extends Files.WrittenAside s where
  temps : ∀ name ∈ s.temps, IsTempName name
  documents : ∀ name file, s.names name = some file → name ∉ s.temps →
    IsDocument codec calls name (s.content file)

/-- What the operations so far say of the stage of a thread. -/
structure History (tr : List (DiskEvent τ)) (t : τ) (stage : DiskStage) : Prop where
  made : ∀ fd temp, (t, ⟨.mkstemp, .ok (fd, temp)⟩) ∈ tr → stage.temp? = some temp
  stuck : ∀ temp, stage = .stuck temp → (t, ⟨.unlink temp, .error .failed⟩) ∈ tr
  renamed : ∀ temp, stage = .renamed temp → HasRenamed t tr
  storing : (calls t).IsStore → stage.Storing

/-- No two threads have the same. -/
def Separate {X : Type} (has : DiskStage → Option X) (stage : τ → τ × DiskStage) : Prop :=
  ∀ t u x, has (stage t).2 = some x → has (stage u).2 = some x → t = u

structure Consistent (tr : List (DiskEvent τ)) (stage : τ → τ × DiskStage) (s : Files String) : Prop where
  reports : WholeReports codec calls s
  thread : ∀ t, (stage t).1 = t
  history : ∀ t, History calls tr t (stage t).2
  stages : ∀ t, (stage t).2.Holds codec calls s
  fd_lt : ∀ t fd, (stage t).2.fd? = some fd → fd < s.nextHandle
  temp_mem : ∀ t temp, (stage t).2.temp? = some temp → temp ∈ s.temps
  fds : Separate DiskStage.fd? stage
  temps : Separate DiskStage.temp? stage

variable {codec calls}

/-! ### Other threads -/

theorem IsDocument.not_temp {name : String} {content : List UInt8} (h : IsDocument codec calls name content) :
    ¬ IsTempName name := by
  obtain ⟨version, sha256, rfl, -⟩ := h
  exact reportPath_not_temp version sha256

/-- The content under the name of a report is a whole document with its header. -/
theorem IsDocument.whole {version sha256 : String} {content : List UInt8}
    (h : IsDocument codec calls (reportPath version sha256) content) :
    WholeDocument codec calls version sha256 content := by
  obtain ⟨version', sha256', hname, t, version₀, report, now, hcall, hversion, hfailure, hcontent⟩ := h
  obtain ⟨rfl, hsame⟩ := reportPath_inj hname
  exact ⟨t, version₀, report, now, hcall, hversion.trans hsame.symm, hfailure, hcontent⟩

/-- What a stage says stays true when another thread takes a step. -/
theorem DiskStage.Holds.leaves {stage : DiskStage} {s s' : Files String} {own : Option ℕ} {temp : Option String}
    (h : stage.Holds codec calls s) (hs : s.WrittenAside) (hl : Files.Leaves own temp s s')
    (hfd : ∀ fd, stage.fd? = some fd → own ≠ some fd ∧ fd < s.nextHandle)
    (htemp : ∀ name, stage.temp? = some name → temp ≠ some name ∧ name ∈ s.temps) :
    stage.Holds codec calls s' := by
  have hgone : ∀ name, stage.temp? = some name → s.names name = none → s'.names name = none := by
    intro name hname hnone
    obtain ⟨hne, hmem⟩ := htemp name hname
    rcases hl.names name hmem hne with heq | hnone'
    · exact heq.trans hnone
    · exact hnone'
  cases stage with
  | reading fd name done =>
    obtain ⟨file, hhandle, hsealed, hdoc, hdone⟩ := h
    obtain ⟨hne, hlt⟩ := hfd fd rfl
    have hfile : file < s.nextFile := (hs.wellFormed.handle_lt fd _ hhandle).2
    refine ⟨file, (hl.handles fd hlt hne).trans hhandle, hl.stays file hfile hsealed, ?_⟩
    rw [hl.content_of_sealed hfile hsealed]
    exact ⟨hdoc, hdone⟩
  | finished fd name content => exact h
  | loaded name content => exact h
  | writing fd name done =>
    obtain ⟨file, hhandle, hcontent, hname⟩ := h
    obtain ⟨hne, hlt⟩ := hfd fd rfl
    have hfile : file < s.nextFile := (hs.wellFormed.handle_lt fd _ hhandle).2
    refine ⟨file, (hl.handles fd hlt hne).trans hhandle, ?_, ?_⟩
    · rw [← hcontent]
      refine hl.content file hfile fun fd' h' hown hfd' hw hfile' => hne ?_
      rw [hown, hs.one_writer fd' fd h' _ hfd' hhandle hw rfl hfile']
    · rcases hname with hnone | hsome
      · exact Or.inl (hgone name rfl hnone)
      · obtain ⟨hne', hmem⟩ := htemp name rfl
        rcases hl.names name hmem hne' with heq | hnone
        · exact Or.inr (heq.trans hsome)
        · exact Or.inl hnone
  | closed name content =>
    intro file hname
    obtain ⟨hne, hmem⟩ := htemp name rfl
    rcases hl.names name hmem hne with heq | hnone
    · obtain ⟨hcontent, hsealed⟩ := h file (heq.symm.trans hname)
      have hfile : file < s.nextFile := hs.wellFormed.file_lt name file (heq.symm.trans hname)
      exact ⟨(hl.content_of_sealed hfile hsealed).trans hcontent, hl.stays file hfile hsealed⟩
    · rw [hnone] at hname
      cases hname
  | renamed name => exact hgone name rfl h
  | dropped name => exact hgone name rfl h
  | _ => trivial

/-! ### The history of a thread -/

theorem DiskStage.temp?_next {stage : DiskStage} {temp : String} (h : stage.temp? = some temp) (o : FileOp String)
    (a : Except FileError o.Res) : (stage.next o a).temp? = some temp := by
  unfold next
  split
  all_goals first | exact h | cases h
  all_goals first | rfl | exact temp?_afterUnlink ..

/-- A temporary file is only given up when it cannot be removed. -/
theorem DiskStage.next_eq_stuck {stage : DiskStage} {o : FileOp String} {a : Except FileError o.Res}
    {temp : String} (hallowed : stage.allowed codec calls o) (h : stage.next o a = stuck temp) :
    (⟨o, a⟩ : Prog.Event (FileI String)) = ⟨.unlink temp, .error .failed⟩ := by
  have hunlink : ∀ {name : String} {a : Except FileError Unit}, afterUnlink name a = stuck temp →
      name = temp ∧ a = .error .failed := by
    rintro name ((_ | _) | _) h <;> cases h
    exact ⟨rfl, rfl⟩
  unfold next at h
  split at h
  all_goals try (split_ifs at h)
  all_goals try (cases h)
  · obtain ⟨rfl, rfl⟩ := hunlink h
    obtain rfl := hallowed
    rfl
  · obtain ⟨rfl, rfl⟩ := hunlink h
    obtain rfl := hallowed
    rfl
  · exact hallowed.elim

theorem DiskStage.next_eq_renamed {stage : DiskStage} {o : FileOp String} {a : Except FileError o.Res}
    {temp : String} (h : stage.next o a = renamed temp) : stage = renamed temp ∨
      ∃ source target, (⟨o, a⟩ : Prog.Event (FileI String)) = ⟨.replace source target, .ok ()⟩ := by
  have hunlink : ∀ {name : String} {a : Except FileError Unit}, afterUnlink name a ≠ renamed temp := by
    rintro name ((_ | _) | _) h <;> cases h
  unfold next at h
  split at h
  all_goals try (split_ifs at h)
  all_goals try (exact absurd h hunlink)
  all_goals try (cases h)
  · exact Or.inr ⟨_, _, rfl⟩
  · exact Or.inl rfl

theorem DiskStage.Storing.next {stage : DiskStage} (h : stage.Storing) (o : FileOp String)
    (a : Except FileError o.Res) : (stage.next o a).Storing := by
  rcases h with rfl | h
  · cases o with
    | mkstemp =>
      rcases a with e | ⟨fd, temp⟩
      · exact Or.inl rfl
      · exact Or.inr rfl
    | _ => exact Or.inl rfl
  · obtain ⟨temp, htemp⟩ := Option.isSome_iff_exists.1 h
    exact Or.inr (by rw [temp?_next htemp]; rfl)

theorem History.step {tr : List (DiskEvent τ)} {t : τ} {stage : DiskStage} (h : History calls tr t stage)
    {o : FileOp String} (hallowed : stage.allowed codec calls o) (a : Except FileError o.Res) :
    History calls (tr ++ [(t, ⟨o, a⟩)]) t (stage.next o a) where
  made fd temp hmem := by
    rcases List.mem_append.1 hmem with hmem | hmem
    · exact DiskStage.temp?_next (h.made fd temp hmem) o a
    · obtain ⟨-, heq⟩ := Prod.mk.inj (List.mem_singleton.1 hmem)
      cases heq
      cases stage with
      | idle => rfl
      | _ => exact hallowed.elim
  stuck temp hnext := by
    rw [← DiskStage.next_eq_stuck hallowed hnext]
    exact List.mem_append_right _ (List.mem_singleton_self _)
  renamed temp hnext := by
    rcases DiskStage.next_eq_renamed hnext with hold | ⟨source, target, heq⟩
    · obtain ⟨source, target, hmem⟩ := h.renamed temp hold
      exact ⟨source, target, List.mem_append_left _ hmem⟩
    · exact ⟨source, target, List.mem_append_right _ (heq ▸ List.mem_singleton_self _)⟩
  storing hstore := (h.storing hstore).next o a

/-- The operations of other threads are no part of it. -/
theorem History.other {tr : List (DiskEvent τ)} {t u : τ} {stage : DiskStage} (h : History calls tr u stage)
    (hut : u ≠ t) (ev : Prog.Event (FileI String)) : History calls (tr ++ [(t, ev)]) u stage where
  made fd temp hmem := by
    rcases List.mem_append.1 hmem with hmem | hmem
    · exact h.made fd temp hmem
    · exact absurd (Prod.mk.inj (List.mem_singleton.1 hmem)).1 hut
  stuck temp hstage := List.mem_append_left _ (h.stuck temp hstage)
  renamed temp hstage := by
    obtain ⟨source, target, hmem⟩ := h.renamed temp hstage
    exact ⟨source, target, List.mem_append_left _ hmem⟩
  storing := h.storing

/-! ### A step -/

section Step

variable [DecidableEq τ] {tr : List (DiskEvent τ)} {stage : τ → τ × DiskStage} {s s' : Files String} {t : τ}
  {own : DiskStage} {o : FileOp String} {a : Except FileError o.Res}

omit [DecidableEq τ] in
/-- Two threads are told apart by what they have. -/
theorem Separate.ne {X : Type} {has : DiskStage → Option X} (h : Separate has stage) (hown : stage t = (t, own))
    {u : τ} {x : X} (hut : u ≠ t) (hu : has (stage u).2 = some x) : has own ≠ some x := by
  intro ht
  rw [← show (stage t).2 = own by rw [hown]] at ht
  exact hut (h u t x hu ht)

theorem Separate.update {X : Type} {has : DiskStage → Option X} (h : Separate has stage) {next : DiskStage}
    (hnext : ∀ u x, u ≠ t → has (stage u).2 = some x → has next ≠ some x) :
    Separate has (Function.update stage t (t, next)) := by
  intro u v x hu hv
  by_cases hut : u = t
  · by_cases hvt : v = t
    · rw [hut, hvt]
    · rw [Function.update_of_ne hvt] at hv
      rw [hut, Function.update_self] at hu
      exact absurd hu (hnext v x hvt hv)
  · rw [Function.update_of_ne hut] at hu
    by_cases hvt : v = t
    · rw [hvt, Function.update_self] at hv
      exact absurd hv (hnext u x hut hu)
    · rw [Function.update_of_ne hvt] at hv
      exact h u v x hu hv

/-- A step that leaves the others their handles and files; the thread keeps what it has, or gets something
new. -/
theorem Consistent.update (h : Consistent codec calls tr stage s) (hown : stage t = (t, own))
    (hallowed : own.allowed codec calls o) (hreports : WholeReports codec calls s')
    (hl : Files.Leaves own.fd? own.temp? s s') (hnext : (own.next o a).Holds codec calls s')
    (hfd : ∀ fd, (own.next o a).fd? = some fd → own.fd? = some fd ∨ s.nextHandle = fd ∧ fd < s'.nextHandle)
    (htemp : ∀ temp, (own.next o a).temp? = some temp →
      own.temp? = some temp ∨ temp ∉ s.temps ∧ temp ∈ s'.temps) :
    Consistent codec calls (tr ++ [(t, ⟨o, a⟩)]) (Function.update stage t (t, own.next o a)) s' := by
  have hownFd : ∀ {fd}, own.fd? = some fd → fd < s.nextHandle :=
    fun {fd} hfd => h.fd_lt t fd (by rw [hown]; exact hfd)
  have hownTemp : ∀ {temp}, own.temp? = some temp → temp ∈ s.temps :=
    fun {temp} htemp => h.temp_mem t temp (by rw [hown]; exact htemp)
  refine ⟨hreports, fun u => ?_, fun u => ?_, fun u => ?_, fun u fd hu => ?_, fun u temp hu => ?_,
    h.fds.update fun u fd hut hu hnew => ?_, h.temps.update fun u temp hut hu hnew => ?_⟩
  · by_cases hut : u = t
    · subst hut
      rw [Function.update_self]
    · rw [Function.update_of_ne hut]
      exact h.thread u
  · by_cases hut : u = t
    · subst hut
      rw [Function.update_self]
      have hhistory := h.history u
      rw [hown] at hhistory
      exact hhistory.step hallowed a
    · rw [Function.update_of_ne hut]
      exact (h.history u).other hut _
  · by_cases hut : u = t
    · subst hut
      rw [Function.update_self]
      exact hnext
    · rw [Function.update_of_ne hut]
      exact (h.stages u).leaves h.reports.toWrittenAside hl
        (fun fd hu => ⟨h.fds.ne hown hut hu, h.fd_lt u fd hu⟩)
        fun temp hu => ⟨h.temps.ne hown hut hu, h.temp_mem u temp hu⟩
  · by_cases hut : u = t
    · rw [hut, Function.update_self] at hu
      rcases hfd fd hu with hold | ⟨-, hlt⟩
      · exact Nat.lt_of_lt_of_le (hownFd hold) hl.nextHandle_le
      · exact hlt
    · rw [Function.update_of_ne hut] at hu
      exact Nat.lt_of_lt_of_le (h.fd_lt u fd hu) hl.nextHandle_le
  · by_cases hut : u = t
    · rw [hut, Function.update_self] at hu
      rcases htemp temp hu with hold | ⟨-, hmem⟩
      · exact hl.temps temp (hownTemp hold)
      · exact hmem
    · rw [Function.update_of_ne hut] at hu
      exact hl.temps temp (h.temp_mem u temp hu)
  · rcases hfd fd hnew with hold | ⟨heq, -⟩
    · exact h.fds.ne hown hut hu hold
    · exact absurd (h.fd_lt u fd hu) (heq ▸ Nat.lt_irrefl _)
  · rcases htemp temp hnew with hold | ⟨hfresh, -⟩
    · exact h.temps.ne hown hut hu hold
    · exact hfresh (h.temp_mem u temp hu)

/-- A step that leaves the folder as it is. -/
theorem Consistent.stay (h : Consistent codec calls tr stage s) (hown : stage t = (t, own))
    (hallowed : own.allowed codec calls o) (hnext : (own.next o a).Holds codec calls s)
    (hfd : ∀ fd, (own.next o a).fd? = some fd → own.fd? = some fd)
    (htemp : ∀ temp, (own.next o a).temp? = some temp → own.temp? = some temp) :
    Consistent codec calls (tr ++ [(t, ⟨o, a⟩)]) (Function.update stage t (t, own.next o a)) s :=
  h.update hown hallowed h.reports (Files.leaves_refl _ _ s) hnext (fun fd hfd' => Or.inl (hfd fd hfd'))
    fun temp htemp' => Or.inl (htemp temp htemp')

/-! ### Its operations -/

theorem step_openRead (h : Consistent codec calls tr stage s) (hown : stage t = (t, .reader)) {name : String}
    (hallowed : DiskStage.reader.allowed codec calls (.openRead name))
    {a : Except FileError (FileOp.openRead name).Res} (hsem : Files.Sem IsTempName s (.openRead name) a s') :
    Consistent codec calls (tr ++ [(t, ⟨.openRead name, a⟩)])
      (Function.update stage t (t, DiskStage.reader.next (.openRead name) a)) s' := by
  cases hsem with
  | failed => exact h.stay hown hallowed trivial nofun nofun
  | missing => exact h.stay hown hallowed trivial nofun nofun
  | @openRead _ file hfile =>
    obtain ⟨version, sha256, rfl⟩ := id hallowed
    have hs := h.reports.toWrittenAside
    have htemp : reportPath version sha256 ∉ s.temps :=
      fun hmem => reportPath_not_temp _ _ (h.reports.temps _ hmem)
    have hsealed : s.Sealed file := fun fd h' hfd hw heq =>
      htemp (hs.temporary fd h' _ hfd hw (heq ▸ hfile))
    have hlt : file < s.nextFile := hs.wellFormed.file_lt _ _ hfile
    have hl : Files.Leaves none none s (s.openHandle ⟨file, 0, false⟩) := Files.leaves_openRead none none rfl
    refine h.update hown hallowed ⟨hs.openRead rfl hlt, h.reports.temps, h.reports.documents⟩ hl
      ⟨file, Function.update_self _ _ _, hl.stays file hlt hsealed, ?_, List.nil_prefix⟩ (fun fd hfd => ?_) nofun
    · exact h.reports.documents _ file hfile htemp
    · obtain rfl := Option.some.inj hfd
      exact Or.inr ⟨rfl, Nat.lt_succ_self _⟩

theorem step_read (h : Consistent codec calls tr stage s) {fd : ℕ} {name : String} {done : List UInt8}
    (hown : stage t = (t, .reading fd name done)) {a : Except FileError (FileOp.read (N := String) fd).Res}
    (hsem : Files.Sem IsTempName s (.read fd) a s') :
    Consistent codec calls (tr ++ [(t, ⟨.read fd, a⟩)])
      (Function.update stage t (t, (DiskStage.reading fd name done).next (.read fd) a)) s' := by
  obtain ⟨file, hhandle, hsealed, hdoc, hdone⟩ : (DiskStage.reading fd name done).Holds codec calls s := by
    have := h.stages t
    rwa [hown] at this
  cases hsem with
  | failed => exact h.stay hown rfl trivial (fun _ hfd => hfd) nofun
  | missing hneeds => cases hneeds
  | @read _ _ bytes hfd hread =>
    rw [hhandle, Option.some.injEq] at hfd
    subst hfd
    have hs := h.reports.toWrittenAside
    have hl : Files.Leaves (some fd) none s (s.advance fd ⟨file, done.length, false⟩ bytes) :=
      Files.leaves_advance none hhandle bytes
    refine h.update hown rfl ⟨hs.advance hhandle bytes, h.reports.temps, h.reports.documents⟩ hl ?_
      (fun fd' hfd' => Or.inl ?_) fun temp htemp => ?_
    · show (if bytes = [] then DiskStage.finished fd name done
        else .reading fd name (done ++ bytes)).Holds codec calls _
      split_ifs with hnil
      · -- All has been read.
        have hall : done = s.content file := hdone.eq_of_length_le (hread.2 hnil)
        show IsDocument codec calls name done
        rwa [hall]
      · refine ⟨file, ?_, hl.stays file (hs.wellFormed.handle_lt fd _ hhandle).2 hsealed, hdoc, ?_⟩
        · rw [List.length_append]
          exact Function.update_self _ _ _
        · obtain ⟨rest, hrest⟩ := hdone
          obtain ⟨rest', hrest'⟩ := hread.1
          have hdrop : bytes ++ rest' = (s.content file).drop done.length := hrest'
          refine ⟨rest', ?_⟩
          show done ++ bytes ++ rest' = s.content file
          rw [List.append_assoc, hdrop, ← hrest, List.drop_left]
    · replace hfd' : (if bytes = [] then DiskStage.finished fd name done
        else .reading fd name (done ++ bytes)).fd? = some fd' := hfd'
      split_ifs at hfd' <;> exact hfd'
    · replace htemp : (if bytes = [] then DiskStage.finished fd name done
        else .reading fd name (done ++ bytes)).temp? = some temp := htemp
      split_ifs at htemp <;> cases htemp

theorem step_close (h : Consistent codec calls tr stage s) (hown : stage t = (t, own)) {fd : ℕ}
    (hallowed : own.allowed codec calls (.close fd)) {a : Except FileError (FileOp.close (N := String) fd).Res}
    (hsem : Files.Sem IsTempName s (.close fd) a s') :
    Consistent codec calls (tr ++ [(t, ⟨.close fd, a⟩)])
      (Function.update stage t (t, own.next (.close fd) a)) s' := by
  have hholds : own.Holds codec calls s := by
    have := h.stages t
    rwa [hown] at this
  have hs := h.reports.toWrittenAside
  have hreports : ∀ fd, WholeReports codec calls (s.closeHandle fd) :=
    fun fd => ⟨hs.close fd, h.reports.temps, h.reports.documents⟩
  cases hsem with
  | failed =>
    cases own with
    | abandoned fd' => exact h.stay hown hallowed trivial nofun nofun
    | finished fd' name content => exact h.stay hown hallowed trivial nofun nofun
    | writing fd' temp done => exact h.stay hown hallowed trivial (fun _ hfd => hfd) fun _ htemp => htemp
    | broken fd' temp => exact h.stay hown hallowed trivial (fun _ hfd => hfd) fun _ htemp => htemp
    | _ => exact hallowed.elim
  | missing hneeds => cases hneeds
  | close hfd =>
    cases own with
    | abandoned fd' =>
      obtain rfl : fd = fd' := id hallowed
      exact h.update hown hallowed (hreports fd) (Files.leaves_close none fd) trivial nofun nofun
    | finished fd' name content =>
      obtain rfl : fd = fd' := id hallowed
      exact h.update hown hallowed (hreports fd) (Files.leaves_close none fd) hholds nofun nofun
    | writing fd' temp done =>
      obtain rfl : fd = fd' := id hallowed
      obtain ⟨file, hhandle, hcontent, hname⟩ := hholds
      refine h.update hown hallowed (hreports fd) (Files.leaves_close (some temp) fd) (fun file' hfile' => ?_) nofun
        fun _ htemp => Or.inl htemp
      replace hfile' : s.names temp = some file' := hfile'
      rcases hname with hnone | hsome
      · rw [hnone] at hfile'
        cases hfile'
      · obtain rfl := Option.some.inj (hsome.symm.trans hfile')
        exact ⟨hcontent, hs.sealed_close hhandle rfl⟩
    | broken fd' temp =>
      obtain rfl : fd = fd' := id hallowed
      exact h.update hown hallowed (hreports fd) (Files.leaves_close (some temp) fd) trivial
        (fun _ hfd => Or.inl hfd) fun _ htemp => Or.inl htemp
    | _ => exact hallowed.elim

omit [DecidableEq τ] in
theorem WholeReports.write (hs : WholeReports codec calls s) {fd : ℕ} {h : Handle} (hfd : s.handles fd = some h)
    (hw : h.writable = true) (bytes : List UInt8) : WholeReports codec calls (s.writeAt fd h bytes) where
  toWrittenAside := hs.toWrittenAside.write hfd bytes
  temps := hs.temps
  documents name file hname hnot := by
    have hne : file ≠ h.file := by
      rintro rfl
      exact hnot (hs.temporary fd h name hfd hw hname)
    have hcontent : (s.writeAt fd h bytes).content file = s.content file := Function.update_of_ne hne _ _
    rw [hcontent]
    exact hs.documents name file hname hnot

theorem step_write (h : Consistent codec calls tr stage s) (hown : stage t = (t, own)) {fd : ℕ}
    {bytes : List UInt8} (hallowed : own.allowed codec calls (.write fd bytes))
    {a : Except FileError (FileOp.write (N := String) fd bytes).Res}
    (hsem : Files.Sem IsTempName s (.write fd bytes) a s') :
    Consistent codec calls (tr ++ [(t, ⟨.write fd bytes, a⟩)])
      (Function.update stage t (t, own.next (.write fd bytes) a)) s' := by
  have hholds : own.Holds codec calls s := by
    have := h.stages t
    rwa [hown] at this
  cases own with
  | writing fd' temp done =>
    obtain rfl : fd = fd' := id hallowed
    cases hsem with
    | failed => exact h.stay hown hallowed trivial (fun _ hfd => hfd) fun _ htemp => htemp
    | missing hneeds => cases hneeds
    | torn hfd hw =>
      exact h.update hown hallowed (h.reports.write hfd hw _) (Files.leaves_write (some temp) hfd hw _) trivial
        (fun _ hfd' => Or.inl hfd') fun _ htemp => Or.inl htemp
    | write hfd hw =>
      obtain ⟨file, hhandle, hcontent, hname⟩ := hholds
      rw [hhandle, Option.some.injEq] at hfd
      subst hfd
      refine h.update hown hallowed (h.reports.write hhandle hw _) (Files.leaves_write (some temp) hhandle hw _)
        ⟨file, ?_, ?_, hname⟩ (fun _ hfd' => Or.inl hfd') fun _ htemp => Or.inl htemp
      · rw [List.length_append]
        exact Function.update_self _ _ _
      · simp only [Files.writeAt, Function.update_self]
        rw [hcontent]
        exact overwrite_end _ _
  | broken fd' temp =>
    obtain rfl : fd = fd' := id hallowed
    cases hsem with
    | failed => exact h.stay hown hallowed trivial (fun _ hfd => hfd) fun _ htemp => htemp
    | missing hneeds => cases hneeds
    | torn hfd hw =>
      exact h.update hown hallowed (h.reports.write hfd hw _) (Files.leaves_write (some temp) hfd hw _) trivial
        (fun _ hfd' => Or.inl hfd') fun _ htemp => Or.inl htemp
    | write hfd hw =>
      exact h.update hown hallowed (h.reports.write hfd hw _) (Files.leaves_write (some temp) hfd hw _) trivial
        (fun _ hfd' => Or.inl hfd') fun _ htemp => Or.inl htemp
  | _ => exact hallowed.elim

theorem step_mkstemp (h : Consistent codec calls tr stage s) (hown : stage t = (t, .idle))
    {a : Except FileError (FileOp.mkstemp (N := String)).Res} (hsem : Files.Sem IsTempName s .mkstemp a s') :
    Consistent codec calls (tr ++ [(t, ⟨.mkstemp, a⟩)])
      (Function.update stage t (t, DiskStage.idle.next .mkstemp a)) s' := by
  have hs := h.reports.toWrittenAside
  cases hsem with
  | failed => exact h.stay hown trivial trivial nofun nofun
  | missing hneeds => cases hneeds
  | @mkstemp name htemp hunused _ =>
    have hreports : WholeReports codec calls ((s.newFile name).rememberTemp name) := by
      refine ⟨hs.mkstemp hunused, fun name' hmem => ?_, fun name' file hname hnot => ?_⟩
      · rcases List.mem_cons.1 hmem with rfl | hmem
        · exact htemp
        · exact h.reports.temps name' hmem
      · have hne : name' ≠ name := fun heq => hnot (heq ▸ List.mem_cons_self ..)
        replace hname : Function.update s.names name (some s.nextFile) name' = some file := hname
        rw [Function.update_of_ne hne] at hname
        have hcontent : ((s.newFile name).rememberTemp name).content file = s.content file :=
          Function.update_of_ne (Nat.ne_of_lt (hs.wellFormed.file_lt name' file hname)) _ _
        rw [hcontent]
        exact h.reports.documents name' file hname fun hmem => hnot (List.mem_cons_of_mem _ hmem)
    refine h.update hown trivial hreports (Files.leaves_mkstemp none none hunused) ⟨s.nextFile, ?_, ?_, Or.inr ?_⟩
      (fun fd hfd => ?_) fun temp htemp' => ?_
    · exact Function.update_self _ _ _
    · exact Function.update_self _ _ _
    · exact Function.update_self _ _ _
    · obtain rfl := Option.some.inj hfd
      exact Or.inr ⟨rfl, Nat.lt_succ_self _⟩
    · obtain rfl := Option.some.inj htemp'
      exact Or.inr ⟨hunused, List.mem_cons_self ..⟩

omit [DecidableEq τ] in
theorem WholeReports.remove (hs : WholeReports codec calls s) (name : String) :
    WholeReports codec calls (s.remove name) where
  toWrittenAside := hs.toWrittenAside.remove name
  temps := hs.temps
  documents name' file hname := hs.documents name' file (Files.names_remove_of_some hname)

theorem step_unlink (h : Consistent codec calls tr stage s) (hown : stage t = (t, own)) {name : String}
    (hallowed : own.allowed codec calls (.unlink name)) {a : Except FileError (FileOp.unlink name).Res}
    (hsem : Files.Sem IsTempName s (.unlink name) a s') :
    Consistent codec calls (tr ++ [(t, ⟨.unlink name, a⟩)])
      (Function.update stage t (t, own.next (.unlink name) a)) s' := by
  have hholds : own.Holds codec calls s := by
    have := h.stages t
    rwa [hown] at this
  cases own with
  | reader =>
    cases hsem with
    | unlink _ =>
      exact h.update hown hallowed (h.reports.remove name) (Files.leaves_remove none none s name) trivial nofun nofun
    | _ => exact h.stay hown hallowed trivial nofun nofun
  | loaded name' content =>
    cases hsem with
    | unlink _ =>
      exact h.update hown hallowed (h.reports.remove name) (Files.leaves_remove none none s name) hholds nofun nofun
    | _ => exact h.stay hown hallowed hholds nofun nofun
  | renamed temp =>
    cases hsem with
    | unlink _ =>
      refine h.update hown hallowed (h.reports.remove name) (Files.leaves_remove none (some temp) s name) ?_ nofun
        fun _ htemp => Or.inl htemp
      by_cases heq : temp = name
      · subst heq
        exact Function.update_self _ _ _
      · exact (Function.update_of_ne heq _ _).trans hholds
    | _ => exact h.stay hown hallowed hholds nofun fun _ htemp => htemp
  | broken fd temp =>
    obtain rfl : name = temp := id hallowed
    cases hsem with
    | failed => exact h.stay hown hallowed trivial nofun fun _ htemp => htemp
    | missing hneeds hnone =>
      obtain rfl := Option.some.inj hneeds
      exact h.stay hown hallowed hnone nofun fun _ htemp => htemp
    | unlink _ =>
      exact h.update hown hallowed (h.reports.remove name) (Files.leaves_remove (some fd) (some name) s name)
        (Function.update_self _ _ _) nofun fun _ htemp => Or.inl htemp
  | closed temp content =>
    obtain rfl : name = temp := id hallowed
    cases hsem with
    | failed => exact h.stay hown hallowed trivial nofun fun _ htemp => htemp
    | missing hneeds hnone =>
      obtain rfl := Option.some.inj hneeds
      exact h.stay hown hallowed hnone nofun fun _ htemp => htemp
    | unlink _ =>
      exact h.update hown hallowed (h.reports.remove name) (Files.leaves_remove none (some name) s name)
        (Function.update_self _ _ _) nofun fun _ htemp => Or.inl htemp
  | _ => exact hallowed.elim

theorem step_replace (h : Consistent codec calls tr stage s) {temp target : String} {content : List UInt8}
    (hown : stage t = (t, .closed temp content))
    (hallowed : (DiskStage.closed temp content).allowed codec calls (.replace temp target))
    {a : Except FileError (FileOp.replace temp target).Res}
    (hsem : Files.Sem IsTempName s (.replace temp target) a s') :
    Consistent codec calls (tr ++ [(t, ⟨.replace temp target, a⟩)])
      (Function.update stage t (t, (DiskStage.closed temp content).next (.replace temp target) a)) s' := by
  have hholds : (DiskStage.closed temp content).Holds codec calls s := by
    have := h.stages t
    rwa [hown] at this
  have hs := h.reports.toWrittenAside
  have hfd : ∀ (a : Except FileError Unit) (fd : ℕ),
      ((DiskStage.closed temp content).next (.replace temp target) a).fd? ≠ some fd := by
    rintro (e | _) fd hfd <;> cases hfd
  cases hsem with
  | failed => exact h.stay hown hallowed hholds (fun fd hfd' => absurd hfd' (hfd _ fd)) fun _ htemp => htemp
  | missing => exact h.stay hown hallowed hholds (fun fd hfd' => absurd hfd' (hfd _ fd)) fun _ htemp => htemp
  | @replace _ _ file hfile =>
    obtain ⟨hcontent, hsealed⟩ := hholds file hfile
    have hdoc : IsDocument codec calls target content := hallowed.2
    have htarget : target ∉ s.temps := fun hmem => hdoc.not_temp (h.reports.temps _ hmem)
    have hne : temp ≠ target := by
      rintro rfl
      exact htarget (h.temp_mem t temp (by rw [hown]; rfl))
    have hreports : WholeReports codec calls (s.rename temp target file) := by
      refine ⟨hs.rename hfile hsealed, h.reports.temps, fun name file' hname hnot => ?_⟩
      by_cases heq : name = target
      · subst heq
        simp only [Files.rename, Function.update_self, Option.some.injEq] at hname
        subst hname
        show IsDocument codec calls name (s.content file)
        rwa [hcontent]
      · simp only [Files.rename, Function.update_of_ne heq] at hname
        exact h.reports.documents name file' (Files.names_remove_of_some hname) hnot
    refine h.update hown hallowed hreports (Files.leaves_rename none htarget file) ?_
      (fun fd hfd' => absurd hfd' (hfd _ fd)) fun _ htemp => Or.inl htemp
    show (s.rename temp target file).names temp = none
    simp only [Files.rename, Function.update_of_ne hne, Function.update_self]

theorem step_quiet (h : Consistent codec calls tr stage s) (hown : stage t = (t, own))
    (hallowed : own.allowed codec calls o) (hnext : own.next o a = own) :
    Consistent codec calls (tr ++ [(t, ⟨o, a⟩)]) (Function.update stage t (t, own.next o a)) s := by
  have hholds : own.Holds codec calls s := by
    have := h.stages t
    rwa [hown] at this
  refine h.stay hown hallowed ?_ (fun fd hfd => ?_) fun temp htemp => ?_
  · rwa [hnext]
  · rwa [hnext] at hfd
  · rwa [hnext] at htemp

/-- The step lemma, by the operations. -/
theorem consistent_step (h : Consistent codec calls tr stage s) {o : FileOp String} {a : Except FileError o.Res}
    (hallowed : (stage t).2.allowed codec calls o) (hsem : Files.Sem IsTempName s o a s') :
    Consistent codec calls (tr ++ [(t, ⟨o, a⟩)])
      (Function.update stage t ((diskProtocol codec calls).next (stage t) o a)) s' := by
  obtain ⟨own, hown⟩ : ∃ own, stage t = (t, own) := ⟨(stage t).2, Prod.ext (h.thread t) rfl⟩
  rw [hown] at hallowed ⊢
  show Consistent codec calls _ (Function.update stage t (t, own.next o a)) s'
  cases o with
  | mkdir =>
    obtain rfl : s' = s := by cases hsem <;> rfl
    cases own with
    | idle => exact step_quiet h hown hallowed rfl
    | _ => exact hallowed.elim
  | mkstemp =>
    cases own with
    | idle => exact step_mkstemp h hown hsem
    | _ => exact hallowed.elim
  | create name => cases own <;> exact hallowed.elim
  | openRead name =>
    cases own with
    | reader => exact step_openRead h hown hallowed hsem
    | _ => exact hallowed.elim
  | read fd =>
    cases own with
    | reading fd' name done =>
      obtain rfl : fd = fd' := hallowed
      exact step_read h hown hsem
    | _ => exact hallowed.elim
  | write fd bytes => exact step_write h hown hallowed hsem
  | close fd => exact step_close h hown hallowed hsem
  | replace source target =>
    cases own with
    | closed temp content =>
      obtain rfl : source = temp := hallowed.1
      exact step_replace h hown hallowed hsem
    | _ => exact hallowed.elim
  | unlink name => exact step_unlink h hown hallowed hsem
  | utime name =>
    obtain rfl : s' = s := by cases hsem <;> rfl
    cases own with
    | loaded name' content => exact step_quiet h hown hallowed rfl
    | _ => exact hallowed.elim
  | scandir =>
    obtain rfl : s' = s := by cases hsem <;> rfl
    cases own with
    | reader => exact step_quiet h hown hallowed rfl
    | renamed temp => exact step_quiet h hown hallowed rfl
    | _ => exact hallowed.elim
  | stat name =>
    obtain rfl : s' = s := by cases hsem <;> rfl
    cases own with
    | reader => exact step_quiet h hown hallowed rfl
    | renamed temp => exact step_quiet h hown hallowed rfl
    | _ => exact hallowed.elim

end Step

/-! ## Runs of calls -/

section Runs

variable {tr : List (DiskEvent τ)} {p : DiskThreads τ R} {stage : τ → τ × DiskStage}

/-- The threads are in their stages, and these say what the folder holds. -/
abbrev DiskTracked (codec : ReportCodec R) (calls : τ → DiskCall R) (tr : List (DiskEvent τ))
    (p : DiskThreads τ R) (stage : τ → τ × DiskStage) : Prop :=
  p.Tracked (diskProtocol codec calls) (fun t => DiskEnded codec (calls t)) (Consistent codec calls) tr stage

theorem tracked_diskPool : DiskTracked codec calls [] (diskPool codec calls) fun t => (t, (calls t).start) := by
  have hfd : ∀ call : DiskCall R, call.start.fd? = none := by rintro (_ | _ | _) <;> rfl
  have htemp : ∀ call : DiskCall R, call.start.temp? = none := by rintro (_ | _ | _) <;> rfl
  refine ⟨fun t prog ht => ?_, ⟨Files.writtenAside_empty, nofun, nofun⟩, fun _ => rfl, fun t => ?_, fun t => ?_,
    fun t fd h => ?_, fun t temp h => ?_, fun t u fd h => ?_, fun t u temp h => ?_⟩
  · obtain rfl := Option.some.inj ht
    exact follows_diskCall t
  · have hne : ∀ {stage : DiskStage} {temp : String}, stage.temp? = some temp → (calls t).start ≠ stage := by
      rintro stage temp hsome rfl
      rw [htemp] at hsome
      cases hsome
    refine ⟨nofun, fun temp h => absurd h (hne rfl), fun temp h => absurd h (hne rfl), fun h => ?_⟩
    dsimp only
    cases hcall : calls t with
    | store version sha256 report now => exact Or.inl rfl
    | _ =>
      rw [hcall] at h
      exact h.elim
  · dsimp only
    cases calls t <;> trivial
  · exact absurd h (by rw [hfd]; nofun)
  · exact absurd h (by rw [htemp]; nofun)
  · exact absurd h (by rw [hfd]; nofun)
  · exact absurd h (by rw [htemp]; nofun)

theorem exists_tracked [DecidableEq τ] (hrun : Steps DiskStep (diskPool codec calls) tr p) :
    ∃ stage, DiskTracked codec calls tr p stage := by
  have hrun' : Steps (Pool.stepWhen (Files.Sem IsTempName) fun _ _ => True) (diskPool codec calls) tr p :=
    hrun.mono fun p l q hstep => ⟨trivial, hstep⟩
  have hstart : DiskTracked codec calls [] (diskPool codec calls) _ := tracked_diskPool
  refine Pool.Tracked.steps hrun' ?_ hstart
  intro tr p phase t o a s' hp _ hallowed hsem
  exact consistent_step hp.2 hallowed hsem

/-- A report is what its path leads to. -/
theorem Consistent.whole {s : Files String} (h : Consistent codec calls tr stage s) {version sha256 : String}
    {content : List UInt8} (hread : s.read? (reportPath version sha256) = some content) :
    WholeDocument codec calls version sha256 content := by
  obtain ⟨file, hfile, rfl⟩ := Option.map_eq_some_iff.1 hread
  exact (h.reports.documents _ file hfile fun hmem =>
    reportPath_not_temp version sha256 (h.reports.temps _ hmem)).whole

/-- Until a store renames its file it leaves the reports as they are. -/
theorem untouched_step {t : τ} {o : FileOp String} {a : Except FileError o.Res} {s s' : Files String}
    (h : Consistent codec calls tr stage s) (hstore : (calls t).IsStore)
    (hallowed : (stage t).2.allowed codec calls o) (hsem : Files.Sem IsTempName s o a s')
    (hnot : ¬ HasRenamed t (tr ++ [(t, ⟨o, a⟩)])) (version sha256 : String) :
    s'.read? (reportPath version sha256) = s.read? (reportPath version sha256) := by
  have hs := h.reports.toWrittenAside
  have htemp : reportPath version sha256 ∉ s.temps :=
    fun hmem => reportPath_not_temp _ _ (h.reports.temps _ hmem)
  have hstoring := (h.history t).storing hstore
  have hwrite : ∀ {fd h' bytes}, s.handles fd = some h' → h'.writable = true →
      (s.writeAt fd h' bytes).read? (reportPath version sha256) = s.read? (reportPath version sha256) :=
    fun {fd h' bytes} hfd hw => Files.read?_writeAt fun hname => htemp (hs.temporary fd h' _ hfd hw hname)
  cases hsem with
  | torn hfd hw => exact hwrite hfd hw
  | write hfd hw => exact hwrite hfd hw
  | @mkstemp name hname _ _ =>
    refine Files.read?_newFile hs.wellFormed fun heq => reportPath_not_temp version sha256 ?_
    rwa [heq]
  | created => cases hst : (stage t).2 <;> rw [hst] at hallowed <;> exact hallowed.elim
  | truncated => cases hst : (stage t).2 <;> rw [hst] at hallowed <;> exact hallowed.elim
  | @replace source target file _ =>
    exact absurd ⟨source, target, List.mem_append_right _ (List.mem_singleton_self _)⟩ hnot
  | @unlink name file _ =>
    -- Before the renaming a store removes nothing but its temporary file.
    have hown : (stage t).2.temp? = some name := by
      cases hst : (stage t).2 with
      | broken fd temp =>
        rw [hst] at hallowed
        exact congrArg some hallowed.symm
      | closed temp content =>
        rw [hst] at hallowed
        exact congrArg some hallowed.symm
      | renamed temp =>
        obtain ⟨source, target, hmem⟩ := (h.history t).renamed temp hst
        exact absurd ⟨source, target, List.mem_append_left _ hmem⟩ hnot
      | reader =>
        rw [hst] at hstoring
        rcases hstoring with hstoring | hstoring <;> cases hstoring
      | loaded name content =>
        rw [hst] at hstoring
        rcases hstoring with hstoring | hstoring <;> cases hstoring
      | _ =>
        rw [hst] at hallowed
        exact hallowed.elim
    have hne : reportPath version sha256 ≠ name := fun heq => htemp (heq ▸ h.temp_mem t name hown)
    exact Files.read?_congr (Function.update_of_ne hne _ _) fun _ _ => rfl
  | _ => rfl

end Runs

/-- Reports are stored as a whole, however the calls overlap and whatever fails. -/
theorem storedWhole {R τ : Type} [DecidableEq τ] (codec : ReportCodec R) (calls : τ → DiskCall R)
    {tr : List (DiskEvent τ)} {p : DiskThreads τ R} (hrun : Steps DiskStep (diskPool codec calls) tr p) :
    StoredWhole codec calls tr p := by
  obtain ⟨stage, hthreads, h⟩ := exists_tracked hrun
  refine ⟨fun version sha256 content => h.whole, fun t version sha256 fuel report hcall ht => ?_,
    fun t event q hstore hstep hnot => ?_, fun t hstore hend fd temp hmade hunlink => ?_⟩
  · have hended : DiskEnded codec (calls t) (.returned (some report)) (stage t) := hthreads t _ ht
    rw [hcall] at hended
    obtain ⟨content, hstage, hparse⟩ := hended report rfl
    have hholds := h.stages t
    rw [hstage] at hholds
    exact ⟨content, hholds.whole, hparse⟩
  · obtain ⟨o, a⟩ := event
    obtain ⟨k, hk, hsem, -⟩ := hstep
    have hfollows := hthreads t _ hk
    exact untouched_step h hstore hfollows.1 hsem hnot
  · have hended : (stage t).2.Settled := by
      have hstored : ∀ {out}, DiskEnded codec (calls t) out (stage t) → (stage t).2.Settled := by
        intro out hout
        cases hcall : calls t with
        | store version sha256 report now => rwa [hcall] at hout
        | _ =>
          rw [hcall] at hstore
          exact hstore.elim
      rcases hend with ⟨result, ht⟩ | ⟨error, ht⟩
      · exact hstored (hthreads t _ ht)
      · exact hstored (hthreads t _ ht)
    have htemp := (h.history t).made fd temp hmade
    have hholds := h.stages t
    cases hst : (stage t).2 with
    | renamed temp' =>
      rw [hst] at htemp hholds
      obtain rfl := Option.some.inj htemp
      exact hholds
    | dropped temp' =>
      rw [hst] at htemp hholds
      obtain rfl := Option.some.inj htemp
      exact hholds
    | stuck temp' =>
      rw [hst] at htemp
      obtain rfl := Option.some.inj htemp
      exact absurd ((h.history t).stuck _ hst) hunlink
    | idle =>
      rw [hst] at htemp
      cases htemp
    | _ =>
      rw [hst] at hended
      exact hended.elim

end Kept

/-! ## Two stores and a load -/

def flagDocument (flag : Bool) : Json := .dict (reportHeader "1" "ab" ++ [("report", .bool flag)])

/-- Reports of one bit, of one binary. -/
def flagCodec : ReportCodec Bool where
  toDict flag := .bool flag
  fromDict
    | .bool flag => some flag
    | _ => none
  dump document :=
    match document.getItem "report" with
    | .ok (.bool flag) => ⟨[[if flag then 1 else 0]], none, []⟩
    | _ => ⟨[], some .osError, []⟩
  decode
    | [byte] => some (flagDocument (byte = 1))
    | _ => none

inductive FlagThread where
  | writer
  | failing
  | reader
  deriving DecidableEq

def flagCalls : FlagThread → DiskCall Bool
  | .writer => .store "1" "ab" true 0
  | .failing => .store "1" "ab" false 0
  | .reader => .load "1" "ab" 3

def flagTemp : FlagThread → String
  | .failing => ".b.tmp"
  | _ => ".a.tmp"

/-- The disk is full for the byte of one store. -/
def flagFull : FlagThread → FileOp String → Bool
  | .failing, .write _ [0] => true
  | _, _ => false

def flagHandler (t : FlagThread) : Prog.Handler (FileI String) (Files String) := fun o s =>
  if flagFull t o then (.error .failed, s) else Files.perform (flagTemp t) [] o s

def flagReady (t : FlagThread) : Files String → FileOp String → Bool := Files.canPerform (flagTemp t)

def flagSem (_ : FlagThread) : Files String → (o : FileOp String) → Except FileError o.Res → Files String → Prop :=
  Files.Sem IsTempName

theorem flagSem_ready (t : FlagThread) (s : Files String) (o : FileOp String) (ho : flagReady t s o = true) :
    flagSem t s o (flagHandler t o s).1 (flagHandler t o s).2 := by
  have htemp : IsTempName (flagTemp t) := by
    cases t with
    | failing => exact ⟨"b", rfl⟩
    | _ => exact ⟨"a", rfl⟩
  unfold flagHandler
  split_ifs
  · exact .failed ..
  · exact Files.sem_perform htemp [] ho

/-- Both stores have their temporary files; one is renamed and read before the other is given up. -/
def flagSchedule : List FlagThread :=
  [.writer, .writer, .failing, .failing, .writer, .writer, .failing, .writer, .reader, .failing, .failing, .failing,
    .reader, .reader, .reader, .reader]

def flagPool : DiskThreads FlagThread Bool := (diskPool flagCodec flagCalls).runs flagHandler flagSchedule

def flagTrace : List (DiskEvent FlagThread) := (diskPool flagCodec flagCalls).traceOf flagHandler flagSchedule

theorem storedWhole_flagPool : StoredWhole flagCodec flagCalls flagTrace flagPool ∧
    flagPool.returned .reader = some (some true) ∧ flagPool.returned .failing = some none ∧
      flagPool.shared.names ".b.tmp" = none := by
  have hready : (diskPool flagCodec flagCalls).allReady flagHandler flagReady flagSchedule = true := by
    decide +kernel
  have hrun := Pool.steps_runs flagSem_ready hready
  refine ⟨storedWhole flagCodec flagCalls hrun, ?_⟩
  decide +kernel

end McritSimilarity
