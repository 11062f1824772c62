import Mathlib.Logic.Relation
import McritSimilarity.Lib.Protocol
import McritSimilarity.ReportBuilds
import McritSimilarity.StaleMisses

/-!
# Calls that overlap on one file

Exports, preloads and lookups of one open file as threads, one operation at a time, while its analysis changes and
caches forget.  `LastExportWins` says that lookups which begin after an export has returned find its report under its
key.  A preload or a lookup that is under way when an export takes its report can replace both afterwards, as
`not_lastExportWins` shows; `lastExportWins` is the property where none is.
-/

set_option autoImplicit false

namespace McritSimilarity

open Prog

/-! ## Threads -/

/-- A call on the open file. -/
inductive FileCall where
  | exportReport (stops : Bool)
  | preload
  | cachedReport
  deriving DecidableEq, Repr

namespace FileCall

/-- The call and the report it returns, if any. -/
def program (f : FileId) : FileCall → ExportProg (Option Report)
  | exportReport stops => do
    let report ← exportSmdaReport f stops
    return some report
  | preload => do
    preloadReport f
    return none
  | cachedReport => McritSimilarity.cachedReport f

def IsExport : FileCall → Prop
  | exportReport _ => True
  | _ => False

end FileCall

abbrev CallThreads (τ : Type) := Pool τ ExportI PyError (Option Report) ExportState

abbrev CallEvent (τ : Type) := τ × Event ExportI

/-- What happens to the file besides its calls: its analysis changes, and caches forget, except its key. -/
inductive Aside (f : FileId) : ExportState → ExportState → Prop where
  | analyse (s : ExportState) (a : Analysis) : Aside f s (s.analyse f a)
  | evict (s : ExportState) (c : ReportCache) (key : c.Key) (hc : c ≠ .reportKeys) :
      Aside f s (s.withCache c ((s.caches c).evict key))

/-- A thread waits while another one builds the key it would claim, or has the lock of preloads. -/
def ExportState.Waits (s : ExportState) : (o : ExportOp) → o.Ans → Prop
  | .claim c key _, .claimed => s.inflight c key = true
  | .lockPreload, _ => s.preloading = true
  | _, _ => False

/-- The answers to a thread among others. -/
def OpenSem (f : FileId) (s : ExportState) (o : ExportOp) (a : o.Ans) (t : ExportState) : Prop :=
  ∃ w u, Relation.ReflTransGen (Aside f) s u ∧ ¬ u.Waits o a ∧ ExportSem w u o a t

section Calls

variable {τ : Type} (f : FileId) (calls : τ → FileCall)

/-- All calls before their first step. -/
def callPool (s : ExportState) : CallThreads τ := ⟨s, fun t => some ((calls t).program f)⟩

/-- A step of a call. -/
def CallStep [DecidableEq τ] (p : CallThreads τ) (l : CallEvent τ) (q : CallThreads τ) : Prop :=
  p.OpStep (OpenSem f) l.1 l.2.1 l.2.2 q

/-- The call has not begun. -/
def Unbegun (p : CallThreads τ) (t : τ) : Prop := p.threads t = some ((calls t).program f)

/-- The call has not begun, or it has ended. -/
def CallIdle (p : CallThreads τ) (t : τ) : Prop :=
  Unbegun f calls p t ∨ (∃ x, p.threads t = some (.ret x)) ∨ ∃ e, p.threads t = some (.raise e)

/-- A report was found missing under the key, and then loaded, by a call of `U`. -/
def Reloaded (U : τ → Prop) (key : ReportKey) (r : Report) (tr : List (CallEvent τ)) : Prop :=
  ∃ t before after, U t ∧ tr = before ++ after ∧ (t, ⟨.get .reports key, none⟩) ∈ before ∧
    (t, ⟨.load key.1, some r⟩) ∈ after

/-- The key of the file is that of the export, and a lookup that has begun since returns none, the report of the
export, or one that was loaded for the key once that was gone. -/
structure Wins (key : ReportKey) (report : Report) (U : τ → Prop) (tr : List (CallEvent τ)) (p : CallThreads τ) :
    Prop where
  current : p.shared.find? .reportKeys f = some key
  lookups : ∀ t x, calls t = .cachedReport → U t → p.threads t = some (.ret x) →
    x = none ∨ x = some report ∨ ∃ r, x = some r ∧ Reloaded U key r tr

/-- The step with which a call takes its report: it finds it in memory or stores it there. -/
def Takes (e : Event ExportI) : Prop :=
  ∃ key r, e = ⟨.set .reports key r, ()⟩ ∨ ∃ stops, e = ⟨.claim .reports key stops, .hit r⟩

/-- An export that has its report and has still to set the keys of its file. -/
def Publishes (p : CallThreads τ) (t : τ) : Prop :=
  (calls t).IsExport ∧ ∃ key k, p.threads t = some (.call (.set .exportedKeys f key) k) ∨
    p.threads t = some (.call (.set .reportKeys f key) k) ∨
      ∃ key', p.threads t = some (.call (.release .reports key') fun _ => .call (.set .reportKeys f key) k)

/-- An export takes its report only while no preload or lookup is under way and no other export publishes, and no
preload or lookup begins while an export publishes. -/
structure Apart (p : CallThreads τ) (l : CallEvent τ) : Prop where
  idle : (calls l.1).IsExport → Takes l.2 → ∀ t, ¬ (calls t).IsExport → CallIdle f calls p t
  alone : (calls l.1).IsExport → Takes l.2 → ∀ t, t ≠ l.1 → ¬ Publishes f calls p t
  begins : ¬ (calls l.1).IsExport → Unbegun f calls p l.1 → ∀ t, ¬ Publishes f calls p t

end Calls

/-- After an export has returned, and until an export takes its report, the export wins. -/
def LastExportWins (τ : Type) [DecidableEq τ]
    (step : FileId → (τ → FileCall) → CallThreads τ → CallEvent τ → CallThreads τ → Prop) : Prop :=
  ∀ (f : FileId) (calls : τ → FileCall) (files : FileId → OpenFile) (folder : Option ReportFolder)
    (tr₀ : List (CallEvent τ)) (p₀ p₁ : CallThreads τ) (e : τ) (key : ReportKey) (report : Report)
    (tr : List (CallEvent τ)) (p : CallThreads τ),
    Steps (step f calls) (callPool f calls (.start files folder)) tr₀ p₀ → (calls e).IsExport →
      step f calls p₀ (e, ⟨.set .exportedKeys f key, ()⟩) p₁ → p₁.threads e = some (.ret (some report)) →
        Steps (step f calls) p₁ tr p → (∀ l ∈ tr, (calls l.1).IsExport → ¬ Takes l.2) →
          Wins f calls key report (Unbegun f calls p₁) tr p

/-! ## What an operation does -/

/-- The operation sets neither the key of a file nor a report. -/
def ExportOp.Spares (o : ExportOp) : Prop :=
  ¬ ((∃ g key, o = .set .reportKeys g key) ∨ ∃ key r, o = .set .reports key r)

section Sem

variable {f : FileId} {s t u : ExportState} {o : ExportOp} {a : o.Ans}

theorem Aside.reportKeys (h : Relation.ReflTransGen (Aside f) s t) (g : FileId) :
    t.find? .reportKeys g = s.find? .reportKeys g := by
  induction h with
  | refl => rfl
  | tail _ h ih =>
    rw [← ih]
    cases h with
    | analyse => rfl
    | evict c key hc => exact ExportState.find?_withCache_of_ne _ (Ne.symm hc) _ _

theorem Aside.reports (h : Relation.ReflTransGen (Aside f) s t) {key : ReportKey} {r : Report}
    (hr : t.find? .reports key = some r) : s.find? .reports key = some r := by
  induction h with
  | refl => exact hr
  | tail _ h ih =>
    refine ih ?_
    cases h with
    | analyse => exact hr
    | evict c key hc => exact ExportState.find?_evict hr

theorem OpenSem.reportKeys (h : OpenSem f s o a t) (ho : ∀ g key, o ≠ .set .reportKeys g key) (g : FileId) :
    t.find? .reportKeys g = s.find? .reportKeys g := by
  obtain ⟨w, u, haside, -, hsem⟩ := h
  exact (hsem.find?_eq (ho · ·) g).trans (Aside.reportKeys haside g)

theorem OpenSem.reports (h : OpenSem f s o a t) {key : ReportKey} {r : Report} (hr : t.find? .reports key = some r) :
    s.find? .reports key = some r ∨ o = .set .reports key r := by
  obtain ⟨w, u, haside, -, hsem⟩ := h
  by_cases hset : ∃ key' r', o = .set .reports key' r'
  · obtain ⟨key', r', rfl⟩ := hset
    by_cases hkey : key = key'
    · subst hkey
      obtain rfl : r' = r := Option.some.inj (hsem.find?_set.1.symm.trans hr)
      exact .inr rfl
    · exact .inl (Aside.reports haside (hsem.find?_set.2 key r hkey hr))
  · have hne : ∀ key' r', o ≠ .set .reports key' r' := fun key' r' heq => hset ⟨key', r', heq⟩
    exact .inl (Aside.reports haside ((hsem.find?_eq hne key).symm.trans hr))

theorem OpenSem.get_reportKeys {g : FileId} {a : Option ReportKey} (h : OpenSem f s (.get .reportKeys g) a t) :
    a = s.find? .reportKeys g := by
  obtain ⟨w, u, haside, -, hsem⟩ := h
  exact hsem.get_eq.trans (Aside.reportKeys haside g)

theorem OpenSem.get_reports {key : ReportKey} {r : Report} (h : OpenSem f s (.get .reports key) (some r) t) :
    s.find? .reports key = some r := by
  obtain ⟨w, u, haside, -, hsem⟩ := h
  exact Aside.reports haside hsem.get_eq.symm

theorem OpenSem.set_found {c : ReportCache} {key : c.Key} {value : c.Val} {a : Unit}
    (h : OpenSem f s (.set c key value) a t) : t.find? c key = some value := by
  obtain ⟨w, u, -, -, hsem⟩ := h
  exact hsem.find?_set.1

theorem OpenSem.hit_found {c : ReportCache} {key : c.Key} {stops : Bool} {value : c.Val}
    (h : OpenSem f s (.claim c key stops) (.hit value) t) : t.find? c key = some value := by
  obtain ⟨w, u, -, -, hsem⟩ := h
  rcases hsem.claim_cases with ⟨value', hvalue, hfound⟩ | ⟨hclaimed, -⟩ | ⟨hstopped, -⟩
  · obtain rfl := Claim.hit.inj hvalue
    exact (hsem.find?_eq (fun _ _ heq => by cases heq) key).trans hfound
  · cases hclaimed
  · cases hstopped

end Sem

/-! ## The stages of an export -/

/-- How far an export has come; a preload or a lookup is always `apart`. -/
inductive PublishStage where
  | apart
  | working
  | building (key : ReportKey)
  | stored (key : ReportKey) (r : Report)
  | holding (key : ReportKey) (r : Report)
  | published (key : ReportKey) (r : Report)
  | finished (key : ReportKey) (r : Report)

/-- The operations of an export before it has its report, but for its claim. -/
def ExportOp.Plain : ExportOp → Prop
  | claim .reports _ _ => False
  | set .reports _ _ => False
  | set .reportKeys _ _ => False
  | set .exportedKeys _ _ => False
  | _ => True

namespace PublishStage

def allowed (f : FileId) : PublishStage → ExportOp → Prop
  | apart, _ => True
  | working, o => o.Plain ∨ ∃ key stops, o = .claim .reports key stops
  | building key, o => o.Plain ∨ ∃ r, o = .set .reports key r
  | stored key _, o => o = .release .reports key
  | holding key _, o => o = .set .reportKeys f key
  | published key _, o => o = .set .exportedKeys f key
  | finished _ _, _ => False

def next : PublishStage → (o : ExportOp) → o.Ans → PublishStage
  | working, .claim .reports key _, .hit r => holding key r
  | working, .claim .reports key _, .claimed => building key
  | building _, .set .reports key r, _ => stored key r
  | stored key r, _, _ => holding key r
  | holding key r, _, _ => published key r
  | published key r, _, _ => finished key r
  | stage, _, _ => stage

/-- The stages between an export's taking its report and its end. -/
def Publishing (key : ReportKey) (r : Report) : PublishStage → Prop
  | stored key' r' => key' = key ∧ r' = r
  | holding key' r' => key' = key ∧ r' = r
  | published key' r' => key' = key ∧ r' = r
  | _ => False

end PublishStage

/-- What an export does in which of its stages. -/
def publishProtocol (f : FileId) : Protocol ExportI where
  State := PublishStage
  allowed := PublishStage.allowed f
  next := PublishStage.next

/-- An export ends with its report, once the keys are set. -/
structure PublishEnded (out : Outcome PyError (Option Report)) (stage : PublishStage) : Prop where
  silent : ∀ key r, ¬ stage.Publishing key r
  report : ∀ key r, stage = .finished key r → out = .returned (some r)

section Plain

variable {f : FileId} {stops : Bool}

theorem PublishStage.next_working {o : ExportOp} (ho : o.Plain) (a : o.Ans) : working.next o a = working := by
  cases o with
  | claim c key stops => cases c <;> first | exact ho.elim | rfl
  | _ => rfl

theorem PublishStage.next_building {o : ExportOp} (ho : o.Plain) (key : ReportKey) (a : o.Ans) :
    (building key).next o a = building key := by
  cases o with
  | set c key value => cases c <;> first | exact ho.elim | rfl
  | _ => rfl

theorem plain_checkStop (stops : Bool) : (checkStop stops).OnlyCalls ExportOp.Plain := by
  unfold checkStop
  split_ifs
  · refine ⟨trivial, fun (stop : Bool) => ?_⟩
    show (Prog.raiseIf (stop = true) (PyError.mcrit .job "SMDA export cancelled")).OnlyCalls _
    unfold Prog.raiseIf
    split_ifs <;> trivial
  · trivial

theorem plain_viewCacheKey (f : FileId) : (viewCacheKey f).OnlyCalls ExportOp.Plain := by
  refine ⟨trivial, fun raw => ?_⟩
  cases raw with
  | none => trivial
  | some raw =>
    show (if raw.length ≤ 0 then pure none else _ : ExportProg (Option ReportKey)).OnlyCalls _
    split_ifs
    · trivial
    · refine .bind ⟨trivial, fun raw => ?_⟩ fun sha256 => ⟨trivial, fun _ => trivial⟩
      cases raw with
      | none => trivial
      | some raw =>
        show (if raw.length ≤ 0 then pure "" else cached .rawSha256 (f, raw.length) false (call (.hashRaw f)) :
          ExportProg String).OnlyCalls _
        split_ifs
        · trivial
        · exact getOrSet_onlyCalls ⟨trivial, fun _ => trivial⟩ (fun _ => ⟨trivial, fun _ => trivial⟩)
            ⟨trivial, fun _ => trivial⟩ ⟨trivial, fun _ => trivial⟩

theorem plain_buildReport (f : FileId) : (buildReport f).OnlyCalls ExportOp.Plain := by
  refine ⟨trivial, fun arch => ?_⟩
  cases arch with
  | none => trivial
  | some arch =>
    show (Prog.raiseIf (arch ∉ smdaArchitectures) (unsupportedArchitecture arch) >>= _).OnlyCalls _
    refine .bind ?_ fun _ => ⟨trivial, fun exported => ?_⟩
    · unfold Prog.raiseIf
      split_ifs <;> trivial
    · cases exported with
      | error e => trivial
      | ok report => exact ⟨trivial, fun _ => trivial⟩

theorem plain_loadCurrent (f : FileId) (sha256 : String) : (loadCurrent f sha256).OnlyCalls ExportOp.Plain := by
  refine ⟨trivial, fun loaded => ?_⟩
  cases loaded with
  | none => trivial
  | some report => exact ⟨trivial, fun _ => trivial⟩

theorem plain_loadOrBuild (f : FileId) (key : ReportKey) : (loadOrBuild f key).OnlyCalls ExportOp.Plain := by
  refine ⟨trivial, fun (folder : Bool) => ?_⟩
  show (if folder = false then buildReport f else _).OnlyCalls _
  split_ifs
  · exact plain_buildReport f
  · have hbuild : (buildAndStore f key.1).OnlyCalls ExportOp.Plain :=
      .bind (plain_buildReport f) fun report => ⟨trivial, fun _ => trivial⟩
    refine ⟨trivial, fun exported => ?_⟩
    cases exported with
    | some _ => exact hbuild
    | none =>
      show (loadCurrent f key.1 >>= _).OnlyCalls _
      refine .bind (plain_loadCurrent f key.1) fun loaded => ?_
      cases loaded with
      | some report => trivial
      | none => exact hbuild

/-- No report has been taken. -/
def PublishStage.Early : PublishStage → Prop
  | apart => True
  | working => True
  | building _ => True
  | _ => False

theorem PublishStage.Early.ended {stage : PublishStage} (h : stage.Early) (out : Outcome PyError (Option Report)) :
    PublishEnded out stage where
  silent := by
    intro key r hpublishing
    cases stage with
    | apart => exact hpublishing
    | working => exact hpublishing
    | building key => exact hpublishing
    | _ => exact h
  report := by
    rintro key r rfl
    exact h.elim

theorem ended_finished (key : ReportKey) (r : Report) : PublishEnded (.returned (some r)) (.finished key r) where
  silent := fun _ _ => id
  report := by rintro _ _ ⟨⟩; rfl

theorem follows_working {α : Type} {p : ExportProg α} (hp : p.OnlyCalls ExportOp.Plain) :
    p.Follows (publishProtocol f) (fun _ stage => stage = .working) .working :=
  hp.follows fun _ ho => ⟨.inl ho, PublishStage.next_working ho⟩

theorem follows_building {α : Type} {p : ExportProg α} (hp : p.OnlyCalls ExportOp.Plain) (key : ReportKey) :
    p.Follows (publishProtocol f) (fun _ stage => stage = .building key) (.building key) :=
  hp.follows fun _ ho => ⟨.inl ho, PublishStage.next_building ho key⟩

/-- A key that is claimed is built, and its report taken, or the build fails. -/
theorem follows_cached (key : ReportKey) (stops : Bool) :
    (cached .reports key stops (loadOrBuild f key)).Follows (publishProtocol f) (fun out stage =>
      (∃ r, out = .returned r ∧ stage = .holding key r) ∨
        (∃ e, out = .raised e) ∧ (stage = .working ∨ stage = .building key)) .working := by
  refine ⟨.inr ⟨key, stops, rfl⟩, fun a => ?_⟩
  cases a with
  | hit r => exact .inl ⟨r, rfl, rfl⟩
  | stopped => exact .inr ⟨⟨_, rfl⟩, .inl rfl⟩
  | claimed =>
    refine Follows.tryFinally (Follows.bind ((follows_building (plain_loadOrBuild f key) key).mono ?_))
    rintro out _ rfl
    cases out with
    | returned r => exact ⟨.inr ⟨r, rfl⟩, fun _ => ⟨rfl, fun _ => .inl ⟨r, rfl, rfl⟩⟩⟩
    | raised e => exact ⟨.inl trivial, fun _ => .inr ⟨⟨e, rfl⟩, .inr rfl⟩⟩
    | pending => trivial

theorem follows_exportKeyed (key : ReportKey) (stops : Bool) : (exportKeyed f key stops).Follows (publishProtocol f)
    (fun out stage => (∃ r, out = .returned r ∧ stage = .finished key r) ∨
      (∃ e, out = .raised e) ∧ (stage = .working ∨ stage = .building key)) .working := by
  refine Follows.bind ((follows_cached key stops).mono ?_)
  rintro out stage (⟨r, rfl, rfl⟩ | ⟨⟨e, rfl⟩, hstage⟩)
  · exact ⟨rfl, fun _ => ⟨rfl, fun _ => .inl ⟨r, rfl, rfl⟩⟩⟩
  · exact .inr ⟨⟨e, rfl⟩, hstage⟩

/-- What an export ends with once its analysis has settled. -/
def SettledEnd (out : Outcome PyError Report) (stage : PublishStage) : Prop :=
  stage = .working ∨ (∃ key, stage = .building key) ∨ ∃ key r, out = .returned r ∧ stage = .finished key r

theorem follows_exportSmdaReport (f : FileId) (stops : Bool) :
    (exportSmdaReport f stops).Follows (publishProtocol f) SettledEnd .working := by
  rw [exportSmdaReport_eq]
  refine Follows.bind ((follows_working (plain_checkStop stops)).mono ?_)
  rintro out _ rfl
  cases out with
  | pending => trivial
  | raised e => exact .inl rfl
  | returned _ =>
    refine ⟨.inl trivial, fun _ => ?_⟩
    show (checkStop stops >>= fun _ => exportSettled f stops).Follows (publishProtocol f) SettledEnd
      PublishStage.working
    refine Follows.bind ((follows_working (plain_checkStop stops)).mono ?_)
    rintro out _ rfl
    cases out with
    | pending => trivial
    | raised e => exact .inl rfl
    | returned _ =>
      refine Follows.bind ((follows_working (plain_viewCacheKey f)).mono ?_)
      rintro out _ rfl
      cases out with
      | pending => trivial
      | raised e => exact .inl rfl
      | returned key =>
        cases key with
        | none => exact (follows_working (plain_buildReport f)).mono fun _ _ hstage => .inl hstage
        | some key =>
          refine (follows_exportKeyed key stops).mono ?_
          rintro out stage (⟨r, rfl, rfl⟩ | ⟨-, rfl | rfl⟩)
          · exact .inr (.inr ⟨key, r, rfl, rfl⟩)
          · exact .inl rfl
          · exact .inr (.inl ⟨key, rfl⟩)

theorem follows_apart (p : ExportProg (Option Report)) : p.Follows (publishProtocol f) PublishEnded .apart :=
  Prog.follows_of_stays p (fun _ => ⟨trivial, fun _ => rfl⟩) (PublishStage.Early.ended trivial)

/-- The stage in which a call begins. -/
def FileCall.stage : FileCall → PublishStage
  | exportReport _ => .working
  | _ => .apart

theorem FileCall.follows (f : FileId) (c : FileCall) :
    (c.program f).Follows (publishProtocol f) PublishEnded c.stage := by
  cases c with
  | exportReport stops =>
    refine Follows.bind ((follows_exportSmdaReport f stops).mono ?_)
    rintro out stage hend
    have hended : stage.Early ∨ ∃ key r, out = .returned r ∧ stage = .finished key r := by
      rcases hend with rfl | ⟨key, rfl⟩ | hfinished
      · exact .inl trivial
      · exact .inl trivial
      · exact .inr hfinished
    rcases hended with hearly | ⟨key, r, rfl, rfl⟩
    · cases out with
      | pending => trivial
      | raised e => exact hearly.ended _
      | returned r => exact hearly.ended _
    · exact ended_finished key r
  | _ => exact follows_apart _

end Plain

/-! ## Exports that publish alone -/

section Publications

variable {τ : Type} [DecidableEq τ] {f : FileId} {calls : τ → FileCall} {p q : CallThreads τ} {t : τ} {o : ExportOp}
  {a : o.Ans} {stage : τ → PublishStage}

/-- While an export publishes, no preload or lookup is under way, no other export publishes, and memory holds no other
report under its key. -/
structure Publications (f : FileId) (calls : τ → FileCall) (p : CallThreads τ) (stage : τ → PublishStage) : Prop where
  follows : ∀ t prog, p.threads t = some prog → prog.Follows (publishProtocol f) PublishEnded (stage t)
  apart : ∀ t, stage t = .apart ↔ ¬ (calls t).IsExport
  idle : ∀ e key r, (stage e).Publishing key r → Publishes f calls p e → ∀ t, ¬ (calls t).IsExport →
    CallIdle f calls p t
  alone : ∀ e key r, (stage e).Publishing key r → Publishes f calls p e → ∀ t, t ≠ e → ¬ Publishes f calls p t
  reports : ∀ e key r, (stage e).Publishing key r → Publishes f calls p e → ∀ r',
    p.shared.find? .reports key = some r' → r' = r
  current : ∀ e key r, stage e = .published key r → Publishes f calls p e → p.shared.find? .reportKeys f = some key

/-- What a step of a thread does to the thread itself. -/
structure OwnStep (f : FileId) (calls : τ → FileCall) (p q : CallThreads τ) (t : τ) (o : ExportOp) (a : o.Ans)
    (st : PublishStage) (key : ReportKey) (r : Report) : Prop where
  before : st.Publishing key r
  publishes : Publishes f calls p t
  reports : ∀ key' r', o ≠ .set .reports key' r'
  current : st.next o a = .published key r → q.shared.find? .reportKeys f = some key

omit [DecidableEq τ] in
theorem publishes_congr (h : q.threads t = p.threads t) : Publishes f calls q t ↔ Publishes f calls p t := by
  simp only [Publishes, h]

omit [DecidableEq τ] in
theorem callIdle_congr (h : q.threads t = p.threads t) : CallIdle f calls q t ↔ CallIdle f calls p t := by
  simp only [CallIdle, Unbegun, h]

omit [DecidableEq τ] in
theorem not_publishes_of_ret {x : Option Report} (h : p.threads t = some (.ret x)) : ¬ Publishes f calls p t := by
  rintro ⟨-, key, k, hk | hk | ⟨key', hk⟩⟩ <;> cases h.symm.trans hk

omit [DecidableEq τ] in
/-- An export that holds its report and publishes sets the key of its file. -/
theorem holding_cases {key : ReportKey} {r : Report} {prog : ExportProg (Option Report)}
    (hfollows : prog.Follows (publishProtocol f) PublishEnded (.holding key r)) (hprog : p.threads t = some prog)
    (hp : Publishes f calls p t) : ∃ k, prog = .call (.set .reportKeys f key) k := by
  obtain ⟨-, key', k, h | h | ⟨key'', h⟩⟩ := hp
  · obtain rfl := Option.some.inj (hprog.symm.trans h)
    cases hfollows.1
  · obtain rfl := Option.some.inj (hprog.symm.trans h)
    cases hfollows.1
    exact ⟨k, rfl⟩
  · obtain rfl := Option.some.inj (hprog.symm.trans h)
    cases hfollows.1

/-- An export that publishes after a step has just taken its report, or has published before. -/
theorem publishing_step (hstep : p.OpStep (OpenSem f) t o a q)
    (hfollows : ∀ prog, p.threads t = some prog → prog.Follows (publishProtocol f) PublishEnded (stage t))
    {key : ReportKey} {r : Report} (hnext : ((stage t).next o a).Publishing key r) (hq : Publishes f calls q t) :
    (Takes ⟨o, a⟩ ∧ q.shared.find? .reports key = some r ∧ (stage t).next o a ≠ .published key r) ∨
      OwnStep f calls p q t o a (stage t) key r := by
  obtain ⟨k, hk, hsem, hthreads⟩ := hstep
  obtain ⟨hallowed, hrest⟩ := hfollows _ hk
  have hafter : q.threads t = some (k a) := by rw [hthreads, Function.update_self]
  generalize hst : stage t = st at hallowed hrest hnext ⊢
  cases st with
  | apart => exact hnext.elim
  | finished key' r' => exact hallowed.elim
  | published key' r' => exact hnext.elim
  | working =>
    rcases hallowed with hplain | ⟨key', stops, rfl⟩
    · rw [PublishStage.next_working hplain] at hnext
      exact hnext.elim
    · cases a with
      | hit r' =>
        obtain ⟨rfl, rfl⟩ := hnext
        exact .inl ⟨⟨key', r', .inr ⟨stops, rfl⟩⟩, hsem.hit_found, nofun⟩
      | claimed => exact hnext.elim
      | stopped => exact hnext.elim
  | building key' =>
    rcases hallowed with hplain | ⟨r', rfl⟩
    · rw [PublishStage.next_building hplain] at hnext
      exact hnext.elim
    · obtain ⟨rfl, rfl⟩ := hnext
      exact .inl ⟨⟨key', r', .inl rfl⟩, hsem.set_found, nofun⟩
  | stored key' r' =>
    obtain rfl : o = .release .reports key' := hallowed
    obtain ⟨rfl, rfl⟩ := hnext
    obtain ⟨k', hk'⟩ := holding_cases (hrest a) hafter hq
    refine .inr ⟨⟨rfl, rfl⟩, ⟨hq.1, key', k', .inr (.inr ⟨key', ?_⟩)⟩, nofun, nofun⟩
    rw [hk, ← hk']
    rfl
  | holding key' r' =>
    obtain rfl : o = .set .reportKeys f key' := hallowed
    obtain ⟨rfl, rfl⟩ := hnext
    exact .inr ⟨⟨rfl, rfl⟩, ⟨hq.1, key', k, .inr (.inl hk)⟩, nofun, fun _ => hsem.set_found⟩

/-- Only an export that publishes, or takes its report, sets the key of the file or a report. -/
theorem sets_cases (hstep : p.OpStep (OpenSem f) t o a q) (hp : Publications f calls p stage)
    (hexport : (calls t).IsExport) (hsets : (∃ g key, o = .set .reportKeys g key) ∨ ∃ key r, o = .set .reports key r) :
    Takes ⟨o, a⟩ ∨ Publishes f calls p t := by
  obtain ⟨k, hk, -, -⟩ := hstep
  have hallowed := (hp.follows t _ hk).1
  have hplain : ¬ o.Plain := by
    rcases hsets with ⟨g, key, rfl⟩ | ⟨key, r, rfl⟩ <;> exact id
  generalize hst : stage t = st at hallowed
  cases st with
  | apart => exact absurd hexport ((hp.apart t).1 hst)
  | finished key r => exact hallowed.elim
  | working =>
    rcases hallowed with h | ⟨key, stops, rfl⟩
    · exact absurd h hplain
    · rcases hsets with ⟨_, _, h⟩ | ⟨_, _, h⟩ <;> cases h
  | building key =>
    rcases hallowed with h | ⟨r, rfl⟩
    · exact absurd h hplain
    · exact .inl ⟨key, r, .inl rfl⟩
  | stored key r =>
    obtain rfl : o = .release .reports key := hallowed
    exact absurd trivial hplain
  | holding key r =>
    obtain rfl : o = .set .reportKeys f key := hallowed
    exact .inr ⟨hexport, key, k, .inr (.inl hk)⟩
  | published key r =>
    obtain rfl : o = .set .exportedKeys f key := hallowed
    rcases hsets with ⟨_, _, h⟩ | ⟨_, _, h⟩ <;> cases h

/-- Only an export that publishes sets a key of the file. -/
theorem publishing_of_allowed {c : ReportCache} {key : c.Key} {value : c.Val} {st : PublishStage} (hst : st ≠ .apart)
    (hc : c = .exportedKeys ∨ c = .reportKeys) (hallowed : st.allowed f (.set c key value)) :
    ∃ key r, st.Publishing key r := by
  have hplain : ¬ (ExportOp.set c key value).Plain := by
    rcases hc with rfl | rfl <;> exact id
  cases st with
  | apart => exact absurd rfl hst
  | finished key r => exact hallowed.elim
  | working =>
    rcases hallowed with h | ⟨key, stops, h⟩
    · exact absurd h hplain
    · cases h
  | building key =>
    rcases hallowed with h | ⟨r, h⟩
    · exact absurd h hplain
    · cases h
      rcases hc with h | h <;> cases h
  | stored key r => exact ⟨key, r, rfl, rfl⟩
  | holding key r => exact ⟨key, r, rfl, rfl⟩
  | published key r => exact ⟨key, r, rfl, rfl⟩

omit [DecidableEq τ] in
theorem publishing_of_publishes {st : PublishStage} {prog : ExportProg (Option Report)}
    (hfollows : prog.Follows (publishProtocol f) PublishEnded st) (hprog : p.threads t = some prog)
    (hst : st ≠ .apart) (hp : Publishes f calls p t) : ∃ key r, st.Publishing key r := by
  obtain ⟨-, key, k, h | h | ⟨key', h⟩⟩ := hp
  · obtain rfl := Option.some.inj (hprog.symm.trans h)
    exact publishing_of_allowed hst (.inl rfl) hfollows.1
  · obtain rfl := Option.some.inj (hprog.symm.trans h)
    exact publishing_of_allowed hst (.inr rfl) hfollows.1
  · obtain rfl := Option.some.inj (hprog.symm.trans h)
    have hsets : (st.next (.release .reports key') ()).allowed f (.set .reportKeys f key) := (hfollows.2 ()).1
    cases st with
    | apart => exact absurd rfl hst
    | finished key r => exact hfollows.1.elim
    | working => exact hsets.elim False.elim (by rintro ⟨_, _, ⟨⟩⟩)
    | building key => exact hsets.elim False.elim (by rintro ⟨_, ⟨⟩⟩)
    | stored key r => exact ⟨key, r, rfl, rfl⟩
    | holding key r => exact ⟨key, r, rfl, rfl⟩
    | published key r => exact ⟨key, r, rfl, rfl⟩

theorem PublishStage.next_eq_apart {st : PublishStage} {o : ExportOp} {a : o.Ans} :
    st.next o a = .apart ↔ st = .apart := by
  unfold next
  split <;> simp

/-- A step beside an export that publishes is a step of an export that neither takes a report nor publishes. -/
structure Beside (f : FileId) (calls : τ → FileCall) (p : CallThreads τ) (t : τ) (l : Event ExportI) : Prop where
  isExport : (calls t).IsExport
  takes : ¬ Takes l
  publishes : ¬ Publishes f calls p t

theorem Publications.beside (hp : Publications f calls p stage) (hstep : p.OpStep (OpenSem f) t o a q)
    (hcond : Apart f calls p (t, ⟨o, a⟩)) {e : τ} {key : ReportKey} {r : Report} (hne : e ≠ t)
    (hstage : (stage e).Publishing key r) (he : Publishes f calls p e) : Beside f calls p t ⟨o, a⟩ := by
  have hexport : (calls t).IsExport := by
    by_contra hcall
    obtain ⟨k, hk, -, -⟩ := hstep
    rcases hp.idle e key r hstage he t hcall with hbegins | ⟨x, hx⟩ | ⟨err, herr⟩
    · exact hcond.begins hcall hbegins e he
    · cases hk.symm.trans hx
    · cases hk.symm.trans herr
  exact ⟨hexport, fun htakes => hcond.alone hexport htakes e hne he, hp.alone e key r hstage he t (Ne.symm hne)⟩

theorem Beside.not_publishes (hbeside : Beside f calls p t ⟨o, a⟩) (hp : Publications f calls p stage)
    (hstep : p.OpStep (OpenSem f) t o a q) : ¬ Publishes f calls q t := by
  intro hpub
  obtain ⟨k, hk, -, hthreads⟩ := id hstep
  have hafter : q.threads t = some (k a) := by rw [hthreads, Function.update_self]
  have hst : stage t ≠ .apart := fun hst => (hp.apart t).1 hst hbeside.isExport
  obtain ⟨key, r, hnext⟩ := publishing_of_publishes ((hp.follows t _ hk).2 a) hafter
    (fun h => hst (PublishStage.next_eq_apart.1 h)) hpub
  rcases publishing_step hstep (hp.follows t) hnext hpub with ⟨htakes, -⟩ | hown
  · exact hbeside.takes htakes
  · exact hbeside.publishes hown.publishes

theorem Beside.spares (hbeside : Beside f calls p t ⟨o, a⟩) (hp : Publications f calls p stage)
    (hstep : p.OpStep (OpenSem f) t o a q) : o.Spares :=
  fun hsets => (sets_cases hstep hp hbeside.isExport hsets).elim hbeside.takes hbeside.publishes

/-- An export that publishes after a step has just taken its report, or it published before: with a step of its own, or
with one beside it. -/
theorem Publications.before (hp : Publications f calls p stage) (hstep : p.OpStep (OpenSem f) t o a q)
    (hcond : Apart f calls p (t, ⟨o, a⟩)) {e : τ} {key : ReportKey} {r : Report}
    (hstage : (Function.update stage t ((stage t).next o a) e).Publishing key r) (he : Publishes f calls q e) :
    (e = t ∧ Takes ⟨o, a⟩ ∧ q.shared.find? .reports key = some r ∧ (stage t).next o a ≠ .published key r) ∨
      (e = t ∧ OwnStep f calls p q t o a (stage t) key r) ∨
        e ≠ t ∧ (stage e).Publishing key r ∧ Publishes f calls p e ∧ Beside f calls p t ⟨o, a⟩ := by
  by_cases het : e = t
  · subst het
    rw [Function.update_self] at hstage
    exact (publishing_step hstep (hp.follows e) hstage he).imp (⟨rfl, ·⟩) fun hown => .inl ⟨rfl, hown⟩
  · rw [Function.update_of_ne het] at hstage
    have hbefore := (publishes_congr (hstep.threads_of_ne het)).1 he
    exact .inr (.inr ⟨het, hstage, hbefore, hp.beside hstep hcond het hstage hbefore⟩)

/-- The step lemma. -/
theorem Publications.step (hp : Publications f calls p stage) (hstep : p.OpStep (OpenSem f) t o a q)
    (hcond : Apart f calls p (t, ⟨o, a⟩)) :
    Publications f calls q (Function.update stage t ((stage t).next o a)) := by
  have hothers : ∀ u, u ≠ t → q.threads u = p.threads u := fun u hu => hstep.threads_of_ne hu
  have hsem : OpenSem f p.shared o a q.shared := hstep.answered
  have htracked : p.Tracked (publishProtocol f) (fun _ => PublishEnded) (fun _ _ _ => True) [] stage :=
    ⟨hp.follows, trivial⟩
  have hfollows := (htracked.step hstep fun _ _ => trivial).1
  refine ⟨hfollows, fun u => ?_, fun e key r hstage he u hu => ?_, fun e key r hstage he u hu hpub => ?_,
    fun e key r hstage he r' hr' => ?_, fun e key r hstage he => ?_⟩
  · rw [← hp.apart u]
    by_cases hut : u = t
    · subst hut
      rw [Function.update_self]
      exact PublishStage.next_eq_apart
    · rw [Function.update_of_ne hut]
  · rcases hp.before hstep hcond hstage he with ⟨rfl, htakes, -⟩ | ⟨rfl, hown⟩ | ⟨-, hstage, he, hbeside⟩
    · have hut : u ≠ e := fun hut => hu (hut ▸ he.1)
      exact (callIdle_congr (hothers u hut)).2 (hcond.idle he.1 htakes u hu)
    · have hut : u ≠ e := fun hut => hu (hut ▸ he.1)
      exact (callIdle_congr (hothers u hut)).2 (hp.idle e key r hown.before hown.publishes u hu)
    · have hut : u ≠ t := fun hut => hu (hut ▸ hbeside.isExport)
      exact (callIdle_congr (hothers u hut)).2 (hp.idle e key r hstage he u hu)
  · rcases hp.before hstep hcond hstage he with ⟨rfl, htakes, -⟩ | ⟨rfl, hown⟩ | ⟨-, hstage, hbefore, hbeside⟩
    · exact hcond.alone he.1 htakes u hu ((publishes_congr (hothers u hu)).1 hpub)
    · exact hp.alone e key r hown.before hown.publishes u hu ((publishes_congr (hothers u hu)).1 hpub)
    · by_cases hut : u = t
      · subst hut
        exact hbeside.not_publishes hp hstep hpub
      · exact hp.alone e key r hstage hbefore u hu ((publishes_congr (hothers u hut)).1 hpub)
  · rcases hp.before hstep hcond hstage he with ⟨rfl, -, hfound, -⟩ | ⟨rfl, hown⟩ | ⟨-, hstage, he, hbeside⟩
    · exact Option.some.inj (hr'.symm.trans hfound)
    · rcases hsem.reports hr' with hr' | hset
      · exact hp.reports e key r hown.before hown.publishes r' hr'
      · exact absurd hset (hown.reports key r')
    · rcases hsem.reports hr' with hr' | hset
      · exact hp.reports e key r hstage he r' hr'
      · exact absurd (.inr ⟨key, r', hset⟩) (hbeside.spares hp hstep)
  · have hpublishing : (Function.update stage t ((stage t).next o a) e).Publishing key r := by
      rw [hstage]
      exact ⟨rfl, rfl⟩
    rcases hp.before hstep hcond hpublishing he with ⟨rfl, -, -, hne⟩ | ⟨rfl, hown⟩ | ⟨hne, -, he, hbeside⟩
    · rw [Function.update_self] at hstage
      exact absurd hstage hne
    · rw [Function.update_self] at hstage
      exact hown.current hstage
    · rw [Function.update_of_ne hne] at hstage
      rw [hsem.reportKeys fun g key hset => hbeside.spares hp hstep (.inl ⟨g, key, hset⟩)]
      exact hp.current e key r hstage he

omit [DecidableEq τ] in
theorem publications_start (f : FileId) (calls : τ → FileCall) (s : ExportState) :
    Publications f calls (callPool f calls s) fun t => (calls t).stage := by
  have hsilent : ∀ (e : τ) (key : ReportKey) (r : Report), ¬ (calls e).stage.Publishing key r := by
    intro e key r h
    cases hcall : calls e <;> simp [hcall, FileCall.stage, PublishStage.Publishing] at h
  refine ⟨fun t prog hprog => ?_, fun t => ?_, fun e key r h => absurd h (hsilent e key r),
    fun e key r h => absurd h (hsilent e key r), fun e key r h => absurd h (hsilent e key r), fun e key r h => ?_⟩
  · obtain rfl := Option.some.inj hprog
    exact (calls t).follows f
  · cases hcall : calls t <;> simp [FileCall.stage, FileCall.IsExport]
  · exact absurd (h ▸ ⟨rfl, rfl⟩) (hsilent e key r)

/-- The run lemma. -/
theorem publications_of_steps {s : ExportState} {tr : List (CallEvent τ)}
    (hrun : Steps (restrict (CallStep f) (Apart f calls)) (callPool f calls s) tr p) :
    ∃ stage, Publications f calls p stage :=
  hrun.invariant (P := fun p => ∃ stage, Publications f calls p stage)
    (fun _ l _ ⟨_, hp⟩ ⟨hcond, hstep⟩ => ⟨_, hp.step (t := l.1) hstep hcond⟩) ⟨_, publications_start f calls s⟩

/-- An export whose last operation sets its key has published the report it returns. -/
theorem published_of_ends {st : PublishStage} {key : ReportKey} {report : Report}
    {k : Unit → ExportProg (Option Report)} {u : Unit} (hst : st ≠ .apart)
    (hfollows : Prog.Follows (publishProtocol f) PublishEnded st (.call (.set .exportedKeys f key) k))
    (hend : k u = .ret (some report)) : st = .published key report := by
  obtain ⟨hallowed, hrest⟩ := hfollows
  cases st with
  | apart => exact absurd rfl hst
  | finished key' r => exact hallowed.elim
  | working => exact hallowed.elim False.elim (by rintro ⟨_, _, ⟨⟩⟩)
  | building key' => exact hallowed.elim False.elim (by rintro ⟨_, ⟨⟩⟩)
  | stored key' r => cases hallowed
  | holding key' r => cases hallowed
  | published key' r =>
    cases hallowed
    have hfinished : (k u).Follows (publishProtocol f) PublishEnded (.finished key r) := hrest u
    rw [hend] at hfinished
    obtain rfl := Option.some.inj (Outcome.returned.inj (hfinished.report key r rfl))
    rfl

/-- What holds when an export has returned. -/
structure Settled (f : FileId) (calls : τ → FileCall) (key : ReportKey) (report : Report)
    (p : CallThreads τ) : Prop where
  current : p.shared.find? .reportKeys f = some key
  reports : ∀ r, p.shared.find? .reports key = some r → r = report
  idle : ∀ t, ¬ (calls t).IsExport → CallIdle f calls p t
  quiet : ∀ t, ¬ Publishes f calls p t

theorem Publications.settled (hp : Publications f calls p stage) {e : τ} {key : ReportKey} {report : Report} {u : Unit}
    (hexport : (calls e).IsExport) (hstep : p.OpStep (OpenSem f) e (.set .exportedKeys f key) u q)
    (hend : q.threads e = some (.ret (some report))) : Settled f calls key report q := by
  obtain ⟨k, hk, hsem, hthreads⟩ := id hstep
  have hst : stage e ≠ .apart := fun hst => (hp.apart e).1 hst hexport
  have hafter : k u = .ret (some report) := by rwa [hthreads, Function.update_self, Option.some.injEq] at hend
  have hpublished := published_of_ends hst (hp.follows e _ hk) hafter
  have hpub : Publishes f calls p e := ⟨hexport, key, k, .inl hk⟩
  have hpublishing : (stage e).Publishing key report := hpublished ▸ ⟨rfl, rfl⟩
  refine ⟨?_, fun r hr => ?_, fun t ht => ?_, fun t ht => ?_⟩
  · rw [hsem.reportKeys nofun]
    exact hp.current e key report hpublished hpub
  · rcases hsem.reports hr with hr | hset
    · exact hp.reports e key report hpublishing hpub r hr
    · cases hset
  · have hte : t ≠ e := fun hte => ht (hte ▸ hexport)
    exact (callIdle_congr (hstep.threads_of_ne hte)).2 (hp.idle e key report hpublishing hpub t ht)
  · by_cases hte : t = e
    · subst hte
      exact not_publishes_of_ret hend ht
    · exact hp.alone e key report hpublishing hpub t hte ((publishes_congr (hstep.threads_of_ne hte)).1 ht)

/-- Until an export takes its report, none publishes. -/
theorem Publications.steps_spare (hp : Publications f calls p stage) (hquiet : ∀ t, ¬ Publishes f calls p t)
    {tr : List (CallEvent τ)} (hrun : Steps (restrict (CallStep f) (Apart f calls)) p tr q)
    (htr : ∀ l ∈ tr, (calls l.1).IsExport → ¬ Takes l.2) :
    Steps (restrict (CallStep f) fun _ l => (calls l.1).IsExport → l.2.1.Spares) p tr q := by
  induction hrun generalizing stage with
  | refl => exact .refl _
  | @cons p r q l tr hfirst _ ih =>
    obtain ⟨hcond, hstep⟩ := hfirst
    rw [List.forall_mem_cons] at htr
    have hbeside : (calls l.1).IsExport → Beside f calls p l.1 l.2 := fun ht => ⟨ht, htr.1 ht, hquiet l.1⟩
    refine .cons ⟨fun ht => (hbeside ht).spares hp hstep, hstep⟩ (ih (hp.step hstep hcond) (fun u hu => ?_) htr.2)
    by_cases hut : u = l.1
    · subst hut
      exact (hbeside hu.1).not_publishes hp hstep hu
    · exact hquiet u ((publishes_congr (Pool.OpStep.threads_of_ne hstep hut)).1 hu)

end Publications

/-! ## The stages of a lookup -/

/-- How far a preload or a lookup has come that began after an export had returned. -/
inductive LookupStage where
  | past
  | exporting
  | fresh
  /-- It has found the key of the file. -/
  | keyed (key : ReportKey)
  | missed (key : ReportKey)
  | found (key : ReportKey) (r : Report)
  | loaded (key : ReportKey) (r : Report)
  /-- It has found no key. -/
  | stray

namespace LookupStage

def allowed (f : FileId) : LookupStage → ExportOp → Prop
  | past, _ => False
  | exporting, _ => True
  | fresh, o => o = .get .reportKeys f ∨ o = .lockPreload ∨ o = .unlockPreload ∨ o.IsRead
  | keyed key, o => o = .get .reports key ∨ o = .unlockPreload
  | missed key, o => o = .get .coldMisses (f, key) ∨ o = .set .coldMisses (f, key) () ∨ o = .load key.1 ∨ o.IsRead
  | found key _, o => o = .set .reportKeys f key
  | loaded key r, o =>
    o = .keptCount f ∨ o = .set .coldMisses (f, key) () ∨ o = .set .reports key r ∨ o = .set .reportKeys f key
  | stray, _ => True

def next : LookupStage → (o : ExportOp) → o.Ans → LookupStage
  | fresh, .get .reportKeys _, some key => keyed key
  | fresh, .get .reportKeys _, none => stray
  | keyed key, .get .reports _, some r => found key r
  | keyed key, .get .reports _, none => missed key
  | missed key, .load _, some r => loaded key r
  | stage, _, _ => stage

/-- The report that a lookup may return in a stage. -/
def Returns (r : Report) : LookupStage → Prop
  | fresh => False
  | keyed _ => False
  | missed _ => False
  | found _ r' => r' = r
  | loaded _ r' => r' = r
  | _ => True

end LookupStage

/-- What a preload or a lookup does in which of its stages. -/
def lookupProtocol (f : FileId) : Protocol ExportI where
  State := LookupStage
  allowed := LookupStage.allowed f
  next := LookupStage.next

def LookupEnded (out : Outcome PyError (Option Report)) (stage : LookupStage) : Prop :=
  ∀ r, out = .returned (some r) → stage.Returns r

section Lookups

variable {f : FileId}

theorem follows_exporting (p : ExportProg (Option Report)) : p.Follows (lookupProtocol f) LookupEnded .exporting :=
  Prog.follows_of_stays p (fun _ => ⟨trivial, fun _ => rfl⟩) fun _ _ _ => trivial

theorem follows_stray {α : Type} {post : Outcome PyError α → LookupStage → Prop} (p : ExportProg α)
    (hpost : ∀ out, post out .stray) : p.Follows (lookupProtocol f) post .stray :=
  Prog.follows_of_stays p (fun _ => ⟨trivial, fun _ => rfl⟩) hpost

/-- A read changes no stage. -/
theorem LookupStage.next_read {o : ExportOp} (ho : o.IsRead) (st : LookupStage) (a : o.Ans) : st.next o a = st := by
  cases o with
  | get => exact ho.elim
  | load => exact ho.elim
  | _ => cases st <;> rfl

theorem LookupStage.allowed_set_reportKeys {st : LookupStage} {g : FileId} {key : ReportKey}
    (h : st.allowed f (.set .reportKeys g key)) :
    st = .exporting ∨ st = .stray ∨ g = f ∧ ∃ r, st = .found key r ∨ st = .loaded key r := by
  cases st <;> simp_all [allowed, ExportOp.IsRead]

theorem LookupStage.allowed_set_reports {st : LookupStage} {key : ReportKey} {r : Report}
    (h : st.allowed f (.set .reports key r)) : st = .exporting ∨ st = .stray ∨ st = .loaded key r := by
  cases st <;> simp_all [allowed, ExportOp.IsRead]

/-- A report that is missing is loaded, or it is not. -/
def LoadEnded (key : ReportKey) (out : Outcome PyError (Option Report)) (stage : LookupStage) : Prop :=
  (∃ r, out = .returned (some r) ∧ stage = .loaded key r) ∨
    out = .returned none ∧ (stage = .missed key ∨ ∃ r, stage = .loaded key r)

theorem follows_loadCurrent (key : ReportKey) :
    (loadCurrent f key.1).Follows (lookupProtocol f) (LoadEnded key) (.missed key) := by
  refine ⟨.inr (.inr (.inl rfl)), fun loaded => ?_⟩
  cases loaded with
  | none => exact .inr ⟨rfl, .inl rfl⟩
  | some report =>
    refine ⟨.inl rfl, fun (count : ℤ) => ?_⟩
    show LoadEnded key (.returned (if analysisChanged count report.data then none else some report))
      (.loaded key report)
    split_ifs
    · exact .inr ⟨rfl, .inr ⟨report, rfl⟩⟩
    · exact .inl ⟨report, rfl, rfl⟩

theorem follows_loadSmall (key : ReportKey) :
    (loadSmall f key).Follows (lookupProtocol f) (LoadEnded key) (.missed key) := by
  have hmissed : LoadEnded key (.returned none) (.missed key) := .inr ⟨rfl, .inl rfl⟩
  refine ⟨.inr (.inr (.inr trivial)), fun (folder : Bool) => ?_⟩
  show (if folder = false then pure none else _ : ExportProg (Option Report)).Follows (lookupProtocol f) (LoadEnded key)
    (LookupStage.missed key)
  split_ifs
  · exact hmissed
  · refine ⟨.inr (.inr (.inr trivial)), fun size => ?_⟩
    cases size with
    | none => exact hmissed
    | some size =>
      show (if size > coldMaxStoredBytes then pure none else loadCurrent f key.1 : ExportProg (Option Report)).Follows
        (lookupProtocol f) (LoadEnded key) (LookupStage.missed key)
      split_ifs
      · exact hmissed
      · exact follows_loadCurrent key

theorem follows_lookupReport (key : ReportKey) :
    (lookupReport f key).Follows (lookupProtocol f) LookupEnded (.keyed key) := by
  refine ⟨.inl rfl, fun report => ?_⟩
  cases report with
  | some report => exact ⟨rfl, fun _ _ hout => Option.some.inj (Outcome.returned.inj hout)⟩
  | none =>
    refine ⟨.inl rfl, fun miss => ?_⟩
    cases miss with
    | some _ => exact fun _ hout => by cases hout
    | none =>
      show (loadSmall f key >>= _).Follows (lookupProtocol f) LookupEnded (LookupStage.missed key)
      refine Follows.bind ((follows_loadSmall key).mono ?_)
      rintro out stage (⟨r, rfl, rfl⟩ | ⟨rfl, rfl | ⟨r, rfl⟩⟩)
      · exact ⟨.inr (.inr (.inl rfl)), fun _ => ⟨.inr (.inr (.inr rfl)),
          fun _ _ hout => Option.some.inj (Outcome.returned.inj hout)⟩⟩
      · exact ⟨.inr (.inl rfl), fun _ _ hout => by cases hout⟩
      · exact ⟨.inr (.inl rfl), fun _ _ hout => by cases hout⟩

/-- A preload that finds the key of the file is done. -/
def PreloadEnded (_ : Outcome PyError Unit) (stage : LookupStage) : Prop :=
  stage = .fresh ∨ (∃ key, stage = .keyed key) ∨ stage = .stray

theorem follows_preload : (preload f).Follows (lookupProtocol f) PreloadEnded .fresh := by
  have hread : ∀ o : ExportOp, o.IsRead → LookupStage.fresh.allowed f o := fun o ho => .inr (.inr (.inr ho))
  refine ⟨hread _ trivial, fun (arch : Option String) => ?_⟩
  show (if arch.any (· ∉ smdaArchitectures) then pure () else _ : ExportProg Unit).Follows (lookupProtocol f)
    PreloadEnded LookupStage.fresh
  split_ifs
  · exact .inl rfl
  · refine ⟨hread _ trivial, fun raw => ⟨hread _ trivial, fun (viewType : String) => ?_⟩⟩
    cases raw with
    | none => exact .inl rfl
    | some raw =>
      show (if viewType = "Raw" ∨ ¬ (0 < raw.length ∧ raw.length ≤ preloadMaxRawBytes) then pure () else _ :
        ExportProg Unit).Follows (lookupProtocol f) PreloadEnded LookupStage.fresh
      split_ifs
      · exact .inl rfl
      · refine ⟨hread _ trivial, fun (folder : Bool) => ?_⟩
        show (if folder = false then pure () else _ : ExportProg Unit).Follows (lookupProtocol f) PreloadEnded
          LookupStage.fresh
        split_ifs
        · exact .inl rfl
        · refine ⟨.inl rfl, fun current => ?_⟩
          cases current with
          | some key => exact .inr (.inl ⟨key, rfl⟩)
          | none => exact follows_stray _ fun _ => .inr (.inr rfl)

theorem follows_preloadReport : (preloadReport f).Follows (lookupProtocol f) (fun _ _ => True) .fresh := by
  have hunlock : ∀ out stage, PreloadEnded out stage →
      Prog.FinallyFollows (P := lookupProtocol f) (fun _ _ => True) (call .unlockPreload) out stage := by
    rintro out stage (rfl | ⟨key, rfl⟩ | rfl)
    · cases out <;> first | trivial | exact ⟨.inr (.inr (.inl rfl)), fun _ => trivial⟩
    · cases out <;> first | trivial | exact ⟨.inr rfl, fun _ => trivial⟩
    · cases out <;> first | trivial | exact ⟨trivial, fun _ => trivial⟩
  refine ⟨.inr (.inl rfl), fun _ =>
    Follows.tryFinally (Follows.mono (Follows.tryCatch (follows_preload.mono ?_)) hunlock)⟩
  intro out stage hstage
  cases out with
  | returned _ => exact hstage
  | raised e => exact hstage
  | pending => trivial

theorem follows_cachedReport : (cachedReport f).Follows (lookupProtocol f) LookupEnded .fresh := by
  refine ⟨.inl rfl, fun current => ?_⟩
  cases current with
  | some key => exact follows_lookupReport key
  | none => exact follows_stray _ fun _ _ _ => trivial

theorem FileCall.follows_fresh (f : FileId) (c : FileCall) (hc : ¬ c.IsExport) :
    (c.program f).Follows (lookupProtocol f) LookupEnded .fresh := by
  cases c with
  | exportReport stops => exact absurd trivial hc
  | cachedReport => exact follows_cachedReport
  | preload =>
    refine Follows.bind (follows_preloadReport.mono fun out stage _ => ?_)
    cases out with
    | returned _ => exact fun _ hout => by cases hout
    | raised e => exact fun _ hout => by cases hout
    | pending => trivial

end Lookups

/-! ## Between two exports -/

section Window

variable {τ : Type} {f : FileId} {calls : τ → FileCall} {key : ReportKey} {report : Report} {U : τ → Prop}
  {tr : List (CallEvent τ)}

theorem Reloaded.append {r : Report} (h : Reloaded U key r tr) (l : List (CallEvent τ)) :
    Reloaded U key r (tr ++ l) := by
  obtain ⟨t, before, after, ht, rfl, hbefore, hafter⟩ := h
  exact ⟨t, before, after ++ l, ht, List.append_assoc _ _ _, hbefore, List.mem_append_left l hafter⟩

/-- The reports that a lookup may find. -/
def Recent (U : τ → Prop) (key : ReportKey) (report : Report) (tr : List (CallEvent τ)) (r : Report) : Prop :=
  r = report ∨ Reloaded U key r tr

/-- What a call has seen of the key of the file and of the report under it. -/
def Seen (calls : τ → FileCall) (key : ReportKey) (report : Report) (U : τ → Prop) (tr : List (CallEvent τ)) (t : τ) :
    LookupStage → Prop
  | .past => ¬ U t
  | .exporting => (calls t).IsExport
  | .fresh => U t
  | .keyed key' => U t ∧ key' = key
  | .missed key' => U t ∧ key' = key ∧ (t, ⟨.get .reports key, none⟩) ∈ tr
  | .found key' r => U t ∧ key' = key ∧ Recent U key report tr r
  | .loaded key' r => U t ∧ key' = key ∧ Reloaded U key r tr
  | .stray => False

theorem Seen.append {t : τ} {stage : LookupStage} (h : Seen calls key report U tr t stage) (l : List (CallEvent τ)) :
    Seen calls key report U (tr ++ l) t stage := by
  cases stage with
  | missed key' => exact ⟨h.1, h.2.1, List.mem_append_left l h.2.2⟩
  | found key' r => exact ⟨h.1, h.2.1, h.2.2.imp_right (Reloaded.append · l)⟩
  | loaded key' r => exact ⟨h.1, h.2.1, h.2.2.append l⟩
  | _ => exact h

/-- The file has its key, and memory no other report under it than one that was loaded since. -/
structure Kept (f : FileId) (calls : τ → FileCall) (key : ReportKey) (report : Report) (U : τ → Prop)
    (tr : List (CallEvent τ)) (stage : τ → LookupStage) (s : ExportState) : Prop where
  current : s.find? .reportKeys f = some key
  reports : ∀ r, s.find? .reports key = some r → Recent U key report tr r
  seen : ∀ t, Seen calls key report U tr t (stage t)

variable {stage : τ → LookupStage} {s s' : ExportState} {t : τ} {o : ExportOp} {a : o.Ans}

/-- A call between two exports sets the key of the file and a report that was loaded, and nothing else. -/
theorem Kept.sets (hs : Kept f calls key report U tr stage s) (ht : (calls t).IsExport → o.Spares)
    (hallowed : (stage t).allowed f o) : (∀ g key', o = .set .reportKeys g key' → g = f ∧ key' = key) ∧
      ∀ r, o = .set .reports key r → Reloaded U key r tr := by
  have hseen := hs.seen t
  refine ⟨fun g key' ho => ?_, fun r ho => ?_⟩ <;> subst ho
  · rcases LookupStage.allowed_set_reportKeys hallowed with h | h | ⟨hg, r, h | h⟩ <;> rw [h] at hseen
    · exact absurd (.inl ⟨g, key', rfl⟩) (ht hseen)
    · exact hseen.elim
    · exact ⟨hg, hseen.2.1⟩
    · exact ⟨hg, hseen.2.1⟩
  · rcases LookupStage.allowed_set_reports hallowed with h | h | h <;> rw [h] at hseen
    · exact absurd (.inr ⟨key, r, rfl⟩) (ht hseen)
    · exact hseen.elim
    · exact hseen.2.2

theorem Kept.seen_next (hs : Kept f calls key report U tr stage s) (hallowed : (stage t).allowed f o)
    (hsem : OpenSem f s o a s') : Seen calls key report U (tr ++ [(t, ⟨o, a⟩)]) t ((stage t).next o a) := by
  have hseen := hs.seen t
  have hlater := hseen.append [(t, ⟨o, a⟩)]
  generalize stage t = st at hallowed hseen hlater ⊢
  cases st with
  | past => exact hallowed.elim
  | exporting => exact hlater
  | stray => exact hseen.elim
  | fresh =>
    rcases hallowed with rfl | rfl | rfl | hread
    · obtain rfl : a = some key := hsem.get_reportKeys.trans hs.current
      exact ⟨hseen, rfl⟩
    · exact hlater
    · exact hlater
    · rwa [LookupStage.next_read hread]
  | keyed key' =>
    obtain ⟨hu, rfl⟩ := hseen
    rcases hallowed with rfl | rfl
    · cases a with
      | none => exact ⟨hu, rfl, List.mem_append_right _ (List.mem_singleton_self _)⟩
      | some r => exact ⟨hu, rfl, (hs.reports r hsem.get_reports).imp_right (Reloaded.append · _)⟩
    · exact hlater
  | missed key' =>
    obtain ⟨hu, rfl, hmissed⟩ := hseen
    rcases hallowed with rfl | rfl | rfl | hread
    · exact hlater
    · exact hlater
    · cases a with
      | none => exact hlater
      | some r => exact ⟨hu, rfl, t, tr, _, hu, rfl, hmissed, List.mem_singleton_self _⟩
    · rwa [LookupStage.next_read hread]
  | found => exact hlater
  | loaded => exact hlater

/-- The step lemma. -/
theorem Kept.step [DecidableEq τ] (hs : Kept f calls key report U tr stage s) (ht : (calls t).IsExport → o.Spares)
    (hallowed : (stage t).allowed f o) (hsem : OpenSem f s o a s') :
    Kept f calls key report U (tr ++ [(t, ⟨o, a⟩)]) (Function.update stage t ((stage t).next o a)) s' := by
  obtain ⟨hkeys, hreports⟩ := hs.sets ht hallowed
  refine ⟨?_, fun r hr => ?_, fun u => ?_⟩
  · by_cases hset : ∃ g key', o = .set .reportKeys g key'
    · obtain ⟨g, key', rfl⟩ := hset
      obtain ⟨rfl, rfl⟩ := hkeys g key' rfl
      exact hsem.set_found
    · rw [hsem.reportKeys fun g key' ho => hset ⟨g, key', ho⟩]
      exact hs.current
  · rcases hsem.reports hr with hr | hset
    · exact (hs.reports r hr).imp_right (Reloaded.append · _)
    · exact .inr ((hreports r hset).append _)
  · by_cases hut : u = t
    · subst hut
      rw [Function.update_self]
      exact hs.seen_next hallowed hsem
    · rw [Function.update_of_ne hut]
      exact (hs.seen u).append _

variable {p q : CallThreads τ}

/-- Where the calls stand when an export has returned. -/
theorem Settled.exists_stage (hp : Settled f calls key report p) (t : τ) : ∃ st : LookupStage,
    (∀ prog, p.threads t = some prog → prog.Follows (lookupProtocol f) LookupEnded st) ∧
      Seen calls key report (Unbegun f calls p) [] t st := by
  by_cases ht : (calls t).IsExport
  · exact ⟨.exporting, fun prog _ => follows_exporting prog, ht⟩
  by_cases hbegun : Unbegun f calls p t
  · refine ⟨.fresh, fun prog hprog => ?_, hbegun⟩
    obtain rfl := Option.some.inj (hprog.symm.trans hbegun)
    exact (calls t).follows_fresh f ht
  · refine ⟨.past, fun prog hprog => ?_, hbegun⟩
    rcases (hp.idle t ht).resolve_left hbegun with ⟨x, hx⟩ | ⟨err, herr⟩
    · obtain rfl := Option.some.inj (hprog.symm.trans hx)
      exact fun _ _ => trivial
    · obtain rfl := Option.some.inj (hprog.symm.trans herr)
      exact fun _ _ => trivial

/-- What a lookup that has begun since has returned. -/
theorem Kept.returned (hs : Kept f calls key report U tr stage s) (ht : ¬ (calls t).IsExport) (hu : U t) {r : Report}
    (hr : (stage t).Returns r) : Recent U key report tr r := by
  have hseen := hs.seen t
  generalize stage t = st at hr hseen
  cases st with
  | past => exact absurd hu hseen
  | exporting => exact absurd hseen ht
  | stray => exact hseen.elim
  | found key' r' =>
    obtain rfl : r' = r := hr
    exact hseen.2.2
  | loaded key' r' =>
    obtain rfl : r' = r := hr
    exact .inr hseen.2.2
  | _ => exact hr.elim

/-- The run lemma. -/
theorem Settled.wins [DecidableEq τ] (hp : Settled f calls key report p)
    (hrun : Steps (restrict (CallStep f) fun _ l => (calls l.1).IsExport → l.2.1.Spares) p tr q) :
    Wins f calls key report (Unbegun f calls p) tr q := by
  choose stage hfollows hseen using hp.exists_stage
  have hkept : p.Tracked (lookupProtocol f) (fun _ => LookupEnded) (Kept f calls key report (Unbegun f calls p)) []
      stage := ⟨hfollows, hp.current, fun r hr => .inl (hp.reports r hr), hseen⟩
  obtain ⟨stage', hends, hs⟩ := hkept.steps hrun
    fun _ _ _ _ _ _ _ hp hcond hallowed hsem => hp.2.step hcond hallowed hsem
  refine ⟨hs.current, fun t x hcall hu hx => ?_⟩
  cases x with
  | none => exact .inl rfl
  | some r =>
    have ht : ¬ (calls t).IsExport := by rw [hcall]; exact id
    rcases hs.returned ht hu (hends t _ hx r rfl) with rfl | hr
    · exact .inr (.inl rfl)
    · exact .inr (.inr ⟨r, rfl, hr⟩)

end Window

/-! ## The last export wins -/

theorem lastExportWins (τ : Type) [DecidableEq τ] :
    LastExportWins τ fun f calls => restrict (CallStep f) (Apart f calls) := by
  intro f calls files folder tr₀ p₀ p₁ e key report tr p hrun hexport hstep hend hrun' htr
  obtain ⟨stage, hp⟩ := publications_of_steps hrun
  have hsettled := hp.settled hexport hstep.2 hend
  exact hsettled.wins ((hp.step hstep.2 hstep.1).steps_spare hsettled.quiet hrun' htr)

/-! ## Calls one after the other -/

/-- A thread need not wait. -/
def ExportState.ready (s : ExportState) : ExportOp → Bool
  | .claim c key _ => !s.inflight c key
  | .lockPreload => !s.preloading
  | _ => true

theorem ExportState.not_waits {s : ExportState} {o : ExportOp} (ho : s.ready o = true) (a : o.Ans) : ¬ s.Waits o a := by
  cases o with
  | claim c key stops =>
    cases a with
    | claimed => simpa [ready, Waits] using ho
    | _ => exact id
  | lockPreload => simpa [ready, Waits] using ho
  | _ => exact id

theorem openSem_ready {τ : Type} (f : FileId) (w : CallWorld) (_ : τ) (s : ExportState) (o : ExportOp)
    (ho : s.ready o = true) :
    OpenSem f s o (exportHandler w o s).1 (exportHandler w o s).2 :=
  ⟨w, s, .refl, s.not_waits ho _, .handled s o⟩

/-- The analysis finds more functions than the report has that was stored before. -/
def changedWorld : CallWorld := ⟨⟨2, 20, .ok { emptyReport with numFunctions := 20 }⟩, fun _ => some 10⟩

def exportedReport : Report := ⟨{ emptyReport with numFunctions := 20 }, true, 2⟩

/-- A file is opened again. -/
def reopenedProcess : ExportState :=
  .start (fun _ => ⟨some ⟨100, "aa"⟩, "PE", some "x86", "", smallAnalysis⟩)
    (some (.store .empty "aa" { emptyReport with numFunctions := 1 } (some 10)))

/-- The file and the key under which an operation remembers it as exported. -/
def ExportOp.exportedKey : ExportOp → Option (FileId × ReportKey)
  | set .exportedKeys f key => some (f, key)
  | _ => none

theorem ExportOp.eq_of_exportedKey {o : ExportOp} {f : FileId} {key : ReportKey} (ho : o.exportedKey = some (f, key)) :
    o = .set .exportedKeys f key := by
  unfold exportedKey at ho
  split at ho
  · cases ho
    rfl
  · cases ho

/-- An export whose next operation remembers its file as exported. -/
theorem callStep_exported {τ : Type} [DecidableEq τ] {f : FileId} {w : CallWorld} {p : CallThreads τ} {t : τ}
    {key : ReportKey} (hkey : (p.nextOp t).bind ExportOp.exportedKey = some (f, key)) :
    CallStep f p (t, ⟨.set .exportedKeys f key, ()⟩) (p.advance (fun _ => exportHandler w) t) := by
  obtain ⟨o, ho, hkey⟩ := Option.bind_eq_some_iff.1 hkey
  obtain rfl := ExportOp.eq_of_exportedKey hkey
  have hready : p.shared.ready (.set .exportedKeys f key) = true := rfl
  exact Pool.opStep_advance (openSem_ready f w) ho hready

section Alone

variable {τ : Type} {f : FileId} {calls : τ → FileCall} {p : CallThreads τ} {t : τ}

theorem CallIdle.not_publishes (h : CallIdle f calls p t) : ¬ Publishes f calls p t := by
  intro hp
  rcases h with hbegins | ⟨x, hx⟩ | ⟨e, he⟩
  · have hworking : (calls t).stage = .working := by
      cases hcall : calls t with
      | exportReport stops => rfl
      | _ =>
        rw [Publishes, hcall] at hp
        exact hp.1.elim
    have hfollows := (calls t).follows f
    rw [hworking] at hfollows
    obtain ⟨key, r, hpublishing⟩ := publishing_of_publishes hfollows hbegins nofun hp
    exact hpublishing
  · exact not_publishes_of_ret hx hp
  · obtain ⟨-, key, k, hk | hk | ⟨key', hk⟩⟩ := hp <;> cases he.symm.trans hk

/-- A call that is made while no other one is under way is apart from them. -/
theorem apart_of_idle {e : Event ExportI} (h : ∀ u, u ≠ t → CallIdle f calls p u) : Apart f calls p (t, e) where
  idle hexport _ u hu := h u fun hut => hu (hut ▸ hexport)
  alone _ _ u hu := (h u hu).not_publishes
  begins hexport hbegins u := by
    by_cases hut : u = t
    · rw [hut]
      exact CallIdle.not_publishes (.inl hbegins)
    · exact (h u hut).not_publishes

theorem CallIdle.runs [DecidableEq τ] {w : CallWorld} {u : τ} (h : CallIdle f calls p u) (hu : u ≠ t) (n : ℕ) :
    CallIdle f calls (p.runs (fun _ => exportHandler w) (List.replicate n t)) u :=
  (callIdle_congr (Pool.threads_runs_replicate hu n)).2 h

theorem callIdle_callPool (s : ExportState) : CallIdle f calls (callPool f calls s) t := .inl rfl

theorem callIdle_of_returned {x : Option Report} (h : p.returned t = some x) : CallIdle f calls p t :=
  .inr (.inl ⟨x, Pool.threads_of_returned h⟩)

/-- A call takes its steps while no other one is under way. -/
theorem steps_alone [DecidableEq τ] {w : CallWorld} {n : ℕ} (h : ∀ u, u ≠ t → CallIdle f calls p u)
    (hready : p.allReady (fun _ => exportHandler w) (fun _ => ExportState.ready) (List.replicate n t) = true) :
    Steps (restrict (CallStep f) (Apart f calls)) p (p.traceOf (fun _ => exportHandler w) (List.replicate n t))
      (p.runs (fun _ => exportHandler w) (List.replicate n t)) := by
  have hcond : ∀ q : CallThreads τ, (∀ u, u ≠ t → q.threads u = p.threads u) → ∀ e, Apart f calls q (t, e) :=
    fun q hq e => apart_of_idle fun u hu => (callIdle_congr (hq u hu)).2 (h u hu)
  have hsteps := Pool.steps_replicate (openSem_ready f w) hready hcond
  exact hsteps

end Alone

/-- A preload, an export and lookups. -/
def orderedCalls : ℕ → FileCall
  | 0 => .preload
  | 1 => .exportReport false
  | _ => .cachedReport

/-- The preload has returned. -/
def preloadedPool : CallThreads ℕ :=
  (callPool 0 orderedCalls reopenedProcess).runs (fun _ => exportHandler changedWorld) (List.replicate 19 0)

/-- The export has one step to go. -/
def exportingPool : CallThreads ℕ := preloadedPool.runs (fun _ => exportHandler changedWorld) (List.replicate 17 1)

/-- The export has returned. -/
def exportedPool : CallThreads ℕ := exportingPool.advance (fun _ => exportHandler changedWorld) 1

/-- The lookup has returned as well. -/
def lookedUpPool : CallThreads ℕ := exportedPool.runs (fun _ => exportHandler changedWorld) (List.replicate 3 2)

theorem callIdle_preloadedPool : ∀ u, u ≠ 1 → CallIdle 0 orderedCalls preloadedPool u := by
  have hreturned : preloadedPool.returned 0 = some none := by decide +kernel
  intro u hu
  by_cases hu' : u = 0
  · rw [hu']
    exact callIdle_of_returned hreturned
  · exact (callIdle_callPool _).runs hu' 19

theorem steps_preloadedPool : ∃ tr, Steps (restrict (CallStep 0) (Apart 0 orderedCalls))
    (callPool 0 orderedCalls reopenedProcess) tr preloadedPool := by
  have hready : (callPool 0 orderedCalls reopenedProcess).allReady (fun _ => exportHandler changedWorld)
      (fun _ => ExportState.ready) (List.replicate 19 0) = true := by decide +kernel
  exact ⟨_, steps_alone (fun _ _ => callIdle_callPool _) hready⟩

theorem steps_exportingPool : ∃ tr, Steps (restrict (CallStep 0) (Apart 0 orderedCalls))
    preloadedPool tr exportingPool := by
  have hready : preloadedPool.allReady (fun _ => exportHandler changedWorld)
      (fun _ => ExportState.ready) (List.replicate 17 1) = true := by decide +kernel
  exact ⟨_, steps_alone callIdle_preloadedPool hready⟩

theorem callIdle_exportedPool (u : ℕ) : CallIdle 0 orderedCalls exportedPool u := by
  have hreturned : exportedPool.returned 1 = some (some exportedReport) := by decide +kernel
  by_cases hu : u = 1
  · rw [hu]
    exact callIdle_of_returned hreturned
  · exact (callIdle_congr (Pool.threads_advance_of_ne hu)).2 ((callIdle_preloadedPool u hu).runs hu 17)

/-- The lookup returns the report of the export, and not the one that was loaded before. -/
theorem lastExportWins_ordered : lookedUpPool.returned 2 = some (some exportedReport) ∧
    Wins 0 orderedCalls ("aa", 2) exportedReport (Unbegun 0 orderedCalls exportedPool)
      (exportedPool.traceOf (fun _ => exportHandler changedWorld) (List.replicate 3 2)) lookedUpPool := by
  obtain ⟨tr, hrun⟩ := steps_preloadedPool
  obtain ⟨tr', hrun'⟩ := steps_exportingPool
  have hkey : (exportingPool.nextOp 1).bind ExportOp.exportedKey = some (0, ("aa", 2)) := by decide +kernel
  have hapart : Apart 0 orderedCalls exportingPool (1, ⟨.set .exportedKeys 0 ("aa", 2), ()⟩) :=
    apart_of_idle fun u hu => (callIdle_preloadedPool u hu).runs hu 17
  have hreturned : exportedPool.returned 1 = some (some exportedReport) := by decide +kernel
  have hready : exportedPool.allReady (fun _ => exportHandler changedWorld) (fun _ => ExportState.ready)
      (List.replicate 3 2) = true := by decide +kernel
  have hlookup : ∀ l ∈ exportedPool.traceOf (fun _ => exportHandler changedWorld) (List.replicate 3 2), l.1 = 2 := by
    decide +kernel
  refine ⟨by decide +kernel, lastExportWins ℕ 0 orderedCalls _ _ _ exportingPool exportedPool 1 ("aa", 2) _ _ _
    (hrun.append hrun') trivial ⟨hapart, callStep_exported hkey⟩ (Pool.threads_of_returned hreturned)
    (steps_alone (fun u _ => callIdle_exportedPool u) hready) fun l hl hexport => ?_⟩
  rw [hlookup l hl] at hexport
  exact hexport.elim

/-! ## A preload that outlasts an export -/

/-- A preload and an export. -/
def racingCalls : Bool → FileCall
  | true => .preload
  | false => .exportReport false

/-- The preload has loaded a report, and the export has one step to go. -/
def racingPool : CallThreads Bool :=
  (callPool 0 racingCalls reopenedProcess).runs (fun _ => exportHandler changedWorld)
    (List.replicate 16 true ++ List.replicate 17 false)

/-- The preload goes on. -/
def racedPool : CallThreads Bool :=
  (racingPool.advance (fun _ => exportHandler changedWorld) false).runs (fun _ => exportHandler changedWorld)
    [true, true]

/-- The preload sets the key of the report it has loaded, after the export has returned. -/
theorem not_lastExportWins : ¬ LastExportWins Bool fun f _ => CallStep f := by
  intro hwins
  have hready : (callPool 0 racingCalls reopenedProcess).allReady (fun _ => exportHandler changedWorld)
      (fun _ => ExportState.ready) (List.replicate 16 true ++ List.replicate 17 false) = true := by decide +kernel
  have hready' : (racingPool.advance (fun _ => exportHandler changedWorld) false).allReady
      (fun _ => exportHandler changedWorld) (fun _ => ExportState.ready) [true, true] = true := by decide +kernel
  have hreturned : (racingPool.advance (fun _ => exportHandler changedWorld) false).returned false =
      some (some exportedReport) := by decide +kernel
  have hrun := Pool.steps_runs (openSem_ready 0 changedWorld) hready
  have hrun' := Pool.steps_runs (openSem_ready 0 changedWorld) hready'
  have hpreload : ∀ l ∈ (racingPool.advance (fun _ => exportHandler changedWorld) false).traceOf
      (fun _ => exportHandler changedWorld) [true, true], l.1 = true := by decide +kernel
  have hspares : ∀ l ∈ (racingPool.advance (fun _ => exportHandler changedWorld) false).traceOf
      (fun _ => exportHandler changedWorld) [true, true], (racingCalls l.1).IsExport → ¬ Takes l.2 := by
    intro l hl hexport
    rw [hpreload l hl] at hexport
    exact hexport.elim
  have hcurrent := (hwins 0 racingCalls _ _ _ racingPool _ false ("aa", 2) _ _ racedPool hrun trivial
    (callStep_exported (by decide +kernel)) (Pool.threads_of_returned hreturned) hrun' hspares).current
  revert hcurrent
  decide +kernel

end McritSimilarity
