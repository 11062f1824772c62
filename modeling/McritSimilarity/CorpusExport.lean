import McritSimilarity.Builtin

/-!
# Exports and the corpus that failed to load

An export should never replace the corpus file that could not be loaded.  `keepsFailedCorpus` proves
it for the runs in which no export of that file is under way when the load fails, and every later
export of the file names it in a way `_same_file` recognises (`ExportsApart`).
-/

set_option autoImplicit false

namespace McritSimilarity

open Python Prog

section Files

variable {F : Type} (env : FileEnv F)

/-- The file a corpus is loaded from. -/
def corpusFile (corpus : String) : F := env.file (pathText corpus.toList)

/-- The files an export to a path writes. -/
def exportFiles (path : List Char) : List F :=
  env.file (pathText path) :: (withNameSuffix path ".partial".toList).toList.map env.file

/-- An export to the path writes the file of the corpus. -/
def Hits (path : List Char) (corpus : String) : Prop := corpusFile env corpus ∈ exportFiles env path

/-- The files an operation writes. -/
def ProcessOp.written : ProcessOp → List F
  | .writeText path _ => [env.file path]
  | .replace source target => [env.file source, env.file target]
  | _ => []

/-- The operation writes only files of an export to the given path, if any. -/
def WritesWithin (path : Option (List Char)) (o : ProcessOp) : Prop :=
  ∀ f ∈ o.written env, ∃ target ∈ path, f ∈ exportFiles env target

variable {env} {path : Option (List Char)}

theorem writesWithin_of_nil {o : ProcessOp} (h : o.written env = []) : WritesWithin env path o := by
  intro f hf
  rw [h] at hf
  cases hf

theorem attempt_onlyCalls {α : Type} {o : ProcessOp} {result : o.Ans → Except PyError α}
    (h : WritesWithin env path o) : (attempt o result).OnlyCalls (WritesWithin env path) :=
  ⟨h, fun _ => onlyCalls_ofExcept _⟩

theorem reports_onlyCalls {α : Type} {p : ProcessProg α} (h : p.OnlyCalls (WritesWithin env path)) :
    (reports p).OnlyCalls (WritesWithin env path) :=
  .tryCatch (.bind h fun _ => trivial) fun _ => trivial

theorem resolvedClient_onlyCalls (config : ProviderConfig) :
    (resolvedClient config).OnlyCalls (WritesWithin env path) := by
  have hendpoint : ∀ corpus, (startedEndpoint corpus).OnlyCalls (WritesWithin env path) :=
    fun _ => attempt_onlyCalls (writesWithin_of_nil rfl)
  exact .bind (onlyCalls_resolve hendpoint config) fun _ => onlyCalls_ofExcept _

theorem exportFile_onlyCalls (client : McritClient) (target : List Char) :
    (exportFile client target).OnlyCalls (WritesWithin env (some target)) := by
  refine .bind (attempt_onlyCalls (writesWithin_of_nil rfl)) fun data => ?_
  cases haside : withNameSuffix target ".partial".toList with
  | none => trivial
  | some aside =>
    have hfiles : exportFiles env target = [env.file (pathText target), env.file aside] := by
      rw [exportFiles, haside]
      rfl
    refine .bind (attempt_onlyCalls ?_) fun _ => .bind (attempt_onlyCalls ?_) fun _ => trivial
    · intro f hf
      refine ⟨target, rfl, ?_⟩
      rw [hfiles]
      exact List.mem_cons_of_mem _ hf
    · intro f hf
      refine ⟨target, rfl, ?_⟩
      rw [hfiles]
      simpa [ProcessOp.written, or_comm] using hf

theorem visit_onlyCalls {α : Type} (p : VisitProg α) :
    (p.lift (J := ProcessI) visitOp visitAns).OnlyCalls (WritesWithin env path) := by
  refine OnlyCalls.lift (P := fun _ => True) ?_ fun o _ => ?_
  · induction p with
    | call o k ih => exact ⟨trivial, ih⟩
    | _ => trivial
  · cases o <;> exact writesWithin_of_nil rfl

variable (rt : Runtime)

/-- The thread of a command writes only the files of its export path. -/
theorem start_onlyCalls {b : Builtin} {c : Command} {prog : ProcessProg Bool}
    (h : c.start env rt b = some prog) : prog.OnlyCalls (WritesWithin env c.exportPath) := by
  cases c with
  | visit fuel fromNode toNode config =>
    obtain rfl := Option.some.inj h
    exact visit_onlyCalls _
  | checkConnection config =>
    obtain rfl := Option.some.inj h
    exact reports_onlyCalls (.bind (resolvedClient_onlyCalls config) fun _ =>
      attempt_onlyCalls (writesWithin_of_nil rfl))
  | importCorpus config source =>
    simp only [Command.start] at h
    split_ifs at h
    obtain rfl := Option.some.inj h
    exact reports_onlyCalls (.bind (resolvedClient_onlyCalls config) fun _ =>
      attempt_onlyCalls (writesWithin_of_nil rfl))
  | exportCorpus config target =>
    simp only [Command.start] at h
    split_ifs at h
    obtain rfl := Option.some.inj h
    exact reports_onlyCalls (.bind (resolvedClient_onlyCalls config) fun client =>
      exportFile_onlyCalls client target)

/-- An export that was not refused is apart from every corpus that failed to load. -/
theorem apart_of_start {b : Builtin} {failed : List String} {c : Command} {path : List Char}
    {prog : ProcessProg Bool} (hstart : c.start env rt b = some prog) (hpath : c.exportPath = some path)
    (hunloaded : ∀ corpus ∈ failed, b.unloadedCorpus = corpus)
    (hcond : ∀ corpus ∈ failed, Hits env path corpus → sameFile env path corpus.toList = true) :
    ∀ corpus ∈ failed, ¬ Hits env path corpus := by
  intro corpus hcorpus hhits
  cases c with
  | exportCorpus config target =>
    obtain rfl := Option.some.inj hpath
    simp only [Command.start] at hstart
    split_ifs at hstart with hguard
    refine hguard.2.2 ?_
    rw [hunloaded corpus hcorpus]
    exact hcond corpus hcorpus hhits
  | _ => cases hpath

end Files

section Process

variable {F τ : Type} [DecidableEq F] [DecidableEq τ] (env : FileEnv F) (rt : Runtime)

/-- Once a corpus could not be loaded, its file stays as it is. -/
def KeepsFailedCorpus (step : Process F τ → ProcessLabel τ → Process F τ → Prop) : Prop :=
  ∀ files tr p tr' q corpus, Steps step (.init files) tr p →
    corpus ∈ p.pool.shared.failedLoads → Steps step p tr' q →
      q.pool.shared.files (corpusFile env corpus) = p.pool.shared.files (corpusFile env corpus)

/-- The step starts no export of a corpus that failed to load under a name that `_same_file` does not
recognise, and no load fails while an export of its corpus is under way. -/
def ExportsApart (p : Process F τ) : ProcessLabel τ → Prop
  | .command _ (.exportCorpus _ path) =>
    ∀ corpus ∈ p.pool.shared.failedLoads, Hits env path corpus →
      sameFile env path corpus.toList = true
  | .op _ (.endpoint corpus) a =>
    a.loadFailed = true → ∀ t path, p.pool.Running t → p.exports t = some path →
      ¬ Hits env path corpus
  | _ => True

/-! ## What a step writes -/

/-- Apart from `endpoint`, an operation changes nothing but the files it writes. -/
theorem processSem_frame {s s' : Shared F} {o : ProcessOp} {a : o.Ans}
    (h : processSem env s o a s') (ho : ∀ corpus, o ≠ .endpoint corpus) :
    ∃ files, s' = { s with files := files } ∧ ∀ f ∉ o.written env, files f = s.files f := by
  cases o with
  | endpoint corpus => exact absurd rfl (ho corpus)
  | writeText path data =>
    have hne : ∀ f ∉ (ProcessOp.writeText path data).written env, f ≠ env.file path :=
      fun f hf => by simpa [ProcessOp.written] using hf
    cases a with
    | ok u => exact ⟨_, h, fun f hf => Function.update_of_ne (hne f hf) _ _⟩
    | error e =>
      obtain ⟨content, h⟩ := h
      exact ⟨_, h, fun f hf => Function.update_of_ne (hne f hf) _ _⟩
  | replace source target =>
    cases a with
    | ok u =>
      refine ⟨_, h, fun f hf => ?_⟩
      have hne : f ≠ env.file source ∧ f ≠ env.file target := by simpa [ProcessOp.written] using hf
      rw [Function.update_of_ne hne.2, Function.update_of_ne hne.1]
    | error e => exact ⟨s.files, h, fun _ _ => rfl⟩
  | _ => exact ⟨s.files, h, fun _ _ => rfl⟩

theorem processSem_endpoint {s s' : Shared F} {corpus : String} {a : EndpointAnswer}
    (h : processSem env s (.endpoint corpus) a s') : s'.files = s.files := by
  obtain ⟨started, loaded, builtin, -, rfl⟩ := h
  rfl

theorem files_processSem {s s' : Shared F} {o : ProcessOp} {a : o.Ans}
    (h : processSem env s o a s') {f : F} (hf : f ∉ o.written env) : s'.files f = s.files f := by
  by_cases ho : ∃ corpus, o = .endpoint corpus
  · obtain ⟨corpus, rfl⟩ := ho
    rw [processSem_endpoint env h]
  · obtain ⟨files, rfl, hfiles⟩ := processSem_frame env h (not_exists.1 ho)
    exact hfiles f hf

/-! ## The guard -/

/-- `unloaded_corpus` names the corpus that failed to load; none has before the server runs. -/
structure GuardInv (s : Shared F) : Prop where
  started : s.builtin.endpoint = none → s.failedLoads = []
  unloaded : ∀ corpus ∈ s.failedLoads, s.builtin.unloadedCorpus = corpus ∧ corpus ≠ ""

theorem guardInv_processSem {s s' : Shared F} {o : ProcessOp} {a : o.Ans} (hs : GuardInv s)
    (h : processSem env s o a s') : GuardInv s' := by
  by_cases ho : ∃ corpus, o = .endpoint corpus
  · obtain ⟨corpus, rfl⟩ := ho
    obtain ⟨started, loaded, builtin, hsection, rfl⟩ := h
    unfold endpointSection at hsection
    cases hendpoint : s.builtin.endpoint with
    | some endpoint =>
      rw [hendpoint] at hsection
      obtain ⟨rfl, rfl⟩ := Prod.mk.inj hsection
      exact ⟨hs.started, hs.unloaded⟩
    | none =>
      have hnone := hs.started hendpoint
      rw [hendpoint] at hsection
      cases started with
      | error e =>
        obtain ⟨rfl, rfl⟩ := Prod.mk.inj hsection
        exact ⟨hs.started, hs.unloaded⟩
      | ok endpoint =>
        simp only at hsection
        split_ifs at hsection with hload
        · obtain ⟨rfl, rfl⟩ := Prod.mk.inj hsection
          exact ⟨nofun, hs.unloaded⟩
        · obtain ⟨rfl, rfl⟩ := Prod.mk.inj hsection
          refine ⟨nofun, fun c hc => ?_⟩
          obtain rfl : c = corpus := by simpa [hnone] using hc
          exact ⟨rfl, fun h => hload (.inl h)⟩
  · obtain ⟨files, rfl, -⟩ := processSem_frame env h (not_exists.1 ho)
    exact ⟨hs.started, hs.unloaded⟩

/-! ## Runs -/

/-- The threads write only what they were started for, and no running export is for a corpus that
failed to load. -/
structure ExportInv (p : Process F τ) : Prop where
  guard : GuardInv p.pool.shared
  writes : p.pool.OnlyCalls fun t => WritesWithin env (p.exports t)
  apart : ∀ t path, p.pool.Running t → p.exports t = some path →
    ∀ corpus ∈ p.pool.shared.failedLoads, ¬ Hits env path corpus

omit [DecidableEq F] [DecidableEq τ] in
theorem exportInv_init (files : F → Option String) : ExportInv env (.init files : Process F τ) where
  guard := ⟨fun _ => rfl, fun corpus h => by cases h⟩
  writes := fun t prog h => by cases h
  apart := fun t path h => by obtain ⟨o, k, h⟩ := h; cases h

theorem exportInv_command {p q : Process F τ} {t : τ} {c : Command} (hp : ExportInv env p)
    (hcond : ExportsApart env p (.command t c)) (h : processStep env rt p (.command t c) q) :
    ExportInv env q := by
  obtain ⟨hfree, h⟩ := h
  cases hstart : c.start env rt p.pool.shared.builtin with
  | none =>
    rw [hstart] at h
    obtain rfl : q = p := h
    exact hp
  | some prog =>
    rw [hstart] at h
    obtain rfl : q = _ := h
    refine ⟨hp.guard, fun u prog' hu => ?_, fun u path hu hpath => ?_⟩
    · by_cases hut : u = t
      · subst hut
        rw [Pool.threads_spawn_self] at hu
        obtain rfl := Option.some.inj hu
        simp only [Function.update_self]
        exact start_onlyCalls rt hstart
      · rw [Pool.threads_spawn_of_ne hut] at hu
        simp only [Function.update_of_ne hut]
        exact hp.writes u prog' hu
    · by_cases hut : u = t
      · subst hut
        simp only [Function.update_self] at hpath
        refine apart_of_start rt hstart hpath (fun _ hc => (hp.guard.unloaded _ hc).1) ?_
        cases c with
        | exportCorpus config target =>
          obtain rfl := Option.some.inj hpath
          exact hcond
        | _ => cases hpath
      · simp only [Function.update_of_ne hut] at hpath
        exact hp.apart u path (Pool.running_of_spawn hut hu) hpath

theorem exportInv_op {p q : Process F τ} {t : τ} {o : ProcessOp} {a : o.Ans} (hp : ExportInv env p)
    (hcond : ExportsApart env p (.op t o a)) (h : processStep env rt p (.op t o a) q) :
    ExportInv env q := by
  obtain ⟨hop, hexports⟩ := h
  have hsem : processSem env p.pool.shared o a q.pool.shared := by
    obtain ⟨k, -, hsem, -⟩ := hop
    exact hsem
  refine ⟨guardInv_processSem env hp.guard hsem, ?_, fun u path hu hpath corpus hcorpus => ?_⟩
  · rw [hexports]
    exact Pool.onlyCalls_opStep hp.writes hop
  · rw [hexports] at hpath
    have hrunning : p.pool.Running u := hop.running_of hu
    by_cases ho : ∃ corpus, o = .endpoint corpus
    · obtain ⟨loaded, rfl⟩ := ho
      obtain ⟨started, answer, builtin, -, hshared⟩ := hsem
      rw [hshared] at hcorpus
      simp only at hcorpus
      split_ifs at hcorpus with hfailed
      · rcases List.mem_cons.1 hcorpus with rfl | hcorpus
        · exact hcond hfailed u path hrunning hpath
        · exact hp.apart u path hrunning hpath corpus hcorpus
      · exact hp.apart u path hrunning hpath corpus hcorpus
    · obtain ⟨files, hshared, -⟩ := processSem_frame env hsem (not_exists.1 ho)
      rw [hshared] at hcorpus
      exact hp.apart u path hrunning hpath corpus hcorpus

theorem exportInv_step {p q : Process F τ} {l : ProcessLabel τ} (hp : ExportInv env p)
    (h : restrict (processStep env rt) (ExportsApart env) p l q) : ExportInv env q := by
  cases l with
  | command t c => exact exportInv_command env rt hp h.1 h.2
  | op t o a => exact exportInv_op env rt hp h.1 h.2

/-- A step leaves the file of a corpus that failed to load, and remembers that it failed. -/
theorem corpusFile_step {p q : Process F τ} {l : ProcessLabel τ} (hp : ExportInv env p)
    (h : processStep env rt p l q) {corpus : String} (hcorpus : corpus ∈ p.pool.shared.failedLoads) :
    q.pool.shared.files (corpusFile env corpus) = p.pool.shared.files (corpusFile env corpus) ∧
      corpus ∈ q.pool.shared.failedLoads := by
  cases l with
  | command t c =>
    obtain ⟨-, h⟩ := h
    cases hstart : c.start env rt p.pool.shared.builtin with
    | none =>
      rw [hstart] at h
      obtain rfl : q = p := h
      exact ⟨rfl, hcorpus⟩
    | some prog =>
      rw [hstart] at h
      obtain rfl : q = _ := h
      exact ⟨rfl, hcorpus⟩
  | op t o a =>
    obtain ⟨hop, -⟩ := h
    have hwrites : WritesWithin env (p.exports t) o := Pool.onlyCalls_op hp.writes hop
    have hkept : corpusFile env corpus ∉ o.written env := by
      intro hf
      obtain ⟨path, hpath, hfile⟩ := hwrites _ hf
      exact hp.apart t path hop.running hpath corpus hcorpus hfile
    obtain ⟨k, -, hsem, -⟩ := hop
    refine ⟨files_processSem env hsem hkept, ?_⟩
    by_cases ho : ∃ corpus, o = .endpoint corpus
    · obtain ⟨loaded, rfl⟩ := ho
      obtain ⟨started, answer, builtin, -, hshared⟩ := hsem
      rw [hshared]
      simp only
      split_ifs
      · exact List.mem_cons_of_mem _ hcorpus
      · exact hcorpus
    · obtain ⟨files, hshared, -⟩ := processSem_frame env hsem (not_exists.1 ho)
      rw [hshared]
      exact hcorpus

/-- A corpus that could not be loaded is never replaced in a run that keeps exports apart from it. -/
theorem keepsFailedCorpus :
    KeepsFailedCorpus env (restrict (processStep (τ := τ) env rt) (ExportsApart env)) := by
  intro files tr p tr' q corpus hrun hcorpus hrun'
  have hp : ExportInv env p :=
    hrun.invariant (fun _ _ _ => exportInv_step env rt) (exportInv_init env files)
  clear hrun
  induction hrun' with
  | refl => rfl
  | cons h _ ih =>
    obtain ⟨hfile, hfailed⟩ := corpusFile_step env rt hp h.2 hcorpus
    rw [ih hfailed (exportInv_step env rt hp h), hfile]

end Process

/-! ## A corpus that could not be loaded -/

/-- A file system in which every path is its own file. -/
def plainEnv : FileEnv (List Char) where
  cwd := "/".toList
  home := "/root".toList
  homeOf := fun _ => none
  file := id
  dumps := fun _ => "{}"

def corpusConfig : ProviderConfig := { builtinCorpus := "/corpus.json" }

def corpusPath : List Char := "/corpus.json".toList

def loopbackEndpoint : Endpoint := ⟨"http://127.0.0.1:8000/", "token"⟩

def loopbackClient : McritClient := ⟨"http://127.0.0.1:8000/", some "token", none, none⟩

theorem clientFor_loopback : clientFor (withEndpoint corpusConfig loopbackEndpoint) =
    .ok loopbackClient := by
  decide

theorem exec_attempt {α : Type} {o : ProcessOp} {result : o.Ans → Except PyError α} {a : o.Ans}
    (value : α) (h : result a = .ok value) : Exec (attempt o result) [⟨o, a⟩] (.returned value) := by
  refine .call (I := ProcessI) a ?_
  rw [h]
  exact .ret value

theorem exec_reports {α : Type} {p : ProcessProg α} {tr : List (Event ProcessI)} {a : α}
    (h : Exec p tr (.returned a)) : Exec (reports p) tr (.returned true) := by
  have hbind := h.bind (f := fun _ => (Prog.ret true : ProcessProg Bool)) (.ret true)
  rw [List.append_nil] at hbind
  exact hbind.tryCatch_returned

theorem exec_resolvedClient (loadFailed : Bool) : Exec (resolvedClient corpusConfig)
    [⟨.endpoint "/corpus.json", ⟨.ok loopbackEndpoint, loadFailed⟩⟩] (.returned loopbackClient) := by
  have hbuiltin : isBuiltin corpusConfig.server = true := by decide
  unfold resolvedClient
  rw [resolve_builtin hbuiltin, bind_assoc]
  refine (exec_attempt loopbackEndpoint rfl).bind ?_
  simp only [pure_eq_ret, ret_bind, clientFor_loopback]
  exact .ret _

/-- A connection check whose `resolve` finds the server started. -/
theorem exec_checkConnection (loadFailed : Bool) : Exec (checkConnection corpusConfig)
    [⟨.endpoint "/corpus.json", ⟨.ok loopbackEndpoint, loadFailed⟩⟩,
      ⟨.getVersion loopbackClient, Except.ok "1.16"⟩] (.returned true) :=
  exec_reports ((exec_resolvedClient loadFailed).bind (exec_attempt "1.16" rfl))

/-- An export command, whose `resolve` may start the server. -/
theorem exec_exportCorpus (loadFailed : Bool) {target aside : List Char}
    (haside : withNameSuffix target ".partial".toList = some aside) (htext : pathText target = target) :
    Exec (exportCorpus corpusConfig target)
      [⟨.endpoint "/corpus.json", ⟨.ok loopbackEndpoint, loadFailed⟩⟩,
        ⟨.exportCorpus loopbackClient, Except.ok Json.null⟩, ⟨.writeText aside .null, Except.ok ()⟩,
        ⟨.replace aside target, Except.ok ()⟩] (.returned true) := by
  have hfile : Exec (exportFile loopbackClient target)
      [⟨.exportCorpus loopbackClient, Except.ok Json.null⟩, ⟨.writeText aside .null, Except.ok ()⟩,
        ⟨.replace aside target, Except.ok ()⟩] (.returned Json.null) := by
    unfold exportFile
    rw [haside, htext]
    exact (exec_attempt Json.null rfl).bind ((exec_attempt () rfl).bind ((exec_attempt () rfl).bind
      (.ret _)))
  exact exec_reports ((exec_resolvedClient loadFailed).bind hfile)

def corpusFiles : List Char → Option String := fun f =>
  if f = corpusPath then some "corpus" else none

abbrev commandRuntime : Runtime := ⟨fun _ => none, fun _ => ""⟩

/-- Where an export goes that is not for the corpus. -/
def otherPath : List Char := "/other.json".toList

/-- The server runs without its corpus. -/
def failedShared : Shared (List Char) := ⟨⟨some loopbackEndpoint, "/corpus.json"⟩, ["/corpus.json"], corpusFiles⟩

/-- The step of the process as the exports are kept apart from the corpus. -/
abbrev apartStep : Process (List Char) ℕ → ProcessLabel ℕ → Process (List Char) ℕ → Prop :=
  restrict (processStep plainEnv commandRuntime) (ExportsApart plainEnv)

/-- A connection check starts the server, which cannot load the corpus. -/
theorem steps_checkConnection : ∃ tr p, Steps apartStep (.init corpusFiles) tr p ∧
    p.pool.shared = failedShared ∧ ∀ t, t ≠ 0 → p.pool.threads t = none := by
  let p₀ : Process (List Char) ℕ := .init corpusFiles
  let p₁ : Process (List Char) ℕ :=
    ⟨p₀.pool.spawn 0 (checkConnection corpusConfig), Function.update p₀.exports 0 none⟩
  have hexports : p₁.exports = p₀.exports := Function.update_eq_self 0 p₀.exports
  obtain ⟨pool, prog, hop, hshared, -, -⟩ := Pool.exists_opStep (processSem plainEnv)
    (Pool.threads_spawn_self p₀.pool 0 _) (exec_checkConnection true) ⟨.ok loopbackEndpoint, false, _, rfl, rfl⟩
  have hcommand : apartStep p₀ (.command 0 (.checkConnection corpusConfig)) p₁ := ⟨trivial, rfl, rfl⟩
  have hload : apartStep p₁ (.op 0 (.endpoint "/corpus.json") ⟨.ok loopbackEndpoint, true⟩) ⟨pool, p₁.exports⟩ := by
    refine ⟨?_, hop, rfl⟩
    intro _ t path _ ht
    rw [hexports] at ht
    cases ht
  refine ⟨_, _, .cons hcommand (.single hload), hshared, fun t ht => ?_⟩
  rw [hop.threads_of_ne ht]
  exact Pool.threads_spawn_of_ne ht ..

/-- An export of the corpus is refused, and another one done. -/
theorem steps_exports {p : Process (List Char) ℕ} (hshared : p.pool.shared = failedShared)
    (hfree : ∀ t, t ≠ 0 → p.pool.threads t = none) :
    ∃ tr q, Steps apartStep p (.command 1 (.exportCorpus corpusConfig corpusPath) ::
      .command 2 (.exportCorpus corpusConfig otherPath) :: tr) q ∧
        q.pool.shared.files otherPath = some "{}" := by
  let p₁ : Process (List Char) ℕ :=
    ⟨p.pool.spawn 2 (exportCorpus corpusConfig otherPath), Function.update p.exports 2 (some otherPath)⟩
  have haside : withNameSuffix otherPath ".partial".toList =
      some (otherPath ++ ".partial".toList) := by decide
  have hrefused : apartStep p (.command 1 (.exportCorpus corpusConfig corpusPath)) p := by
    refine ⟨?_, hfree 1 (by decide), ?_⟩
    · intro corpus hcorpus _
      rw [hshared] at hcorpus
      rw [List.mem_singleton.1 hcorpus]
      decide
    · rw [hshared]
      rfl
  have hpassed : apartStep p (.command 2 (.exportCorpus corpusConfig otherPath)) p₁ := by
    refine ⟨?_, hfree 2 (by decide), ?_⟩
    · intro corpus hcorpus hhits
      rw [hshared] at hcorpus
      rw [List.mem_singleton.1 hcorpus] at hhits
      exact absurd hhits (by unfold Hits; decide)
    · rw [hshared]
      rfl
  -- The four operations of the export, which finds the server started.
  obtain ⟨q₁, prog₁, hop₁, hs₁, ht₁, hexec₁⟩ := Pool.exists_opStep (processSem plainEnv)
    (Pool.threads_spawn_self p.pool 2 _) (exec_exportCorpus false haside (by decide))
    ⟨.ok loopbackEndpoint, true, p.pool.shared.builtin, by rw [Pool.shared_spawn, hshared]; rfl, rfl⟩
  obtain ⟨q₂, prog₂, hop₂, hs₂, ht₂, hexec₂⟩ := Pool.exists_opStep (processSem plainEnv) ht₁ hexec₁
    (show processSem plainEnv q₁.shared (.exportCorpus loopbackClient) _ q₁.shared from rfl)
  obtain ⟨q₃, prog₃, hop₃, hs₃, ht₃, hexec₃⟩ :=
    Pool.exists_opStep (processSem plainEnv) ht₂ hexec₂ rfl
  obtain ⟨q₄, prog₄, hop₄, hs₄, -, -⟩ :=
    Pool.exists_opStep (processSem plainEnv) ht₃ hexec₃ rfl
  have hstarted : apartStep p₁ (.op 2 (.endpoint "/corpus.json") ⟨.ok loopbackEndpoint, false⟩) ⟨q₁, p₁.exports⟩ :=
    ⟨fun h => (by cases h), hop₁, rfl⟩
  have hdata : apartStep ⟨q₁, p₁.exports⟩ (.op 2 (.exportCorpus loopbackClient) (.ok .null)) ⟨q₂, p₁.exports⟩ :=
    ⟨trivial, hop₂, rfl⟩
  have haside : apartStep ⟨q₂, p₁.exports⟩ (.op 2 (.writeText (otherPath ++ ".partial".toList) .null) (.ok ()))
      ⟨q₃, p₁.exports⟩ := ⟨trivial, hop₃, rfl⟩
  have hreplaced : apartStep ⟨q₃, p₁.exports⟩ (.op 2 (.replace (otherPath ++ ".partial".toList) otherPath) (.ok ()))
      ⟨q₄, p₁.exports⟩ := ⟨trivial, hop₄, rfl⟩
  refine ⟨_, _, .cons hrefused (.cons hpassed (.cons hstarted (.cons hdata (.cons haside (.single hreplaced))))), ?_⟩
  show q₄.shared.files otherPath = _
  rw [hs₄, hs₃]
  rfl

/-- The file of the corpus outlasts both exports. -/
theorem keepsFailedCorpus_refused : ∃ tr p tr' q, Steps apartStep (.init corpusFiles) tr p ∧
    p.pool.shared = failedShared ∧
    Steps apartStep p (.command 1 (.exportCorpus corpusConfig corpusPath) ::
      .command 2 (.exportCorpus corpusConfig otherPath) :: tr') q ∧
    q.pool.shared.files otherPath = some "{}" ∧ q.pool.shared.files corpusPath = some "corpus" := by
  obtain ⟨tr, p, hrun, hshared, hfree⟩ := steps_checkConnection
  obtain ⟨tr', q, hrun', hother⟩ := steps_exports hshared hfree
  refine ⟨tr, p, tr', q, hrun, hshared, hrun', hother, ?_⟩
  have hkept := keepsFailedCorpus plainEnv commandRuntime corpusFiles tr p _ q "/corpus.json" hrun
    (by rw [hshared]; exact List.mem_singleton_self _) hrun'
  rw [hshared] at hkept
  exact hkept

/-! ## An export issued before the server started -/

theorem start_exportCorpus (rt : Runtime) :
    (Command.exportCorpus corpusConfig corpusPath).start plainEnv rt {} =
      some (exportCorpus corpusConfig corpusPath) := by
  have hguard : isBuiltin corpusConfig.server = true ∧ corpusPath ≠ [] ∧
      ¬ sameFile plainEnv corpusPath ("" : String).toList = true := by decide
  unfold Command.start
  exact if_pos hguard

/-- An export command issued first, whose own start of the server fails to load the corpus, replaces
the corpus. -/
theorem not_keepsFailedCorpus :
    ¬ KeepsFailedCorpus plainEnv
      (processStep (τ := ℕ) plainEnv ⟨fun _ => none, fun _ => ""⟩) := by
  intro hkeeps
  have haside : withNameSuffix corpusPath ".partial".toList =
      some (corpusPath ++ ".partial".toList) := by decide
  let p₀ : Process (List Char) ℕ := .init corpusFiles
  let pool := p₀.pool.spawn 0 (exportCorpus corpusConfig corpusPath)
  let exports := Function.update p₀.exports 0 (some corpusPath)
  have hcommand : processStep plainEnv ⟨fun _ => none, fun _ => ""⟩ p₀
      (.command 0 (.exportCorpus corpusConfig corpusPath)) ⟨pool, exports⟩ := by
    refine ⟨rfl, ?_⟩
    rw [show p₀.pool.shared.builtin = {} from rfl, start_exportCorpus]
    rfl
  -- The four operations of the export, the load among them.
  obtain ⟨q₁, prog₁, hop₁, hs₁, ht₁, hexec₁⟩ := Pool.exists_opStep (processSem plainEnv)
    (Pool.threads_spawn_self p₀.pool 0 _) (exec_exportCorpus true haside (by decide))
    ⟨.ok loopbackEndpoint, false, _, rfl, rfl⟩
  obtain ⟨q₂, prog₂, hop₂, hs₂, ht₂, hexec₂⟩ := Pool.exists_opStep (processSem plainEnv) ht₁ hexec₁
    (show processSem plainEnv q₁.shared (.exportCorpus loopbackClient) _ q₁.shared from rfl)
  obtain ⟨q₃, prog₃, hop₃, hs₃, ht₃, hexec₃⟩ :=
    Pool.exists_opStep (processSem plainEnv) ht₂ hexec₂ rfl
  obtain ⟨q₄, prog₄, hop₄, hs₄, -, -⟩ :=
    Pool.exists_opStep (processSem plainEnv) ht₃ hexec₃ rfl
  have hop : ∀ {q q' o a}, Pool.OpStep (processSem plainEnv) q 0 o a q' →
      processStep plainEnv ⟨fun _ => none, fun _ => ""⟩ ⟨q, exports⟩ (.op 0 o a) ⟨q', exports⟩ :=
    fun h => ⟨h, rfl⟩
  have hrun := Steps.cons hcommand (.single (hop hop₁))
  have hrun' := Steps.cons (hop hop₂) (.cons (hop hop₃) (.single (hop hop₄)))
  have hkept := hkeeps corpusFiles _ _ _ _ "/corpus.json" hrun (by rw [hs₁]; exact List.mem_singleton_self _) hrun'
  rw [hs₄, hs₃, hs₂, hs₁] at hkept
  exact absurd hkept (by decide)

end McritSimilarity
