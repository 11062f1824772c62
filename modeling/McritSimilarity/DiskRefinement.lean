import Mathlib.Data.Prod.Lex
import Mathlib.Data.String.Basic
import McritSimilarity.AtomicStores
import McritSimilarity.ReportTable

/-!
# The report folder on disk

The calls of `diskcache` on files with modification times, on a disk on which any operation may fail.
`diskRefinesTable` is that they are the calls of the table of the report files, and `diskStaysBounded` that they keep
the folder within its caps.
-/

set_option autoImplicit false

namespace McritSimilarity

open Python Prog TimedFiles

abbrev ReportDisk := TimedFiles String

abbrev DiskSem (faults : Set FileFault) :
    ReportDisk → (o : FileOp String) → Except FileError o.Res → ReportDisk → Prop :=
  TimedFiles.Sem IsTempName faults

/-- The report files of a disk. -/
def reportTable (s : ReportDisk) : ReportTable := fun name => if endsWith name reportSuffix then s.file? name else none

/-- The reports are as before. -/
structure KeepsReports (s t : ReportDisk) : Prop where
  wellTimed : t.WellTimed
  table : reportTable t = reportTable s

theorem endsWith_reportPath (version sha256 : String) : endsWith (reportPath version sha256) reportSuffix = true := by
  refine List.isSuffixOf_iff_suffix.2 ⟨(sha256 ++ "-v" ++ toString formatVersion ++ "-smda" ++
    smdaVersion version).toList, ?_⟩
  rw [← String.toList_append]
  rfl

theorem endsWith_report_of_tmp {name : String} (h : endsWith name ".tmp" = true) :
    endsWith name reportSuffix = false := by
  rw [← Bool.not_eq_true]
  intro hsuffix
  rw [endsWith_tmp_of_report hsuffix] at h
  cases h

theorem endsWith_tmp_of_temp {name : String} (h : IsTempName name) : endsWith name ".tmp" = true := by
  obtain ⟨middle, rfl⟩ := h
  refine List.isSuffixOf_iff_suffix.2 ⟨("." ++ middle).toList, ?_⟩
  rw [← String.toList_append]

section Table

variable {faults : Set FileFault} {s t u : ReportDisk} {name : String}

theorem reportTable_of_report (h : endsWith name reportSuffix = true) : reportTable s name = s.file? name := if_pos h

theorem reportTable_path (version sha256 : String) :
    reportTable s (reportPath version sha256) = s.file? (reportPath version sha256) :=
  reportTable_of_report (endsWith_reportPath version sha256)

theorem reportTable_eq_some {e : List UInt8 × ℚ} :
    reportTable s name = some e ↔ endsWith name reportSuffix = true ∧ s.file? name = some e := by
  unfold reportTable
  split_ifs with h <;> simp [h]

/-- A name whose file changes, while the other names show what they showed. -/
theorem reportTable_congr (hname : endsWith name reportSuffix = false)
    (hothers : ∀ other ≠ name, t.file? other = s.file? other) : reportTable t = reportTable s := by
  funext other
  unfold reportTable
  split_ifs with h
  · refine hothers other ?_
    rintro rfl
    exact absurd h (by rw [hname]; exact Bool.false_ne_true)
  · rfl

theorem reportTable_put {content : List UInt8} {time : ℚ} (hname : endsWith name reportSuffix = true)
    (hentry : t.file? name = some (content, time)) (hothers : ∀ other ≠ name, t.file? other = s.file? other) :
    reportTable t = (reportTable s).put name content time := by
  funext other
  by_cases h : other = name
  · subst h
    rw [reportTable_of_report hname, hentry, ReportTable.put_self]
  · rw [ReportTable.put_of_ne h]
    unfold reportTable
    rw [hothers other h]

theorem KeepsReports.trans (h : KeepsReports s t) (h' : KeepsReports t u) : KeepsReports s u :=
  ⟨h'.wellTimed, h'.table.trans h.table⟩

theorem keepsReports_same (h : s.Same t) (ht : t.WellTimed) : KeepsReports s t :=
  ⟨ht, funext fun name => by unfold reportTable; rw [h.file? name]⟩

theorem keepsReports_look {o : FileOp String} {a : Except FileError o.Res} (hs : s.WellTimed)
    (h : DiskSem faults s o a t) (ho : Looks o) : KeepsReports s t :=
  keepsReports_same (h.same ho) (hs.sem h)

theorem newest_of_passes (hs : s.WellTimed) {time : ℚ} (h : Passes faults s.clock time) :
    (reportTable s).Newest faults time :=
  fun _ _ he => .of_le (hs.time_le (reportTable_eq_some.1 he).2) h

theorem drops_unlink {a : Except FileError Unit} (h : DiskSem faults s (.unlink name) a t) :
    ReportTable.Drops faults [name] (reportTable s) (reportTable t) := by
  obtain ⟨hgone, hothers⟩ := h.unlink
  refine ⟨fun other hother => ?_, fun other hother => ?_⟩
  · unfold reportTable
    rw [hothers other fun heq => hother (List.mem_singleton.2 heq)]
  · obtain rfl := List.mem_singleton.1 hother
    unfold reportTable
    split_ifs
    · exact hgone
    · exact .inl rfl

theorem ensures_diskOp {o : FileOp String} {post : Outcome PyError o.Res → ReportDisk → Prop}
    (h : ∀ a t, DiskSem faults s o a t → (∀ r, a = .ok r → post (.returned r) t) ∧
      ∀ e, a = .error e → post (.raised .osError) t) : (diskOp o).Ensures (DiskSem faults) post s :=
  FileOp.ensures_orRaise h

end Table

/-! ## Pruning -/

section Prune

variable {faults : Set FileFault} {s₀ s : ReportDisk}

/-- The entries that the scan returns for some names. -/
structure Scans (faults : Set FileFault) (T : ReportTable) (names : List String) (entries : List PruneEntry) :
    Prop where
  sublist : (entries.map fun e => e.2.2).Sublist names
  there : ∀ e ∈ entries, T.scanned? e.2.2 = some e
  all : .list ∉ faults → ∀ name ∈ names, ∀ e, T.scanned? name = some e → e ∈ entries

variable {T : ReportTable} {name : String} {names : List String} {entries : List PruneEntry}

theorem Scans.skip (h : Scans faults T names entries) (hname : T name = none ∨ .list ∈ faults) :
    Scans faults T (name :: names) entries := by
  refine ⟨h.sublist.cons name, h.there, fun hlist other hother e he => ?_⟩
  rcases List.mem_cons.1 hother with rfl | hmem
  · rw [ReportTable.scanned?, hname.resolve_right hlist, Option.map_none] at he
    cases he
  · exact h.all hlist other hmem e he

theorem Scans.cons (h : Scans faults T names entries) {e : List UInt8 × ℚ} (he : T name = some e) :
    Scans faults T (name :: names) ((e.2, e.1.length, name) :: entries) := by
  have hentry : T.scanned? name = some (e.2, e.1.length, name) := by rw [ReportTable.scanned?, he, Option.map_some]
  refine ⟨h.sublist.cons_cons name, fun x hx => ?_, fun hlist other hother x hx => ?_⟩
  · rcases List.mem_cons.1 hx with rfl | hmem
    · exact hentry
    · exact h.there x hmem
  · rcases List.mem_cons.1 hother with rfl | hmem
    · obtain rfl := Option.some.inj (hentry.symm.trans hx)
      exact List.mem_cons_self ..
    · exact List.mem_cons_of_mem _ (h.all hlist other hmem x hx)

/-- The scan lists the reports and leaves them as they are. -/
theorem ensures_pruneScan (now : ℚ) (names : List String) (hs : KeepsReports s₀ s) :
    (pruneScan now names).Ensures (DiskSem faults) (fun out t => KeepsReports s₀ t ∧
      ∃ entries, out = .returned entries ∧ Scans faults (reportTable s₀) names entries) s := by
  induction names generalizing s with
  | nil => exact ⟨hs, [], rfl, List.Sublist.refl _, nofun, nofun⟩
  | cons name names ih =>
    intro a t hstat
    have ht := hs.trans (keepsReports_look hs.wellTimed hstat trivial)
    have hskip : (reportTable s₀ name = none ∨ .list ∈ faults) → ∀ {u}, KeepsReports s₀ u →
        (pruneScan now names).Ensures (DiskSem faults) (fun out t => KeepsReports s₀ t ∧
          ∃ entries, out = .returned entries ∧ Scans faults (reportTable s₀) (name :: names) entries) u := by
      intro hname u hu
      refine (ih hu).mono ?_
      rintro out v ⟨hv, entries, rfl, hscans⟩
      exact ⟨hv, entries, rfl, hscans.skip hname⟩
    rcases hstat.stat with ⟨e, rfl, hnone⟩ | ⟨e, he, rfl⟩
    · refine hskip (hnone.imp_left fun hnone => ?_) ht
      rw [← hs.table, reportTable, hnone, ite_self]
    · change Ensures (DiskSem faults) _ (if endsWith name ".tmp" then _ else _ : DiskProg _) t
      by_cases htmp : endsWith name ".tmp" = true
      · have hother : reportTable s₀ name = none := by simp [reportTable, endsWith_report_of_tmp htmp]
        rw [if_pos htmp]
        dsimp only
        split_ifs
        · -- A stale temporary file is no report.
          intro b u hunlink
          refine hskip (.inl hother) (ht.trans ⟨ht.wellTimed.sem hunlink, ?_⟩)
          exact reportTable_congr (endsWith_report_of_tmp htmp) hunlink.unlink.2
        · exact hskip (.inl hother) ht
      · rw [if_neg htmp]
        by_cases hsuffix : endsWith name reportSuffix = true
        · rw [if_pos hsuffix]
          refine Ensures.bind ((ih ht).mono ?_)
          rintro out u ⟨hu, entries, rfl, hscans⟩
          exact ⟨hu, _, rfl, hscans.cons (by rw [← hs.table, reportTable_of_report hsuffix, he])⟩
        · rw [if_neg hsuffix]
          exact hskip (.inl (if_neg hsuffix)) ht

/-! ### The order of the reports -/

theorem entryLe_iff (a b : PruneEntry) :
    entryLe a b ↔ toLex (a.1, toLex (a.2.1, a.2.2)) ≤ toLex (b.1, toLex (b.2.1, b.2.2)) := by
  rw [Prod.Lex.toLex_le_toLex, Prod.Lex.toLex_le_toLex]
  rfl

instance : Std.Total entryLe where
  total a b := by
    simp only [entryLe_iff]
    exact le_total _ _

instance : IsTrans PruneEntry entryLe where
  trans a b c := by
    simp only [entryLe_iff]
    exact le_trans

/-- The sorted entries of all names list the table. -/
theorem Scans.lists (h : Scans faults T names entries) (hnodup : names.Nodup)
    (hall : ∀ name e, T name = some e → name ∈ names) : T.Lists faults (entries.insertionSort entryLe) := by
  have hperm := List.perm_insertionSort entryLe entries
  refine ⟨List.pairwise_insertionSort .., ?_, fun e he => h.there e (hperm.mem_iff.1 he), fun hlist name e he => ?_⟩
  · exact (hperm.map _).nodup_iff.2 (hnodup.sublist h.sublist)
  · obtain ⟨file, hfile, -⟩ := Option.map_eq_some_iff.1 he
    exact hperm.mem_iff.2 (h.all hlist name (hall name file hfile) e he)

/-! ### The whole call -/

/-- Every file is removed, or still there. -/
theorem ensures_unlinkAll (gone : List PruneEntry) (hs : s.WellTimed) :
    (unlinkAll gone).Ensures (DiskSem faults) (fun out t => out = .returned () ∧ t.WellTimed ∧
      (reportTable s).Drops faults (gone.map fun e => e.2.2) (reportTable t)) s := by
  induction gone generalizing s with
  | nil => exact ⟨rfl, hs, fun _ _ => rfl, nofun⟩
  | cons e gone ih =>
    intro a t hunlink
    refine (ih (hs.sem hunlink)).mono ?_
    rintro out u ⟨rfl, hu, hdrops⟩
    exact ⟨rfl, hu, (drops_unlink hunlink).cons hdrops⟩

/-- What `prune` may end with: the reports are pruned, or they could not be listed. -/
def PrunesReports (faults : Set FileFault) (keep : Option String) (maxBytes maxFiles : ℤ) (T : ReportTable)
    (out : Outcome PyError Unit) (t : ReportDisk) : Prop :=
  t.WellTimed ∧ (out = .returned () ∧ T.Prunes faults keep maxBytes maxFiles (reportTable t) ∨
    out = .raised .osError ∧ .list ∈ faults ∧ reportTable t = T)

theorem ensures_pruneFolder (hs : s.WellTimed) (keep : Option String) (maxBytes maxFiles : ℤ) (now : ℚ) :
    (pruneFolder keep maxBytes maxFiles now).Ensures (DiskSem faults)
      (PrunesReports faults keep maxBytes maxFiles (reportTable s)) s := by
  refine Ensures.bind (ensures_diskOp fun a t hscandir => ?_)
  have ht := keepsReports_look hs hscandir trivial
  rcases hscandir.scandir with ⟨rfl, hfault⟩ | ⟨names, rfl, hnodup, hnames⟩
  · exact ⟨nofun, fun _ _ => ⟨ht.wellTimed, .inr ⟨rfl, hfault, ht.table⟩⟩⟩
  · refine ⟨?_, nofun⟩
    rintro _ ⟨⟩
    refine Ensures.bind ((ensures_pruneScan now names ht).mono ?_)
    rintro out u ⟨hu, entries, rfl, hscans⟩
    have hlists := hscans.lists hnodup fun name e he => (hnames name).2 ⟨e, (reportTable_eq_some.1 he).2⟩
    have hperm := List.perm_insertionSort entryLe entries
    have hsum := (hperm.map fun e => (e.2.1 : ℤ)).sum_eq
    have hlength := hperm.length_eq
    show Ensures (DiskSem faults) _ (pruneOldest ..) u
    rw [pruneOldest_eq, ← hsum, ← hlength]
    refine (ensures_unlinkAll _ hu.wellTimed).mono ?_
    rintro out v ⟨rfl, hv, hdrops⟩
    exact ⟨hv, .inl ⟨rfl, _, hlists, hu.table ▸ hdrops⟩⟩

end Prune

/-! ## Loading -/

section Load

variable {R : Type} {codec : ReportCodec R} {faults : Set FileFault} {s : ReportDisk}

/-- The whole file is read, or a read fails; nothing changes. -/
def ReadsWhole (faults : Set FileFault) (s : ReportDisk) (fd file : ℕ) (out : Outcome PyError (List UInt8))
    (t : ReportDisk) : Prop :=
  s.Same t ∧ t.WellTimed ∧ ((out = .returned (s.files.content file) ∧
    ∃ position, t.files.handles fd = some ⟨file, position, false⟩) ∨ .read ∈ faults ∧ ∃ e, out = .raised e)

theorem ensures_readAll (fuel : ℕ) {fd file : ℕ} {done : List UInt8} (hs : s.WellTimed)
    (hfd : s.files.handles fd = some ⟨file, done.length, false⟩) (hdone : done <+: s.files.content file) :
    (readAll fd fuel done).Ensures (DiskSem faults) (ReadsWhole faults s fd file) s := by
  induction fuel generalizing done s with
  | zero => trivial
  | succ fuel ih =>
    refine Ensures.bind (ensures_diskOp fun a t hread => ?_)
    have hsame := hread.same trivial
    have ht := hs.sem hread
    rcases hread.read hfd with ⟨rfl, hfault⟩ | ⟨bytes, rfl, ⟨hbytes, hend⟩, hfd'⟩
    · exact ⟨nofun, fun e _ => ⟨hsame, ht, .inr ⟨hfault, _, rfl⟩⟩⟩
    obtain ⟨rest, hrest⟩ := hdone
    rw [← hrest, List.drop_left] at hbytes
    refine ⟨?_, nofun⟩
    rintro _ ⟨⟩
    show Ensures (DiskSem faults) _ (if bytes = [] then pure done else readAll fd fuel (done ++ bytes)) t
    split_ifs with hnil
    · have hle : done.length + rest.length ≤ done.length := by
        rw [← List.length_append, hrest]
        exact hend hnil
      have hrestnil : rest = [] := List.length_eq_zero_iff.1 (by omega)
      rw [hrestnil, List.append_nil] at hrest
      exact ⟨hsame, ht, .inl ⟨by rw [hrest], _, hfd'⟩⟩
    · refine (ih ht (by rw [List.length_append]; exact hfd') ?_).mono ?_
      · rw [hsame.content, ← hrest]
        exact (List.prefix_append_right_inj _).2 hbytes
      · rintro out u ⟨hsame', hu, hout⟩
        rw [hsame.content] at hout
        exact ⟨hsame.trans hsame', hu, hout⟩

/-- Every read but the last one brings a byte. -/
theorem halts_readAll {fd file fuel : ℕ} {done : List UInt8} (hs : s.WellTimed)
    (hfd : s.files.handles fd = some ⟨file, done.length, false⟩) (hdone : done <+: s.files.content file)
    (hfuel : (s.files.content file).length < fuel + done.length) : (readAll fd fuel done).Halts (DiskSem faults) s := by
  induction fuel generalizing done s with
  | zero =>
    have hle := hdone.length_le
    omega
  | succ fuel ih =>
    intro a t hread
    rcases hread.read hfd with ⟨rfl, -⟩ | ⟨bytes, rfl, ⟨hbytes, -⟩, hfd'⟩
    · trivial
    obtain ⟨rest, hrest⟩ := hdone
    rw [← hrest, List.drop_left] at hbytes
    have hsame := hread.same trivial
    show Halts (DiskSem faults) (if bytes = [] then pure done else readAll fd fuel (done ++ bytes)) t
    split_ifs with hnil
    · trivial
    · have hpos : 0 < bytes.length := List.length_pos_iff.2 hnil
      refine ih (hs.sem hread) (by rw [List.length_append]; exact hfd') ?_ ?_
      · rw [hsame.content, ← hrest]
        exact (List.prefix_append_right_inj _).2 hbytes
      · rw [hsame.content, List.length_append]
        omega

/-- How `load` ends. -/
def LoadsReport (codec : ReportCodec R) (faults : Set FileFault) (version sha256 : String) (T : ReportTable)
    (out : Outcome PyError (Option R)) (t : ReportDisk) : Prop :=
  ∃ report, out = .returned report ∧ t.WellTimed ∧ T.Loads codec faults version sha256 report (reportTable t)

variable {version sha256 : String}

/-- A file that cannot be used is removed, if that works. -/
theorem ensures_discardReport (hs : s.WellTimed)
    (hcontent : ∀ content time, reportTable s (reportPath version sha256) = some (content, time) →
      parseReport codec version sha256 content = none ∨ .read ∈ faults) :
    (discardReport (reportPath version sha256)).Ensures (DiskSem faults)
      (LoadsReport codec faults version sha256 (reportTable s)) s := by
  intro a t hunlink
  refine ⟨none, rfl, hs.sem hunlink, ?_⟩
  have hdrops := drops_unlink hunlink
  cases hfile : reportTable s (reportPath version sha256) with
  | some e => exact .unusable hfile (hcontent e.1 e.2 hfile) hdrops
  | none =>
    have hsame : reportTable t = reportTable s := funext fun name => by
      by_cases hname : name = reportPath version sha256
      · subst hname
        rcases hdrops.gone _ (List.mem_singleton_self _) with hnone | ⟨-, hkept⟩
        · rw [hnone, hfile]
        · exact hkept
      · exact hdrops.others name (by simpa using hname)
    rw [hsame]
    exact .missing hfile

/-- What `load` makes of the content of its file. -/
theorem ensures_useReport (hs : s.WellTimed) {content : List UInt8} {time : ℚ}
    (hfile : reportTable s (reportPath version sha256) = some (content, time)) :
    (useReport codec version sha256 content).Ensures (DiskSem faults)
      (LoadsReport codec faults version sha256 (reportTable s)) s := by
  unfold useReport
  cases hparse : parseReport codec version sha256 content with
  | none =>
    refine ensures_discardReport hs fun content' time' hfile' => .inl ?_
    cases hfile.symm.trans hfile'
    exact hparse
  | some report =>
    intro a t hutime
    have hentry : s.file? (reportPath version sha256) = some (content, time) := (reportTable_path ..).symm.trans hfile
    obtain ⟨htouched, hothers⟩ := hutime.utime hs hentry
    refine ⟨some report, rfl, hs.sem hutime, ?_⟩
    rcases htouched with htime | ⟨hfault, hkept⟩
    · rw [reportTable_put (endsWith_reportPath version sha256) htime hothers]
      exact .loaded hfile hparse (newest_of_passes hs hutime.ticks)
    · have hsame : reportTable t = reportTable s := funext fun name => by
        unfold reportTable
        by_cases hname : name = reportPath version sha256
        · rw [hname, hkept]
        · rw [hothers name hname]
      rw [hsame]
      exact .untouched hfile hparse hfault

theorem ensures_loadReport (hs : s.WellTimed) (fuel : ℕ) : (loadReport codec version sha256 fuel).Ensures
    (DiskSem faults) (LoadsReport codec faults version sha256 (reportTable s)) s := by
  intro a t hopen
  have hkept := keepsReports_look hs hopen trivial
  rw [← hkept.table]
  rcases hopen.openRead with ⟨rfl, hnone⟩ | ⟨rfl, hfault⟩ | ⟨file, fd, hname, rfl, hfd⟩
  · refine ⟨none, rfl, hkept.wellTimed, .missing ?_⟩
    rw [hkept.table, reportTable_path, hnone]
  · exact ensures_discardReport hkept.wellTimed fun _ _ _ => .inr hfault
  · refine Ensures.bind (Ensures.asExcept (Ensures.tryFinally
      ((ensures_readAll fuel hkept.wellTimed hfd List.nil_prefix).mono ?_)))
    rintro out u ⟨hread, hu, hout⟩
    have hdiscard : ∀ {v}, KeepsReports t v → .read ∈ faults →
        (discardReport (reportPath version sha256)).Ensures (DiskSem faults)
          (LoadsReport codec faults version sha256 (reportTable t)) v := by
      intro v hv hfault
      rw [← hv.table]
      exact ensures_discardReport hv.wellTimed fun _ _ _ => .inr hfault
    have hclosed : ∀ {b v}, DiskSem faults u (.close fd) b v → KeepsReports t v := fun hclose =>
      keepsReports_same (hread.trans (hclose.same trivial)) (hu.sem hclose)
    rcases hout with ⟨rfl, position, hfd'⟩ | ⟨hfault, e, rfl⟩
    · refine ensures_diskOp fun b v hclose => ?_
      have hv := hclosed hclose
      rcases hclose.closeRead hfd' rfl with ⟨rfl, hfault⟩ | rfl
      · exact ⟨nofun, fun _ _ => hdiscard hv hfault⟩
      · refine ⟨?_, nofun⟩
        rintro _ ⟨⟩
        have hentry : reportTable v (reportPath version sha256) = some (t.files.content file, t.modified file) := by
          rw [hv.table, reportTable_path]
          refine file?_of_name ?_
          rw [(hopen.same trivial).names]
          exact hname
        rw [← hv.table]
        exact ensures_useReport hv.wellTimed hentry
    · refine ensures_diskOp fun b v hclose => ⟨fun _ _ => ?_, fun _ _ => ?_⟩
      · exact hdiscard (hclosed hclose) hfault
      · exact hdiscard (hclosed hclose) hfault

theorem halts_loadReport (hs : s.WellTimed) {fuel : ℕ}
    (hfuel : ∀ e, reportTable s (reportPath version sha256) = some e → e.1.length < fuel) :
    (loadReport codec version sha256 fuel).Halts (DiskSem faults) s := by
  intro a t hopen
  have ht := hs.sem hopen
  rcases hopen.openRead with ⟨rfl, -⟩ | ⟨rfl, -⟩ | ⟨file, fd, hname, rfl, hfd⟩
  · trivial
  · exact fun _ _ _ => trivial
  · have hlength : (t.files.content file).length < fuel := by
      rw [(hopen.same trivial).content]
      refine hfuel (s.files.content file, s.modified file) ?_
      rw [reportTable_path]
      exact file?_of_name hname
    have hclose : ∀ u, (diskOp (.close fd) : DiskProg Unit).Halts (DiskSem faults) u := by
      rintro u (_ | _) v -
      · trivial
      · trivial
    refine Halts.bind ((halts_readAll ht hfd List.nil_prefix hlength).tryFinally hclose).asExcept ?_
    refine ensures_of_forall _ fun out u content _ => ?_
    cases content with
    | error e => exact fun _ _ _ => trivial
    | ok content =>
      show Halts (DiskSem faults) (useReport codec version sha256 content) u
      unfold useReport
      split
      · exact fun _ _ _ => trivial
      · exact fun _ _ _ => trivial

end Load

/-! ## Storing -/

section Store

variable {R : Type} {codec : ReportCodec R} {faults : Set FileFault} {s t : ReportDisk}

theorem keepsReports_written {temp : String} {part : List UInt8} (htemp : IsTempName temp)
    (h : Written faults s temp part t) : KeepsReports s t :=
  ⟨h.wellTimed, reportTable_congr (endsWith_report_of_tmp (endsWith_tmp_of_temp htemp)) h.others⟩

/-- The file of a report has been written, or the reports are as before. -/
def WritesReport (faults : Set FileFault) (failure : Option PyError) (s : ReportDisk) (path : String)
    (content : List UInt8) : Outcome PyError Bool → ReportDisk → Prop
  | .returned true, t => failure = none ∧ Written faults s path content t
  | .returned false, t => (.write ∈ faults ∨ failure = some .osError) ∧ KeepsReports s t
  | .raised e, t => failure = some e ∧ e ≠ .osError ∧ KeepsReports s t
  | .pending, _ => True

/-- After an error the temporary file is removed, if that works. -/
theorem ensures_giveUp {temp path : String} {part content : List UInt8} {failure : Option PyError} {e : PyError}
    (htemp : IsTempName temp) (he : FileOp.WriteRaises faults (fun _ => PyError.osError) failure e)
    (ht : Written faults s temp part t) :
    (do
      quietUnlink temp
      suppressOsError e
      return false : DiskProg Bool).Ensures (DiskSem faults) (WritesReport faults failure s path content) t := by
  intro a u hunlink
  have hkept := keepsReports_written htemp ht
  have hu : KeepsReports s u := hkept.trans ⟨ht.wellTimed.sem hunlink,
    reportTable_congr (endsWith_report_of_tmp (endsWith_tmp_of_temp htemp)) hunlink.unlink.2⟩
  show Ensures (DiskSem faults) _
    ((if e = .osError then pure () else Prog.raise e) >>= fun _ => pure false : DiskProg Bool) u
  split_ifs with hos
  · exact ⟨he.imp And.right fun hfailure => hos ▸ hfailure, hu⟩
  · exact ⟨he.resolve_left fun h => hos h.1, hos, hu⟩

theorem ensures_writeReport {version sha256 temp : String} {report : R} {fd : ℕ} (htemp : IsTempName temp)
    (hfree : s.file? temp = none) (ht : Writing faults s fd temp [] t) :
    (writeReport codec version sha256 report fd temp).Ensures (DiskSem faults)
      (WritesReport faults (codec.dump (reportDocument codec version sha256 report)).failure s
        (reportPath version sha256) (codec.dump (reportDocument codec version sha256 report)).pieces.flatten) t := by
  unfold writeReport
  generalize codec.dump (reportDocument codec version sha256 report) = dump
  have hne : temp ≠ reportPath version sha256 := fun heq => reportPath_not_temp version sha256 (heq ▸ htemp)
  refine Ensures.tryCatch (Ensures.bind ((FileOp.ensures_writeAndClose ht).mono ?_))
  rintro (_ | e | _) u hu
  · obtain ⟨hfailure, hwritten⟩ := hu
    obtain ⟨time, hentry, htime⟩ := hwritten.entry
    refine Ensures.bind (ensures_diskOp fun a v hreplace => ?_)
    have hv := hwritten.wellTimed.sem hreplace
    rcases hreplace.replace hentry with ⟨rfl, hfault, hsame⟩ | ⟨rfl, htarget, hsource, hothers⟩
    · exact ⟨nofun, fun _ _ => ensures_giveUp htemp (.inl ⟨rfl, hfault⟩) (hsame.written hv hwritten)⟩
    · refine ⟨fun _ _ => ⟨hfailure, hv, fun other hother => ?_, time, htarget, htime⟩, nofun⟩
      by_cases hname : other = temp
      · rw [hname, hsource hne, hfree]
      · exact (hothers other hname hother).trans (hwritten.others other hname)
  · obtain ⟨he, part, hpart⟩ := hu
    exact ensures_giveUp htemp he hpart
  · trivial

/-- How `store` ends. -/
def StoresReport (codec : ReportCodec R) (faults : Set FileFault) (version sha256 : String) (report : R)
    (T : ReportTable) : Outcome PyError Unit → ReportDisk → Prop
  | .returned _, t => t.WellTimed ∧ T.Stores codec faults version sha256 report (.returned none) (reportTable t)
  | .raised e, t => t.WellTimed ∧ T.Stores codec faults version sha256 report (.raised e) (reportTable t)
  | .pending, _ => True

theorem ensures_storeReport (hs : s.WellTimed) (version sha256 : String) (report : R) (now : ℚ) :
    (storeReport codec version sha256 report now).Ensures (DiskSem faults)
      (StoresReport codec faults version sha256 report (reportTable s)) s := by
  unfold storeReport
  refine Ensures.bind (Ensures.asExcept (Ensures.bind (ensures_diskOp fun a t hmkdir => ?_)))
  have ht := keepsReports_look hs hmkdir trivial
  have hunwritten : ∀ {u}, KeepsReports s u → .write ∈ faults ∨
      (codec.dump (reportDocument codec version sha256 report)).failure = some .osError →
        StoresReport codec faults version sha256 report (reportTable s) (.returned ()) u := by
    intro u hu hfault
    refine ⟨hu.wellTimed, ?_⟩
    rw [hu.table]
    exact .unwritten hfault
  refine ⟨fun _ _ => ensures_diskOp fun b u hmkstemp => ?_, fun e he => ?_⟩
  · rcases hmkstemp.mkstemp ht.wellTimed with ⟨rfl, hfault, hsame⟩ | ⟨fd, temp, rfl, htemp, hfree, hwriting⟩
    · have hu : KeepsReports t u := ⟨ht.wellTimed.sem hmkstemp, funext fun name => by
        unfold reportTable
        rw [hsame name]⟩
      exact ⟨nofun, fun _ _ => hunwritten (ht.trans hu) (.inl hfault)⟩
    · refine ⟨?_, nofun⟩
      rintro _ ⟨⟩
      refine Ensures.bind ((ensures_writeReport htemp hfree hwriting).mono ?_)
      rintro ((_ | _) | e | _) v hv
      · exact hunwritten (ht.trans hv.2) hv.1
      · obtain ⟨hfailure, hwritten⟩ := hv
        obtain ⟨time, hentry, htime⟩ := hwritten.entry
        have htable := reportTable_put (endsWith_reportPath version sha256) hentry hwritten.others
        have hnewest := newest_of_passes ht.wellTimed htime
        rw [ht.table] at htable hnewest
        refine Ensures.tryCatch ((ensures_pruneFolder hwritten.wellTimed (some (reportPath version sha256))
          maxReportBytes maxReportFiles now).mono ?_)
        rintro out w ⟨hw, ⟨rfl, hprunes⟩ | ⟨rfl, hfault, hkept⟩⟩
        · exact ⟨hw, .stored hfailure hnewest (htable ▸ hprunes)⟩
        · exact ⟨hw, .stored hfailure hnewest (htable ▸ hkept ▸ ReportTable.prunes_unlisted hfault ..)⟩
      · obtain ⟨hfailure, hne, hv⟩ := hv
        refine ⟨hv.wellTimed, ?_⟩
        rw [hv.table, ht.table]
        exact .failed hfailure hne
      · trivial
  · exact hunwritten ht (.inl (hmkdir.mkdir.resolve_right fun hok => by rw [hok] at he; cases he).2)

end Store

/-! ## Runs -/

section Runs

variable {R : Type} (codec : ReportCodec R)

/-- A call on the disk. -/
def DiskCalls (s : ReportDisk) (l : ReportEvent R) (t : ReportDisk) : Prop :=
  RunsTo (DiskSem l.1) (l.2.1.program codec) s l.2.2 t

variable {codec} {s t : ReportDisk}

theorem tableCalls_of_diskCalls {l : ReportEvent R} (hs : s.WellTimed) (h : DiskCalls codec s l t) :
    t.WellTimed ∧ TableCalls codec (reportTable s) l (reportTable t) := by
  obtain ⟨faults, call, out⟩ := l
  cases call with
  | load version sha256 fuel =>
    obtain ⟨report, rfl, ht, hloads⟩ := (ensures_loadReport hs fuel).runsTo h
    exact ⟨ht, .load fuel hloads⟩
  | store version sha256 report now =>
    have hstore : (storeReport codec version sha256 report now).Ensures (DiskSem faults)
      (StoresReport codec faults version sha256 report (reportTable s)) s :=
      ensures_storeReport hs version sha256 report now
    rcases h.bind_cases with ⟨e, hrun, rfl⟩ | ⟨u, t', hrun, hret⟩
    · obtain ⟨ht, hstores⟩ := hstore.runsTo hrun
      exact ⟨ht, .store now hstores⟩
    · obtain ⟨ht, hstores⟩ := hstore.runsTo hrun
      cases hret
      exact ⟨ht, .store now hstores⟩
  | prune keep maxBytes maxFiles now =>
    have hprune : (pruneFolder keep maxBytes maxFiles now).Ensures (DiskSem faults)
      (PrunesReports faults keep maxBytes maxFiles (reportTable s)) s :=
      ensures_pruneFolder hs keep maxBytes maxFiles now
    rcases h.bind_cases with ⟨e, hrun, rfl⟩ | ⟨u, t', hrun, hret⟩
    · obtain ⟨ht, ⟨⟨⟩, -⟩ | ⟨hout, hfault, hkept⟩⟩ := hprune.runsTo hrun
      cases hout
      rw [hkept]
      exact ⟨ht, .unlisted keep maxBytes maxFiles now hfault⟩
    · obtain ⟨ht, ⟨-, hprunes⟩ | ⟨⟨⟩, -⟩⟩ := hprune.runsTo hrun
      cases hret
      exact ⟨ht, .prune now hprunes⟩

theorem tableSteps_of_diskSteps {tr : List (ReportEvent R)} (hs : s.WellTimed) (h : Steps (DiskCalls codec) s tr t) :
    t.WellTimed ∧ Steps (TableCalls codec) (reportTable s) tr (reportTable t) := by
  induction h with
  | refl => exact ⟨hs, .refl _⟩
  | cons hcall _ ih =>
    obtain ⟨ht, htable⟩ := tableCalls_of_diskCalls hs hcall
    obtain ⟨hu, hrun⟩ := ih ht
    exact ⟨hu, .cons htable hrun⟩

end Runs

/-! ## Runs that there are -/

section Exists

variable {faults : Set FileFault} {s : ReportDisk}

theorem exists_stat (s : ReportDisk) (name : String) : ∃ a t, DiskSem faults s (.stat name) a t := by
  cases hname : s.files.names name with
  | none => exact ⟨_, _, sem_look (.missing rfl hname) nofun trivial rfl⟩
  | some file =>
    refine ⟨_, _, sem_look (.stat hname (s.modified file)) nofun (fun file' hname' => ?_) rfl⟩
    rw [Option.some.inj (hname.symm.trans hname')]

theorem exists_unlink (s : ReportDisk) (name : String) : ∃ a t, DiskSem faults s (.unlink name) a t := by
  cases hname : s.files.names name with
  | none => exact ⟨_, _, sem_look (.missing rfl hname) nofun trivial rfl⟩
  | some file => exact ⟨_, _, sem_look (.unlink hname) nofun trivial rfl⟩

theorem exists_quietUnlink (s : ReportDisk) (name : String) :
    ∃ t, RunsTo (DiskSem faults) (quietUnlink name) s (.returned ()) t := by
  obtain ⟨a, t, hunlink⟩ := exists_unlink s name
  exact ⟨t, .call hunlink (.ret () t)⟩

theorem exists_pruneScan (now : ℚ) (names : List String) (s : ReportDisk) :
    ∃ entries t, RunsTo (DiskSem faults) (pruneScan now names) s (.returned entries) t := by
  induction names generalizing s with
  | nil => exact ⟨[], s, .ret [] s⟩
  | cons name names ih =>
    obtain ⟨a, t, hstat⟩ := exists_stat s name
    cases a with
    | error e =>
      obtain ⟨entries, u, hrun⟩ := ih t
      exact ⟨entries, u, .call hstat hrun⟩
    | ok stat =>
      suffices ∃ entries u, RunsTo (DiskSem faults) (if endsWith name ".tmp" then do
          if now - stat.modified > staleTempSeconds then quietUnlink name else pure ()
          pruneScan now names
        else if endsWith name reportSuffix then do
          let entries ← pruneScan now names
          return (stat.modified, stat.size, name) :: entries
        else pruneScan now names : DiskProg (List PruneEntry)) t (.returned entries) u by
        obtain ⟨entries, u, hrun⟩ := this
        exact ⟨entries, u, .call hstat hrun⟩
      obtain ⟨entries, u, hrun⟩ := ih t
      split_ifs
      · obtain ⟨t', hunlink⟩ := exists_quietUnlink t name
        obtain ⟨entries', u', hrun'⟩ := ih t'
        exact ⟨entries', u', hunlink.bind hrun'⟩
      · exact ⟨entries, u, hrun⟩
      · exact ⟨_, u, hrun.bind (.ret _ u)⟩
      · exact ⟨entries, u, hrun⟩

theorem exists_unlinkAll (gone : List PruneEntry) (s : ReportDisk) :
    ∃ t, RunsTo (DiskSem faults) (unlinkAll gone) s (.returned ()) t := by
  induction gone generalizing s with
  | nil => exact ⟨s, .ret () s⟩
  | cons e gone ih =>
    obtain ⟨t, hunlink⟩ := exists_quietUnlink s e.2.2
    obtain ⟨u, hrun⟩ := ih t
    exact ⟨u, hunlink.bind hrun⟩

/-- A folder that can be listed is pruned. -/
theorem exists_pruneFolder (keep : Option String) (maxBytes maxFiles : ℤ) (now : ℚ) {names : List String}
    (hnodup : names.Nodup) (hnames : ∀ name, name ∈ names ↔ (s.files.names name).isSome = true) :
    ∃ t, RunsTo (DiskSem faults) (pruneFolder keep maxBytes maxFiles now) s (.returned ()) t := by
  have hscandir : DiskSem faults s .scandir (.ok names) ⟨s.files, s.modified, s.clock + 1⟩ :=
    sem_look (.scandir fun name hname => (hnames name).1 hname) nofun
      ⟨hnodup, fun name hname => (hnames name).2 hname⟩ rfl
  refine exists_runsTo_call hscandir ?_
  obtain ⟨entries, t, hscan⟩ := exists_pruneScan now names ⟨s.files, s.modified, s.clock + 1⟩
  obtain ⟨u, hdrop⟩ := exists_unlinkAll (evictions keep maxBytes maxFiles (entries.insertionSort entryLe)
    (entries.map fun e => (e.2.1 : ℤ)).sum entries.length) t
  rw [← pruneOldest_eq] at hdrop
  exact ⟨u, hscan.bind hdrop⟩

end Exists

/-! ## An example -/

section Example

def flagPath : String := reportPath "1" "ab"

def oldName : String := "ab-v0-smda1.json.gz"

/-- A disk with one file, of an older version. -/
def oldDisk (size : ℕ) (clock : ℚ) : ReportDisk where
  files := { Files.empty with
    names := fun name => if name = oldName then some 0 else none
    content := fun _ => List.replicate size 0
    nextFile := 1 }
  modified _ := 1
  clock := clock

theorem endsWith_oldName : endsWith oldName reportSuffix = true := by decide +kernel

theorem flagPath_ne : flagPath ≠ oldName := by decide +kernel

theorem wellTimed_oldDisk (size : ℕ) : (oldDisk size 1).WellTimed := by
  refine ⟨⟨fun name file h => ?_, nofun, fun name name' file h h' => ?_⟩, fun _ => le_rfl⟩
  · change (if name = oldName then some 0 else none) = some file at h
    split_ifs at h
    cases h
    exact Nat.one_pos
  · change (if name = oldName then some 0 else none) = some file at h
    change (if name' = oldName then some 0 else none) = some file at h'
    split_ifs at h h' with hname hname'
    exact hname.trans hname'.symm

/-- The names of that disk after the report was written aside and renamed. -/
theorem names_renamed (name : String) : name ∈ [flagPath, oldName] ↔
    (Function.update (Function.update (Function.update (fun name => if name = oldName then some 0 else none) ".a.tmp"
      (some 1)) ".a.tmp" none) flagPath (some 1) name).isSome = true := by
  have htemp : ".a.tmp" ≠ oldName := by decide +kernel
  by_cases hpath : name = flagPath
  · simp [hpath]
  · by_cases hname : name = ".a.tmp"
    · subst hname
      simp [hpath, htemp]
    · simp [hpath, hname, apply_ite Option.isSome]

/-- The folder cannot be made. -/
theorem exists_unwritten (s : ReportDisk) : RunsTo (DiskSem {.write}) (storeReport flagCodec "1" "ab" true 0) s
    (.returned ()) ⟨s.files, s.modified, s.clock + 1⟩ :=
  .call (sem_fail rfl) (.ret () _)

/-- The report is written, and the folder pruned. -/
theorem exists_stored (size : ℕ) (clock : ℚ) : ∃ t, RunsTo (DiskSem ∅) (storeReport flagCodec "1" "ab" true 0)
    (oldDisk size clock) (.returned ()) t := by
  have htemp : ".a.tmp" ≠ oldName := by decide +kernel
  have hfree : (oldDisk size clock).files.names ".a.tmp" = none := by simp [oldDisk, htemp]
  refine exists_runsTo_call (sem_look (.mkdir _) nofun trivial rfl) ?_
  refine exists_runsTo_call (sem_touch (.mkstemp ⟨"a", rfl⟩ List.not_mem_nil hfree) nofun trivial rfl) ?_
  refine exists_runsTo_call (sem_touch (.write (h := ⟨1, 0, true⟩) rfl rfl) nofun trivial rfl) ?_
  refine exists_runsTo_call (sem_look (.close rfl) nofun trivial rfl) ?_
  refine exists_runsTo_call (sem_look (.replace (show _ = some 1 by rfl)) nofun trivial rfl) ?_
  show ∃ t, RunsTo (DiskSem ∅) ((pruneFolder _ _ _ _).tryCatch suppressOsError) _ _ t
  have hnodup : [flagPath, oldName].Nodup := by simp [flagPath_ne]
  exact (exists_pruneFolder _ _ _ _ hnodup names_renamed).imp fun t hrun => hrun.tryCatch suppressOsError

/-- The report is read, and its file cannot be touched. -/
theorem exists_loaded {s : ReportDisk} {time : ℚ} (hfile : reportTable s flagPath = some ([1], time)) :
    ∃ t, DiskCalls flagCodec s ({.touch}, .load "1" "ab" 3, .returned (some true)) t := by
  obtain ⟨file, hname, heq⟩ := file?_eq_some (reportTable_eq_some.1 hfile).2
  have hcontent : s.files.content file = [1] := congrArg Prod.fst heq.symm
  have hread : Files.IsRead (s.files.content file) 0 [1] := ⟨⟨[], hcontent.symm⟩, nofun⟩
  have hend : Files.IsRead (s.files.content file) 1 [] := ⟨List.nil_prefix, fun _ => by rw [hcontent]; exact le_rfl⟩
  have hparse : parseReport flagCodec "1" "ab" [1] = some true := by decide +kernel
  refine exists_runsTo_call (sem_look (.openRead hname) nofun trivial rfl) ?_
  refine exists_runsTo_call (sem_look (.read (Function.update_self ..) hread) nofun trivial rfl) ?_
  refine exists_runsTo_call (sem_look (.read (Function.update_self ..) hend) nofun trivial rfl) ?_
  refine exists_runsTo_call (sem_look (.close (Function.update_self ..)) nofun trivial rfl) ?_
  show ∃ t, RunsTo (DiskSem {.touch}) (useReport flagCodec "1" "ab" [1]) _ _ t
  unfold useReport
  rw [hparse]
  exact exists_runsTo_call (sem_fail rfl) ⟨_, .ret _ _⟩

/-- The file cannot be opened, and is removed. -/
theorem exists_discarded (s : ReportDisk) :
    ∃ t, DiskCalls flagCodec s ({.read}, .load "1" "ab" 3, .returned none) t := by
  obtain ⟨t, hrun⟩ := exists_quietUnlink ⟨s.files, s.modified, s.clock + 1⟩ (reportPath "1" "ab")
  exact ⟨t, .call (sem_fail rfl) (hrun.bind (.ret none t))⟩

/-- A store that fails, and one that writes the report and prunes the folder. -/
def storeEvents : List (ReportEvent Bool) :=
  [({.write}, .store "1" "ab" true 0, .returned none), (∅, .store "1" "ab" true 0, .returned none)]

/-- A load of a file that cannot be touched, and one of a file that cannot be opened. -/
def loadEvents : List (ReportEvent Bool) :=
  [({.touch}, .load "1" "ab" 3, .returned (some true)), ({.read}, .load "1" "ab" 3, .returned none)]

/-- The report is there afterwards, and the old file only as it was. -/
theorem exists_storeEvents (size : ℕ) : ∃ t, Steps (DiskCalls flagCodec) (oldDisk size 1) storeEvents t ∧
    (∃ time, reportTable t flagPath = some ([1], time)) ∧
      (reportTable t oldName = none ∨ (reportTable t oldName).map Prod.fst = some (List.replicate size 0)) := by
  obtain ⟨t, hstored⟩ := exists_stored size (1 + 1)
  have hfirst : DiskCalls flagCodec (oldDisk size 1) ({.write}, .store "1" "ab" true 0, .returned none)
    (oldDisk size (1 + 1)) := (exists_unwritten _).bind (.ret none _)
  have hsecond : DiskCalls flagCodec (oldDisk size (1 + 1)) (∅, .store "1" "ab" true 0, .returned none) t :=
    hstored.bind (.ret none t)
  refine ⟨t, .cons hfirst (.single hsecond), ?_⟩
  obtain ⟨-, htable⟩ := tableCalls_of_diskCalls (tableCalls_of_diskCalls (wellTimed_oldDisk size) hfirst).1 hsecond
  have hold : reportTable (oldDisk size (1 + 1)) oldName = some (List.replicate size 0, 1) := by
    rw [reportTable_of_report endsWith_oldName]
    have hname : (oldDisk size (1 + 1)).files.names oldName = some 0 := by simp [oldDisk]
    exact file?_of_name hname
  generalize reportTable t = T at htable ⊢
  generalize reportTable (oldDisk size (1 + 1)) = T₀ at htable hold
  cases htable with
  | store _ hstores =>
    cases hstores with
    | stored hfailure htime hprune =>
      refine ⟨⟨_, hprune.keeps.trans (ReportTable.put_self ..)⟩, (hprune.shrinks oldName).imp_right fun hkept => ?_⟩
      exact hkept.trans (congrArg (Option.map Prod.fst) ((ReportTable.put_of_ne flagPath_ne.symm ..).trans hold))
    | unwritten hfault =>
      -- Without faults the report is written.
      rcases hfault with hfault | hfailure
      · exact hfault.elim
      · exact absurd hfailure (by decide +kernel)

end Example

/-! ## What runs keep -/

section Kept

variable {R : Type} {codec : ReportCodec R} {s t : ReportDisk}

/-- Calls on the disk are calls of the table of its report files, and a `load` ends. -/
theorem diskRefinesTable {tr : List (ReportEvent R)} (hs : s.WellTimed) (h : Steps (DiskCalls codec) s tr t) :
    Steps (TableCalls codec) (reportTable s) tr (reportTable t) ∧ ∀ faults version sha256 fuel,
      (∀ e, reportTable t (reportPath version sha256) = some e → e.1.length < fuel) →
        (loadReport codec version sha256 fuel).Halts (DiskSem faults) t := by
  obtain ⟨ht, hrun⟩ := tableSteps_of_diskSteps hs h
  exact ⟨hrun, fun faults version sha256 fuel hfuel => halts_loadReport ht hfuel⟩

/-- The report is stored, loaded, and dropped when its file cannot be opened. -/
theorem diskRefinesTable_events : ∃ T, T flagPath = none ∧
    Steps (TableCalls flagCodec) (reportTable (oldDisk (512 * 1024 * 1024 + 1) 1)) (storeEvents ++ loadEvents) T := by
  generalize 512 * 1024 * 1024 + 1 = size
  obtain ⟨t, hstores, ⟨time, hfile⟩, -⟩ := exists_storeEvents size
  obtain ⟨u, hloaded⟩ := exists_loaded hfile
  obtain ⟨v, hdiscarded⟩ := exists_discarded u
  have hloads : Steps (DiskCalls flagCodec) t loadEvents v := .cons hloaded (.single hdiscarded)
  refine ⟨_, ?_, (diskRefinesTable (wellTimed_oldDisk size) (hstores.append hloads)).1⟩
  have hu := (tableSteps_of_diskSteps (wellTimed_oldDisk size) (hstores.append (.single hloaded))).1
  obtain ⟨-, hlast⟩ := tableCalls_of_diskCalls hu hdiscarded
  generalize reportTable v = T at hlast ⊢
  cases hlast with
  | load _ hloads =>
    cases hloads with
    | missing hfile => exact hfile
    | unusable _ _ hdrop => exact (hdrop.gone flagPath (List.mem_singleton_self _)).resolve_right fun h => by simp at h

/-- The folder keeps within its caps, or keeps one file, if the stores can list its files and remove them. -/
theorem diskStaysBounded {tr : List (ReportEvent R)} (hs : s.WellTimed) (hbounded : (reportTable s).Bounded)
    (hworks : ∀ l ∈ tr, l.2.1.IsStore → .list ∉ l.1 ∧ .remove ∉ l.1) (h : Steps (DiskCalls codec) s tr t) :
    (reportTable t).Bounded := by
  obtain ⟨-, hrun⟩ := tableSteps_of_diskSteps hs h
  exact hrun.invariant_labels (fun T l T' hT hl hcall => hcall.bounded hT hl) hworks hbounded

/-- A file over the caps is dropped by the store that finds it. -/
theorem diskStaysBounded_events : ∃ t, Steps (DiskCalls flagCodec) (oldDisk (512 * 1024 * 1024 + 1) 1) storeEvents t ∧
    reportTable t flagPath ≠ none ∧ reportTable t oldName = none := by
  generalize hsize : 512 * 1024 * 1024 + 1 = size
  obtain ⟨t, hrun, ⟨time, hfile⟩, hold⟩ := exists_storeEvents size
  have hone : (reportTable (oldDisk size 1)).Bounded := by
    refine fun names hnodup hthere => .inl ((hnodup.subperm fun name hname => ?_).length_le : _ ≤ [oldName].length)
    obtain ⟨e, he⟩ := Option.ne_none_iff_exists'.1 (hthere name hname)
    obtain ⟨file, hfile, -⟩ := file?_eq_some (reportTable_eq_some.1 he).2
    by_contra hne
    have hnone : (oldDisk size 1).files.names name = none := if_neg (by simpa using hne)
    rw [hnone] at hfile
    cases hfile
  have hbounded := diskStaysBounded (wellTimed_oldDisk size) hone (by simp [storeEvents]) hrun
  refine ⟨t, hrun, ?_, by_contra fun hthere => ?_⟩
  · rw [hfile]
    exact nofun
  · have hnames := hbounded [flagPath, oldName] (by simp [flagPath_ne]) (by simp [hfile, hthere])
    have hsizes : (reportTable t).size oldName = size := by
      rw [ReportTable.size_eq, hold.resolve_left hthere]
      simp
    simp [hsizes, maxReportBytes] at hnames
    omega

end Kept

end McritSimilarity
