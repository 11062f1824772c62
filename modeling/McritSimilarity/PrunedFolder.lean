import Mathlib.Data.List.Perm.Subperm
import McritSimilarity.DiskCache
import McritSimilarity.Lib.OrderedMap
import McritSimilarity.Lib.Runs

/-!
# Pruned folders

What `prune` leaves of a folder in which every removal succeeds.  The scan returns the reports and removes the stale
temporary files (`run_pruneScan`); the loop over the reports removes the shortest prefix of the others than `keep`
that brings the folder within its caps (`evictions_eq_take`).
-/

set_option autoImplicit false

namespace McritSimilarity

open Python Prog

/-! ## Folders -/

/-- The files of a folder, with what `stat` answers for each of them. -/
abbrev Listing := OrderedMap String (Except FileError FileStat)

namespace Listing

def stat (s : Listing) (name : String) : Except FileError FileStat := (s.find? name).getD (.error .notFound)

/-- The operations of `prune` on a folder, in which every file can be removed. -/
def answer : Handler (FileI String) Listing
  | .scandir, s => (.ok s.keys, s)
  | .stat name, s => (s.stat name, s)
  | .unlink name, s => (if s.contains name then .ok () else .error .notFound, s.erase name)
  | .mkdir, s => (.error .failed, s)
  | .mkstemp, s => (.error .failed, s)
  | .create _, s => (.error .failed, s)
  | .openRead _, s => (.error .failed, s)
  | .read _, s => (.error .failed, s)
  | .write _ _, s => (.error .failed, s)
  | .close _, s => (.error .failed, s)
  | .replace _ _, s => (.error .failed, s)
  | .utime _, s => (.error .failed, s)

/-- The entry of a report file. -/
def report? (s : Listing) (name : String) : Option PruneEntry :=
  match s.stat name with
  | .error _ => none
  | .ok stat => if endsWith name reportSuffix then some (stat.modified, stat.size, name) else none

def reports (s : Listing) : List PruneEntry := s.keys.filterMap s.report?

/-- Whether a file is a temporary file that is older than `_STALE_TEMP_SECONDS`. -/
def staleTemp (now : ℚ) (s : Listing) (name : String) : Bool :=
  match s.stat name with
  | .error _ => false
  | .ok stat => endsWith name ".tmp" && staleTempSeconds < now - stat.modified

end Listing

/-! ## What pruning promises -/

/-- The length of the shortest prefix of `n` elements that satisfies `P`, and `n` when there is none. -/
def IsShortest (P : ℕ → Prop) (n k : ℕ) : Prop := k ≤ n ∧ (∀ m < k, ¬ P m) ∧ (P k ∨ k = n)

theorem isShortest_zero {P : ℕ → Prop} {n : ℕ} (h : P 0 ∨ 0 = n) : IsShortest P n 0 :=
  ⟨n.zero_le, fun m hm => absurd hm m.not_lt_zero, h⟩

theorem IsShortest.succ {P : ℕ → Prop} {n k : ℕ} (hzero : ¬ P 0) (h : IsShortest (fun m => P (m + 1)) n k) :
    IsShortest P (n + 1) (k + 1) := by
  obtain ⟨hle, hbefore, hend⟩ := h
  refine ⟨by omega, fun m hm => ?_, hend.imp_right fun hk => by omega⟩
  cases m with
  | zero => exact hzero
  | succ m => exact hbefore m (by omega)

theorem IsShortest.congr {P Q : ℕ → Prop} {n k : ℕ} (hPQ : ∀ m ≤ n, P m ↔ Q m) (h : IsShortest P n k) :
    IsShortest Q n k := by
  obtain ⟨hle, hbefore, hend⟩ := h
  refine ⟨hle, fun m hm => ?_, hend.imp_left (hPQ k hle).1⟩
  exact mt (hPQ m (by omega)).2 (hbefore m hm)

section Pruned

variable (keep : Option String) (maxBytes maxFiles : ℤ) (now : ℚ)

/-- `total <= max_bytes and count <= max_files`. -/
def WithinCaps (reports : List PruneEntry) : Prop :=
  (reports.map fun e => (e.2.1 : ℤ)).sum ≤ maxBytes ∧ (reports.length : ℤ) ≤ maxFiles

/-- The reports other than `keep`, oldest first. -/
def evictable (s : Listing) : List PruneEntry := (s.reports.insertionSort entryLe).filter fun e => keep ≠ some e.2.2

/-- The reports are within the caps, without the first `m` of those that may be removed. -/
def Fits (s : Listing) (m : ℕ) : Prop :=
  WithinCaps maxBytes maxFiles (s.reports.filter (· ∉ (evictable keep s).take m))

/-- The folder `t` is what pruning leaves of the folder `s`. -/
structure Pruned (s t : Listing) : Prop where
  caps : WithinCaps maxBytes maxFiles t.reports ∨ ∀ e ∈ t.reports, keep = some e.2.2
  kept : ∀ name ∈ s.keys, keep = some name → s.staleTemp now name = false → name ∈ t.keys
  oldest : ∃ k, IsShortest (Fits keep maxBytes maxFiles s) (evictable keep s).length k ∧
    ∀ e ∈ s.reports, e.2.2 ∉ t.keys ↔ e ∈ (evictable keep s).take k
  temps : ∀ name ∈ s.keys, endsWith name ".tmp" = true → name ∉ t.keys → s.staleTemp now name = true
  others : ∀ name, s.staleTemp now name = false → (∀ e ∈ s.reports, e.2.2 ≠ name) → t.find? name = s.find? name
  untouched : ∀ name ∈ t.keys, t.find? name = s.find? name

end Pruned

/-! ## The scan -/

theorem endsWith_tmp_of_report {name : String} (h : endsWith name reportSuffix = true) :
    endsWith name ".tmp" = false := by
  rw [← Bool.not_eq_true]
  intro htmp
  have hsuffix : ".tmp".toList <:+ ".json.gz".toList := by
    refine List.suffix_of_suffix_length_le (List.isSuffixOf_iff_suffix.1 htmp) (List.isSuffixOf_iff_suffix.1 h) ?_
    decide
  revert hsuffix
  decide

section Scan

variable (now : ℚ)

theorem Listing.stat_erase {s : Listing} {name other : String} (h : other ≠ name) :
    Listing.stat (s.erase name) other = Listing.stat s other := by
  unfold Listing.stat
  rw [OrderedMap.find?_erase, if_neg h]

theorem run_stat {α : Type} {s : Listing} {name : String} {a : Except FileError FileStat} (h : s.stat name = a)
    (k : Except FileError FileStat → DiskProg α) :
    (Prog.call (I := FileI String) (.stat name) k).run Listing.answer s = (k a).run Listing.answer s := by
  subst h
  rfl

/-- The scan finds the reports and removes the stale temporary files. -/
theorem run_pruneScan {names : List String} (hnodup : names.Nodup) (s : Listing) :
    (pruneScan now names).run Listing.answer s =
      (.returned (names.filterMap s.report?), s.eraseAll (names.filter (s.staleTemp now))) := by
  induction names generalizing s with
  | nil => rfl
  | cons name names ih =>
    obtain ⟨hname, hnames⟩ := List.nodup_cons.1 hnodup
    unfold pruneScan
    cases hstat : s.stat name with
    | error e =>
      have hreport : s.report? name = none := by rw [Listing.report?, hstat]
      have hstale : s.staleTemp now name = false := by rw [Listing.staleTemp, hstat]
      rw [List.filterMap_cons_none hreport, List.filter_cons_of_neg (by simp [hstale])]
      exact (run_stat hstat _).trans (ih hnames s)
    | ok stat =>
      have hreport : s.report? name =
          if endsWith name reportSuffix then some (stat.modified, stat.size, name) else none := by
        rw [Listing.report?, hstat]
      have hstale : s.staleTemp now name = (endsWith name ".tmp" && staleTempSeconds < now - stat.modified) := by
        rw [Listing.staleTemp, hstat]
      rw [List.filterMap_cons, hreport, List.filter_cons, hstale]
      refine (run_stat hstat _).trans ?_
      by_cases htmp : endsWith name ".tmp" = true
      · have hsuffix : endsWith name reportSuffix = false := by
          rw [← Bool.not_eq_true]
          exact fun h => absurd htmp (by simp [endsWith_tmp_of_report h])
        simp only [htmp, hsuffix, Bool.true_and, Bool.false_eq_true, if_true, if_false, decide_eq_true_eq]
        by_cases hold : staleTempSeconds < now - stat.modified
        · rw [if_pos hold, if_pos hold]
          have hrest : ∀ other ∈ names, other ≠ name := fun other hmem h => hname (h ▸ hmem)
          have hreports : names.filterMap (Listing.report? (s.erase name)) = names.filterMap s.report? :=
            List.filterMap_congr fun other hmem => by
              rw [Listing.report?, Listing.report?, Listing.stat_erase (hrest other hmem)]
          have hstales : names.filter (Listing.staleTemp now (s.erase name)) = names.filter (s.staleTemp now) :=
            List.filter_congr fun other hmem => by
              rw [Listing.staleTemp, Listing.staleTemp, Listing.stat_erase (hrest other hmem)]
          have hrun := ih hnames (s.erase name)
          rw [hreports, hstales] at hrun
          exact hrun
        · rw [if_neg hold, if_neg hold]
          exact ih hnames s
      · rw [Bool.not_eq_true] at htmp
        simp only [htmp, Bool.false_and, Bool.false_eq_true, if_false]
        cases hsuffix : endsWith name reportSuffix with
        | false => exact ih hnames s
        | true =>
          simp only [if_true, run_bind, ih hnames s]
          rfl

end Scan

/-! ## The loop over the reports -/

section Loop

variable (keep : Option String) (maxBytes maxFiles : ℤ)

/-- The running totals after the first `m` removals are within the caps. -/
def TotalsFit (entries : List PruneEntry) (total count : ℤ) (m : ℕ) : Prop :=
  total - ((entries.take m).map fun e => (e.2.1 : ℤ)).sum ≤ maxBytes ∧ count - m ≤ maxFiles

theorem totalsFit_cons (e : PruneEntry) (entries : List PruneEntry) (total count : ℤ) (m : ℕ) :
    TotalsFit maxBytes maxFiles (e :: entries) total count (m + 1) ↔
      TotalsFit maxBytes maxFiles entries (total - e.2.1) (count - 1) m := by
  unfold TotalsFit
  rw [List.take_succ_cons, List.map_cons, List.sum_cons]
  push_cast
  constructor <;> rintro ⟨hbytes, hfiles⟩ <;> constructor <;> omega

/-- The reports that the loop drops: the oldest, without `keep`, until the totals are within the caps. -/
def evictions : List PruneEntry → ℤ → ℤ → List PruneEntry
  | [], _, _ => []
  | e :: entries, total, count =>
    if total ≤ maxBytes ∧ count ≤ maxFiles then []
    else if keep = some e.2.2 then evictions entries total count
    else e :: evictions entries (total - e.2.1) (count - 1)

/-- Every report is removed that can be removed. -/
def unlinkAll : List PruneEntry → DiskProg Unit
  | [] => pure ()
  | e :: entries => do
    quietUnlink e.2.2
    unlinkAll entries

/-- Which reports are dropped does not depend on whether they can be removed. -/
theorem pruneOldest_eq (entries : List PruneEntry) (total count : ℤ) :
    pruneOldest keep maxBytes maxFiles entries total count =
      unlinkAll (evictions keep maxBytes maxFiles entries total count) := by
  induction entries generalizing total count with
  | nil => rfl
  | cons e entries ih =>
    obtain ⟨modified, size, name⟩ := e
    unfold pruneOldest evictions
    split_ifs with hfits hkeep
    · rfl
    · exact ih total count
    · exact congrArg (quietUnlink name >>= fun _ => ·) (ih (total - size) (count - 1))

/-- The dropped reports are the shortest prefix of those that may be dropped that brings the totals within the caps. -/
theorem evictions_eq_take (entries : List PruneEntry) (total count : ℤ) :
    ∃ k, IsShortest (TotalsFit maxBytes maxFiles (entries.filter fun e => keep ≠ some e.2.2) total count)
        (entries.filter fun e => keep ≠ some e.2.2).length k ∧
      evictions keep maxBytes maxFiles entries total count = (entries.filter fun e => keep ≠ some e.2.2).take k := by
  induction entries generalizing total count with
  | nil => exact ⟨0, isShortest_zero (.inr rfl), rfl⟩
  | cons e entries ih =>
    unfold evictions
    split_ifs with hfits hkeep
    · refine ⟨0, isShortest_zero (.inl ?_), rfl⟩
      unfold TotalsFit
      simpa using hfits
    · rw [List.filter_cons_of_neg (by simpa using hkeep)]
      exact ih total count
    · rw [List.filter_cons_of_pos (by simpa using hkeep)]
      obtain ⟨k, hshortest, htake⟩ := ih (total - e.2.1) (count - 1)
      refine ⟨k + 1, IsShortest.succ ?_ (hshortest.congr fun m _ => (totalsFit_cons ..).symm), ?_⟩
      · unfold TotalsFit
        simpa using hfits
      · rw [htake, List.take_succ_cons]

/-- The reports that are left are within the caps, or all of them are `keep`. -/
theorem withinCaps_evictions {entries : List PruneEntry} (hnodup : entries.Nodup) {gone : List PruneEntry}
    (hgone : gone = evictions keep maxBytes maxFiles entries (entries.map fun e => (e.2.1 : ℤ)).sum entries.length) :
    WithinCaps maxBytes maxFiles (entries.filter (· ∉ gone)) ∨ ∀ e ∈ entries, e ∉ gone → keep = some e.2.2 := by
  obtain ⟨k, ⟨hle, -, hend⟩, htake⟩ := evictions_eq_take keep maxBytes maxFiles entries
    (entries.map fun e => (e.2.1 : ℤ)).sum entries.length
  rw [htake] at hgone
  rcases hend with ⟨hbytes, hfiles⟩ | hall
  · have hperm : (gone ++ entries.filter (· ∉ gone)).Perm entries := by
      refine List.perm_append_filter_notMem hnodup ?_ fun e he => ?_
      · rw [hgone]
        exact (hnodup.filter _).sublist (List.take_sublist _ _)
      · exact List.mem_of_mem_filter (List.mem_of_mem_take (hgone ▸ he))
    have hsum := (hperm.map fun e => (e.2.1 : ℤ)).sum_eq
    have hlength := hperm.length_eq
    have hk : gone.length = k := by rw [hgone, List.length_take, min_eq_left hle]
    rw [← hgone] at hbytes
    rw [List.map_append, List.sum_append] at hsum
    rw [List.length_append] at hlength
    refine .inl ⟨?_, ?_⟩ <;> omega
  · refine .inr fun e he hout => of_not_not fun hkeep => hout ?_
    rw [hgone, hall, List.take_length]
    exact List.mem_filter.2 ⟨he, decide_eq_true hkeep⟩

theorem run_unlinkAll (entries : List PruneEntry) (s : Listing) :
    (unlinkAll entries).run Listing.answer s = (.returned (), s.eraseAll (entries.map fun e => e.2.2)) := by
  induction entries generalizing s with
  | nil => rfl
  | cons e entries ih => exact ih (s.erase e.2.2)

end Loop

/-! ## The reports of a folder -/

section Reports

variable {s : Listing} {name : String} {e : PruneEntry}

theorem Listing.report?_eq_some (h : s.report? name = some e) : endsWith name reportSuffix = true ∧ e.2.2 = name := by
  unfold Listing.report? at h
  split at h
  · cases h
  · split_ifs at h with hsuffix
    cases h
    exact ⟨hsuffix, rfl⟩

theorem Listing.mem_reports : e ∈ s.reports ↔ e.2.2 ∈ s.keys ∧ s.report? e.2.2 = some e := by
  unfold Listing.reports
  rw [List.mem_filterMap]
  constructor
  · rintro ⟨name, hname, h⟩
    rw [(Listing.report?_eq_some h).2]
    exact ⟨hname, h⟩
  · rintro ⟨hname, h⟩
    exact ⟨_, hname, h⟩

/-- A report is known by its name. -/
theorem Listing.eq_of_name {e' : PruneEntry} (he : e ∈ s.reports) (he' : e' ∈ s.reports) (h : e.2.2 = e'.2.2) :
    e = e' := by
  have hreport := (Listing.mem_reports.1 he).2
  rw [h, (Listing.mem_reports.1 he').2] at hreport
  exact (Option.some.inj hreport).symm

theorem Listing.nodup_reports (s : Listing) : s.reports.Nodup := by
  refine List.Nodup.filterMap (fun name name' e h h' => ?_) s.nodup_keys
  exact (Listing.report?_eq_some h).2.symm.trans (Listing.report?_eq_some h').2

theorem Listing.stat_eraseAll {gone : List String} (h : name ∉ gone) :
    Listing.stat (s.eraseAll gone) name = Listing.stat s name := by
  unfold Listing.stat
  rw [OrderedMap.find?_eraseAll, if_neg h]

/-- The reports that are left when some files are removed. -/
theorem Listing.reports_eraseAll (s : Listing) (gone : List String) :
    Listing.reports (s.eraseAll gone) = s.reports.filter fun e => e.2.2 ∉ gone := by
  unfold Listing.reports
  rw [OrderedMap.keys_eraseAll, List.filter_filterMap, List.filterMap_filter]
  refine List.filterMap_congr fun name _ => ?_
  by_cases hgone : name ∈ gone
  · cases hreport : s.report? name with
    | none => simp [hgone]
    | some e =>
      have hname : e.2.2 = name := (Listing.report?_eq_some hreport).2
      simp [Option.filter, hname, hgone]
  · have hsame : Listing.report? (s.eraseAll gone) name = s.report? name := by
      rw [Listing.report?, Listing.report?, Listing.stat_eraseAll hgone]
    cases hreport : s.report? name with
    | none => simp [hgone, hsame, hreport]
    | some e =>
      have hname : e.2.2 = name := (Listing.report?_eq_some hreport).2
      simp [Option.filter, hname, hgone, hsame, hreport]

end Reports

/-! ## The whole call -/

section Whole

variable (keep : Option String) (maxBytes maxFiles : ℤ) (now : ℚ) (s : Listing)

theorem mem_evictable {e : PruneEntry} : e ∈ evictable keep s ↔ e ∈ s.reports ∧ keep ≠ some e.2.2 := by
  unfold evictable
  rw [List.mem_filter, List.mem_insertionSort, decide_eq_true_eq]

variable {keep s} in
theorem mem_reports_of_take {k : ℕ} {e : PruneEntry} (h : e ∈ (evictable keep s).take k) :
    e ∈ s.reports ∧ keep ≠ some e.2.2 :=
  (mem_evictable keep s).1 (List.mem_of_mem_take h)

theorem nodup_evictable : (evictable keep s).Nodup :=
  ((List.perm_insertionSort entryLe s.reports).nodup_iff.2 s.nodup_reports).filter _

/-- The running totals are those of the reports that are left. -/
theorem totalsFit_iff_fits {m : ℕ} (hm : m ≤ (evictable keep s).length) :
    TotalsFit maxBytes maxFiles (evictable keep s) (s.reports.map fun e => (e.2.1 : ℤ)).sum s.reports.length m ↔
      Fits keep maxBytes maxFiles s m := by
  have hperm : ((evictable keep s).take m ++ s.reports.filter (· ∉ (evictable keep s).take m)).Perm s.reports :=
    List.perm_append_filter_notMem s.nodup_reports
      ((nodup_evictable keep s).sublist (List.take_sublist _ _)) fun e he => (mem_reports_of_take he).1
  have hsum := (hperm.map fun e => (e.2.1 : ℤ)).sum_eq
  have hlength := hperm.length_eq
  rw [List.map_append, List.sum_append] at hsum
  rw [List.length_append, List.length_take, min_eq_left hm] at hlength
  unfold TotalsFit Fits WithinCaps
  constructor <;> rintro ⟨hbytes, hfiles⟩ <;> constructor <;> omega

/-- What `prune` removes: the stale temporary files, and reports. -/
theorem run_pruneFolder : ∃ k, IsShortest (Fits keep maxBytes maxFiles s) (evictable keep s).length k ∧
    (pruneFolder keep maxBytes maxFiles now).run Listing.answer s = (.returned (),
      s.eraseAll (s.keys.filter (s.staleTemp now) ++ ((evictable keep s).take k).map fun e => e.2.2)) := by
  obtain ⟨k, hshortest, htake⟩ := evictions_eq_take keep maxBytes maxFiles (s.reports.insertionSort entryLe)
    (s.reports.map fun e => (e.2.1 : ℤ)).sum s.reports.length
  refine ⟨k, hshortest.congr fun m hm => totalsFit_iff_fits keep maxBytes maxFiles s hm, ?_⟩
  rw [OrderedMap.eraseAll_append]
  have hscan := run_pruneScan now s.nodup_keys s
  have hscandir : (diskOp .scandir).run Listing.answer s = (.returned s.keys, s) := rfl
  unfold pruneFolder
  rw [run_bind, hscandir]
  show Prog.run _ (_ >>= _) s = _
  rw [run_bind, hscan]
  show Prog.run _ (pruneOldest ..) _ = _
  rw [pruneOldest_eq]
  refine (run_unlinkAll _ _).trans ?_
  exact congrArg (fun gone => (Outcome.returned (), OrderedMap.eraseAll _ (gone.map fun e => e.2.2))) htake

theorem Listing.staleTemp_eq_false {name : String} (h : endsWith name ".tmp" = false) :
    s.staleTemp now name = false := by
  unfold Listing.staleTemp
  cases s.stat name with
  | error e => rfl
  | ok stat => simp [h]

/-- The names that are removed with the `k` oldest evictable reports. -/
def removedNames (k : ℕ) : List String :=
  s.keys.filter (s.staleTemp now) ++ ((evictable keep s).take k).map fun e => e.2.2

section Removed

variable {keep now s} {k : ℕ} {name : String}

theorem mem_removedNames : name ∈ removedNames keep now s k ↔
    name ∈ s.keys ∧ s.staleTemp now name = true ∨ ∃ e ∈ (evictable keep s).take k, e.2.2 = name := by
  rw [removedNames, List.mem_append, List.mem_filter, List.mem_map]

theorem Listing.endsWith_of_mem_reports {e : PruneEntry} (h : e ∈ s.reports) : endsWith e.2.2 reportSuffix = true :=
  (Listing.report?_eq_some (Listing.mem_reports.1 h).2).1

/-- A name that is no stale temporary file is removed with its report. -/
theorem mem_removedNames_of_fresh (hfresh : s.staleTemp now name = false) :
    name ∈ removedNames keep now s k ↔ ∃ e ∈ (evictable keep s).take k, e.2.2 = name := by
  rw [mem_removedNames, hfresh]
  simp

/-- A report is removed when it is taken. -/
theorem report_mem_removedNames {e : PruneEntry} (he : e ∈ s.reports) :
    e.2.2 ∈ removedNames keep now s k ↔ e ∈ (evictable keep s).take k := by
  have hfresh := Listing.staleTemp_eq_false now s (endsWith_tmp_of_report (Listing.endsWith_of_mem_reports he))
  rw [mem_removedNames_of_fresh hfresh]
  constructor
  · rintro ⟨e', he', hname⟩
    exact Listing.eq_of_name (mem_reports_of_take he').1 he hname ▸ he'
  · exact fun hmem => ⟨e, hmem, rfl⟩

theorem reports_removed : Listing.reports (s.eraseAll (removedNames keep now s k)) =
    s.reports.filter (· ∉ (evictable keep s).take k) := by
  rw [Listing.reports_eraseAll]
  exact List.filter_congr fun e he => decide_eq_decide.2 (not_congr (report_mem_removedNames he))

theorem mem_keys_removed : name ∈ (s.eraseAll (removedNames keep now s k)).keys ↔
    name ∈ s.keys ∧ name ∉ removedNames keep now s k := by
  rw [OrderedMap.keys_eraseAll, List.mem_filter, decide_eq_true_eq]

/-- A removed temporary file was stale: no report is named like one. -/
theorem staleTemp_of_removed (htmp : endsWith name ".tmp" = true) (h : name ∈ removedNames keep now s k) :
    s.staleTemp now name = true := by
  rcases mem_removedNames.1 h with ⟨-, hstale⟩ | ⟨e, he, rfl⟩
  · exact hstale
  · rw [endsWith_tmp_of_report (Listing.endsWith_of_mem_reports (mem_reports_of_take he).1)] at htmp
    cases htmp

end Removed

/-- A folder is pruned, for any listing, caps and `keep`. -/
theorem pruned_pruneFolder : ∃ t, (pruneFolder keep maxBytes maxFiles now).run Listing.answer s = (.returned (), t) ∧
    Pruned keep maxBytes maxFiles now s t := by
  obtain ⟨k, hshortest, hrun⟩ := run_pruneFolder keep maxBytes maxFiles now s
  refine ⟨s.eraseAll (removedNames keep now s k), hrun, ?_, fun name hmem hkeep hstale => ?_,
    ⟨k, hshortest, fun e he => ?_⟩, fun name hmem htmp hout => ?_, fun name hstale hother => ?_, fun name hmem => ?_⟩
  · rw [reports_removed]
    refine hshortest.2.2.imp id fun hall e he => ?_
    obtain ⟨hmem, hkept⟩ := List.mem_filter.1 he
    by_contra hkeep
    refine of_decide_eq_true hkept ?_
    rw [hall, List.take_length]
    exact (mem_evictable keep s).2 ⟨hmem, hkeep⟩
  · refine mem_keys_removed.2 ⟨hmem, fun hgone => ?_⟩
    obtain ⟨e, he, rfl⟩ := (mem_removedNames_of_fresh hstale).1 hgone
    exact (mem_reports_of_take he).2 hkeep
  · rw [mem_keys_removed, not_and, not_not, ← report_mem_removedNames he]
    exact ⟨fun h => h (Listing.mem_reports.1 he).1, fun h _ => h⟩
  · rw [mem_keys_removed, not_and, not_not] at hout
    exact staleTemp_of_removed htmp (hout hmem)
  · rw [OrderedMap.find?_eraseAll, if_neg]
    intro hgone
    obtain ⟨e, he, hname⟩ := (mem_removedNames_of_fresh hstale).1 hgone
    exact hother e (mem_reports_of_take he).1 hname
  · rw [OrderedMap.find?_eraseAll, if_neg (mem_keys_removed.1 hmem).2]

end Whole

/-- A stale temporary file. -/
def exampleListing : Listing := OrderedMap.empty.put ".old.tmp" (.ok ⟨0, 0⟩)

/-- A stale temporary file is removed even if it is `keep`. -/
theorem not_kept_exampleListing : ¬ ∀ (keep : Option String) (maxBytes maxFiles : ℤ) (now : ℚ) (s t : Listing),
    (pruneFolder keep maxBytes maxFiles now).run Listing.answer s = (.returned (), t) →
      ∀ name ∈ s.keys, keep = some name → name ∈ t.keys := by
  intro h
  obtain ⟨k, -, hrun⟩ := run_pruneFolder (some ".old.tmp") 0 0 172800 exampleListing
  have hstale : ".old.tmp" ∈ exampleListing.keys.filter (exampleListing.staleTemp 172800) := by decide +kernel
  have hkept := h _ _ _ _ _ _ hrun ".old.tmp" (by decide +kernel) rfl
  rw [OrderedMap.keys_eraseAll, List.mem_filter, decide_eq_true_eq] at hkept
  exact hkept.2 (List.mem_append_left _ hstale)

end McritSimilarity
