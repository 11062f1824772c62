import McritSimilarity.DiskRefinement
import McritSimilarity.ReportFolder

/-!
# The report folder as an ordered map

`ReportFolder` keeps the reports of one version of `smda` by the SHA-256 of their binary, oldest first.  `Represents`
relates it to the table of the report files.  On a disk that may fail to write, but not otherwise, and whose clock
moves on, `diskRefinesFolder` is that loads and stores do to the files what `ReportFolder` says.
-/

set_option autoImplicit false

namespace McritSimilarity

open Python Prog TimedFiles

/-- What is written without an error is read back. -/
structure ReportCodec.Lossless {R : Type} (codec : ReportCodec R) : Prop where
  decode : ∀ document, (codec.dump document).failure = none →
    codec.decode (codec.dump document).pieces.flatten = some document
  fromDict : ∀ version sha256 report, (codec.dump (reportDocument codec version sha256 report)).failure = none →
    codec.fromDict (codec.toDict report) = some report

theorem ReportCodec.Lossless.parseReport {R : Type} {codec : ReportCodec R} (hcodec : codec.Lossless)
    (version sha256 : String) (report : R)
    (hfailure : (codec.dump (reportDocument codec version sha256 report)).failure = none) :
    parseReport codec version sha256 (codec.dump (reportDocument codec version sha256 report)).pieces.flatten =
      some report := by
  have hformat : (reportDocument codec version sha256 report).get "format" = .ok (.int formatVersion) := rfl
  have hsmda : (reportDocument codec version sha256 report).get "smda" = .ok (.str (smdaVersion version)) := rfl
  have hsha : (reportDocument codec version sha256 report).get "sha256" = .ok (.str sha256) := rfl
  have hreport : (reportDocument codec version sha256 report).getItem "report" = .ok (codec.toDict report) := rfl
  have hheader : headerMatches version sha256 (reportDocument codec version sha256 report) = true := by
    simp [headerMatches, hformat, hsmda, hsha, Json.eqInt, Json.eqStr]
  rw [McritSimilarity.parseReport, hcodec.decode _ hfailure, Option.bind_eq_bind, Option.bind_some, if_pos hheader,
    hreport]
  exact hcodec.fromDict version sha256 report hfailure

/-! ## Tables and folders -/

/-- The time of the last use of a file. -/
def ReportTable.usedAt (T : ReportTable) (name : String) : ℚ := ((T name).map Prod.snd).getD 0

section Represents

variable (codec : ReportCodec SmdaReport) (version : String)

/-- A content, as the folder keeps it. -/
def storedReport (sha256 : String) (content : List UInt8) : StoredReport :=
  ⟨parseReport codec version sha256 content, content.length⟩

/-- The report files are those of the folder, in the order of their last uses. -/
structure Represents (T : ReportTable) (folder : ReportFolder) : Prop where
  found : ∀ sha256, (T (reportPath version sha256)).map (fun e => storedReport codec version sha256 e.1) =
    folder.find? sha256
  named : ∀ name e, T name = some e → ∃ sha256, name = reportPath version sha256
  ordered : folder.keys.Pairwise fun sha256 sha256' =>
    T.usedAt (reportPath version sha256) < T.usedAt (reportPath version sha256')

end Represents

section Changes

variable {codec : ReportCodec SmdaReport} {version sha256 : String} {T T' : ReportTable} {folder : ReportFolder}
  {faults : Set FileFault}

theorem notMem_of_writes (hfaults : faults ⊆ {.write}) {fault : FileFault} (hne : fault ≠ .write) : fault ∉ faults :=
  fun hfault => hne (hfaults hfault)

theorem Represents.file_of_find? (h : Represents codec version T folder) {file : StoredReport}
    (hfile : folder.find? sha256 = some file) : ∃ e, T (reportPath version sha256) = some e ∧
      storedReport codec version sha256 e.1 = file := by
  have hfound := h.found sha256
  rw [hfile] at hfound
  exact Option.map_eq_some_iff.1 hfound

/-- Reports whose files are removed. -/
theorem Represents.eraseAll (h : Represents codec version T folder) {gone : List String}
    (hdrops : T.Drops faults (gone.map (reportPath version)) T') (hremove : .remove ∉ faults) :
    Represents codec version T' (folder.eraseAll gone) := by
  have hmem : ∀ {sha256}, reportPath version sha256 ∈ gone.map (reportPath version) ↔ sha256 ∈ gone :=
    List.mem_map_of_injective fun _ _ heq => (reportPath_inj heq).1
  have hgone : ∀ {name}, name ∈ gone.map (reportPath version) → T' name = none := fun hname =>
    (hdrops.gone _ hname).resolve_right fun h => hremove h.1
  refine ⟨fun sha256 => ?_, fun name e he => ?_, ?_⟩
  · rw [OrderedMap.find?_eraseAll]
    split_ifs with hsha
    · rw [hgone (hmem.2 hsha), Option.map_none]
    · rw [hdrops.others _ (mt hmem.1 hsha)]
      exact h.found sha256
  · have hout : name ∉ gone.map (reportPath version) := fun hname => by
      rw [hgone hname] at he
      cases he
    rw [hdrops.others name hout] at he
    exact h.named name e he
  · rw [OrderedMap.keys_eraseAll]
    refine (h.ordered.filter _).imp_of_mem fun {a b} ha hb hlt => ?_
    rw [List.mem_filter, decide_eq_true_eq] at ha hb
    rwa [ReportTable.usedAt, ReportTable.usedAt, hdrops.others _ (mt hmem.1 ha.2), hdrops.others _ (mt hmem.1 hb.2)]

/-- A report whose file is the last one used. -/
theorem Represents.newest (h : Represents codec version T folder) {time : ℚ}
    (htime : T.Newest faults time) (htie : .tie ∉ faults) (sha256 : String) (content : List UInt8) :
    Represents codec version (T.put (reportPath version sha256) content time)
      (folder.append sha256 (storedReport codec version sha256 content)) := by
  have hpath : ∀ {sha256'}, sha256' ≠ sha256 → T.put (reportPath version sha256) content time
      (reportPath version sha256') = T (reportPath version sha256') :=
    fun hne => ReportTable.put_of_ne (fun heq => hne (reportPath_inj heq).1) ..
  refine ⟨fun sha256' => ?_, fun name e he => ?_, ?_⟩
  · rw [OrderedMap.find?_append]
    split_ifs with heq
    · rw [heq, ReportTable.put_self, Option.map_some]
    · rw [hpath heq]
      exact h.found sha256'
  · by_cases hname : name = reportPath version sha256
    · exact ⟨sha256, hname⟩
    · rw [ReportTable.put_of_ne hname] at he
      exact h.named name e he
  · rw [OrderedMap.keys_append, OrderedMap.keys_erase]
    refine List.pairwise_append.2 ⟨?_, List.pairwise_singleton .., fun a ha b hb => ?_⟩
    · refine (h.ordered.filter _).imp_of_mem fun {a b} ha hb hlt => ?_
      rw [List.mem_filter, decide_eq_true_eq] at ha hb
      rwa [ReportTable.usedAt, ReportTable.usedAt, hpath ha.2, hpath hb.2]
    · rw [List.mem_filter, decide_eq_true_eq] at ha
      rw [List.mem_singleton] at hb
      subst hb
      obtain ⟨file, hfile⟩ := OrderedMap.mem_keys_iff.1 ha.1
      obtain ⟨e, he, -⟩ := h.file_of_find? hfile
      rw [ReportTable.usedAt, ReportTable.usedAt, hpath ha.2, he, ReportTable.put_self]
      exact (htime _ _ he).2 htie

end Changes

/-! ## Pruning -/

section Prune

instance : Std.Antisymm entryLe where
  antisymm a b := by
    simp only [entryLe_iff]
    intro hab hba
    have heq := toLex.injective (le_antisymm hab hba)
    rw [Prod.mk.injEq] at heq
    exact Prod.ext heq.1 (toLex.injective heq.2)

variable {codec : ReportCodec SmdaReport} {version : String} {T T' : ReportTable} {folder : ReportFolder}

/-- The entries of the reports, oldest first. -/
def folderEntries (version : String) (T : ReportTable) (files : List (String × StoredReport)) : List PruneEntry :=
  files.map fun file => (T.usedAt (reportPath version file.1), file.2.size, reportPath version file.1)

theorem folderEntries_cons (T : ReportTable) (file : String × StoredReport) (files : List (String × StoredReport)) :
    folderEntries version T (file :: files) =
      (T.usedAt (reportPath version file.1), file.2.size, reportPath version file.1) :: folderEntries version T files :=
  rfl

/-- The loop over the reports drops what `pruneLoop` drops. -/
theorem exists_eraseAll_pruneLoop (T : ReportTable) (keep : String) {kept files : List (String × StoredReport)}
    (hfolder : folder.entries = kept ++ files) {total count : ℕ}
    (hbytes : (files.map fun file => file.2.size).sum ≤ total) (hcount : files.length ≤ count) :
    ∃ gone, (evictions (some (reportPath version keep)) maxReportBytes maxReportFiles (folderEntries version T files)
        total count).map (fun e => e.2.2) = gone.map (reportPath version) ∧
      OrderedMap.entries (folder.eraseAll gone) = kept ++ ReportFolder.pruneLoop keep files total count := by
  have hcaps : ∀ total count : ℕ, ((total : ℤ) ≤ maxReportBytes ∧ (count : ℤ) ≤ maxReportFiles) ↔
      (total ≤ ReportFolder.maxBytes ∧ count ≤ ReportFolder.maxFiles) := by
    intro total count
    simp only [maxReportBytes, maxReportFiles, ReportFolder.maxBytes, ReportFolder.maxFiles]
    omega
  induction files generalizing kept folder total count with
  | nil => exact ⟨[], rfl, hfolder⟩
  | cons file files ih =>
    rw [List.map_cons, List.sum_cons] at hbytes
    rw [List.length_cons] at hcount
    rw [folderEntries_cons]
    unfold evictions ReportFolder.pruneLoop
    simp only [hcaps]
    by_cases hfits : total ≤ ReportFolder.maxBytes ∧ count ≤ ReportFolder.maxFiles
    · rw [if_pos hfits, if_pos hfits]
      exact ⟨[], rfl, hfolder⟩
    · rw [if_neg hfits, if_neg hfits]
      by_cases hkeep : file.1 = keep
      · rw [if_pos hkeep, if_pos (by rw [hkeep])]
        have hbytes' : (files.map fun file => file.2.size).sum ≤ total := by omega
        have hcount' : files.length ≤ count := by omega
        have hrest := ih (by rw [hfolder, List.append_cons]) hbytes' hcount'
        simpa only [List.append_assoc, List.singleton_append] using hrest
      · have hne : some (reportPath version keep) ≠ some (reportPath version file.1) :=
          fun heq => hkeep (reportPath_inj (Option.some.inj heq)).1.symm
        rw [if_neg hkeep, if_neg hne]
        -- The oldest file that may go.
        have hbytes' : (files.map fun file => file.2.size).sum ≤ total - file.2.size := by omega
        have hcount' : files.length ≤ count - 1 := by omega
        obtain ⟨gone, hnames, hentries⟩ := ih (OrderedMap.entries_erase hfolder) hbytes' hcount'
        rw [Nat.cast_sub (by omega), Nat.cast_sub (by omega), Nat.cast_one] at hnames
        exact ⟨file.1 :: gone, congrArg (reportPath version file.1 :: ·) hnames, hentries⟩

theorem mem_folderEntries (hs : Represents codec version T folder) {e : PruneEntry} :
    e ∈ folderEntries version T folder.entries ↔ T.scanned? e.2.2 = some e := by
  unfold folderEntries
  rw [List.mem_map]
  constructor
  · rintro ⟨⟨sha256, file⟩, hmem, rfl⟩
    obtain ⟨entry, hentry, rfl⟩ := hs.file_of_find? (OrderedMap.find?_eq_some_iff.2 hmem)
    simp [ReportTable.scanned?, ReportTable.usedAt, hentry, storedReport]
  · intro he
    obtain ⟨entry, hentry, heq⟩ := Option.map_eq_some_iff.1 he
    obtain ⟨sha256, hname⟩ := hs.named _ _ hentry
    have hfound := hs.found sha256
    rw [← hname, hentry, Option.map_some] at hfound
    refine ⟨(sha256, _), OrderedMap.find?_eq_some_iff.1 hfound.symm, ?_⟩
    rw [← hname, ReportTable.usedAt, hentry]
    exact heq

theorem nodup_folderEntries : (folderEntries version T folder.entries).Nodup := by
  have hnames : (folderEntries version T folder.entries).map (fun e => e.2.2) =
      folder.keys.map (reportPath version) := by
    simp only [folderEntries, OrderedMap.keys, List.map_map]
    rfl
  refine List.Nodup.of_map (fun e => e.2.2) ?_
  rw [hnames]
  exact folder.nodup_keys.map fun sha256 sha256' heq => (reportPath_inj heq).1

/-- A complete listing of the files is that of the folder, as both are in order. -/
theorem Represents.lists (hs : Represents codec version T folder) {faults : Set FileFault} {entries : List PruneEntry}
    (hlists : T.Lists faults entries) (hlist : .list ∉ faults) : entries = folderEntries version T folder.entries := by
  have hordered : (folderEntries version T folder.entries).Pairwise entryLe := by
    have hkeys := hs.ordered
    rw [OrderedMap.keys, List.pairwise_map] at hkeys
    exact List.pairwise_map.2 (hkeys.imp .inl)
  refine List.Perm.eq_of_pairwise' hlists.sorted hordered ?_
  refine (List.perm_ext_iff_of_nodup hlists.nodup.of_map nodup_folderEntries).2 fun e => ?_
  rw [mem_folderEntries hs]
  exact ⟨hlists.there e, hlists.all hlist e.2.2 e⟩

/-- `prune` is `ReportFolder.prune`. -/
theorem Represents.prune (hs : Represents codec version T folder) {faults : Set FileFault} {keep : String}
    (h : T.Prunes faults (some (reportPath version keep)) maxReportBytes maxReportFiles T') (hlist : .list ∉ faults)
    (hremove : .remove ∉ faults) : Represents codec version T' (folder.prune keep) := by
  obtain ⟨entries, hlists, hdrops⟩ := h
  obtain rfl := hs.lists hlists hlist
  have hbytes : ((folderEntries version T folder.entries).map fun e => (e.2.1 : ℤ)).sum =
      ((folder.entries.map fun file => file.2.size).sum : ℕ) := by
    rw [folderEntries, List.map_map, Nat.cast_list_sum, List.map_map]
    rfl
  have hcount : (folderEntries version T folder.entries).length = folder.entries.length := List.length_map ..
  obtain ⟨gone, hnames, hentries⟩ := exists_eraseAll_pruneLoop T keep (List.nil_append folder.entries).symm le_rfl
    le_rfl
  rw [hbytes, hcount, hnames] at hdrops
  have hprune : folder.prune keep = folder.eraseAll gone := OrderedMap.ext hentries.symm
  rw [hprune]
  exact hs.eraseAll hdrops hremove

end Prune

/-! ## Runs -/

section Runs

variable (codec : ReportCodec SmdaReport) (version : String)

/-- A call on the folder: `load` is a function, and `store` may fail. -/
inductive FolderCalls (folder : ReportFolder) : ReportEvent SmdaReport → ReportFolder → Prop where
  | load (faults : Set FileFault) (sha256 : String) (fuel : ℕ) :
    FolderCalls folder (faults, .load version sha256 fuel, .returned (folder.load sha256).1) (folder.load sha256).2
  | stored (faults : Set FileFault) {sha256 : String} {report : SmdaReport} (now : ℚ)
      (hfailure : (codec.dump (reportDocument codec version sha256 report)).failure = none) :
    FolderCalls folder (faults, .store version sha256 report now, .returned none) (folder.store sha256 report
      (some (codec.dump (reportDocument codec version sha256 report)).pieces.flatten.length))
  | unwritten (faults : Set FileFault) (sha256 : String) (report : SmdaReport) (now : ℚ) :
    FolderCalls folder (faults, .store version sha256 report now, .returned none) (folder.store sha256 report none)
  | failed (faults : Set FileFault) {sha256 : String} {report : SmdaReport} (now : ℚ) {e : PyError}
      (hfailure : (codec.dump (reportDocument codec version sha256 report)).failure = some e) :
    FolderCalls folder (faults, .store version sha256 report now, .raised e) (folder.store sha256 report none)

/-- A load or a store of a version on a disk that may fail to write. -/
def OnlyWritesFail (l : ReportEvent SmdaReport) : Prop :=
  l.1 ⊆ {.write} ∧ match l.2.1 with
    | .load version' _ _ => version' = version
    | .store version' _ _ _ => version' = version
    | .prune _ _ _ _ => False

variable {codec version} {T T' : ReportTable} {folder : ReportFolder}

/-- `load` is `ReportFolder.load`. -/
theorem Represents.load (hs : Represents codec version T folder) {faults : Set FileFault} (hfaults : faults ⊆ {.write})
    {sha256 : String} {report : Option SmdaReport} (h : T.Loads codec faults version sha256 report T') :
    report = (folder.load sha256).1 ∧ Represents codec version T' (folder.load sha256).2 := by
  have hfind : ∀ {content time}, T (reportPath version sha256) = some (content, time) →
      folder.find? sha256 = some (storedReport codec version sha256 content) := by
    intro content time hfile
    rw [← hs.found, hfile, Option.map_some]
  cases h with
  | missing hfile =>
    have hnone : folder.find? sha256 = none := by rw [← hs.found, hfile, Option.map_none]
    rw [ReportFolder.load, hnone]
    exact ⟨rfl, hs⟩
  | unusable hfile hcontent hdrop =>
    have hparse := hcontent.resolve_right (notMem_of_writes hfaults (by decide))
    have hgone : T.Drops faults ([sha256].map (reportPath version)) T' := hdrop
    rw [ReportFolder.load, hfind hfile, storedReport, hparse]
    exact ⟨rfl, hs.eraseAll hgone (notMem_of_writes hfaults (by decide))⟩
  | loaded hfile hparse hnow =>
    rw [ReportFolder.load, hfind hfile, storedReport, hparse]
    refine ⟨rfl, ?_⟩
    rw [OrderedMap.moveToEnd, hfind hfile]
    exact hs.newest hnow (notMem_of_writes hfaults (by decide)) sha256 _
  | untouched _ _ hfault => exact absurd hfault (notMem_of_writes hfaults (by decide))

/-- `store` is `ReportFolder.store`, or has failed. -/
theorem Represents.store (hcodec : codec.Lossless) (hs : Represents codec version T folder) {faults : Set FileFault}
    (hfaults : faults ⊆ {.write}) {sha256 : String} {report : SmdaReport} (now : ℚ)
    {out : Outcome PyError (Option SmdaReport)} (h : T.Stores codec faults version sha256 report out T') :
    ∃ folder', FolderCalls codec version folder (faults, .store version sha256 report now, out) folder' ∧
      Represents codec version T' folder' := by
  cases h with
  | stored hfailure htime hprune =>
    have hnew := hs.newest htime (notMem_of_writes hfaults (by decide)) sha256
      (codec.dump (reportDocument codec version sha256 report)).pieces.flatten
    rw [storedReport, hcodec.parseReport version sha256 report hfailure] at hnew
    exact ⟨_, .stored faults now hfailure, hnew.prune hprune (notMem_of_writes hfaults (by decide))
      (notMem_of_writes hfaults (by decide))⟩
  | unwritten _ => exact ⟨folder, .unwritten faults sha256 report now, hs⟩
  | failed hfailure _ => exact ⟨folder, .failed faults now hfailure, hs⟩

theorem folderCalls_of_tableCalls (hcodec : codec.Lossless) (hs : Represents codec version T folder)
    {l : ReportEvent SmdaReport} (hl : OnlyWritesFail version l) (h : TableCalls codec T l T') :
    ∃ folder', FolderCalls codec version folder l folder' ∧ Represents codec version T' folder' := by
  obtain ⟨hfaults, hcall⟩ := hl
  cases h with
  | load fuel hloads =>
    obtain rfl := hcall
    obtain ⟨rfl, hT⟩ := hs.load hfaults hloads
    exact ⟨_, .load _ _ fuel, hT⟩
  | store now hstores =>
    obtain rfl := hcall
    exact hs.store hcodec hfaults now hstores
  | prune => exact hcall.elim
  | unlisted => exact hcall.elim

/-- On a disk that may only fail to write, loads and stores are those of the ordered map. -/
theorem diskRefinesFolder (hcodec : codec.Lossless) {s t : ReportDisk} {tr : List (ReportEvent SmdaReport)}
    (hs : s.WellTimed) (hfolder : Represents codec version (reportTable s) folder)
    (htr : ∀ l ∈ tr, OnlyWritesFail version l) (h : Steps (DiskCalls codec) s tr t) :
    ∃ folder', Steps (FolderCalls codec version) folder tr folder' ∧
      Represents codec version (reportTable t) folder' := by
  obtain ⟨-, hrun⟩ := tableSteps_of_diskSteps hs h
  clear h
  generalize reportTable s = T at hrun hfolder
  generalize reportTable t = T' at hrun
  induction hrun generalizing folder with
  | refl => exact ⟨folder, .refl folder, hfolder⟩
  | cons hcall _ ih =>
    rw [List.forall_mem_cons] at htr
    obtain ⟨folder₁, hfirst, hnext⟩ := folderCalls_of_tableCalls hcodec hfolder htr.1 hcall
    obtain ⟨folder₂, hrest, hend⟩ := ih htr.2 hnext
    exact ⟨folder₂, .cons hfirst hrest, hend⟩

end Runs

end McritSimilarity
