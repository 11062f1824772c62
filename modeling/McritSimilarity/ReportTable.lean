import Mathlib.Algebra.BigOperators.Ring.Finset
import Mathlib.Algebra.Order.BigOperators.Group.List
import McritSimilarity.DiskStages
import McritSimilarity.Lib.TimedFiles
import McritSimilarity.PrunedFolder

/-!
# The table of the report files

What the report folder is for: a table of files, of any version, with their contents and the times of their last use.
A load reads one of them, a store puts one there, and pruning drops the oldest.  `TableCalls` says what each call
answers and what it leaves of the table when some operations of its disk may fail; `TableCalls.bounded` is that the
calls keep the table within the caps.
-/

set_option autoImplicit false

namespace McritSimilarity

open Python Prog TimedFiles

/-- What the names of report files show. -/
abbrev ReportTable := String → Option (List UInt8 × ℚ)

namespace ReportTable

def put (T : ReportTable) (name : String) (content : List UInt8) (time : ℚ) : ReportTable :=
  Function.update T name (some (content, time))

@[simp] theorem put_self (T : ReportTable) (name : String) (content : List UInt8) (time : ℚ) :
    T.put name content time name = some (content, time) := Function.update_self ..

theorem put_of_ne {name other : String} (h : other ≠ name) (T : ReportTable) (content : List UInt8) (time : ℚ) :
    T.put name content time other = T other := Function.update_of_ne h ..

/-- The entry that the scan makes of a file. -/
def scanned? (T : ReportTable) (name : String) : Option PruneEntry := (T name).map fun e => (e.2, e.1.length, name)

def size (T : ReportTable) (name : String) : ℕ := ((T name).map fun e => e.1.length).getD 0

section Changes

variable (faults : Set FileFault)

/-- No file has been used after the time. -/
def Newest (T : ReportTable) (time : ℚ) : Prop := ∀ name e, T name = some e → Passes faults e.2 time

/-- Some files are removed, all of them where removing works. -/
structure Drops (gone : List String) (T T' : ReportTable) : Prop where
  others : ∀ name ∉ gone, T' name = T name
  gone : ∀ name ∈ gone, T' name = none ∨ .remove ∈ faults ∧ T' name = T name

/-- A listing of the files, oldest first, with all of them where listing works. -/
structure Lists (T : ReportTable) (entries : List PruneEntry) : Prop where
  sorted : entries.Pairwise entryLe
  nodup : (entries.map fun e => e.2.2).Nodup
  there : ∀ e ∈ entries, T.scanned? e.2.2 = some e
  all : .list ∉ faults → ∀ name e, T.scanned? name = some e → e ∈ entries

/-- The oldest of the listed files are dropped, but `keep`, until the listed files are within the caps. -/
def Prunes (keep : Option String) (maxBytes maxFiles : ℤ) (T T' : ReportTable) : Prop :=
  ∃ entries, Lists faults T entries ∧ Drops faults ((evictions keep maxBytes maxFiles entries
    (entries.map fun e => (e.2.1 : ℤ)).sum entries.length).map fun e => e.2.2) T T'

end Changes

/-! ## Calls -/

section Calls

variable {R : Type} (codec : ReportCodec R) (faults : Set FileFault)

/-- What `load` answers, and what it leaves of the table. -/
inductive Loads (version sha256 : String) (T : ReportTable) : Option R → ReportTable → Prop where
  | missing (hfile : T (reportPath version sha256) = none) : Loads version sha256 T none T
  | unusable {T' : ReportTable} {content : List UInt8} {time : ℚ}
      (hfile : T (reportPath version sha256) = some (content, time))
      (hcontent : parseReport codec version sha256 content = none ∨ .read ∈ faults)
      (hdrop : Drops faults [reportPath version sha256] T T') : Loads version sha256 T none T'
  | loaded {content : List UInt8} {time now : ℚ} {report : R}
      (hfile : T (reportPath version sha256) = some (content, time))
      (hparse : parseReport codec version sha256 content = some report) (hnow : T.Newest faults now) :
    Loads version sha256 T (some report) (T.put (reportPath version sha256) content now)
  | untouched {content : List UInt8} {time : ℚ} {report : R}
      (hfile : T (reportPath version sha256) = some (content, time))
      (hparse : parseReport codec version sha256 content = some report) (hfault : .touch ∈ faults) :
    Loads version sha256 T (some report) T

/-- How `store` ends, and what it leaves of the table. -/
inductive Stores (version sha256 : String) (report : R) (T : ReportTable) :
    Outcome PyError (Option R) → ReportTable → Prop where
  | stored {T' : ReportTable} {time : ℚ}
      (hfailure : (codec.dump (reportDocument codec version sha256 report)).failure = none)
      (htime : T.Newest faults time)
      (hprune : Prunes faults (some (reportPath version sha256)) maxReportBytes maxReportFiles
        (T.put (reportPath version sha256) (codec.dump (reportDocument codec version sha256 report)).pieces.flatten
          time) T') : Stores version sha256 report T (.returned none) T'
  | unwritten (hfault : .write ∈ faults ∨
      (codec.dump (reportDocument codec version sha256 report)).failure = some .osError) :
    Stores version sha256 report T (.returned none) T
  | failed {e : PyError} (hfailure : (codec.dump (reportDocument codec version sha256 report)).failure = some e)
      (hne : e ≠ .osError) : Stores version sha256 report T (.raised e) T

end Calls

end ReportTable

/-- What may go wrong during a call, the call, and how it ends. -/
abbrev ReportEvent (R : Type) := Set FileFault × DiskCall R × Outcome PyError (Option R)

section Calls

variable {R : Type} (codec : ReportCodec R)

inductive TableCalls (T : ReportTable) : ReportEvent R → ReportTable → Prop where
  | load {faults : Set FileFault} {version sha256 : String} {report : Option R} {T' : ReportTable} (fuel : ℕ)
      (h : T.Loads codec faults version sha256 report T') :
    TableCalls T (faults, .load version sha256 fuel, .returned report) T'
  | store {faults : Set FileFault} {version sha256 : String} {report : R} {out : Outcome PyError (Option R)}
      {T' : ReportTable} (now : ℚ) (h : T.Stores codec faults version sha256 report out T') :
    TableCalls T (faults, .store version sha256 report now, out) T'
  | prune {faults : Set FileFault} {keep : Option String} {maxBytes maxFiles : ℤ} {T' : ReportTable} (now : ℚ)
      (h : T.Prunes faults keep maxBytes maxFiles T') :
    TableCalls T (faults, .prune keep maxBytes maxFiles now, .returned none) T'
  | unlisted {faults : Set FileFault} (keep : Option String) (maxBytes maxFiles : ℤ) (now : ℚ)
      (hfault : .list ∈ faults) :
    TableCalls T (faults, .prune keep maxBytes maxFiles now, .raised .osError) T

end Calls

/-! ## The caps -/

namespace ReportTable

/-- The report files are within the caps, or there is at most one. -/
def Bounded (T : ReportTable) : Prop :=
  ∀ names : List String, names.Nodup → (∀ name ∈ names, T name ≠ none) → names.length ≤ 1 ∨
    ((names.map T.size).sum : ℤ) ≤ maxReportBytes ∧ (names.length : ℤ) ≤ maxReportFiles

/-- Every file is gone, or has the content that it had. -/
def Shrinks (T T' : ReportTable) : Prop := ∀ name, T' name = none ∨ (T' name).map Prod.fst = (T name).map Prod.fst

variable {faults : Set FileFault} {T T' : ReportTable}

theorem size_eq (T : ReportTable) (name : String) : T.size name = (((T name).map Prod.fst).map List.length).getD 0 := by
  rw [size, Option.map_map]
  rfl

theorem size_of_scanned? {e : PruneEntry} (h : T.scanned? e.2.2 = some e) : T.size e.2.2 = e.2.1 := by
  obtain ⟨file, hfile, heq⟩ := Option.map_eq_some_iff.1 h
  rw [size, hfile, ← heq]
  rfl

theorem Bounded.shrinks (hT : T.Bounded) (h : T.Shrinks T') : T'.Bounded := by
  intro names hnodup hthere
  have hcontent : ∀ name ∈ names, (T' name).map Prod.fst = (T name).map Prod.fst :=
    fun name hname => (h name).resolve_left (hthere name hname)
  have hsizes : names.map T'.size = names.map T.size := by
    refine List.map_congr_left fun name hname => ?_
    rw [size_eq, size_eq, hcontent name hname]
  rw [hsizes]
  refine hT names hnodup fun name hname hnone => hthere name hname ?_
  have hgone := hcontent name hname
  rwa [hnone, Option.map_none, Option.map_eq_none_iff] at hgone

theorem Drops.shrinks {gone : List String} (h : Drops faults gone T T') : T.Shrinks T' := by
  intro name
  by_cases hgone : name ∈ gone
  · exact (h.gone name hgone).imp_right fun hkept => congrArg _ hkept.2
  · exact .inr (congrArg _ (h.others name hgone))

theorem Drops.cons {name : String} {gone : List String} {T'' : ReportTable} (h : Drops faults [name] T T')
    (h' : Drops faults gone T' T'') : Drops faults (name :: gone) T T'' := by
  refine ⟨fun other hother => ?_, fun other hother => ?_⟩
  · rw [List.mem_cons, not_or] at hother
    exact (h'.others other hother.2).trans (h.others other (by simpa using hother.1))
  · have hfirst : T' other = none ∨ T' other = T other := by
      by_cases hname : other = name
      · exact (h.gone other (List.mem_singleton.2 hname)).imp_right And.right
      · exact .inr (h.others other (by simpa using hname))
    by_cases hmem : other ∈ gone
    · rcases h'.gone other hmem with hnone | ⟨hremove, hkept⟩
      · exact .inl hnone
      · exact hfirst.imp hkept.trans fun heq => ⟨hremove, hkept.trans heq⟩
    · rw [h'.others other hmem]
      exact h.gone other (List.mem_singleton.2 ((List.mem_cons.1 hother).resolve_right hmem))

/-- A folder that cannot be listed is left as it is. -/
theorem prunes_unlisted (hfault : .list ∈ faults) (T : ReportTable) (keep : Option String) (maxBytes maxFiles : ℤ) :
    T.Prunes faults keep maxBytes maxFiles T :=
  ⟨[], ⟨List.Pairwise.nil, List.nodup_nil, nofun, fun hlist => absurd hfault hlist⟩, fun _ _ => rfl, nofun⟩

theorem Prunes.shrinks {keep : Option String} {maxBytes maxFiles : ℤ} (h : T.Prunes faults keep maxBytes maxFiles T') :
    T.Shrinks T' := by
  obtain ⟨entries, -, hdrops⟩ := h
  exact hdrops.shrinks

/-- The file to keep is kept. -/
theorem Prunes.keeps {keep : String} {maxBytes maxFiles : ℤ} (h : T.Prunes faults (some keep) maxBytes maxFiles T') :
    T' keep = T keep := by
  obtain ⟨entries, -, hdrops⟩ := h
  refine hdrops.others keep fun hmem => ?_
  obtain ⟨k, -, htake⟩ := evictions_eq_take (some keep) maxBytes maxFiles entries
    (entries.map fun e => (e.2.1 : ℤ)).sum entries.length
  obtain ⟨e, he, hname⟩ := List.mem_map.1 hmem
  rw [htake] at he
  have hkeep := List.of_mem_filter (List.mem_of_mem_take he)
  exact of_decide_eq_true hkeep (congrArg some hname.symm)

theorem sum_map_le_of_subperm {α : Type} {xs ys : List α} (h : xs.Subperm ys) (f : α → ℕ) :
    (xs.map f).sum ≤ (ys.map f).sum := by
  obtain ⟨zs, hperm, hsublist⟩ := h
  rw [← (hperm.map f).sum_eq]
  exact (hsublist.map f).sum_le_sum fun _ _ => Nat.zero_le _

/-- Where listing works, some of the listed files are left: those that are not dropped. -/
theorem Lists.subperm {entries : List PruneEntry} {names : List String} (h : Lists faults T entries)
    (gone : List PruneEntry) (hlist : .list ∉ faults) (hnodup : names.Nodup) (hthere : ∀ name ∈ names, T name ≠ none)
    (hkept : ∀ e ∈ gone, e.2.2 ∉ names) :
    names.Subperm ((entries.filter (· ∉ gone)).map fun e => e.2.2) := by
  refine hnodup.subperm fun name hname => ?_
  obtain ⟨file, hfile⟩ := Option.ne_none_iff_exists'.1 (hthere name hname)
  have hentry : T.scanned? name = some (file.2, file.1.length, name) := by rw [scanned?, hfile, Option.map_some]
  refine List.mem_map.2 ⟨(file.2, file.1.length, name), List.mem_filter.2 ⟨h.all hlist name _ hentry, ?_⟩, rfl⟩
  exact decide_eq_true fun hgone => hkept _ hgone hname

/-- Where listing and removing work, pruning brings the files within the caps. -/
theorem Prunes.bounded {keep : String} (h : T.Prunes faults (some keep) maxReportBytes maxReportFiles T')
    (hlist : .list ∉ faults) (hremove : .remove ∉ faults) : T'.Bounded := by
  obtain ⟨entries, hlists, hdrops⟩ := h
  have hwithin := withinCaps_evictions (some keep) maxReportBytes maxReportFiles hlists.nodup.of_map rfl
  generalize evictions (some keep) maxReportBytes maxReportFiles entries _ _ = gone at hdrops hwithin
  have hgone : ∀ e ∈ gone, T' e.2.2 = none := fun e he =>
    (hdrops.gone e.2.2 (List.mem_map_of_mem he)).resolve_right fun h => hremove h.1
  intro names hnodup hthere
  have hkept : ∀ name ∈ names, T' name = T name := fun name hname => hdrops.others name fun hmem => by
    obtain ⟨e, he, rfl⟩ := List.mem_map.1 hmem
    exact hthere _ hname (hgone e he)
  have hsub := hlists.subperm gone hlist hnodup (fun name hname => hkept name hname ▸ hthere name hname)
    fun e he hname => hthere _ hname (hgone e he)
  rcases hwithin with ⟨hbytes, hfiles⟩ | hkeep
  · have hsizes : names.map T'.size = names.map T.size :=
      List.map_congr_left fun name hname => by rw [size, size, hkept name hname]
    have hentries : (entries.filter (· ∉ gone)).map (T.size ∘ fun e => e.2.2) =
        (entries.filter (· ∉ gone)).map fun e => e.2.1 :=
      List.map_congr_left fun e he => size_of_scanned? (hlists.there e (List.mem_of_mem_filter he))
    have hsum := sum_map_le_of_subperm hsub T.size
    rw [List.map_map, hentries, ← hsizes] at hsum
    have hlength := hsub.length_le
    rw [List.length_map] at hlength
    refine .inr ⟨le_trans (Nat.cast_le.2 hsum) ?_, le_trans (Nat.cast_le.2 hlength) hfiles⟩
    rwa [Nat.cast_list_sum, List.map_map]
  · -- No file but `keep` is left.
    have hone : names.Subperm [keep] := by
      refine hnodup.subperm fun name hname => ?_
      obtain ⟨e, he, rfl⟩ := List.mem_map.1 (hsub.subset hname)
      obtain ⟨hmem, hout⟩ := List.mem_filter.1 he
      exact List.mem_singleton.2 (Option.some.inj (hkeep e hmem (of_decide_eq_true hout))).symm
    exact .inl hone.length_le

/-! ### Calls -/

section Calls

variable {R : Type} {codec : ReportCodec R} {version sha256 : String}

theorem Loads.shrinks {report : Option R} (h : T.Loads codec faults version sha256 report T') : T.Shrinks T' := by
  cases h with
  | missing _ => exact fun _ => .inr rfl
  | unusable _ _ hdrop => exact hdrop.shrinks
  | loaded hfile _ _ =>
    intro name
    by_cases hname : name = reportPath version sha256
    · subst hname
      exact .inr (by rw [put_self, hfile, Option.map_some, Option.map_some])
    · exact .inr (by rw [put_of_ne hname])
  | untouched _ _ _ => exact fun _ => .inr rfl

theorem Stores.bounded {report : R} {out : Outcome PyError (Option R)}
    (h : T.Stores codec faults version sha256 report out T') (hlist : .list ∉ faults) (hremove : .remove ∉ faults) :
    T' = T ∨ T'.Bounded := by
  cases h with
  | stored _ _ hprune => exact .inr (hprune.bounded hlist hremove)
  | unwritten _ => exact .inl rfl
  | failed _ _ => exact .inl rfl

end Calls

end ReportTable

/-- A call keeps the table within the caps, if a store can list the files and remove them. -/
theorem TableCalls.bounded {R : Type} {codec : ReportCodec R} {T T' : ReportTable} {l : ReportEvent R}
    (h : TableCalls codec T l T') (hT : T.Bounded) (hworks : l.2.1.IsStore → .list ∉ l.1 ∧ .remove ∉ l.1) :
    T'.Bounded := by
  cases h with
  | load fuel h => exact hT.shrinks h.shrinks
  | store now h =>
    obtain ⟨hlist, hremove⟩ := hworks trivial
    rcases h.bounded hlist hremove with rfl | hbounded
    · exact hT
    · exact hbounded
  | prune now h => exact hT.shrinks h.shrinks
  | unlisted => exact hT

end McritSimilarity
