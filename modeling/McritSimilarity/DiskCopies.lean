import McritSimilarity.StaleBlocks

/-!
# Reports of an analysis that has changed

A file that is exported again, after its analysis has changed, is exported under another key.  `rebuiltSince_iff` says
when its report has been built since: the memory holds no other one under the new key, and where it holds none, the
disk copy of the earlier analysis is not loaded.
-/

set_option autoImplicit false

namespace McritSimilarity

open Prog

variable {h : Hashing} {files : FileId → OpenFile}

/-- A state that a process comes to: the files have the same bytes, and time has gone on. -/
structure Later (s t : ExportState) : Prop where
  owned : t.Owned
  raw : ∀ f, (t.files f).raw = (s.files f).raw
  clock : s.clock ≤ t.clock

section Steps

variable {w : CallWorld} {f : FileId} {s t u : ExportState}

theorem ExportState.Owned.later (hs : s.Owned) : Later s s := ⟨hs, fun _ => rfl, le_rfl⟩

theorem Later.trans (h : Later s t) (h' : Later t u) : Later s u :=
  ⟨h'.owned, fun f => (h'.raw f).trans (h.raw f), h.clock.trans h'.clock⟩

theorem Looked.later (h : Looked f s t) : Later s t := ⟨h.owned, fun g => by rw [h.files], h.clock⟩

theorem Exported.later {out : Outcome PyError Report} (h : Exported f w (s.settle f w) t out) : Later s t := by
  refine ⟨h.owned, fun g => ?_, h.clock⟩
  rw [h.files, ExportState.settle, s.raw_analyse]

theorem preserves_later_renderBlocks (source target : RenderedFunction) :
    Preserves (ExportSem w) (Later s) (renderBlocks h source target) := by
  refine preserves_renderBlocks (fun t u hu ht => ht.trans (hu.looked ht.owned 0).later)
    (fun t u key blocks hu ht => ?_)
    (fun f t ht => (ensures_cachedReport ht.owned f).mono fun _ _ hu => ht.trans hu.looked.later) source target
  exact ht.trans ⟨hu.owned_of_ne ht.owned nofun nofun nofun, fun g => by rw [hu.files], hu.clock.ge⟩

theorem ExportStep.later {l : ExportLabel} (hstep : ExportStep h s l t) (hs : s.Owned) : Later s t := by
  cases hstep with
  | analyse f a => exact ⟨hs.analyse f a, fun g => s.raw_analyse f a g, le_rfl⟩
  | evict c key => exact ⟨hs.evict c key, fun _ => rfl, le_rfl⟩
  | @call _ c w out hrun =>
    cases c with
    | exportReport f stops =>
      rcases (ensures_exportSmdaReport hs f stops).runsTo hrun with ⟨hquiet, -⟩ | hexported
      · exact (hquiet.looked hs f).later
      · exact hexported.later
    | preload f => exact ((ensures_preloadReport hs f).runsTo hrun).later
    | cachedReport f => exact ((ensures_cachedReport hs f).runsTo hrun).looked.later
    | render source target => exact (preserves_later_renderBlocks source target s hs.later).runsTo hrun

theorem ExportState.Obtained.clock_le {r : Report} (h : s.Obtained f r) (hbuilt : r.built = true) :
    s.clock ≤ r.made := by
  rcases h with ⟨-, hloaded, -⟩ | ⟨-, -, hmade, -⟩
  · rw [hloaded] at hbuilt
    cases hbuilt
  · exact hmade

end Steps

end McritSimilarity
