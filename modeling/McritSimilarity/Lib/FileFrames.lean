import McritSimilarity.Lib.Files

/-!
# Files that are written aside

Several owners of a folder, each with at most one handle and one temporary file of its own.  Files are
written under temporary names only, and have one handle to write them (`WrittenAside`); a file without such
a handle stays without one.  `Leaves` is what an operation of one owner leaves to the others: their
handles, the files these write, and their temporary names, which may however be removed.
-/

set_option autoImplicit false

namespace Files

variable {N : Type}

/-- No handle could write the file. -/
def Sealed (s : Files N) (file : ℕ) : Prop :=
  ∀ fd h, s.handles fd = some h → h.writable = true → h.file ≠ file

/-- A file has at most one handle to write it, and only temporary names while it has one. -/
structure WrittenAside (s : Files N) : Prop where
  wellFormed : s.WellFormed
  one_writer : ∀ fd fd' h h', s.handles fd = some h → s.handles fd' = some h' → h.writable = true →
    h'.writable = true → h.file = h'.file → fd = fd'
  temporary : ∀ fd h name, s.handles fd = some h → h.writable = true → s.names name = some h.file →
    name ∈ s.temps

/-- What the owner of a handle and a temporary file leaves to others. -/
structure Leaves (own : Option ℕ) (temp : Option N) (s s' : Files N) : Prop where
  handles : ∀ fd, fd < s.nextHandle → own ≠ some fd → s'.handles fd = s.handles fd
  content : ∀ file, file < s.nextFile → (∀ fd h, own = some fd → s.handles fd = some h → h.writable = true →
    h.file ≠ file) → s'.content file = s.content file
  names : ∀ name ∈ s.temps, temp ≠ some name → s'.names name = s.names name ∨ s'.names name = none
  stays : ∀ file, file < s.nextFile → s.Sealed file → s'.Sealed file
  nextHandle_le : s.nextHandle ≤ s'.nextHandle
  temps : ∀ name ∈ s.temps, name ∈ s'.temps

variable {own : Option ℕ} {temp : Option N} {s : Files N}

theorem writtenAside_empty : (empty : Files N).WrittenAside := ⟨wellFormed_empty, nofun, nofun⟩

theorem leaves_refl (own : Option ℕ) (temp : Option N) (s : Files N) : Leaves own temp s s :=
  ⟨fun _ _ _ => rfl, fun _ _ _ => rfl, fun _ _ _ => Or.inl rfl, fun _ _ h => h, le_rfl, fun _ h => h⟩

/-- A file keeps its content for all but the one that writes it. -/
theorem Leaves.content_of_sealed {s' : Files N} (h : Leaves own temp s s') {file : ℕ} (hlt : file < s.nextFile)
    (hsealed : s.Sealed file) : s'.content file = s.content file :=
  h.content file hlt fun fd h' _ hfd hw => hsealed fd h' hfd hw

/-! ## Handles -/

/-- The handles that could write are those from before. -/
theorem writtenAside_of_handles {s' : Files N} (hs : s.WrittenAside) (hwf : s'.WellFormed)
    (hhandles : ∀ fd h', s'.handles fd = some h' → h'.writable = true →
      ∃ h, s.handles fd = some h ∧ h.writable = true ∧ h.file = h'.file)
    (hnames : ∀ name file, s'.names name = some file → s.names name = some file ∨ s.Sealed file)
    (htemps : ∀ name ∈ s.temps, name ∈ s'.temps) : s'.WrittenAside where
  wellFormed := hwf
  one_writer fd fd' h h' hfd hfd' hw hw' hfile := by
    obtain ⟨h₁, hfd₁, hw₁, hfile₁⟩ := hhandles fd h hfd hw
    obtain ⟨h₂, hfd₂, hw₂, hfile₂⟩ := hhandles fd' h' hfd' hw'
    exact hs.one_writer fd fd' h₁ h₂ hfd₁ hfd₂ hw₁ hw₂ (hfile₁.trans (hfile.trans hfile₂.symm))
  temporary fd h name hfd hw hname := by
    obtain ⟨h₁, hfd₁, hw₁, hfile₁⟩ := hhandles fd h hfd hw
    rcases hnames name h.file hname with hname | hsealed
    · exact htemps name (hs.temporary fd h₁ name hfd₁ hw₁ (hfile₁ ▸ hname))
    · exact absurd hfile₁ (hsealed fd h₁ hfd₁ hw₁)

theorem sealed_of_handles {s' : Files N} {file : ℕ}
    (hhandles : ∀ fd h', s'.handles fd = some h' → h'.writable = true →
      ∃ h, s.handles fd = some h ∧ h.writable = true ∧ h.file = h'.file)
    (h : s.Sealed file) : s'.Sealed file := by
  intro fd h' hfd hw heq
  obtain ⟨h₁, hfd₁, hw₁, hfile₁⟩ := hhandles fd h' hfd hw
  exact h fd h₁ hfd₁ hw₁ (hfile₁.trans heq)

/-- Of a folder with another handle in one place: it is none to write, or it writes what the one there wrote. -/
theorem writers_update {own : ℕ} {slot : Option Handle} (hslot : ∀ h', slot = some h' → h'.writable = true →
      ∃ h, s.handles own = some h ∧ h.writable = true ∧ h.file = h'.file) {fd : ℕ} {h' : Handle}
    (hfd : Function.update s.handles own slot fd = some h') (hw : h'.writable = true) :
    ∃ h, s.handles fd = some h ∧ h.writable = true ∧ h.file = h'.file := by
  by_cases heq : fd = own
  · subst heq
    rw [Function.update_self] at hfd
    exact hslot h' hfd hw
  · rw [Function.update_of_ne heq] at hfd
    exact ⟨h', hfd, hw, rfl⟩

theorem writers_openHandle {h : Handle} (hread : h.writable = false) {fd : ℕ} {h' : Handle}
    (hfd : (s.openHandle h).handles fd = some h') (hw : h'.writable = true) :
    ∃ h, s.handles fd = some h ∧ h.writable = true ∧ h.file = h'.file := by
  refine writers_update (fun h' heq hw => ?_) hfd hw
  cases heq
  exact absurd (hread.symm.trans hw) (by decide)

/-- Of a folder with a handle that has moved on. -/
theorem writers_moveHandle {own : ℕ} {h : Handle} (hown : s.handles own = some h) (position : ℕ) {fd : ℕ}
    {h' : Handle} (hfd : Function.update s.handles own (some { h with position := position }) fd = some h')
    (hw : h'.writable = true) : ∃ h, s.handles fd = some h ∧ h.writable = true ∧ h.file = h'.file := by
  refine writers_update (fun h' heq hw => ?_) hfd hw
  cases heq
  exact ⟨h, hown, hw, rfl⟩

theorem writers_closeHandle {own fd : ℕ} {h' : Handle} (hfd : (s.closeHandle own).handles fd = some h')
    (hw : h'.writable = true) : ∃ h, s.handles fd = some h ∧ h.writable = true ∧ h.file = h'.file := by
  refine writers_update (fun h' heq hw => ?_) hfd hw
  cases heq

/-! ## The operations -/

/-- Only a handle of its own changes, and a file that the handle writes. -/
theorem leaves_own (temp : Option N) {fd : ℕ} {slot : Option Handle} {content : ℕ → List UInt8}
    (hslot : ∀ h', slot = some h' → h'.writable = true →
      ∃ h, s.handles fd = some h ∧ h.writable = true ∧ h.file = h'.file)
    (hcontent : ∀ file, (∀ h, s.handles fd = some h → h.writable = true → h.file ≠ file) →
      content file = s.content file) :
    Leaves (some fd) temp s { s with content := content, handles := Function.update s.handles fd slot } where
  handles _ _ hne := Function.update_of_ne (fun heq => hne (congrArg some heq.symm)) _ _
  content file _ hother := hcontent file fun h => hother fd h rfl
  names _ _ _ := Or.inl rfl
  stays _ _ := sealed_of_handles fun _ _ => writers_update hslot
  nextHandle_le := le_rfl
  temps _ hname := hname

theorem WrittenAside.openRead (hs : s.WrittenAside) {h : Handle} (hread : h.writable = false)
    (hfile : h.file < s.nextFile) : (s.openHandle h).WrittenAside :=
  writtenAside_of_handles hs (hs.wellFormed.openHandle hfile) (fun _ _ => writers_openHandle hread)
    (fun _ _ => Or.inl) fun _ hname => hname

theorem leaves_openRead (own : Option ℕ) (temp : Option N) {h : Handle} (hread : h.writable = false) :
    Leaves own temp s (s.openHandle h) where
  handles _ hlt _ := Function.update_of_ne (Nat.ne_of_lt hlt) _ _
  content _ _ _ := rfl
  names _ _ _ := Or.inl rfl
  stays _ _ := sealed_of_handles fun _ _ => writers_openHandle hread
  nextHandle_le := Nat.le_succ _
  temps _ hname := hname

theorem WrittenAside.advance (hs : s.WrittenAside) {fd : ℕ} {h : Handle} (hfd : s.handles fd = some h)
    (bytes : List UInt8) : (s.advance fd h bytes).WrittenAside :=
  writtenAside_of_handles hs (hs.wellFormed.moveHandle hfd _ _) (fun _ _ => writers_moveHandle hfd _)
    (fun _ _ => Or.inl) fun _ hname => hname

theorem leaves_advance (temp : Option N) {fd : ℕ} {h : Handle} (hfd : s.handles fd = some h)
    (bytes : List UInt8) : Leaves (some fd) temp s (s.advance fd h bytes) := by
  refine leaves_own temp (fun h' heq hw => ?_) fun _ _ => rfl
  cases heq
  exact ⟨h, hfd, hw, rfl⟩

theorem WrittenAside.close (hs : s.WrittenAside) (fd : ℕ) : (s.closeHandle fd).WrittenAside :=
  writtenAside_of_handles hs (hs.wellFormed.closeHandle fd) (fun _ _ => writers_closeHandle)
    (fun _ _ => Or.inl) fun _ hname => hname

theorem leaves_close (temp : Option N) (fd : ℕ) : Leaves (some fd) temp s (s.closeHandle fd) := by
  refine leaves_own temp (fun h' heq hw => ?_) fun _ _ => rfl
  cases heq

/-- Once its handle is closed a file is not written any more. -/
theorem WrittenAside.sealed_close (hs : s.WrittenAside) {fd : ℕ} {h : Handle} (hfd : s.handles fd = some h)
    (hw : h.writable = true) : (s.closeHandle fd).Sealed h.file := by
  intro fd' h' hfd' hw' hfile
  by_cases heq : fd' = fd
  · subst heq
    simp only [Files.closeHandle, Function.update_self] at hfd'
    cases hfd'
  · simp only [Files.closeHandle, Function.update_of_ne heq] at hfd'
    exact heq (hs.one_writer fd' fd h' h hfd' hfd hw' hw hfile)

theorem WrittenAside.write (hs : s.WrittenAside) {fd : ℕ} {h : Handle} (hfd : s.handles fd = some h)
    (bytes : List UInt8) : (s.writeAt fd h bytes).WrittenAside :=
  writtenAside_of_handles hs (hs.wellFormed.moveHandle hfd _ _) (fun _ _ => writers_moveHandle hfd _)
    (fun _ _ => Or.inl) fun _ hname => hname

theorem leaves_write (temp : Option N) {fd : ℕ} {h : Handle} (hfd : s.handles fd = some h)
    (hw : h.writable = true) (bytes : List UInt8) : Leaves (some fd) temp s (s.writeAt fd h bytes) := by
  refine leaves_own temp (fun h' heq hw => ?_) fun file hother => Function.update_of_ne (hother h hfd hw).symm _ _
  cases heq
  exact ⟨h, hfd, hw, rfl⟩

variable [DecidableEq N]

theorem WrittenAside.rename (hs : s.WrittenAside) {source target : N} {file : ℕ}
    (hsource : s.names source = some file) (hsealed : s.Sealed file) :
    (s.rename source target file).WrittenAside := by
  refine writtenAside_of_handles hs (hs.wellFormed.rename hsource) (fun fd h hfd hw => ⟨h, hfd, hw, rfl⟩)
    (fun name file' hname => ?_) fun _ hname => hname
  by_cases htarget : name = target
  · subst htarget
    simp only [Files.rename, Function.update_self, Option.some.injEq] at hname
    exact Or.inr (hname ▸ hsealed)
  · simp only [Files.rename, Function.update_of_ne htarget] at hname
    by_cases heq : name = source
    · subst heq
      rw [Function.update_self] at hname
      cases hname
    · rw [Function.update_of_ne heq] at hname
      exact Or.inl hname

theorem leaves_rename (own : Option ℕ) {source target : N} (htarget : target ∉ s.temps) (file : ℕ) :
    Leaves own (some source) s (s.rename source target file) where
  handles _ _ _ := rfl
  content _ _ _ := rfl
  names name hname hne := by
    have hsource : name ≠ source := fun heq => hne (congrArg some heq.symm)
    have hother : name ≠ target := fun heq => htarget (heq ▸ hname)
    refine Or.inl ?_
    simp only [Files.rename, Function.update_of_ne hother, Function.update_of_ne hsource]
  stays _ _ h := h
  nextHandle_le := le_rfl
  temps _ hname := hname

theorem names_remove_of_some {name name' : N} {file : ℕ} (h : (s.remove name).names name' = some file) :
    s.names name' = some file := by
  by_cases heq : name' = name
  · subst heq
    simp only [Files.remove, Function.update_self] at h
    cases h
  · simpa only [Files.remove, Function.update_of_ne heq] using h

theorem WrittenAside.remove (hs : s.WrittenAside) (name : N) : (s.remove name).WrittenAside :=
  writtenAside_of_handles hs (hs.wellFormed.remove name) (fun _ h hfd hw => ⟨h, hfd, hw, rfl⟩)
    (fun _ _ hname => Or.inl (names_remove_of_some hname)) fun _ hname => hname

theorem leaves_remove (own : Option ℕ) (temp : Option N) (s : Files N) (name : N) :
    Leaves own temp s (s.remove name) where
  handles _ _ _ := rfl
  content _ _ _ := rfl
  names name' _ _ := by
    by_cases heq : name' = name
    · subst heq
      exact Or.inr (Function.update_self _ _ _)
    · exact Or.inl (Function.update_of_ne heq _ _)
  stays _ _ h := h
  nextHandle_le := le_rfl
  temps _ hname := hname

theorem WrittenAside.mkstemp (hs : s.WrittenAside) {name : N} (hunused : name ∉ s.temps) :
    ((s.newFile name).rememberTemp name).WrittenAside := by
  have hwf := hs.wellFormed.newFile name
  -- The new handle is the only one of its file, and no old one has come to it.
  have hcases : ∀ {fd h}, (s.newFile name).handles fd = some h →
      fd = s.nextHandle ∧ h.file = s.nextFile ∨ s.handles fd = some h ∧ h.file ≠ s.nextFile := by
    intro fd h hfd
    by_cases heq : fd = s.nextHandle
    · subst heq
      simp only [Files.newFile, Files.openHandle, Function.update_self, Option.some.injEq] at hfd
      exact Or.inl ⟨rfl, hfd ▸ rfl⟩
    · simp only [Files.newFile, Files.openHandle, Function.update_of_ne heq] at hfd
      exact Or.inr ⟨hfd, Nat.ne_of_lt (hs.wellFormed.handle_lt fd h hfd).2⟩
  refine ⟨⟨hwf.file_lt, hwf.handle_lt, hwf.one_name⟩, fun fd fd' h h' hfd hfd' hw hw' hfile => ?_,
    fun fd h name' hfd hw hname => ?_⟩
  · rcases hcases hfd with ⟨hnew, hnewFile⟩ | ⟨hold, hne⟩
    · rcases hcases hfd' with ⟨hnew', -⟩ | ⟨-, hne'⟩
      · rw [hnew, hnew']
      · exact absurd (hfile.symm.trans hnewFile) hne'
    · rcases hcases hfd' with ⟨-, hnewFile'⟩ | ⟨hold', -⟩
      · exact absurd (hfile.trans hnewFile') hne
      · exact hs.one_writer fd fd' h h' hold hold' hw hw' hfile
  · by_cases heq : name' = name
    · subst heq
      exact List.mem_cons_self ..
    · replace hname : Function.update s.names name (some s.nextFile) name' = some h.file := hname
      rw [Function.update_of_ne heq] at hname
      rcases hcases hfd with ⟨-, hnewFile⟩ | ⟨hold, -⟩
      · exact absurd (hs.wellFormed.file_lt name' _ hname) (hnewFile ▸ Nat.lt_irrefl _)
      · exact List.mem_cons_of_mem _ (hs.temporary fd h name' hold hw hname)

theorem leaves_mkstemp (own : Option ℕ) (temp : Option N) {name : N} (hunused : name ∉ s.temps) :
    Leaves own temp s ((s.newFile name).rememberTemp name) where
  handles _ hlt _ := Function.update_of_ne (Nat.ne_of_lt hlt) _ _
  content _ hlt _ := Function.update_of_ne (Nat.ne_of_lt hlt) _ _
  names name' hname _ := Or.inl (Function.update_of_ne (fun heq : name' = name => hunused (heq ▸ hname)) _ _)
  stays file hlt h fd h' hfd hw heq := by
    by_cases hnew : fd = s.nextHandle
    · subst hnew
      simp only [Files.rememberTemp, Files.newFile, Files.openHandle, Function.update_self,
        Option.some.injEq] at hfd
      subst hfd
      exact Nat.ne_of_lt hlt heq.symm
    · simp only [Files.rememberTemp, Files.newFile, Files.openHandle, Function.update_of_ne hnew] at hfd
      exact h fd h' hfd hw heq
  nextHandle_le := Nat.le_succ _
  temps _ hname := List.mem_cons_of_mem _ hname

end Files
