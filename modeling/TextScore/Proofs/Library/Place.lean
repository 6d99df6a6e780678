import Mathlib
import TextScore.Library.FileStore
import TextScore.Proofs.Folder
import TextScore.Proofs.Library.Run

/-!
# Place — the file of a library in its folder

A library in a file is told by what its path shows in a folder.  What it writes is what the folder
shows there when the directories on the way have been made and the text has been written, and nothing
else in the folder is read in another way.  So at every moment of a run there is a folder in which
the file stands as the library has left it.
-/

namespace TextScore.Library

/-- The library in the file that a path of a folder leads to. -/
def FileStore.inFolder (folder : Folder) (path : String) : FileStore :=
  ⟨path, .ofFolder folder path⟩

/-! ## 1. One write -/

section

variable {folder after : Folder} {path : String}

/-- Where there is no file, one can be made after the directories, or the path is barred. -/
theorem ofFolder_of_missing (h : folder.entryAt path = .error .notFound) :
    FileContent.ofFolder folder path = .missing ∧
        (∃ after, (folder.makeDirectories path).write path "" = .ok after) ∨
      (∃ later, FileContent.ofFolder folder path = .barred later) ∧
        ¬∃ after, (folder.makeDirectories path).write path "" = .ok after := by
  unfold FileContent.ofFolder
  rw [h]
  simp only
  split
  next hwrite => exact Or.inl ⟨rfl, _, hwrite⟩
  all_goals
    next hwrite _ =>
      refine Or.inr ⟨⟨_, rfl⟩, ?_⟩
      rw [hwrite]
      rintro ⟨_, ⟨⟩⟩

/-- The library reads the file that stands in the folder, and no file as no library. -/
theorem readText_ofFolder (folder : Folder) (path : String) :
    (FileStore.inFolder folder path).readText =
      match folder.read path with
      | .ok text => .ok (some text)
      | .error .notFound => .ok none
      | .error fault => .error (.storage (.file fault)) := by
  unfold Folder.read FileStore.inFolder
  cases h : folder.entryAt path with
  | ok entry =>
    unfold FileStore.readText FileContent.ofFolder
    rw [h]
    cases entry <;> rfl
  | error fault =>
    by_cases hmissing : fault = .notFound
    · rw [hmissing] at h ⊢
      obtain ⟨hcontent, -⟩ | ⟨⟨later, hcontent⟩, -⟩ := ofFolder_of_missing h <;>
      · rw [hcontent]
        rfl
    · unfold FileStore.readText FileContent.ofFolder
      rw [h]
      cases fault <;> first | rfl | exact absurd rfl hmissing

/-- The library can be written exactly where the folder takes its text. -/
theorem write_succeeds_iff (folder : Folder) (path : String) (items : List Record) :
    (Store.write (FileStore.inFolder folder path) items).answer = .ok () ↔
      ∃ after, (folder.makeDirectories path).write path (encode items) = .ok after := by
  show (FileStore.write ⟨path, .ofFolder folder path⟩ items).answer = _ ↔ _
  by_cases h : folder.entryAt path = .error .notFound
  · obtain ⟨hcontent, after, hwrite⟩ | ⟨⟨later, hcontent⟩, hwrite⟩ := ofFolder_of_missing h
    · rw [hcontent]
      exact iff_of_true rfl (Folder.exists_write_of_write hwrite _)
    · rw [hcontent]
      refine iff_of_false ?_ ?_
      · cases later <;> exact nofun
      · rintro ⟨after, hafter⟩
        exact hwrite (Folder.exists_write_of_write hafter _)
  · have hmade : (folder.makeDirectories path).entryAt path = folder.entryAt path :=
      Folder.entryAt_makeDirectories h
    rw [Folder.exists_write_iff (hmade ▸ h), hmade]
    unfold FileStore.write FileContent.ofFolder
    cases hentry : folder.entryAt path with
    | ok entry => cases entry <;> simp
    | error fault => cases fault <;> simp_all

/-- The folder then shows the library as it has been written. -/
theorem ofFolder_of_write {content : String}
    (hwrite : (folder.makeDirectories path).write path content = .ok after)
    (hplace : (folder.makeDirectories path).place? path ≠ none) :
    FileContent.ofFolder after path = .text content := by
  unfold FileContent.ofFolder
  rw [Folder.entryAt_write hwrite hplace]

end

/-! ## 2. Runs -/

/-- The file of a library stands at this place of the folder, or can be made there. -/
structure HasPlace (folder : Folder) (path : String) (place : Folder.Path) : Prop where
  place : (folder.makeDirectories path).place? path = some place
  not_barred : ∀ later, FileContent.ofFolder folder path ≠ .barred later

section

variable {folder : Folder} {path : String} {place : Folder.Path}

/-- What could be read before a write can be written. -/
theorem HasPlace.exists_write (h : HasPlace folder path place) {items : List Record}
    (hread : (Store.readForWrite (FileStore.inFolder folder path)).result = .ok items)
    (new : List Record) :
    ∃ after, (folder.makeDirectories path).write path (encode new) = .ok after ∧
      (Store.write (FileStore.inFolder folder path) new).store = ⟨path, .text (encode new)⟩ := by
  have hread : (FileStore.readForWrite ⟨path, .ofFolder folder path⟩).result = .ok items := hread
  have hanswer := write_succeeds_iff folder path new
  unfold FileStore.inFolder at hanswer ⊢
  cases hcontent : FileContent.ofFolder folder path with
  | missing | text _ =>
    rw [hcontent] at hanswer
    obtain ⟨after, hwrite⟩ := hanswer.mp rfl
    exact ⟨after, hwrite, rfl⟩
  | bytes _ | directory | unreachable _ =>
    rw [hcontent] at hread
    cases hread
  | barred later => exact absurd hcontent (h.not_barred later)

/-- After any operation there is a folder that shows the library as it is left, and in all other
places what was there. -/
theorem step_in_folder (h : HasPlace folder path place) (op : Operation) :
    ∃ after, (step (FileStore.inFolder folder path) op).1 = .inFolder after path ∧
      HasPlace after path place ∧ Folder.AgreesBut place folder after := by
  rcases step_store_cases (FileStore.inFolder folder path) op with
    hkept | ⟨items, new, hread, hwritten⟩
  · exact ⟨folder, hkept, h, .refl place folder⟩
  · obtain ⟨after, hwrite, hstore⟩ := h.exists_write hread new
    have hcontent : FileContent.ofFolder after path = .text (encode new) :=
      ofFolder_of_write hwrite (h.place ▸ Option.some_ne_none place)
    refine ⟨after, ?_, ⟨Folder.place?_after_write hwrite h.place, ?_⟩,
      Folder.agreesBut_of_write hwrite h.place⟩
    · rw [hwritten, hstore, FileStore.inFolder, hcontent]
    · rw [hcontent]
      exact nofun

/-- However a library in a folder is used, it is the one that its path then shows in a folder where
nothing else reads in another way. -/
theorem run_in_folder (h : HasPlace folder path place) (ops : List Operation) :
    ∃ after, run (FileStore.inFolder folder path) ops = .inFolder after path ∧
      Folder.AgreesBut place folder after := by
  induction ops generalizing folder with
  | nil => exact ⟨folder, rfl, .refl place folder⟩
  | cons op ops ih =>
    obtain ⟨between, hstep, hbetween, hchanged⟩ := step_in_folder h op
    obtain ⟨after, hrun, hlater⟩ := ih hbetween
    refine ⟨after, ?_, hchanged.trans hlater⟩
    show run (step (FileStore.inFolder folder path) op).1 ops = _
    rw [hstep, hrun]

example : HasPlace ⟨[]⟩ "scores/library.json" ["scores", "library.json"] where
  place := by decide
  not_barred later := by
    rw [show FileContent.ofFolder ⟨[]⟩ "scores/library.json" = .missing by decide]
    exact nofun

end

end TextScore.Library
