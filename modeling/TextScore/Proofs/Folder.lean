import Mathlib
import TextScore.Folder

/-!
# Folder — what a write leaves of a folder

A change of a folder keeps its directories if whatever was in it is still there, directories as
directories and files as files.  Paths are followed through directories alone, so after such a change
every path that led anywhere leads to the same place.  Making directories is such a change, and
writing a file is one, since a directory is never written over.  So a file that was written is read
back where it was written, and in all other places everything is read as before.
-/

namespace TextScore.Folder

variable {folder after : Folder} {path other : String} {p q : Path} {entry new : Entry}

/-! ## 1. Entries -/

theorem lookup_filter_of_ne (entries : List (Path × Entry)) (h : q ≠ p) :
    (entries.filter fun entry => entry.1 ≠ p).lookup q = entries.lookup q := by
  induction entries with
  | nil => rfl
  | cons first rest ih =>
    obtain ⟨key, value⟩ := first
    by_cases hkey : key = p
    · have hq : (q == key) = false := beq_eq_false_iff_ne.mpr (hkey ▸ h)
      rw [List.filter_cons_of_neg (by simpa using hkey), ih, List.lookup_cons, hq]
    · rw [List.filter_cons_of_pos (by simpa using hkey), List.lookup_cons, List.lookup_cons, ih]

theorem lookup_set_of_ne (h : q ≠ p) :
    (folder.set p new).entries.lookup q = folder.entries.lookup q := by
  have hlast : [(p, new)].lookup q = none := by
    rw [List.lookup_cons, beq_eq_false_iff_ne.mpr h]
    rfl
  unfold set
  rw [List.lookup_append, lookup_filter_of_ne _ h, hlast, Option.or_none]

theorem lookup?_set_self : (folder.set p new).lookup? p = some new := by
  have hgone : (folder.entries.filter fun entry => entry.1 ≠ p).lookup p = none := by
    rw [List.lookup_eq_none_iff]
    intro listed hlisted
    have hne : listed.1 ≠ p := of_decide_eq_true (List.mem_filter.mp hlisted).2
    exact bne_iff_ne.mpr hne.symm
  have hself : (folder.set p new).entries.lookup p = some new := by
    unfold set
    rw [List.lookup_append, hgone, Option.none_or, List.lookup_cons_self]
  unfold lookup?
  rw [hself]

/-- What stands in another place still stands there, be it a directory for the sake of a path that
goes on. -/
theorem lookup?_set_of_ne (h : q ≠ p) (hq : folder.lookup? q = some entry) :
    (folder.set p new).lookup? q = some entry := by
  unfold lookup? at *
  rw [lookup_set_of_ne h]
  cases hlisted : folder.entries.lookup q with
  | some listed =>
    rw [hlisted] at hq
    exact hq
  | none =>
    rw [hlisted] at hq
    simp only at hq ⊢
    split at hq
    next hpath =>
      rw [if_pos, hq]
      refine hpath.imp_right fun hany => ?_
      -- the path that goes on is an old one, or the new one itself
      obtain ⟨listed, hmem, hprefix⟩ := List.any_eq_true.mp hany
      unfold set
      rw [List.any_append, Bool.or_eq_true]
      by_cases hlisted : listed.1 = p
      · right
        simpa [hlisted] using hprefix
      · left
        have hstays : listed ∈ folder.entries.filter fun entry => entry.1 ≠ p :=
          List.mem_filter.mpr ⟨hmem, decide_eq_true hlisted⟩
        exact List.any_eq_true.mpr ⟨listed, hstays, hprefix⟩
    next => cases hq

theorem find_within {directory : Path} {name : String} (h : name.utf8ByteSize ≤ 255) :
    folder.find (.within directory) name = .ok (folder.lookup? (directory ++ [name])) :=
  if_neg (by omega)

theorem find_around {name : String} (h : name.utf8ByteSize ≤ 255) :
    folder.find .around name = .ok none :=
  if_neg (by omega)

theorem find_of_long {directory : Directory} {name : String} (h : ¬name.utf8ByteSize ≤ 255) :
    folder.find directory name = .error .nameTooLong :=
  if_pos (by omega)

/-! ## 2. Directories that are kept -/

/-- Whatever was in the folder is still there, directories as directories and files as files. -/
def Keeps (folder after : Folder) : Prop :=
  ∀ path entry, folder.lookup? path = some entry →
    ∃ now, after.lookup? path = some now ∧ (now = .directory ↔ entry = .directory)

theorem Keeps.refl (folder : Folder) : folder.Keeps folder :=
  fun _ entry h => ⟨entry, h, Iff.rfl⟩

theorem Keeps.trans {between : Folder} (h : folder.Keeps between) (hafter : between.Keeps after) :
    folder.Keeps after := by
  intro path entry hentry
  obtain ⟨now, hnow, hkind⟩ := h path entry hentry
  obtain ⟨later, hlater, hsame⟩ := hafter path now hnow
  exact ⟨later, hlater, hsame.trans hkind⟩

theorem keeps_set (hold : folder.lookup? p ≠ some .directory) (hnew : new ≠ .directory) :
    folder.Keeps (folder.set p new) := by
  intro q entry hq
  by_cases h : q = p
  · refine ⟨new, by rw [h, lookup?_set_self], ?_⟩
    have hentry : entry ≠ .directory := by
      rintro rfl
      exact hold (h ▸ hq)
    exact iff_of_false hnew hentry
  · exact ⟨entry, lookup?_set_of_ne h hq, Iff.rfl⟩

/-- Directories are made where nothing was. -/
theorem lookup?_makeAlong (folder : Folder) (directory : Directory) (parts : List String)
    (h : folder.lookup? q = some entry) :
    (folder.makeAlong directory parts).lookup? q = some entry := by
  induction parts generalizing folder directory with
  | nil => exact h
  | cons part rest ih =>
    unfold makeAlong
    by_cases hdot : part = "."
    · rw [if_pos hdot]
      exact ih folder directory h
    by_cases hup : part = ".."
    · rw [if_neg hdot, if_pos hup]
      exact ih folder directory.parent h
    rw [if_neg hdot, if_neg hup]
    split
    next => exact h
    next => exact h
    next => exact h
    next => exact ih folder _ h
    next => exact ih folder _ h
    next path hfind =>
      -- nothing was found here, so the entry stands elsewhere
      refine ih _ _ (lookup?_set_of_ne ?_ h)
      rintro rfl
      by_cases hshort : part.utf8ByteSize ≤ 255
      · rw [find_within hshort, h] at hfind
        cases hfind
      · rw [find_of_long hshort] at hfind
        cases hfind

theorem keeps_makeDirectories (folder : Folder) (path : String) :
    folder.Keeps (folder.makeDirectories path) :=
  fun _ entry hq => ⟨entry, lookup?_makeAlong _ _ _ hq, Iff.rfl⟩

section

variable (h : folder.Keeps after)

include h

/-- What was found is found, and too long a name is no better in another folder. -/
theorem Keeps.find_cases (directory : Directory) (name : String) :
    folder.find directory name = .ok none ∨
      (∃ fault, folder.find directory name = .error fault ∧
        after.find directory name = .error fault) ∨
      ∃ entry now, folder.find directory name = .ok (some entry) ∧
        after.find directory name = .ok (some now) ∧ (now = .directory ↔ entry = .directory) := by
  by_cases hshort : name.utf8ByteSize ≤ 255
  · cases directory with
    | around => exact Or.inl (find_around hshort)
    | within path =>
      rw [find_within hshort, find_within hshort]
      cases hentry : folder.lookup? (path ++ [name]) with
      | none => exact Or.inl rfl
      | some entry =>
        obtain ⟨now, hnow, hkind⟩ := h _ entry hentry
        exact Or.inr (Or.inr ⟨entry, now, rfl, congrArg Except.ok hnow, hkind⟩)
  · rw [find_of_long hshort, find_of_long hshort]
    exact Or.inr (Or.inl ⟨_, rfl, rfl⟩)

/-- A walk that does not end for want of an entry goes the same way afterwards. -/
theorem Keeps.walk_eq {directory : Directory} {parts : List String}
    (hfound : folder.walk directory parts ≠ .error .notFound) :
    after.walk directory parts = folder.walk directory parts := by
  induction parts generalizing directory with
  | nil => rfl
  | cons part rest ih =>
    rw [walk] at hfound ⊢
    rw [walk]
    by_cases hdot : part = "."
    · rw [if_pos hdot] at hfound ⊢
      rw [if_pos hdot]
      exact ih hfound
    by_cases hup : part = ".."
    · rw [if_neg hdot, if_pos hup] at hfound ⊢
      rw [if_neg hdot, if_pos hup]
      exact ih hfound
    rw [if_neg hdot, if_neg hup] at hfound ⊢
    rw [if_neg hdot, if_neg hup]
    rcases h.find_cases directory part with hnone | ⟨fault, hfault, hafter⟩ |
      ⟨entry, now, hentry, hnow, hkind⟩
    · rw [hnone] at hfound
      exact absurd rfl hfound
    · rw [hfault, hafter]
    · rw [hentry] at hfound ⊢
      rw [hnow]
      cases entry with
      | directory =>
        rw [hkind.mpr rfl]
        exact ih hfound
      | text _ | bytes _ =>
        -- a file ends the walk, whatever is in it by now
        cases now with
        | directory => cases hkind.mp rfl
        | text _ | bytes _ => rfl

theorem Keeps.target_eq (hfound : folder.target path ≠ .error .notFound) :
    after.target path = folder.target path := by
  unfold target at hfound ⊢
  by_cases hempty : path = ""
  · rw [if_pos hempty, if_pos hempty]
  by_cases hzero : path.toList.contains '\x00' = true
  · rw [if_neg hempty, if_neg hempty, if_pos hzero, if_pos hzero]
  by_cases hlong : 4096 ≤ path.utf8ByteSize
  · rw [if_neg hempty, if_neg hempty, if_neg hzero, if_neg hzero, if_pos hlong, if_pos hlong]
  rw [if_neg hempty, if_neg hzero, if_neg hlong] at hfound ⊢
  rw [if_neg hempty, if_neg hzero, if_neg hlong]
  simp only at hfound ⊢
  cases hlast : (partsOf path).getLast? with
  | none => rfl
  | some last =>
    simp only [hlast] at hfound ⊢
    rw [h.walk_eq]
    intro hmissing
    rw [hmissing] at hfound
    exact hfound rfl

end

/-! ## 3. Reading and writing -/

/-- A path on which a directory is missing leads to no entry. -/
theorem target_ne_of_entryAt (h : folder.entryAt path ≠ .error .notFound) :
    folder.target path ≠ .error .notFound := by
  intro hmissing
  unfold entryAt at h
  rw [hmissing] at h
  exact h rfl

/-- Where in the folder the file of a written path stands, if it is one of the folder. -/
def place? (folder : Folder) (path : String) : Option Path :=
  match folder.target path with
  | .ok (.name (.within directory) name _) => some (directory ++ [name])
  | _ => none

theorem place?_of_name {inner : Path} {name : String} {slash : Bool}
    (htarget : folder.target path = .ok (.name (.within inner) name slash)) :
    folder.place? path = some (inner ++ [name]) := by
  unfold place?
  rw [htarget]

theorem Keeps.place?_eq (h : folder.Keeps after) (hfound : folder.target path ≠ .error .notFound) :
    after.place? path = folder.place? path := by
  unfold place?
  rw [h.target_eq hfound]

/-- What can be looked at under a name is what stands at its place, and behind a slash only a
directory. -/
theorem entryAt_of_name {directory : Directory} {name : String} {slash : Bool}
    (htarget : folder.target path = .ok (.name directory name slash)) :
    folder.entryAt path = .ok entry ↔ ∃ inner, directory = .within inner ∧
      name.utf8ByteSize ≤ 255 ∧ folder.lookup? (inner ++ [name]) = some entry ∧
      (slash = true → entry = .directory) := by
  unfold entryAt
  rw [htarget]
  by_cases hshort : name.utf8ByteSize ≤ 255
  · cases directory with
    | around => simp [Except.bind, find_around hshort]
    | within inner =>
      simp only [Except.bind, find_within hshort]
      cases hentry : folder.lookup? (inner ++ [name]) with
      | none => simp [hentry]
      | some found =>
        -- a file is not found behind a slash
        cases found <;> cases slash <;> simp [hentry, hshort] <;> rintro rfl <;> simp
  · simp [Except.bind, find_of_long hshort, hshort]

/-- What is left of a folder when a file has been written under a name: outside of the folder nothing
is seen of it, and a directory is not replaced. -/
inductive Writes (folder : Folder) (name content : String) : Directory → Folder → Prop
  | around : folder.Writes name content .around folder
  | within {inner : Path} (h : folder.lookup? (inner ++ [name]) ≠ some .directory) :
      folder.Writes name content (.within inner) (folder.set (inner ++ [name]) (.text content))

theorem write_of_name {directory : Directory} {name : String} {slash : Bool} {content : String}
    (htarget : folder.target path = .ok (.name directory name slash)) :
    folder.write path content = .ok after ↔
      slash = false ∧ name.utf8ByteSize ≤ 255 ∧ folder.Writes name content directory after := by
  unfold write put
  rw [htarget]
  cases slash with
  | true => simp [Except.bind]
  | false =>
    by_cases hshort : name.utf8ByteSize ≤ 255
    · rw [and_iff_right rfl, and_iff_right hshort]
      cases directory with
      | around =>
        simp only [Except.bind, find_around hshort]
        constructor
        · rintro ⟨⟩
          exact .around
        · rintro ⟨⟩
          rfl
      | within inner =>
        simp only [Except.bind, find_within hshort]
        by_cases hdirectory : folder.lookup? (inner ++ [name]) = some .directory
        · simp only [hdirectory]
          refine iff_of_false nofun fun hwrites => ?_
          cases hwrites with
          | within hfile => exact hfile hdirectory
        · simp only [hdirectory]
          constructor
          · rintro ⟨⟩
            exact .within hdirectory
          · rintro ⟨⟩
            rfl
    · simp [Except.bind, find_of_long hshort, hshort]

theorem exists_name_of_write {content : String} (h : folder.write path content = .ok after) :
    ∃ directory name, folder.target path = .ok (.name directory name false) ∧
      name.utf8ByteSize ≤ 255 ∧ folder.Writes name content directory after := by
  match htarget : folder.target path with
  | .error _ | .ok .directory =>
    unfold write put at h
    rw [htarget] at h
    cases h
  | .ok (.name directory name slash) =>
    obtain ⟨rfl, hshort, hwrites⟩ := (write_of_name htarget).mp h
    exact ⟨directory, name, rfl, hshort, hwrites⟩

theorem exists_write_of_write {content : String} (h : folder.write path content = .ok after)
    (another : String) : ∃ after, folder.write path another = .ok after := by
  obtain ⟨directory, name, htarget, hshort, hwrites⟩ := exists_name_of_write h
  cases hwrites with
  | around => exact ⟨folder, (write_of_name htarget).mpr ⟨rfl, hshort, .around⟩⟩
  | within hfile => exact ⟨_, (write_of_name htarget).mpr ⟨rfl, hshort, .within hfile⟩⟩

theorem Writes.keeps {directory : Directory} {name content : String}
    (h : folder.Writes name content directory after) : folder.Keeps after := by
  cases h with
  | around => exact .refl folder
  | within hfile => exact keeps_set hfile nofun

/-- Where nothing is missing, a file can be written if there is a file already. -/
theorem exists_write_iff (h : folder.entryAt path ≠ .error .notFound) (content : String) :
    (∃ after, folder.write path content = .ok after) ↔
      ∃ entry, folder.entryAt path = .ok entry ∧ entry ≠ .directory := by
  match hasked : folder.target path with
  | .error fault =>
    unfold write put entryAt
    rw [hasked]
    exact iff_of_false (by rintro ⟨_, ⟨⟩⟩) (by rintro ⟨_, ⟨⟩, -⟩)
  | .ok .directory =>
    unfold write put entryAt
    rw [hasked]
    exact iff_of_false (by rintro ⟨_, ⟨⟩⟩) (by rintro ⟨_, ⟨⟩, hfile⟩; exact hfile rfl)
  | .ok (.name directory name slash) =>
    simp only [write_of_name hasked, entryAt_of_name hasked]
    constructor
    · rintro ⟨after, rfl, hshort, hwrites⟩
      unfold entryAt at h
      rw [hasked] at h
      cases hwrites with
      | around =>
        simp only [Except.bind, find_around hshort] at h
        exact absurd rfl h
      | @within inner hfile =>
        simp only [Except.bind, find_within hshort] at h
        cases hentry : folder.lookup? (inner ++ [name]) with
        | none =>
          rw [hentry] at h
          exact absurd rfl h
        | some entry =>
          rw [hentry] at hfile
          exact ⟨entry, ⟨inner, rfl, hshort, hentry, nofun⟩, fun heq => hfile (congrArg some heq)⟩
    · rintro ⟨entry, ⟨inner, rfl, hshort, hentry, hslash⟩, hfile⟩
      have hplain : slash = false := by
        by_contra hslashed
        exact hfile (hslash (eq_true_of_ne_false hslashed))
      exact ⟨_, hplain, hshort, .within (by rw [hentry]; exact fun h => hfile (Option.some.inj h))⟩

/-! ## 4. What is read afterwards -/

/-- Whatever can be read can be read when more directories have been made, and as little of what
cannot, unless it was missing. -/
theorem entryAt_makeDirectories (h : folder.entryAt other ≠ .error .notFound) :
    (folder.makeDirectories path).entryAt other = folder.entryAt other := by
  have htarget : (folder.makeDirectories path).target other = folder.target other :=
    (folder.keeps_makeDirectories path).target_eq (target_ne_of_entryAt h)
  unfold entryAt at h ⊢
  rw [htarget]
  match hasked : folder.target other with
  | .error fault => rfl
  | .ok .directory => rfl
  | .ok (.name directory name slash) =>
    have hfind : (folder.makeDirectories path).find directory name =
        folder.find directory name := by
      by_cases hshort : name.utf8ByteSize ≤ 255
      · cases directory with
        | around => rw [find_around hshort, find_around hshort]
        | within inner =>
          rw [find_within hshort, find_within hshort]
          cases hentry : folder.lookup? (inner ++ [name]) with
          | some entry => rw [makeDirectories, lookup?_makeAlong _ _ _ hentry]
          | none =>
            rw [hasked] at h
            simp only [Except.bind, find_within hshort, hentry] at h
            exact absurd rfl h
      · rw [find_of_long hshort, find_of_long hshort]
    simp only [Except.bind, hfind]

/-- What has been written within the folder is read back. -/
theorem entryAt_write {content : String} (h : folder.write path content = .ok after)
    (hplace : folder.place? path ≠ none) : after.entryAt path = .ok (.text content) := by
  obtain ⟨directory, name, htarget, hshort, hwrites⟩ := exists_name_of_write h
  have hkept : after.target path = .ok (.name directory name false) := by
    rw [hwrites.keeps.target_eq (by rw [htarget]; exact nofun), htarget]
  cases hwrites with
  | around =>
    unfold place? at hplace
    rw [htarget] at hplace
    exact absurd rfl hplace
  | within hfile =>
    exact (entryAt_of_name hkept).mpr ⟨_, rfl, hshort, lookup?_set_self, nofun⟩

/-- Everything else stays as it was. -/
theorem entryAt_write_of_ne {content : String} (h : folder.write path content = .ok after)
    (hother : folder.entryAt other = .ok entry)
    (hne : ∀ place, folder.place? path = some place → folder.place? other ≠ some place) :
    after.entryAt other = .ok entry := by
  obtain ⟨directory, name, htarget, -, hwrites⟩ := exists_name_of_write h
  have hkept : after.target other = folder.target other :=
    hwrites.keeps.target_eq (target_ne_of_entryAt (hother ▸ nofun))
  match hasked : folder.target other with
  | .error fault =>
    unfold entryAt at hother
    rw [hasked] at hother
    cases hother
  | .ok .directory =>
    unfold entryAt at hother ⊢
    rw [hkept, hasked]
    rw [hasked] at hother
    exact hother
  | .ok (.name within part slash) =>
    obtain ⟨inner, rfl, hshort, hentry, hslash⟩ := (entryAt_of_name hasked).mp hother
    refine (entryAt_of_name (hkept.trans hasked)).mpr ⟨inner, rfl, hshort, ?_, hslash⟩
    cases hwrites with
    | around => exact hentry
    | within hfile =>
      refine lookup?_set_of_ne ?_ hentry
      intro hsame
      exact hne _ (place?_of_name htarget) (hsame ▸ place?_of_name hasked)

/-! ## 5. Changes in one place -/

/-- Whatever was there is kept, and read as before in all places but this one. -/
structure AgreesBut (place : Path) (folder after : Folder) : Prop where
  keeps : folder.Keeps after
  others : ∀ path entry, folder.entryAt path = .ok entry → folder.place? path ≠ some place →
    after.entryAt path = .ok entry

theorem AgreesBut.refl (place : Path) (folder : Folder) : AgreesBut place folder folder :=
  ⟨.refl folder, fun _ _ h _ => h⟩

theorem AgreesBut.trans {place : Path} {between : Folder} (h : AgreesBut place folder between)
    (hafter : AgreesBut place between after) : AgreesBut place folder after where
  keeps := h.keeps.trans hafter.keeps
  others path entry hentry hne := by
    have hfound : folder.target path ≠ .error .notFound :=
      target_ne_of_entryAt (hentry ▸ nofun)
    exact hafter.others path entry (h.others path entry hentry hne)
      (h.keeps.place?_eq hfound ▸ hne)

/-- A file that is written where directories had to be made first changes nothing else. -/
theorem agreesBut_of_write {place : Path} {content : String}
    (hwrite : (folder.makeDirectories path).write path content = .ok after)
    (hplace : (folder.makeDirectories path).place? path = some place) :
    AgreesBut place folder after where
  keeps := by
    obtain ⟨directory, name, -, -, hwrites⟩ := exists_name_of_write hwrite
    exact (folder.keeps_makeDirectories path).trans hwrites.keeps
  others other entry hentry hne := by
    have hfound : folder.entryAt other ≠ .error .notFound := hentry ▸ nofun
    have hmade : (folder.makeDirectories path).place? other = folder.place? other :=
      (folder.keeps_makeDirectories path).place?_eq (target_ne_of_entryAt hfound)
    refine entryAt_write_of_ne hwrite ((entryAt_makeDirectories hfound).trans hentry) ?_
    intro found hfound
    rw [hmade, ← hfound, hplace]
    exact hne

/-- The place of a file that has been written is found again when directories are made for it. -/
theorem place?_after_write {place : Path} {content : String}
    (hwrite : (folder.makeDirectories path).write path content = .ok after)
    (hplace : (folder.makeDirectories path).place? path = some place) :
    (after.makeDirectories path).place? path = some place := by
  obtain ⟨directory, name, htarget, -, hwrites⟩ := exists_name_of_write hwrite
  have hfound : (folder.makeDirectories path).target path ≠ .error .notFound := by
    rw [htarget]
    exact nofun
  have hkept : after.target path = (folder.makeDirectories path).target path :=
    hwrites.keeps.target_eq hfound
  rw [(after.keeps_makeDirectories path).place?_eq (hkept ▸ hfound), hwrites.keeps.place?_eq hfound,
    hplace]

end TextScore.Folder
