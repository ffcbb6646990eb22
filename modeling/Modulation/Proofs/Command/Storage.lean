import Modulation.Command.Storage

set_option autoImplicit false

/-! # Writing a file again

Folders are made when a path is followed and never removed (`folders_subset_follow`), so a path that
has been followed once leads to the same place again, and no folder is missing then (`follow_again`).
A file that was written can therefore be written again, and the last text counts (`write_write`). -/

namespace Modulation.Directory

variable {directory later : Directory} {place target : Place} {names : List String}

theorem hasFolder_of_subset (h : directory.folders ⊆ later.folders)
    (hplace : directory.hasFolder place = true) : later.hasFolder place = true := by
  simp only [hasFolder, Bool.or_eq_true, List.contains_iff_mem] at hplace ⊢
  exact hplace.imp_right fun hmem => h hmem

/-- A folder that is there is entered. -/
theorem follow_folder {create : Bool} {name : String} (hhere : ¬ staysHere name = true)
    (hup : ¬ name = "..") (hfolder : directory.hasFolder (name :: place) = true) :
    follow create (name :: names) place directory
      = follow create names (name :: place) directory := by
  rw [follow.eq_def]
  simp only [if_neg hhere, if_neg hup, hfolder, if_true]

/-- Following a path makes folders and removes none. -/
theorem folders_subset_follow (create : Bool) (names : List String) (place : Place)
    (directory : Directory) :
    directory.folders ⊆ (follow create names place directory).2.folders := by
  fun_induction follow create names place directory with
  | case1 | case3 | case6 => exact List.Subset.refl _
  | case2 | case4 | case5 => assumption
  | case7 =>
    -- One folder is made here, and then the others.
    rename_i ih
    exact fun _ hmem => ih (List.mem_cons_of_mem _ hmem)

/-- A path that was followed, where missing folders were made, leads to the same place again in
    every directory that has these folders, and nothing has to be made then. -/
theorem follow_again (h : (follow true names place directory).1 = some target)
    (hfolders : (follow true names place directory).2.folders ⊆ later.folders) :
    follow true names place later = (some target, later) := by
  fun_induction follow true names place directory with
  | case1 place directory =>
    cases h
    rfl
  | case2 name rest place directory hhere ih =>
    unfold follow
    rw [if_pos hhere]
    exact ih h hfolders
  | case3 => cases h
  | case4 rest directory head parent hhere ih =>
    unfold follow
    rw [if_neg hhere, if_pos rfl]
    exact ih h hfolders
  | case5 name rest place directory hhere hup next hfolder ih =>
    -- The folder was there, and it stays.
    have hlater : later.hasFolder next = true :=
      hasFolder_of_subset (fun _ hmem => hfolders (folders_subset_follow _ _ _ _ hmem)) hfolder
    rw [follow_folder hhere hup hlater]
    exact ih h hfolders
  | case6 => cases h
  | case7 name rest place directory hhere hup next hfolder hfree ih =>
    -- The folder was made, and it stays.
    have hlater : later.hasFolder next = true := by
      refine hasFolder_of_subset (fun _ hmem => hfolders (folders_subset_follow _ _ _ _ hmem)) ?_
      simp [hasFolder]
    rw [follow_folder hhere hup hlater]
    exact ih h hfolders

/-- Whether a path leads anywhere without making folders is a matter of the folders alone. -/
theorem follow_files (names : List String) (place : Place) (directory : Directory)
    (files : Entries String) :
    (follow false names place { directory with files := files }).1
      = (follow false names place directory).1 := by
  induction names generalizing place with
  | nil => rfl
  | cons name rest ih =>
    unfold follow
    split
    · exact ih place
    · split
      · cases place with
        | nil => rfl
        | cons _ parent => exact ih parent
      · by_cases hfolder : directory.hasFolder (name :: place) = true
        · have hfiles : hasFolder { directory with files := files } (name :: place) = true :=
            hfolder
          simp only [hfolder, hfiles, if_true]
          exact ih (name :: place)
        · have hfiles : ¬ hasFolder { directory with files := files } (name :: place) = true :=
            hfolder
          simp [hfolder, hfiles]

theorem filePlace?_files (directory : Directory) (files : Entries String) (path : String) :
    filePlace? { directory with files := files } path = directory.filePlace? path := by
  unfold filePlace?
  simp only [follow_files]
  rfl

/-- Folders that were made for a path are there when they are asked for again. -/
theorem makeFolders_again {path : String} {made : Directory}
    (h : directory.makeFolders path = (some target, made))
    (hfolders : made.folders ⊆ later.folders) :
    later.makeFolders path = (some target, later) := by
  unfold makeFolders at h ⊢
  split at h
  · next hpath =>
    rw [if_pos hpath]
    refine follow_again (congrArg Prod.fst h) ?_
    rwa [h]
  · cases h

/-- A file is written where the folders of its path can be made and its name leads to a place. -/
theorem write_eq {path : String} {folder place : Place} {made : Directory}
    (hmade : directory.makeFolders (folderPath path) = (some folder, made))
    (hplace : made.filePlace? path = some place) (content : String) :
    directory.write path content
      = (true, { made with files := made.files.set (pathOf place) content }) := by
  simp only [write, hmade, hplace]

theorem exists_place_of_write {path content : String}
    (h : (directory.write path content).1 = true) :
    ∃ folder made place, directory.makeFolders (folderPath path) = (some folder, made)
      ∧ made.filePlace? path = some place := by
  unfold write at h
  split at h
  · cases h
  · next folder made hmade =>
    split at h
    · cases h
    · next place hplace => exact ⟨folder, made, place, hmade, hplace⟩

/-- A file that was written can be written again, and the last text counts. -/
theorem write_write {path content : String} (h : (directory.write path content).1 = true)
    (last : String) :
    (directory.write path last).1 = true
      ∧ (directory.write path content).2.write path last = directory.write path last := by
  obtain ⟨folder, made, place, hmade, hplace⟩ := exists_place_of_write h
  -- The folders are there already, and the place is that of the first text.
  have hagain : ∀ later : Directory, later.folders = made.folders →
      later.makeFolders (folderPath path) = (some folder, later) := by
    intro later hfolders
    exact makeFolders_again hmade (hfolders ▸ List.Subset.refl _)
  rw [write_eq hmade hplace, write_eq hmade hplace]
  refine ⟨rfl, ?_⟩
  calc write { made with files := made.files.set (pathOf place) content } path last
      = (true, { made with
          files := (made.files.set (pathOf place) content).set (pathOf place) last }) :=
        write_eq (hagain { made with files := made.files.set (pathOf place) content } rfl)
          ((filePlace?_files made _ path).trans hplace) last
    _ = (true, { made with files := made.files.set (pathOf place) last }) := by
        rw [Entries.set_set]

end Modulation.Directory
