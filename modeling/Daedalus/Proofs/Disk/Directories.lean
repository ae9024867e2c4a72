import Daedalus.Proofs.Disk.Places

/-! # Directories on a disk

A disk that `Keeps` the directories of an earlier one has all of them at the same places. A path
that led to a directory then still leads there. Making directories keeps the directories that were
there, and all files with their contents.

The main result is `Disk.ensureDirectories_spec`: if no fault is met while the directories of a path
are made, the path leads to a directory. -/

namespace Daedalus.Command

/-! ### Walks through directories -/

namespace Spot

variable {root later : Entries} {parts : List String}

/-- One more name leads on if the directory that was reached has a directory with this name. -/
theorem exists_walk_concat {name : String} {entries : Entries} {around : List (String × Entries)}
    (hwalk : walk ⟨.directory root, []⟩ parts = .ok ⟨.directory entries, around⟩)
    (hname : IsName name)
    (hitem : (Node.directory root).item? (placeOf parts ++ [name]) = some .directory) :
    ∃ below, walk ⟨.directory root, []⟩ (parts ++ [name]) =
      .ok ⟨.directory below, (name, entries) :: around⟩ := by
  obtain ⟨hlies, hplace⟩ := liesIn_of_walk hwalk
  rw [← hplace, Node.item?, Node.at?_concat hlies.at?_place] at hitem
  obtain ⟨node, hlookup, hitem⟩ := Option.map_eq_some_iff.mp hitem
  obtain ⟨below, rfl⟩ := Node.eq_directory_of_item hitem
  refine ⟨below, ?_⟩
  rw [walk_concat, hwalk]
  simp [Except.bind, step, hname.idle, hname.up, Nat.not_lt.mpr hname.length, hlookup]

/-- Parts that lead nowhere end a walk where it is. -/
theorem walk_append_idle {entries : Entries} {around : List (String × Entries)}
    (hwalk : walk ⟨.directory root, []⟩ parts = .ok ⟨.directory entries, around⟩)
    {idle : List String} (hidle : ∀ part ∈ idle, isIdle part = true) :
    walk ⟨.directory root, []⟩ (parts ++ idle) = .ok ⟨.directory entries, around⟩ := by
  induction idle using List.reverseRecOn with
  | nil => rwa [List.append_nil]
  | append_singleton idle part ih =>
    rw [← List.append_assoc, walk_concat,
      ih fun part hpart => hidle part (List.mem_append_left _ hpart)]
    simp [Except.bind, step, hidle part List.mem_concat_self]

/-- **Walks through directories.** Parts that lead to a directory still do so where all directories
are kept: each part but the last one leads to a directory too. -/
theorem exists_walk_of_kept
    (h : ∀ place, (Node.directory root).item? place = some .directory →
      (Node.directory later).item? place = some .directory)
    {entries : Entries} {around : List (String × Entries)}
    (hwalk : walk ⟨.directory root, []⟩ parts = .ok ⟨.directory entries, around⟩) :
    ∃ entries around, walk ⟨.directory later, []⟩ parts = .ok ⟨.directory entries, around⟩ := by
  induction parts using List.reverseRecOn generalizing entries around with
  | nil => exact ⟨later, [], rfl⟩
  | append_singleton parts part ih =>
    obtain ⟨hlies, hplace⟩ := liesIn_of_walk hwalk
    rw [walk_concat] at hwalk
    obtain ⟨⟨node, outer⟩, hfound, hstep⟩ := exists_of_bind_eq_ok hwalk
    obtain ⟨_, hnode, hcases⟩ := step_cases hstep
    obtain rfl : node = _ := hnode
    obtain ⟨later', around', hlater⟩ := ih hfound
    -- The last part is idle, leads back, or is a name.
    rcases hcases with ⟨hidle, -⟩ | ⟨hidle, rfl, -⟩ | ⟨hname, -⟩
    · exact ⟨_, _, walk_append_idle hlater (by simpa using hidle)⟩
    · -- Back from a directory there is always a directory.
      rw [walk_concat, hlater]
      cases around' with
      | nil => exact ⟨_, _, rfl⟩
      | cons first around' => exact ⟨_, _, rfl⟩
    · have hitem : (Node.directory root).item? (placeOf parts ++ [part]) = some .directory := by
        rw [← hname.placeOf_concat, ← hplace, Node.item?, hlies.at?_place]
        rfl
      obtain ⟨below, hbelow⟩ := exists_walk_concat hlater hname (h _ hitem)
      exact ⟨_, _, hbelow⟩

end Spot

namespace Disk

variable {disk changed later : Disk} {path : String}

/-! ### Directories that are kept -/

/-- A later disk with the same working directory has all directories of an earlier one. -/
structure Keeps (old new : Disk) : Prop where
  here : new.here = old.here
  directory : ∀ place, old.item? place = some .directory → new.item? place = some .directory

namespace Keeps

/-- A disk keeps what it holds. -/
theorem refl (disk : Disk) : Keeps disk disk := ⟨rfl, fun _ h => h⟩

/-- What is kept twice is kept. -/
theorem trans (h : Keeps disk changed) (h' : Keeps changed later) : Keeps disk later :=
  ⟨h'.here.trans h.here, fun place hplace => h'.directory place (h.directory place hplace)⟩

/-- Paths start where they did. -/
theorem base_eq (h : Keeps disk changed) (path : String) : changed.base path = disk.base path := by
  rw [base, base, h.here]

/-- Paths lead to the same places. -/
theorem placeTo_eq (h : Keeps disk changed) (path : String) :
    changed.placeTo path = disk.placeTo path := by
  rw [placeTo, placeTo, h.base_eq]

end Keeps

/-- A path leads to a directory if it is a path and its parts lead to one. -/
theorem isDirectory_iff :
    disk.isDirectory path = true ↔ checkPath path = .ok () ∧
      ∃ entries around, Spot.walk ⟨.directory disk.root, []⟩ (disk.base path ++ pathParts path) =
        .ok ⟨.directory entries, around⟩ := by
  -- Whether a path starts at the root decides where the walk starts, so both walks are one from the
  -- root.
  have hfind : disk.find path = (checkPath path).bind fun _ =>
      Spot.walk ⟨.directory disk.root, []⟩ (disk.base path ++ pathParts path) := by
    rw [← start_bind_walk]
    rfl
  rw [isDirectory, hfind]
  cases checkPath path with
  | error fault => simp [Except.bind]
  | ok =>
    simp only [Except.bind, true_and]
    split
    · next entries around hwalk => simp [hwalk]
    · next hother =>
      simp only [Bool.false_eq_true, false_iff]
      rintro ⟨entries, around, hwalk⟩
      exact hother entries around hwalk

/-- A path to a directory still leads to one. -/
theorem Keeps.isDirectory (h : Keeps disk changed) (hpath : disk.isDirectory path = true) :
    changed.isDirectory path = true := by
  obtain ⟨hcheck, entries, around, hwalk⟩ := isDirectory_iff.mp hpath
  refine isDirectory_iff.mpr ⟨hcheck, ?_⟩
  rw [h.base_eq]
  exact Spot.exists_walk_of_kept h.directory hwalk

/-- A directory stays one if something new is put where there was none. -/
theorem ChangesAt.keeps {place : List String} {item : Item} (h : ChangesAt disk changed place item)
    (hplace : disk.item? place ≠ some .directory) : Keeps disk changed := by
  refine ⟨h.here, fun names hnames => ?_⟩
  have hne : names ≠ place := fun heq => hplace (heq ▸ hnames)
  rw [h.item?, if_neg hne, hnames]

/-! ### Making directories -/

/-- Where a directory was made, its path leads to it. -/
theorem isDirectory_of_makeDirectory (h : disk.makeDirectory path = .ok changed) :
    changed.isDirectory path = true := by
  obtain ⟨hchange, hplace⟩ := changesAt_makeDirectory h
  have hkeeps : Keeps disk changed := hchange.keeps (by simp [hplace])
  have hcheck : checkPath path = .ok () := by
    obtain ⟨_, hcheck, -⟩ := exists_of_bind_eq_ok h
    exact hcheck
  obtain ⟨outer, name, idle, spot, entries, hparts, hidle, hname, hfound, -, -⟩ :=
    makeDirectory_eq_ok h
  refine isDirectory_iff.mpr ⟨hcheck, ?_⟩
  -- The directory around the new one is still there, and has the new one under its name.
  obtain ⟨entries', around', hwalk⟩ :=
    Spot.exists_walk_of_kept hkeeps.directory (findOuter_eq_ok hfound)
  have hitem : (Node.directory changed.root).item?
      (placeOf (disk.base path ++ outer.reverse) ++ [name]) = some .directory := by
    rw [← placeTo_eq hparts hidle hname]
    exact (hchange.item? _).trans (if_pos rfl)
  obtain ⟨below, hbelow⟩ := Spot.exists_walk_concat hwalk hname hitem
  have hall := Spot.walk_append_idle hbelow hidle
  rw [hkeeps.base_eq, hparts]
  exact ⟨_, _, by simpa using hall⟩

/-- A later disk has all directories of an earlier one, and the same files. -/
structure OnlyMakes (old new : Disk) : Prop extends Keeps old new where
  file : ∀ place contents,
    new.item? place = some (.file contents) ↔ old.item? place = some (.file contents)

namespace OnlyMakes

/-- Nothing is made where nothing changes. -/
theorem refl (disk : Disk) : OnlyMakes disk disk := ⟨Keeps.refl disk, fun _ _ => Iff.rfl⟩

/-- What only makes directories twice only makes directories. -/
theorem trans (h : OnlyMakes disk changed) (h' : OnlyMakes changed later) :
    OnlyMakes disk later :=
  ⟨h.toKeeps.trans h'.toKeeps, fun place contents => (h'.file place contents).trans (h.file _ _)⟩

/-- Making a directory changes no file. -/
theorem of_makeDirectory (h : disk.makeDirectory path = .ok changed) : OnlyMakes disk changed := by
  obtain ⟨hchange, hplace⟩ := changesAt_makeDirectory h
  refine ⟨hchange.keeps (by simp [hplace]), fun place contents => ?_⟩
  rw [hchange.item?]
  by_cases heq : place = disk.placeTo path
  · subst heq
    simp [hplace]
  · rw [if_neg heq]

end OnlyMakes

/-- Two steps on a disk are run one after the other. -/
theorem run_bind {α β : Type} (first : StateM Disk α) (next : α → StateM Disk β) (disk : Disk) :
    (first >>= next) disk = next (first disk).1 (first disk).2 := rfl

/-- How a directory is made unless there is one. -/
theorem ensureDirectory_run (disk : Disk) (path : String) :
    fileSystem.ensureDirectory path disk =
      match disk.makeDirectory path with
      | .ok changed => (.ok (), changed)
      | .error fault =>
        if disk.isDirectory path then (.ok (), disk) else (.error fault, disk) := by
  have hmake : fileSystem.makeDirectory path disk = disk.settle (disk.makeDirectory path) := rfl
  rw [FileSystem.ensureDirectory, run_bind, hmake]
  cases disk.makeDirectory path with
  | ok changed => rfl
  | error fault =>
    have htest : fileSystem.isDirectory path disk = (disk.isDirectory path, disk) := rfl
    simp only [settle]
    rw [run_bind, htest]
    cases disk.isDirectory path <;> rfl

variable {result : Except FileFault Unit}

/-- Making sure that there is a directory makes nothing but directories, and after success its path
leads to one. -/
theorem ensureDirectory_spec (h : fileSystem.ensureDirectory path disk = (result, changed)) :
    OnlyMakes disk changed ∧ (result = .ok () → changed.isDirectory path = true) := by
  rw [ensureDirectory_run] at h
  cases hmake : disk.makeDirectory path with
  | ok made =>
    rw [hmake] at h
    cases h
    exact ⟨.of_makeDirectory hmake, fun _ => isDirectory_of_makeDirectory hmake⟩
  | error fault =>
    simp only [hmake] at h
    by_cases hpath : disk.isDirectory path = true
    · rw [if_pos hpath] at h
      cases h
      exact ⟨.refl disk, fun _ => hpath⟩
    · rw [if_neg hpath] at h
      cases h
      exact ⟨.refl disk, nofun⟩

/-- How directories are made from the last one of a list to the first: either the first one is made
at once, or it has to wait for those around it, which may meet a fault. -/
theorem ensureInward_cases {outer : List String}
    (h : fileSystem.ensureInward (path :: outer) disk = (result, changed)) :
    fileSystem.ensureDirectory path disk = (result, changed) ∨
      ∃ fault made outerResult outerMade,
        fileSystem.ensureDirectory path disk = (.error fault, made) ∧
        fileSystem.ensureInward outer made = (outerResult, outerMade) ∧
        ((∃ fault, result = .error fault ∧ changed = outerMade) ∨
          fileSystem.ensureDirectory path outerMade = (result, changed)) := by
  rw [FileSystem.ensureInward, run_bind] at h
  cases hfirst : fileSystem.ensureDirectory path disk with
  | mk first made =>
    rw [hfirst] at h
    rcases first with ⟨_ | _⟩ | _
    -- Only what is missing around the path is made up for; all other outcomes are final.
    case error.notFound =>
      refine .inr ⟨_, made, _, _, rfl, rfl, ?_⟩
      dsimp only at h
      rw [run_bind] at h
      cases houter : fileSystem.ensureInward outer made with
      | mk outerResult outerMade =>
        rw [houter] at h
        cases outerResult with
        | ok => exact .inr h
        | error fault =>
          cases h
          exact .inl ⟨fault, rfl, rfl⟩
    all_goals exact .inl h

/-- Making directories inward makes nothing but directories, and after success the path at the head
leads to one. -/
theorem ensureInward_spec {paths : List String}
    (h : fileSystem.ensureInward paths disk = (result, changed)) :
    OnlyMakes disk changed ∧
      (result = .ok () → ∀ path ∈ paths.head?, changed.isDirectory path = true) := by
  induction paths generalizing disk result changed with
  | nil =>
    cases h
    exact ⟨.refl disk, fun _ => nofun⟩
  | cons path outer ih =>
    rcases ensureInward_cases h with hfirst | ⟨_, made, _, outerMade, hfirst, houter, hlast⟩
    · obtain ⟨hmakes, hpath⟩ := ensureDirectory_spec hfirst
      exact ⟨hmakes, fun hok _ hhead => Option.some.inj hhead ▸ hpath hok⟩
    · -- The first attempt and the directories around it come before the second attempt.
      have hmade := (ensureDirectory_spec hfirst).1.trans (ih houter).1
      rcases hlast with ⟨fault, rfl, rfl⟩ | hlast
      · exact ⟨hmade, nofun⟩
      · obtain ⟨hmakes, hpath⟩ := ensureDirectory_spec hlast
        exact ⟨hmade.trans hmakes, fun hok _ hhead => Option.some.inj hhead ▸ hpath hok⟩

/-- **Making directories.** Making the directories of a path makes nothing but directories, and
after success the path leads to one. -/
theorem ensureDirectories_spec (h : fileSystem.ensureDirectories path disk = (result, changed)) :
    OnlyMakes disk changed ∧ (result = .ok () → changed.isDirectory path = true) := by
  obtain ⟨hmakes, hpath⟩ := ensureInward_spec h
  exact ⟨hmakes, fun hok => hpath hok path rfl⟩

end Disk

end Daedalus.Command
