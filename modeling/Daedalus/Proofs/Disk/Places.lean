import Mathlib.Data.List.Induction
import Mathlib.Data.List.TakeWhile
import Daedalus.Command.Disk
import Daedalus.Proofs.Results

/-! # Places on a disk

A place is given by the names that lead to it from the root. Where a path leads is told from its
parts alone: a part that leads nowhere is passed over, two dots drop the last name, and every other
part is one more name.

Changes are told place by place: `Disk.changesAt_write` and `Disk.changesAt_makeDirectory` say that
one place gets a new item, and that all others stay as they are. -/

namespace Daedalus.Command

/-! ### Items -/

/-- What is at a place: a file with its contents, or a directory, whatever is in it. -/
inductive Item where
  | file (contents : ByteArray)
  | directory

namespace Node

/-- A node as the item at its place. -/
def item : Node → Item
  | .file contents => .file contents
  | .directory _ => .directory

/-- The item to which a list of names leads. -/
def item? (node : Node) (names : List String) : Option Item := (node.at? names).map item

/-- Without further names, a place is where it starts. -/
theorem at?_nil (node : Node) : node.at? [] = some node := by
  cases node <;> rfl

/-- A place is reached name by name. -/
theorem at?_append (node : Node) (left right : List String) :
    node.at? (left ++ right) = (node.at? left).bind (·.at? right) := by
  induction left generalizing node with
  | nil => rw [List.nil_append, at?_nil, Option.bind_some]
  | cons name left ih =>
    cases node with
    | file contents => rfl
    | directory entries =>
      rw [List.cons_append, at?, at?]
      cases entries.lookup name with
      | none => rfl
      | some node => exact ih node

/-- Without further names, there is the item of the node itself. -/
theorem item?_nil (node : Node) : node.item? [] = some node.item := by
  rw [item?, at?_nil, Option.map_some]

/-- The first name of a place is looked up in the directory. -/
theorem item?_cons (entries : Entries) (name : String) (names : List String) :
    (directory entries).item? (name :: names) = (entries.lookup name).bind (·.item? names) := by
  rw [item?, at?]
  cases entries.lookup name <;> rfl

/-- What counts as a directory has entries. -/
theorem eq_directory_of_item {node : Node} (h : node.item = .directory) :
    ∃ entries, node = .directory entries := by
  cases node with
  | file contents => cases h
  | directory entries => exact ⟨entries, rfl⟩

/-- Entries of a directory are what is one name further. -/
theorem at?_concat {root : Node} {names : List String} {entries : Entries}
    (h : root.at? names = some (.directory entries)) (name : String) :
    root.at? (names ++ [name]) = entries.lookup name := by
  rw [at?_append, h, Option.bind_some, at?]
  cases entries.lookup name with
  | none => rfl
  | some node => exact at?_nil node

end Node

namespace Entries

variable (entries : Entries) (name : String) (node : Node)

/-- What was put under a name is found there. -/
theorem lookup_put_self : (entries.put name node).lookup name = some node := by
  rw [put, List.lookup_cons_self]

/-- Under other names the same is found as before. -/
theorem lookup_put_ne {other : String} (h : other ≠ name) :
    (entries.put name node).lookup other = entries.lookup other := by
  rw [put, List.lookup_cons, beq_eq_false_iff_ne.mpr h]
  show (entries.filter (·.1 != name)).lookup other = entries.lookup other
  induction entries with
  | nil => rfl
  | cons entry entries ih =>
    obtain ⟨key, value⟩ := entry
    by_cases hkey : key = name
    · subst hkey
      rw [List.filter_cons_of_neg (by simp), List.lookup_cons, beq_eq_false_iff_ne.mpr h]
      exact ih
    · rw [List.filter_cons_of_pos (by simpa using hkey), List.lookup_cons, List.lookup_cons, ih]

end Entries

/-! ### Where a path leads -/

/-- Follows one part of a path from a place. -/
def followPart (names : List String) (part : String) : List String :=
  if isIdle part then names else if part = ".." then names.dropLast else names ++ [part]

/-- A part that leads to what has this name: it leads neither nowhere nor back, and is not too long.
-/
structure IsName (name : String) : Prop where
  idle : isIdle name = false
  up : name ≠ ".."
  length : name.utf8ByteSize ≤ 255

/-- The place to which parts lead from the root. -/
def placeOf (parts : List String) : List String := parts.foldl followPart []

/-- The last part of a path is followed last. -/
theorem placeOf_concat (parts : List String) (part : String) :
    placeOf (parts ++ [part]) = followPart (placeOf parts) part := by
  rw [placeOf, List.foldl_append]
  rfl

/-- A name at the end of a path leads into the place before it. -/
theorem IsName.placeOf_concat {name : String} (h : IsName name) (parts : List String) :
    placeOf (parts ++ [name]) = placeOf parts ++ [name] := by
  rw [Command.placeOf_concat, followPart, h.idle, if_neg Bool.false_ne_true, if_neg h.up]

/-- Parts that lead nowhere do not change a place. -/
theorem placeOf_append_idle (parts : List String) {idle : List String}
    (h : ∀ part ∈ idle, isIdle part = true) : placeOf (parts ++ idle) = placeOf parts := by
  induction idle using List.reverseRecOn with
  | nil => rw [List.append_nil]
  | append_singleton idle part ih =>
    rw [← List.append_assoc, placeOf_concat, followPart,
      if_pos (h part List.mem_concat_self)]
    exact ih fun part hpart => h part (List.mem_append_left _ hpart)

namespace Spot

/-- The names that lead to a spot. -/
def place (spot : Spot) : List String := (spot.around.map Prod.fst).reverse

/-- A node lies in directories around it, the outermost of which is the root: each directory has the
next one under the name that leads on. -/
def LiesIn (root : Entries) : Node → List (String × Entries) → Prop
  | node, [] => node = .directory root
  | node, (name, outer) :: around =>
    outer.lookup name = some node ∧ LiesIn root (.directory outer) around

variable {root : Entries} {spot next : Spot}

/-- The names that lead to a spot lead to its node. -/
theorem LiesIn.at?_place {node : Node} {around : List (String × Entries)}
    (h : LiesIn root node around) :
    (Node.directory root).at? (place ⟨node, around⟩) = some node := by
  induction around generalizing node with
  | nil =>
    obtain rfl := h
    rfl
  | cons first around ih =>
    obtain ⟨name, outer⟩ := first
    obtain ⟨hlookup, houter⟩ := h
    have hplace : place ⟨node, (name, outer) :: around⟩ =
        place ⟨.directory outer, around⟩ ++ [name] := List.reverse_cons
    rw [hplace, Node.at?_concat (ih houter), hlookup]

/-- Where one part can lead: nowhere, back to the directory around, or to what has this name. -/
theorem step_cases {part : String} (h : spot.step part = .ok next) :
    ∃ entries, spot.node = .directory entries ∧
      ((isIdle part = true ∧ next = spot) ∨
        (isIdle part = false ∧ part = ".." ∧
          next = match spot.around with
            | [] => spot
            | (_, outer) :: around => ⟨.directory outer, around⟩) ∨
        (IsName part ∧ ∃ node, entries.lookup part = some node ∧
          next = ⟨node, (part, entries) :: spot.around⟩)) := by
  obtain ⟨node, around⟩ := spot
  cases node with
  | file contents => cases h
  | directory entries =>
    -- The cases are those of a step, in its order; a name that is too long leads nowhere.
    refine ⟨entries, rfl, ?_⟩
    simp only [Spot.step] at h
    by_cases hidle : isIdle part = true
    · rw [if_pos hidle] at h
      exact .inl ⟨hidle, (Except.ok.inj h).symm⟩
    · rw [if_neg hidle] at h
      have hidle := Bool.eq_false_iff.mpr hidle
      by_cases hup : part = ".."
      · rw [if_pos hup] at h
        refine .inr (.inl ⟨hidle, hup, ?_⟩)
        cases around <;> exact (Except.ok.inj h).symm
      · rw [if_neg hup] at h
        by_cases hlong : 255 < part.utf8ByteSize
        · rw [if_pos hlong] at h
          cases h
        · rw [if_neg hlong] at h
          cases hlookup : entries.lookup part with
          | none =>
            rw [hlookup] at h
            cases h
          | some node =>
            rw [hlookup] at h
            exact .inr (.inr ⟨⟨hidle, hup, Nat.not_lt.mp hlong⟩, node, rfl,
              (Except.ok.inj h).symm⟩)

/-- One part leads from a spot to a spot. -/
theorem LiesIn.step {part : String} (h : LiesIn root spot.node spot.around)
    (hstep : spot.step part = .ok next) :
    LiesIn root next.node next.around ∧ next.place = followPart spot.place part := by
  obtain ⟨entries, hnode, ⟨hidle, rfl⟩ | ⟨hidle, rfl, rfl⟩ | ⟨hname, node, hlookup, rfl⟩⟩ :=
    step_cases hstep
  · exact ⟨h, by rw [followPart, if_pos hidle]⟩
  · rw [followPart, hidle, if_neg Bool.false_ne_true, if_pos rfl]
    obtain ⟨node, around⟩ := spot
    cases around with
    | nil => exact ⟨h, rfl⟩
    | cons first around => exact ⟨h.2, by simp [place]⟩
  · rw [followPart, hname.idle, if_neg Bool.false_ne_true, if_neg hname.up]
    rw [hnode] at h
    exact ⟨⟨hlookup, h⟩, by simp [place]⟩

/-- The last part of a path is the last step. -/
theorem walk_concat (spot : Spot) (parts : List String) (part : String) :
    spot.walk (parts ++ [part]) = (spot.walk parts).bind (·.step part) := by
  rw [walk, List.foldlM_append, walk]
  cases parts.foldlM step spot with
  | error fault => rfl
  | ok found => exact bind_pure (found.step part)

/-- **Walks.** Parts lead to the spot at the place that is told from them. -/
theorem liesIn_of_walk {parts : List String}
    (h : Spot.walk ⟨.directory root, []⟩ parts = .ok spot) :
    LiesIn root spot.node spot.around ∧ spot.place = placeOf parts := by
  induction parts using List.reverseRecOn generalizing spot with
  | nil =>
    cases h
    exact ⟨rfl, rfl⟩
  | append_singleton parts part ih =>
    rw [walk_concat] at h
    obtain ⟨found, hwalk, hstep⟩ := exists_of_bind_eq_ok h
    obtain ⟨hfound, hplace⟩ := ih hwalk
    obtain ⟨hspot, hnext⟩ := hfound.step hstep
    exact ⟨hspot, by rw [hnext, hplace, placeOf_concat]⟩

end Spot

/-! ### Changes -/

namespace Node

/-- There is nothing below a node. -/
def IsLeaf (node : Node) : Prop := ∀ name names, node.item? (name :: names) = none

/-- Nothing lies below a file. -/
theorem isLeaf_file (contents : ByteArray) : (file contents).IsLeaf := fun _ _ => rfl

/-- Nothing lies below an empty directory. -/
theorem isLeaf_directory : (directory []).IsLeaf := fun _ _ => rfl

/-- Two trees have the same items but for one place, where the second one has the given item. -/
def ChangesAt (old new : Node) (place : List String) (item : Item) : Prop :=
  ∀ names, new.item? names = if names = place then some item else old.item? names

variable {entries changed : Entries} {name : String} {node : Node}

/-- Putting a leaf into a directory, in place of a leaf or of nothing, changes one place. -/
theorem changesAt_put (hold : ∀ old, entries.lookup name = some old → old.IsLeaf)
    (hnew : node.IsLeaf) :
    ChangesAt (directory entries) (directory (entries.put name node)) [name] node.item := by
  intro names
  cases names with
  | nil => simp [item?_nil, item]
  | cons first names =>
    rw [item?_cons, item?_cons]
    by_cases hfirst : first = name
    · subst hfirst
      rw [Entries.lookup_put_self, Option.bind_some]
      cases names with
      | nil => rw [if_pos rfl, item?_nil]
      | cons second names =>
        -- Below a leaf there is nothing, neither before nor after.
        rw [hnew, if_neg (by simp)]
        cases hlookup : entries.lookup first with
        | none => rfl
        | some old => exact (hold old hlookup second names).symm
    · rw [Entries.lookup_put_ne _ _ _ hfirst, if_neg fun h => hfirst (List.cons.inj h).1]

/-- A change inside a directory is one name further away from the directory around it. -/
theorem ChangesAt.put {place : List String} {item : Item} {outer : Entries}
    (h : ChangesAt (directory entries) (directory changed) place item)
    (hlookup : outer.lookup name = some (directory entries)) :
    ChangesAt (directory outer) (directory (outer.put name (directory changed))) (name :: place)
      item := by
  intro names
  cases names with
  | nil => simp [item?_nil, Node.item]
  | cons first names =>
    rw [item?_cons, item?_cons]
    by_cases hfirst : first = name
    · subst hfirst
      rw [Entries.lookup_put_self, hlookup, Option.bind_some, Option.bind_some, h names]
      simp
    · rw [Entries.lookup_put_ne _ _ _ hfirst, if_neg fun h => hfirst (List.cons.inj h).1]

/-- A change inside a directory is a change of the whole tree. -/
theorem ChangesAt.rootEntries {root : Entries} {around : List (String × Entries)}
    {place : List String} {item : Item} (hlies : Spot.LiesIn root (directory entries) around)
    (h : ChangesAt (directory entries) (directory changed) place item) :
    ChangesAt (directory root) (directory (Spot.rootEntries changed around))
      (Spot.place ⟨directory entries, around⟩ ++ place) item := by
  induction around generalizing entries changed place with
  | nil =>
    cases hlies
    exact h
  | cons first around ih =>
    obtain ⟨name, outer⟩ := first
    obtain ⟨hlookup, hlies⟩ := hlies
    -- The place grows by the name of the directory each time one goes out of it.
    have hplace : Spot.place ⟨directory entries, (name, outer) :: around⟩ ++ place =
        Spot.place ⟨directory outer, around⟩ ++ name :: place := by
      simp [Spot.place]
    rw [hplace]
    exact ih hlies (h.put hlookup)

end Node

namespace Disk

variable {disk changed : Disk} {path : String}

/-- The item at a place of a disk. -/
def item? (disk : Disk) (place : List String) : Option Item :=
  (Node.directory disk.root).item? place

/-- The names from the root to where a path starts. -/
def base (disk : Disk) (path : String) : List String := if isAbsolute path then [] else disk.here

/-- The place to which a path leads. -/
def placeTo (disk : Disk) (path : String) : List String :=
  placeOf (disk.base path ++ pathParts path)

/-- A disk differs from another one in the item at one place. -/
structure ChangesAt (old new : Disk) (place : List String) (item : Item) : Prop where
  here : new.here = old.here
  item? : ∀ names, new.item? names = if names = place then some item else old.item? names

/-- Parts are followed from the root, behind those of the working directory if the path is relative.
-/
theorem start_bind_walk (disk : Disk) (path : String) (parts : List String) :
    (disk.start path).bind (·.walk parts) =
      Spot.walk ⟨.directory disk.root, []⟩ (disk.base path ++ parts) := by
  rw [start, Spot.walk, Spot.walk, List.foldlM_append]
  rfl

/-- What is found around the last part of a path is a directory to which the parts before lead. -/
theorem findOuter_eq_ok {backwards : List String} {spot : Spot} {entries : Entries}
    (h : disk.findOuter path backwards = .ok (spot, entries)) :
    Spot.walk ⟨.directory disk.root, []⟩ (disk.base path ++ backwards.reverse) =
      .ok ⟨.directory entries, spot.around⟩ := by
  obtain ⟨start, hstart, h⟩ := exists_of_bind_eq_ok h
  obtain ⟨⟨node, around⟩, hwalk, h⟩ := exists_of_bind_eq_ok h
  rw [← start_bind_walk, hstart]
  cases node with
  | file contents => cases h
  | directory found =>
    cases h
    exact hwalk

/-- Behind the name there are only parts that lead nowhere. -/
theorem placeTo_eq {outer idle : List String} {name : String}
    (hparts : pathParts path = outer.reverse ++ name :: idle)
    (hidle : ∀ part ∈ idle, isIdle part = true) (hname : IsName name) :
    disk.placeTo path = placeOf (disk.base path ++ outer.reverse) ++ [name] := by
  rw [placeTo, hparts, List.append_cons, ← List.append_assoc, placeOf_append_idle _ hidle,
    ← List.append_assoc, hname.placeOf_concat]

/-- A leaf that is put in place of a leaf or of nothing changes the place to which its path leads.
-/
theorem changesAt_put {outer idle : List String} {name : String} {spot : Spot} {entries : Entries}
    {node : Node} (hparts : pathParts path = outer.reverse ++ name :: idle)
    (hidle : ∀ part ∈ idle, isIdle part = true) (hname : IsName name)
    (hfound : disk.findOuter path outer = .ok (spot, entries))
    (hold : ∀ old, entries.lookup name = some old → old.IsLeaf) (hnew : node.IsLeaf) :
    ChangesAt disk (disk.put spot entries name node) (disk.placeTo path) node.item := by
  obtain ⟨hlies, hplace⟩ := Spot.liesIn_of_walk (findOuter_eq_ok hfound)
  rw [placeTo_eq hparts hidle hname, ← hplace]
  exact ⟨rfl, (Node.changesAt_put hold hnew).rootEntries hlies⟩

/-- What is found where a file is written. -/
theorem write_eq_ok {contents : ByteArray} (h : disk.write path contents = .ok changed) :
    ∃ outer name spot entries, pathParts path = outer.reverse ++ [name] ∧ IsName name ∧
      disk.findOuter path outer = .ok (spot, entries) ∧
      (∀ below, entries.lookup name ≠ some (.directory below)) ∧
      changed = disk.put spot entries name (.file contents) := by
  obtain ⟨-, -, h⟩ := exists_of_bind_eq_ok h
  cases hparts : (pathParts path).reverse with
  | nil =>
    rw [hparts] at h
    cases h
  | cons name outer =>
    simp only [hparts] at h
    obtain ⟨⟨spot, entries⟩, hfound, h⟩ := exists_of_bind_eq_ok h
    simp only at h
    by_cases hname : isIdle name = true ∨ name = ".."
    · rw [if_pos hname] at h
      cases h
    · rw [if_neg hname] at h
      by_cases hlong : 255 < name.utf8ByteSize
      · rw [if_pos hlong] at h
        cases h
      · rw [if_neg hlong] at h
        -- All refusals are behind: the last part is a name, and what stands there is no directory.
        obtain ⟨hidle, hup⟩ := not_or.mp hname
        refine ⟨outer, name, spot, entries, ?_,
          ⟨Bool.eq_false_iff.mpr hidle, hup, Nat.not_lt.mp hlong⟩, hfound, ?_⟩
        · rw [← List.reverse_reverse (pathParts path), hparts, List.reverse_cons]
        · cases hlookup : entries.lookup name with
          | none =>
            rw [hlookup] at h
            exact ⟨nofun, (Except.ok.inj h).symm⟩
          | some old =>
            rw [hlookup] at h
            cases old with
            | file old => exact ⟨nofun, (Except.ok.inj h).symm⟩
            | directory below => cases h

/-- The last part that is not empty has only empty parts behind it. -/
theorem exists_idle_of_dropWhile {parts outer : List String} {name : String}
    (h : parts.reverse.dropWhile (· == "") = name :: outer) :
    name ≠ "" ∧ ∃ idle, parts = outer.reverse ++ name :: idle ∧
      ∀ part ∈ idle, isIdle part = true := by
  have hempty : name ≠ "" := by
    have hhead := List.head?_dropWhile_not (· == "") parts.reverse
    simpa [h] using hhead
  have hsplit : parts.reverse.takeWhile (· == "") ++ name :: outer = parts.reverse := by
    rw [← h, List.takeWhile_append_dropWhile]
  have hwhole := congrArg List.reverse hsplit
  rw [List.reverse_reverse, List.reverse_append, List.reverse_cons, List.append_assoc] at hwhole
  refine ⟨hempty, (parts.reverse.takeWhile (· == "")).reverse, hwhole.symm, fun part hpart => ?_⟩
  have hpart := List.mem_takeWhile_imp (List.mem_reverse.mp hpart)
  rw [isIdle, hpart, Bool.true_or]

/-- What is found where a directory is made. -/
theorem makeDirectory_eq_ok (h : disk.makeDirectory path = .ok changed) :
    ∃ outer name idle spot entries, pathParts path = outer.reverse ++ name :: idle ∧
      (∀ part ∈ idle, isIdle part = true) ∧ IsName name ∧
      disk.findOuter path outer = .ok (spot, entries) ∧ entries.lookup name = none ∧
      changed = disk.put spot entries name (.directory []) := by
  obtain ⟨-, -, h⟩ := exists_of_bind_eq_ok h
  cases hparts : (pathParts path).reverse.dropWhile (· == "") with
  | nil =>
    rw [hparts] at h
    cases h
  | cons name outer =>
    simp only [hparts] at h
    obtain ⟨⟨spot, entries⟩, hfound, h⟩ := exists_of_bind_eq_ok h
    simp only at h
    by_cases hname : name = "." ∨ name = ".."
    · rw [if_pos hname] at h
      cases h
    · rw [if_neg hname] at h
      by_cases hlong : 255 < name.utf8ByteSize
      · rw [if_pos hlong] at h
        cases h
      · rw [if_neg hlong] at h
        -- All refusals are behind: the last part is a name, and nothing stands there.
        obtain ⟨hdot, hup⟩ := not_or.mp hname
        obtain ⟨hempty, idle, hwhole, hidle⟩ := exists_idle_of_dropWhile hparts
        refine ⟨outer, name, idle, spot, entries, hwhole, hidle,
          ⟨by simp [isIdle, hempty, hdot], hup, Nat.not_lt.mp hlong⟩, hfound, ?_⟩
        · cases hlookup : entries.lookup name with
          | none =>
            rw [hlookup] at h
            exact ⟨rfl, (Except.ok.inj h).symm⟩
          | some old =>
            rw [hlookup] at h
            cases h

/-- The item that was where something is put. -/
theorem item?_placeTo {outer idle : List String} {name : String} {spot : Spot} {entries : Entries}
    (hparts : pathParts path = outer.reverse ++ name :: idle)
    (hidle : ∀ part ∈ idle, isIdle part = true) (hname : IsName name)
    (hfound : disk.findOuter path outer = .ok (spot, entries)) :
    disk.item? (disk.placeTo path) = (entries.lookup name).map Node.item := by
  obtain ⟨hlies, hplace⟩ := Spot.liesIn_of_walk (findOuter_eq_ok hfound)
  rw [placeTo_eq hparts hidle hname, ← hplace, item?, Node.item?, Node.at?_concat hlies.at?_place]

/-- **Writing.** A file that is written is at the place to which its path leads, where no directory
was, and all other places stay as they are. -/
theorem changesAt_write {contents : ByteArray} (h : disk.write path contents = .ok changed) :
    ChangesAt disk changed (disk.placeTo path) (.file contents) ∧
      disk.item? (disk.placeTo path) ≠ some .directory := by
  obtain ⟨outer, name, spot, entries, hparts, hname, hfound, hold, rfl⟩ := write_eq_ok h
  have hidle : ∀ part ∈ [], isIdle part = true := nofun
  refine ⟨changesAt_put hparts hidle hname hfound (fun old hlookup => ?_) (Node.isLeaf_file _), ?_⟩
  · cases old with
    | file old => exact Node.isLeaf_file _
    | directory below => exact absurd hlookup (hold below)
  · rw [item?_placeTo hparts hidle hname hfound]
    intro hitem
    obtain ⟨old, hlookup, hitem⟩ := Option.map_eq_some_iff.mp hitem
    obtain ⟨below, rfl⟩ := Node.eq_directory_of_item hitem
    exact hold below hlookup

/-- **Making a directory.** A directory that is made is at the place to which its path leads, where
nothing was, and all other places stay as they are. -/
theorem changesAt_makeDirectory (h : disk.makeDirectory path = .ok changed) :
    ChangesAt disk changed (disk.placeTo path) .directory ∧
      disk.item? (disk.placeTo path) = none := by
  obtain ⟨outer, name, idle, spot, entries, hparts, hidle, hname, hfound, hold, rfl⟩ :=
    makeDirectory_eq_ok h
  refine ⟨changesAt_put hparts hidle hname hfound (fun old hlookup => ?_) Node.isLeaf_directory, ?_⟩
  · rw [hold] at hlookup
    cases hlookup
  · rw [item?_placeTo hparts hidle hname hfound, hold, Option.map_none]

end Disk

end Daedalus.Command
