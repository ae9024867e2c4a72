import Daedalus.Command.FileSystem

/-! # Disks

A model of a file system in which files are values: a tree of directories. Paths are resolved as an
operating system does it, from the root or from the working directory, and every part but the last
has to lead to a directory. -/

namespace Daedalus.Command

/-- What a name on a disk stands for. -/
inductive Node where
  | file (contents : ByteArray)
  | directory (entries : List (String × Node))

/-- What the names of a directory stand for. -/
abbrev Entries := List (String × Node)

/-- The entries with something else under a name. -/
def Entries.put (entries : Entries) (name : String) (node : Node) : Entries :=
  (name, node) :: entries.filter (·.1 != name)

/-- What a list of names leads to. -/
def Node.at? : Node → List String → Option Node
  | node, [] => some node
  | .directory entries, name :: names => (entries.lookup name).bind (·.at? names)
  | .file _, _ :: _ => none

/-- A node and the directories around it, the innermost first, each with the name under which the
way goes on in it. -/
structure Spot where
  node : Node
  around : List (String × Entries) := []

namespace Spot

/-- Follows one part of a path. A name has at most 255 bytes. -/
def step (spot : Spot) (part : String) : Except FileFault Spot :=
  match spot.node with
  | .file _ => .error .notDirectory
  | .directory entries =>
    if isIdle part then .ok spot
    else if part = ".." then
      match spot.around with
      | [] => .ok spot
      | (_, outer) :: around => .ok ⟨.directory outer, around⟩
    else if 255 < part.utf8ByteSize then .error .nameTooLong
    else
      match entries.lookup part with
      | some node => .ok ⟨node, (part, entries) :: spot.around⟩
      | none => .error .notFound

/-- Follows the parts of a path. -/
def walk (spot : Spot) (parts : List String) : Except FileFault Spot := parts.foldlM step spot

/-- The entries of the root around a directory with the given entries. -/
def rootEntries (entries : Entries) : List (String × Entries) → Entries
  | [] => entries
  | (name, outer) :: around => rootEntries (outer.put name (.directory entries)) around

end Spot

/-- A disk: the entries of its root, and the names that lead from there to the working directory. -/
structure Disk where
  root : Entries := []
  here : List String := []

namespace Disk

variable (disk : Disk)

/-- What a list of names leads to from the root. -/
def at? (names : List String) : Option Node := (Node.directory disk.root).at? names

/-- Where the parts of a path start. -/
def start (path : String) : Except FileFault Spot :=
  Spot.walk ⟨.directory disk.root, []⟩ (if isAbsolute path then [] else disk.here)

/-- Refuses the texts that are no paths: the empty one, those with a zero, and those of more than
4095 bytes. -/
def checkPath (path : String) : Except FileFault Unit :=
  if path = "" then .error .notFound
  else if path.toList.contains '\x00' then .error .zeroInName
  else if 4095 < path.utf8ByteSize then .error .nameTooLong
  else .ok ()

/-- The spot to which a path leads. -/
def find (path : String) : Except FileFault Spot := do
  checkPath path
  (← disk.start path).walk (pathParts path)

/-- The spot to which a path leads without its last part, with that part and the entries found
there. -/
def findOuter (path : String) (backwards : List String) : Except FileFault (Spot × Entries) := do
  let spot ← (← disk.start path).walk backwards.reverse
  match spot.node with
  | .directory entries => pure (spot, entries)
  | .file _ => throw .notDirectory

/-- The disk with a new node under a name of a directory. -/
def put (spot : Spot) (entries : Entries) (name : String) (node : Node) : Disk :=
  { disk with root := Spot.rootEntries (entries.put name node) spot.around }

/-- The contents of the file at a path. -/
def read (path : String) : Except FileFault ByteArray := do
  match (← disk.find path).node with
  | .file contents => pure contents
  | .directory _ => throw .isDirectory

/-- Whether there is a directory at a path. -/
def isDirectory (path : String) : Bool :=
  match disk.find path with
  | .ok ⟨.directory _, _⟩ => true
  | _ => false

/-- The disk with a file at a path. The directory in which the file lies has to be there. -/
def write (path : String) (contents : ByteArray) : Except FileFault Disk := do
  checkPath path
  match (pathParts path).reverse with
  | [] => throw .notFound
  | name :: outer =>
    let (spot, entries) ← disk.findOuter path outer
    if isIdle name ∨ name = ".." then throw .isDirectory
    else if 255 < name.utf8ByteSize then throw .nameTooLong
    else
      match entries.lookup name with
      | some (.directory _) => throw .isDirectory
      | _ => pure (disk.put spot entries name (.file contents))

/-- The disk with a directory at a path, whose last part may have slashes behind it. The directory
in which the new one lies has to be there. -/
def makeDirectory (path : String) : Except FileFault Disk := do
  checkPath path
  match (pathParts path).reverse.dropWhile (· == "") with
  | [] => throw .exists
  | name :: outer =>
    let (spot, entries) ← disk.findOuter path outer
    if name = "." ∨ name = ".." then throw .exists
    else if 255 < name.utf8ByteSize then throw .nameTooLong
    else
      match entries.lookup name with
      | some _ => throw .exists
      | none => pure (disk.put spot entries name (.directory []))

/-- The next state of a disk, with the fault if it could not be changed. -/
def settle : Except FileFault Disk → Except FileFault Unit × Disk
  | .ok changed => (.ok (), changed)
  | .error fault => (.error fault, disk)

/-- The model as a file system: the disk is the state. -/
def fileSystem : FileSystem (StateM Disk) where
  read path := fun disk => (disk.read path, disk)
  write path text := fun disk => disk.settle (disk.write path text.toUTF8)
  isDirectory path := fun disk => (disk.isDirectory path, disk)
  makeDirectory path := fun disk => disk.settle (disk.makeDirectory path)

end Disk

end Daedalus.Command
