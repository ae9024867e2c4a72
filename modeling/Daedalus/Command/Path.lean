/-! # Paths

The parts of a path between its slashes. A path is resolved part by part; the empty part and the dot
lead nowhere, and two dots lead to the directory around. -/

namespace Daedalus.Command

/-- The pieces of a list of characters between its slashes. -/
def splitAtSlashes : List Char → List (List Char)
  | [] => [[]]
  | c :: rest =>
    if c = '/' then [] :: splitAtSlashes rest
    else
      match splitAtSlashes rest with
      | [] => [[c]]
      | piece :: pieces => (c :: piece) :: pieces

/-- There is always a piece, which may be empty. -/
theorem splitAtSlashes_ne_nil (cs : List Char) : splitAtSlashes cs ≠ [] := by
  cases cs with
  | nil => simp [splitAtSlashes]
  | cons c cs =>
    unfold splitAtSlashes
    split
    · simp
    · split <;> simp

/-- The parts of a path between its slashes. -/
def pathParts (path : String) : List String := (splitAtSlashes path.toList).map String.ofList

/-- Whether a path starts at the root. -/
def isAbsolute (path : String) : Bool := path.toList.head? == some '/'

/-- A path below a directory; an absolute path replaces the directory. -/
def joinPath (directory path : String) : String :=
  if isAbsolute path || directory.isEmpty || directory.toList.getLast? == some '/' then
    if isAbsolute path then path else directory ++ path
  else directory ++ "/" ++ path

/-- Whether a part of a path leads nowhere. -/
def isIdle (part : String) : Bool := part == "" || part == "."

/-- The ways to the directories in which a position lies, the innermost directory first, as far as
the way to the position shows them. All ways are given backwards. -/
def outerWays : List String → List (List String)
  | [] => []
  | part :: rest =>
    if isIdle part then outerWays rest
    else
      match rest.dropWhile isIdle with
      | [] => []
      | outer => outer :: outerWays rest

/-- The paths of the directories in which a path lies, the innermost first, as far as the path shows
them. -/
def outerPaths (path : String) : List String :=
  (outerWays (pathParts path).reverse).map fun way => "/".intercalate way.reverse

end Daedalus.Command
