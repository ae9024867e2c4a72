import Daedalus.Command.Path

/-! # File systems

The operations on files that the commands need, for any way of carrying them out. -/

namespace Daedalus.Command

/-- Why an operation on a file fails. -/
inductive FileFault where
  | notFound
  | exists
  | notDirectory
  | isDirectory
  | nameTooLong
  | zeroInName
  /-- A fault that the system reports in its own words. -/
  | reported (code : Nat) (text : String)
  deriving DecidableEq, Repr

/-- A report of the operating system with its number. -/
def systemReport (code : Nat) (text : String) : String :=
  text ++ " (os error " ++ toString code ++ ")"

/-- The report of a fault. -/
def FileFault.message : FileFault → String
  | .notFound => systemReport 2 "No such file or directory"
  | .exists => systemReport 17 "File exists"
  | .notDirectory => systemReport 20 "Not a directory"
  | .isDirectory => systemReport 21 "Is a directory"
  | .nameTooLong => systemReport 36 "File name too long"
  | .zeroInName => "file name contained an unexpected NUL byte"
  | .reported code text => systemReport code text

/-- The fault that the operating system gives by its number and words. -/
def FileFault.ofCode (code : Nat) (text : String) : FileFault :=
  match code with
  | 2 => .notFound
  | 17 => .exists
  | 20 => .notDirectory
  | 21 => .isDirectory
  | 36 => .nameTooLong
  | _ => .reported code text

/-- The operations on files that the commands need. -/
structure FileSystem (m : Type → Type) where
  /-- The contents of the file at a path. -/
  read : String → m (Except FileFault ByteArray)
  /-- Makes the text the contents of the file at a path. -/
  write : String → String → m (Except FileFault Unit)
  /-- Whether there is a directory at a path. -/
  isDirectory : String → m Bool
  /-- Makes a directory at a path. The directory in which it lies has to be there. -/
  makeDirectory : String → m (Except FileFault Unit)

namespace FileSystem

variable {m : Type → Type} [Monad m] (files : FileSystem m)

/-- Makes a directory at a path, unless there is one. -/
def ensureDirectory (path : String) : m (Except FileFault Unit) := do
  match ← files.makeDirectory path with
  | .ok () => pure (.ok ())
  | .error fault => if ← files.isDirectory path then pure (.ok ()) else pure (.error fault)

/-- Makes directories at the paths of a list, from the last one to the first. It starts with the
first path for which something else is wrong than that the directory around it is missing. -/
def ensureInward : List String → m (Except FileFault Unit)
  | [] => pure (.ok ())
  | path :: outer => do
    match ← files.ensureDirectory path with
    | .error .notFound =>
      match ← ensureInward outer with
      | .ok () => files.ensureDirectory path
      | .error fault => pure (.error fault)
    | made => pure made

/-- Makes a directory at a path, and those in which it lies as far as they are missing. -/
def ensureDirectories (path : String) : m (Except FileFault Unit) :=
  files.ensureInward (path :: outerPaths path)

end FileSystem

end Daedalus.Command
