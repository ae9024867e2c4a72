import Daedalus.Command.Run

/-! # The program

The commands on the files of the operating system. -/

namespace Daedalus.Command

/-- The fault with a number, which may come with the opposite sign. -/
def FileFault.ofWord (code : UInt32) (text : String) : FileFault :=
  .ofCode (min code.toNat (UInt32.size - code.toNat)) text

/-- The fault that the operating system reports. -/
def FileFault.ofSystem : IO.Error → FileFault
  | .noFileOrDirectory _ _ _ => .notFound
  | .alreadyExists _ _ _ => .exists
  | .resourceExhausted _ code text | .inappropriateType _ code text | .permissionDenied _ code text
  | .invalidArgument _ code text => .ofWord code text
  | .otherError code text | .resourceBusy code text | .hardwareFault code text
  | .illegalOperation code text => .ofWord code text
  | error => .reported 0 error.toString

/-- An operation on files, with its fault as a value. -/
def attempt {α : Type} (act : IO α) : IO (Except FileFault α) := do
  match ← act.toBaseIO with
  | .ok value => pure (.ok value)
  | .error error => pure (.error (.ofSystem error))

/-- The files of the operating system. A path with a dot behind it is refused as one that exists
exactly if there is a directory at the path. -/
def systemFiles : FileSystem IO where
  read path := attempt (IO.FS.readBinFile path)
  write path text := attempt (IO.FS.writeFile path text)
  isDirectory path := do
    match ← attempt (IO.FS.createDir (path ++ "/.")) with
    | .error .exists => pure true
    | _ => pure false
  makeDirectory path := attempt (IO.FS.createDir path)

end Daedalus.Command

/-- Runs the program on its arguments. -/
def main (args : List String) : IO UInt32 := do
  let outcome ← Daedalus.Command.run Daedalus.Command.systemFiles args
  IO.print outcome.output
  match outcome.fault with
  | some report => IO.eprintln ("error: " ++ report)
  | none => pure ()
  pure outcome.code
