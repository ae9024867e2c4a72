import Daedalus.Catalogue

/-! # Command-line arguments

A command line names a command, the script that it works on, and options. Options are written with a
letter or a word, and may stand before or behind the path; letters can be joined, and a value can be
joined to its option. An option is given once. -/

namespace Daedalus.Command

/-- The options of the commands. -/
inductive Key where
  /-- The symbol to work on. -/
  | symbol
  /-- The codes of the symbols to show. -/
  | wanted
  /-- The codes of the symbols to hide. -/
  | hidden
  /-- A part of the names to show. -/
  | search
  /-- The directory for recovered sources. -/
  | out
  /-- The indentation of a body. -/
  | indent
  /-- Leave the declaration around a body out. -/
  | bodyOnly
  /-- Report on the work. -/
  | verbose
  deriving DecidableEq, Repr

namespace Key

/-- The letter of an option. -/
def letter? : Key → Option Char
  | .symbol => some 's'
  | .wanted => some 'i'
  | .hidden => some 'x'
  | .search => some 'c'
  | .out => some 'o'
  | .verbose => some 'v'
  | .indent | .bodyOnly => none

/-- The word of an option. -/
def word : Key → String
  | .symbol => "symbol"
  | .wanted => "include"
  | .hidden => "exclude"
  | .search => "find"
  | .out => "out"
  | .indent => "indent"
  | .bodyOnly => "body-only"
  | .verbose => "verbose"

/-- Whether an option has a value. -/
def hasValue : Key → Bool
  | .bodyOnly | .verbose => false
  | _ => true

end Key

/-- The commands. -/
inductive Name where
  | symbols
  | disasm
  | decompile
  | usages
  deriving DecidableEq, Repr

namespace Name

/-- The command with a word. -/
def ofWord? : String → Option Name
  | "symbols" => some .symbols
  | "disasm" => some .disasm
  | "decompile" => some .decompile
  | "usages" => some .usages
  | _ => none

/-- The options of a command. -/
def keys : Name → List Key
  | .symbols => [.symbol, .wanted, .hidden, .search, .verbose]
  | .disasm | .usages => [.symbol, .verbose]
  | .decompile => [.symbol, .out, .indent, .bodyOnly, .verbose]

end Name

/-- What is given behind a command: options with their values, and other arguments. -/
structure Given where
  options : List (Key × String) := []
  plain : List String := []
  deriving Repr

namespace Given

/-- The value of an option. -/
def value? (given : Given) (key : Key) : Option String := given.options.lookup key

/-- Adds an option, unless it is there already. -/
def add (given : Given) (key : Key) (value : String) : Option Given :=
  if (given.value? key).isSome then none
  else some { given with options := (key, value) :: given.options }

end Given

/-- Whether an argument is not the value of the option before it: it starts with a hyphen and is
more than that. -/
def looksLikeOption (arg : String) : Bool :=
  match arg.toList with
  | '-' :: _ :: _ => true
  | _ => false

/-- Reads joined option letters. Gives the option back that waits for its value, if the last one
does. A value can be joined to its option, also with an equals sign. -/
def readLetters (keys : List Key) (given : Given) : List Char → Option (Given × Option Key)
  | [] => some (given, none)
  | c :: rest =>
    match keys.find? (·.letter? == some c) with
    | none => none
    | some key =>
      if key.hasValue then
        match rest with
        | [] => some (given, some key)
        | '=' :: value => (given.add key (String.ofList value)).map (·, none)
        | value => (given.add key (String.ofList value)).map (·, none)
      else
        (given.add key "").bind fun given => readLetters keys given rest

/-- Reads an option word, with what follows it behind an equals sign. Gives the option back if it
waits for its value. -/
def readWord (keys : List Key) (given : Given) (text : List Char) : Option (Given × Option Key) :=
  let word := String.ofList (text.takeWhile (· != '='))
  match keys.find? (·.word == word), text.dropWhile (· != '=') with
  | none, _ => none
  | some key, [] =>
    if key.hasValue then some (given, some key) else (given.add key "").map (·, none)
  | some key, _ :: value =>
    if key.hasValue then (given.add key (String.ofList value)).map (·, none) else none

/-- Reads the arguments behind a command. `waiting` is an option that waits for its value. -/
def readArguments (keys : List Key) (given : Given) (waiting : Option Key) :
    List String → Option Given
  | [] => if waiting.isSome then none else some given
  | arg :: rest =>
    match waiting with
    | some key =>
      if looksLikeOption arg then none
      else (given.add key arg).bind fun given => readArguments keys given none rest
    | none =>
      match arg.toList with
      | ['-', '-'] => some { given with plain := given.plain ++ rest }
      | '-' :: '-' :: text =>
        (readWord keys given text).bind fun read => readArguments keys read.1 read.2 rest
      | '-' :: c :: letters =>
        (readLetters keys given (c :: letters)).bind fun read =>
          readArguments keys read.1 read.2 rest
      | _ => readArguments keys { given with plain := given.plain ++ [arg] } none rest

/-- What a command does with the script. -/
inductive Action where
  /-- Lists the symbols that a filter accepts, or describes one symbol. -/
  | symbols (filter : Filter)
  /-- Lists the code of all symbols or of one. -/
  | disasm
  /-- Recovers the source of one symbol, or of all symbols into files. -/
  | decompile (out : String) (indent : Nat) (bodyOnly : Bool)
  /-- Lists the instructions that refer to one symbol. -/
  | usages
  deriving DecidableEq, Repr

/-- A complete command. -/
structure Request where
  /-- The path of the script image. -/
  path : String
  /-- The name of the symbol to work on. -/
  symbol : Option String
  action : Action
  deriving DecidableEq, Repr

/-- What a command line asks for. -/
inductive Line where
  /-- The name and version of the program. -/
  | version
  /-- Nothing: no command is named. -/
  | idle
  /-- The run of a command. -/
  | run (request : Request)
  deriving DecidableEq, Repr

/-- A decimal number below `2 ^ 64`, possibly with a plus sign. -/
def number? (text : String) : Option Nat :=
  let digits := match text.toList with
    | '+' :: digits => digits
    | digits => digits
  if digits ≠ [] ∧ digits.all Char.isDigit then
    let value := digits.foldl (fun n c => 10 * n + (c.toNat - '0'.toNat)) 0
    if value < UInt64.size then some value else none
  else none

/-- The action of a command with its options. -/
def action? (name : Name) (given : Given) : Option Action :=
  match name with
  | .symbols =>
    some (.symbols
      { wanted := (given.value? .wanted).getD ""
        hidden := (given.value? .hidden).getD ""
        search := (given.value? .search).getD "" })
  | .disasm => some .disasm
  | .usages => some .usages
  | .decompile =>
    let out := (given.value? .out).getD "."
    if out = "" then none
    else
      (number? ((given.value? .indent).getD "4")).map
        (.decompile out · (given.value? .bodyOnly).isSome)

/-- The request that a command with its arguments makes: exactly one path has to be there, and it is
not empty. -/
def request? (name : Name) (args : List String) : Option Request :=
  match readArguments name.keys {} none args with
  | some given =>
    match given.plain with
    | [path] =>
      if path = "" then none else (action? name given).map (⟨path, given.value? .symbol, ·⟩)
    | _ => none
  | none => none

/-- Reads joined letters in front of the command. Gives back whether to report on the work, or
nothing if the version is asked for. -/
def readGlobalLetters (verbose : Bool) : List Char → Option (Option Bool)
  | [] => some (some verbose)
  | 'v' :: rest => if verbose then none else readGlobalLetters true rest
  | 'V' :: _ => some none
  | _ => none

/-- Reads a command line; an incorrect one gives nothing. -/
def line? (verbose : Bool := false) : List String → Option Line
  | [] => some .idle
  | "--" :: rest => if rest = [] then some .idle else none
  | "--verbose" :: rest => if verbose then none else line? true rest
  | "--version" :: _ => some .version
  | arg :: rest =>
    match arg.toList with
    | '-' :: c :: letters =>
      if c = '-' then none
      else
        match readGlobalLetters verbose (c :: letters) with
        | some (some verbose) => line? verbose rest
        | some none => some .version
        | none => none
    | _ => (Name.ofWord? arg).bind fun name => (request? name rest).map .run

end Daedalus.Command
