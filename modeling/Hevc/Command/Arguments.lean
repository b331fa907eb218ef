import Hevc.Record.Build

/-!
# Command line arguments

A command line names one command, its files and its options. The arguments are gone through from
the left; the first that does not fit decides, and so does the first request for help.
-/

namespace Hevc

/-- What the program can be asked to do with files. -/
inductive Command where
  /-- Build a record from a stream. -/
  | build (input output : String) (options : Record.Options)
  /-- Turn extradata into a stream. -/
  | annexB (input output : String)
  /-- Turn a stream into length-prefixed units. -/
  | split (input output : String)
  /-- Show the fields of a record. -/
  | inspect (input : String)
deriving DecidableEq, Repr

/-- The meaning of a command line. -/
inductive Invocation where
  /-- A command, and how often more reports are asked for. -/
  | run (command : Command) (verbosity : Nat)
  /-- A request for help or for the version. -/
  | info
  /-- No valid command line. -/
  | usage
deriving DecidableEq, Repr

namespace Arguments

/-- The names of the commands. -/
inductive Verb where
  | build
  | annexB
  | split
  | inspect
deriving DecidableEq, Repr

/-- The command of a name. -/
def Verb.ofName? : String → Option Verb
  | "build" => some .build
  | "annexb" => some .annexB
  | "split" => some .split
  | "inspect" => some .inspect
  | _ => none

/-- What the arguments of a command have said so far. -/
structure Gathered where
  input : Option String
  output : Option String
  complete : Bool
  noSei : Bool
  verbosity : Nat
deriving DecidableEq, Repr

/-- Nothing was said yet. -/
def Gathered.none : Gathered :=
  { input := .none, output := .none, complete := false, noSei := false, verbosity := 0 }

/-- A way to end early. -/
inductive Stop where
  | info
  | usage
deriving DecidableEq, Repr

/-- The invocation that an early end stands for. -/
def Stop.toInvocation : Stop → Invocation
  | .info => .info
  | .usage => .usage

/-- The command writes a file. -/
def Verb.hasOutput : Verb → Bool
  | .inspect => false
  | _ => true

/-- Sets the output, which has to be named once and by a name that is not empty. -/
def setOutput (name : String) (g : Gathered) : Except Stop Gathered :=
  if name.isEmpty || g.output.isSome then .error .usage
  else .ok { g with output := some name }

/-- Sets the input, which has to be named once and by a name that is not empty. -/
def setInput (name : String) (g : Gathered) : Except Stop Gathered :=
  if name.isEmpty || g.input.isSome then .error .usage else .ok { g with input := some name }

/-- Takes one option written as a word, without a value. -/
def longFlag (verb : Verb) (name : String) (g : Gathered) : Except Stop Gathered :=
  if name = "help" then .error .info
  else if name = "verbose" then .ok { g with verbosity := g.verbosity + 1 }
  else if name = "complete" && verb = .build && !g.complete then .ok { g with complete := true }
  else if name = "no-sei" && verb = .build && !g.noSei then .ok { g with noSei := true }
  else .error .usage

/-- What an argument leaves to do. -/
inductive Next where
  /-- The next argument stands on its own. -/
  | any
  /-- The next argument names the output. -/
  | output
deriving DecidableEq, Repr

/-- Takes the options that are written as letters in a row. The rest of the row, if there is one,
names the output after the letter for it. -/
def shortFlags (verb : Verb) : List Char → Gathered → Except Stop (Gathered × Next)
  | [], g => .ok (g, .any)
  | 'v' :: rest, g => shortFlags verb rest { g with verbosity := g.verbosity + 1 }
  | 'h' :: _, _ => .error .info
  | 'o' :: rest, g =>
    if !verb.hasOutput then .error .usage
    else
      match rest with
      | [] => if g.output.isSome then .error .usage else .ok (g, .output)
      | '=' :: name => (setOutput (String.ofList name) g).map (·, .any)
      | name => (setOutput (String.ofList name) g).map (·, .any)
  | _, _ => .error .usage

/-- Takes an option that is written as a word, perhaps with a value after an equals sign. -/
def longOption (verb : Verb) (word : List Char) (g : Gathered) :
    Except Stop (Gathered × Next) :=
  let name := String.ofList (word.takeWhile (· ≠ '='))
  let value := word.dropWhile (· ≠ '=')
  if name = "output" && verb.hasOutput then
    match value with
    | [] => if g.output.isSome then .error .usage else .ok (g, .output)
    | _ :: text => (setOutput (String.ofList text) g).map (·, .any)
  else if value.isEmpty then (longFlag verb name g).map (·, .any)
  else .error .usage

/-- Goes through the arguments of a command. -/
def gather (verb : Verb) : Next → List String → Gathered → Except Stop Gathered
  | .any, [], g => .ok g
  | .output, [], _ => .error .usage
  | next, argument :: rest, g =>
    match next, argument.toList with
    | .any, ['-', '-'] => rest.foldlM (fun g name => setInput name g) g
    | .any, '-' :: '-' :: word => do
      let (g, next) ← longOption verb word g
      gather verb next rest g
    | .any, '-' :: c :: letters => do
      let (g, next) ← shortFlags verb (c :: letters) g
      gather verb next rest g
    | .any, _ => do
      let g ← setInput argument g
      gather verb .any rest g
    | .output, '-' :: _ :: _ => .error .usage
    | .output, _ => do
      let g ← setOutput argument g
      gather verb .any rest g

/-- The command that the gathered arguments complete, if nothing is missing. -/
def Gathered.command? (verb : Verb) (g : Gathered) : Option Command := do
  let input ← g.input
  match verb with
  | .inspect => some (.inspect input)
  | .build => do
    let output ← g.output
    some (.build input output { complete := g.complete, includeSei := !g.noSei })
  | .annexB => do
    let output ← g.output
    some (.annexB input output)
  | .split => do
    let output ← g.output
    some (.split input output)

/-- Reads what follows the name of a command. How often more reports were asked for before it
counts only if they are not asked for after it. -/
def ofCommand (verb : Verb) (verbosity : Nat) (rest : List String) : Invocation :=
  match gather verb .any rest .none with
  | .error stop => stop.toInvocation
  | .ok g =>
    match g.command? verb with
    | some command => .run command (if g.verbosity = 0 then verbosity else g.verbosity)
    | none => .usage

/-- Reads what follows a request for help: the name of one command at most. -/
def ofHelp : List String → Invocation
  | [] => .info
  | [name] => if (Verb.ofName? name).isSome || name = "help" then .info else .usage
  | _ => .usage

/-- Takes the options in front of a command that are written as letters in a row. -/
def leadingFlags : List Char → Nat → Except Stop Nat
  | [], verbosity => .ok verbosity
  | 'v' :: rest, verbosity => leadingFlags rest (verbosity + 1)
  | 'h' :: _, _ => .error .info
  | 'V' :: _, _ => .error .info
  | _, _ => .error .usage

/-- Reads a command line, after more reports were asked for as often as given. -/
def parseFrom (verbosity : Nat) : List String → Invocation
  | [] => .usage
  | "--verbose" :: rest => parseFrom (verbosity + 1) rest
  | "--help" :: _ => .info
  | "--version" :: _ => .info
  | "help" :: rest => ofHelp rest
  | argument :: rest =>
    match argument.toList with
    | '-' :: c :: letters =>
      match leadingFlags (c :: letters) verbosity with
      | .ok verbosity => parseFrom verbosity rest
      | .error stop => stop.toInvocation
    | _ =>
      match Verb.ofName? argument with
      | some verb => ofCommand verb verbosity rest
      | none => .usage

/-- Reads a command line. -/
def parse (arguments : List String) : Invocation := parseFrom 0 arguments

end Arguments

end Hevc
