import Hevc.Command.Arguments
import Hevc.Command.Directory
import Hevc.Command.Log
import Hevc.Extradata
import Hevc.NalUnit.LengthPrefixed

/-!
# Running commands

`Command.perform` says what a command makes of the content of its input: a failure, a record that
was found, or bytes for its output. `Command.execute` does this inside a directory. A command
that fails leaves the directory as it was, unless its output breaks off: what was written of it
stays then.
-/

namespace Hevc

/-- Why a command failed. -/
inductive Failure where
  /-- A file cannot be read or written, or it holds no record. -/
  | io (cause : Fault)
  /-- The library refused the content. -/
  | library (cause : Error)
  /-- A file goes on after its record. -/
  | trailingBytes (count : Nat)
deriving DecidableEq, Repr

/-- The wording of a failure. -/
def Failure.message : Failure → String
  | .io cause => s!"I/O error: {cause.message}"
  | .library cause => s!"hvcC error: {cause.message}"
  | .trailingBytes count => s!"Invalid input: {count} trailing bytes after the hvcC record"

/-! ## Commands -/

namespace Command

/-- The path of the input. -/
def input : Command → String
  | .build input _ _ | .annexB input _ | .split input _ | .inspect input => input

/-- A part of the content of an output. -/
structure Part where
  /-- What is reported when the part is made. -/
  event : Log.Event
  /-- The number of its bytes. -/
  size : Nat

/-- The content of an output, and what is reported about it. -/
structure Output where
  path : String
  content : List UInt8
  /-- The parts that are reported one by one, once the output is open. -/
  parts : List Part
  /-- What is reported once the content is written, or why it breaks off. -/
  ending : Except Fault Log.Event

/-- What a command gives. -/
inductive Product where
  /-- An output that is to be stored. -/
  | output (output : Output)
  /-- The record that the content is. -/
  | record (record : Record)

/-- What a command makes of the content of its input. -/
structure Performance where
  /-- What is reported on the way. -/
  events : List Log.Event
  /-- What the command gives, or why it fails before it opens an output. -/
  result : Except Failure Product

/-- The bytes that building a record gives. -/
def buildContent (options : Record.Options) (data : List UInt8) : Except Error (List UInt8) :=
  let (result, sink) := Record.convert options data (.unbounded .plain)
  result.map fun _ => sink.bytes

/-- Builds a record, or passes one on. -/
def performBuild (input output : String) (options : Record.Options) (data : List UInt8) :
    Performance :=
  { events := Log.converting options data
    result :=
      match buildContent options data with
      | .error e => .error (.library e)
      | .ok content =>
        .ok (.output
          { path := output
            content
            parts := []
            ending :=
              .ok
                { level := .info
                  text := "wrote hvcC"
                  fields :=
                    [("input", input), ("output", output), ("size", toString content.length)] } }) }

/-- Turns extradata into a stream, or passes a stream on. -/
def performAnnexB (output : String) (data : List UInt8) : Performance :=
  { events := if startsWithStartCode data then [Log.alreadyStream] else []
    result :=
      match Extradata.toStream data with
      | .error e => .error (.library e)
      | .ok converted =>
        let content := if converted.isEmpty then data else converted
        .ok (.output
          { path := output
            content
            parts := []
            ending :=
              .ok
                { level := .info
                  text := "wrote Annex-B"
                  fields := [("output", output), ("size", toString content.length)] } }) }

/-- The parts of length-prefixed content. Nothing is written of a unit that is too long for a
length, and those behind it are not looked at. -/
def splitParts (units : List (List UInt8)) : List Part :=
  let (short, rest) := units.span fun nal => (strip nal).length ≤ LengthPrefixed.maxPayload
  let parts : List Part := short.map fun nal =>
    { event := Log.foundUnit nal, size := (LengthPrefixed.frame (strip nal)).length }
  parts ++ rest.head?.toList.map fun nal => { event := Log.foundUnit nal, size := 0 }

/-- Turns a stream into length-prefixed units, which are written one by one. -/
def performSplit (output : String) (data : List UInt8) : Performance :=
  let (result, sink) := LengthPrefixed.write data (.unbounded .plain)
  { events := []
    result :=
      .ok (.output
        { path := output
          content := sink.bytes
          parts := splitParts (Stream.units data)
          ending :=
            result.map fun written =>
              { level := .info
                text := "wrote length-prefixed stream"
                fields := [("output", output), ("size", toString written)] } }) }

/-- Finds the record that the content is, if it is one record and no more, and shows its fields. -/
def performInspect (data : List UInt8) : Performance :=
  match (Record.demux data).1 with
  | .error fault => { events := [], result := .error (.io fault) }
  | .ok r =>
    let trailing := data.length - r.size
    if 0 < trailing then { events := [], result := .error (.trailingBytes trailing) }
    else { events := Log.fieldsOf r, result := .ok (.record r) }

/-- What a command makes of the content of its input. -/
def perform (command : Command) (data : List UInt8) : Performance :=
  match command with
  | .build input output options => performBuild input output options data
  | .annexB _ output => performAnnexB output data
  | .split _ output => performSplit output data
  | .inspect _ => performInspect data

/-- What has come of a command. -/
structure Outcome where
  files : Directory
  events : List Log.Event
  /-- The record that was found. -/
  found : Option Record
  failure : Option Failure

/-- So many bytes of a content are collected before they are handed over. -/
def bufferSize : Nat := 8192

/-- What is reported of parts that are collected while there is room for so many bytes. The part
that finds no room is the last. -/
def reportedWithin (room : Nat) : List Part → List Log.Event
  | [] => []
  | part :: rest =>
    part.event :: if part.size ≤ room then reportedWithin (room - part.size) rest else []

/-- Why an output fails that goes to where nothing is taken. If all of its content was still
collected when it broke off, it fails for that. -/
def Output.refused (output : Output) (fault : Fault) : Fault :=
  match output.ending with
  | .error cause => if output.content.length ≤ bufferSize then cause else fault
  | .ok _ => fault

/-- Stores the output of a command. That nothing is taken is found out when the first bytes are
handed over. Content that breaks off is stored as far as it goes. -/
def store (events : List Log.Event) (output : Output) (files : Directory) : Outcome :=
  match files.create output.path with
  | .error fault => { files, events, found := none, failure := some (.io (.file fault)) }
  | .ok target =>
    match target.put output.content files with
    | .error fault =>
      { files
        events := events ++ reportedWithin bufferSize output.parts
        found := none
        failure := some (.io (output.refused (.file fault))) }
    | .ok files =>
      let reported := events ++ output.parts.map (·.event)
      match output.ending with
      | .ok written => { files, events := reported ++ [written], found := none, failure := none }
      | .error cause => { files, events := reported, found := none, failure := some (.io cause) }

/-- Does what a command asks for in a directory. -/
def execute (command : Command) (files : Directory) : Outcome :=
  match files.read command.input with
  | .error fault => { files, events := [], found := none, failure := some (.io (.file fault)) }
  | .ok data =>
    let performance := command.perform data
    match performance.result with
    | .error failure =>
      { files, events := performance.events, found := none, failure := some failure }
    | .ok (.record r) => { files, events := performance.events, found := some r, failure := none }
    | .ok (.output output) => store performance.events output files

end Command

/-! ## Command lines -/

/-- What has come of a command line. -/
structure Invocation.Outcome where
  exitCode : Nat
  files : Directory
  /-- The lines of the log. -/
  log : List String
  /-- Why it failed, in words. -/
  message : Option String

/-- Does what a command line asks for in a directory. -/
def Invocation.execute (files : Directory) : Invocation → Invocation.Outcome
  | .usage => { exitCode := 2, files, log := [], message := none }
  | .info => { exitCode := 0, files, log := [], message := none }
  | .run command verbosity =>
    let outcome := command.execute files
    { exitCode := if outcome.failure.isSome then 1 else 0
      files := outcome.files
      log := Log.lines verbosity outcome.events
      message := outcome.failure.map Failure.message }

end Hevc
