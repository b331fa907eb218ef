import Hevc.Proofs.Command.Inspect
import Hevc.Proofs.Extradata

/-!
# Commands that make a file of a file

Three commands convert a file. Building a record and turning extradata into a stream know all of
their output before they open it, so a failure leaves what the output held. The units of a stream
are written one by one to an output that is open by then: a unit that is too long for a length is
met when the old content is gone, and the frames in front of it stay.

* `made` — what each conversion has to show when its output is to be opened
* `bytes_again` — what was built or turned into a stream is not converted any further
* `conversions_exact` — what every command line leaves in its output
* `output_overwritten` — a failure that leaves the output changed, and a success that writes none
-/

namespace Hevc

/-! ## Files that are replaced -/

namespace Directory

theorem lookup_filter {name other : String} (different : other ≠ name) (files : Directory) :
    (files.filter (·.1 ≠ name)).lookup other = files.lookup other := by
  induction files with
  | nil => rfl
  | cons entry rest ih =>
    by_cases same : entry.1 = name
    · have skipped : (other == entry.1) = false := same ▸ beq_false_of_ne different
      rw [List.filter_cons_of_neg (by simpa using same), List.lookup_cons, skipped, ih]
    · rw [List.filter_cons_of_pos (by simpa using same), List.lookup_cons, List.lookup_cons, ih]

/-- Writing to a file leaves the others as they are. -/
theorem lookup_put {files after : Directory} {name : String} {content : List UInt8}
    (put : (Target.file name).put content files = .ok after) {other : String}
    (different : other ≠ name) : after.lookup other = files.lookup other := by
  obtain rfl := Except.ok.inj put
  rw [List.lookup_cons, beq_false_of_ne different]
  exact lookup_filter different files

end Directory

namespace Command

/-! ## Conversions -/

/-- A way to make a file of a file. -/
inductive Conversion where
  | build (options : Record.Options)
  | annexB
  | split
deriving DecidableEq, Repr

namespace Conversion

/-- The command for a conversion. -/
def command (input output : String) : Conversion → Command
  | .build options => .build input output options
  | .annexB => .annexB input output
  | .split => .split input output

/-- What the library makes of a whole content. For a stream there is nothing to be done to make it
one. -/
def bytes (data : List UInt8) : Conversion → Except Failure (List UInt8)
  | .build options => (buildContent options data).mapError .library
  | .annexB =>
    if startsWithStartCode data then .ok data
    else (Extradata.toStream data).mapError .library
  | .split =>
    let (result, sink) := LengthPrefixed.write data (.unbounded .plain)
    (result.map fun _ => sink.bytes).mapError .io

/-- The second conversion is the first one again. A record may be built with other options. -/
inductive Again : Conversion → Conversion → Prop where
  | build (options others : Record.Options) : Again (.build options) (.build others)
  | annexB : Again .annexB .annexB

/-- What a conversion has to show when its output is to be opened: why there is none, all of it, or
the front of it and why it goes no further. -/
inductive Made (c : Conversion) (data : List UInt8) (path : String) :
    Except Failure Product → Prop where
  | refused {failure : Failure} (other : c ≠ .split) (refused : c.bytes data = .error failure) :
      Made c data path (.error failure)
  | whole {output : Output} {written : Log.Event} (dest : output.path = path)
      (ending : output.ending = .ok written) (done : c.bytes data = .ok output.content) :
      Made c data path (.ok (.output output))
  | front {output : Output} (dest : output.path = path)
      (ending : output.ending = .error .payloadTooLarge) (split : c = .split)
      (overlong : LengthPrefixed.Overlong data)
      (content : output.content = LengthPrefixed.ofStream data)
      (refused : c.bytes data = .error (.io .payloadTooLarge)) :
      Made c data path (.ok (.output output))

theorem bytes_of_overlong {data : List UInt8} (overlong : LengthPrefixed.Overlong data) :
    Conversion.split.bytes data = .error (.io .payloadTooLarge) := by
  rcases LengthPrefixed.write_unbounded data with ⟨short, -⟩ | ⟨-, written⟩
  · exact absurd overlong short
  · simp only [bytes, written]
    rfl

section

variable (data : List UInt8) (input path : String)

theorem made_build (options : Record.Options) :
    Made (.build options) data path (performBuild input path options data).result := by
  cases built : buildContent options data with
  | error e =>
    have refused : (Conversion.build options).bytes data = .error (.library e) := by
      rw [bytes, built]
      rfl
    simp only [performBuild, built]
    exact .refused (by simp) refused
  | ok content =>
    have done : (Conversion.build options).bytes data = .ok content := by
      rw [bytes, built]
      rfl
    simp only [performBuild, built]
    exact .whole rfl rfl done

theorem made_annexB : Made .annexB data path (performAnnexB path data).result := by
  cases stream : startsWithStartCode data with
  | true =>
    have done : Conversion.annexB.bytes data = .ok data := by rw [bytes, if_pos stream]
    simp only [performAnnexB, Extradata.toStream_of_stream stream]
    exact .whole rfl rfl done
  | false =>
    have converted : Conversion.annexB.bytes data
        = (Extradata.toStream data).mapError .library := by
      rw [bytes, stream, if_neg Bool.false_ne_true]
    cases given : Extradata.toStream data with
    | error e =>
      rw [given] at converted
      simp only [performAnnexB, given]
      exact .refused (by simp) converted
    | ok content =>
      -- what was converted is not taken for an input that is a stream already
      have some : content.isEmpty = false := by
        rw [(Extradata.of_toStream stream given).2]
        rfl
      rw [given] at converted
      simp only [performAnnexB, given, some]
      exact .whole rfl rfl converted

theorem made_split : Made .split data path (performSplit path data).result := by
  rcases LengthPrefixed.write_unbounded data with ⟨-, written⟩ | ⟨overlong, written⟩
  · have done : Conversion.split.bytes data = .ok (LengthPrefixed.ofStream data) := by
      simp only [bytes, written]
      rfl
    exact .whole rfl (congrArg (Except.map _) written) done
  · exact .front rfl (congrArg (Except.map _) written) rfl overlong rfl (bytes_of_overlong overlong)

theorem made (c : Conversion) : Made c data path ((c.command input path).perform data).result := by
  cases c with
  | build options => exact made_build data input path options
  | annexB => exact made_annexB data path
  | split => exact made_split data path

end

/-- How a conversion of a content ends whose output is a file: nothing was opened, or all of the
output was written, or the front of it. -/
inductive Ends (c : Conversion) (data : List UInt8) (files : Directory) (name : String)
    (outcome : Outcome) : Prop where
  | refused (failure : Failure) (other : c ≠ .split) (refused : c.bytes data = .error failure)
      (failed : outcome.failure = some failure) (kept : outcome.files = files)
  | whole (content : List UInt8) (done : c.bytes data = .ok content)
      (succeeded : outcome.failure = none)
      (put : (Target.file name).put content files = .ok outcome.files)
  | front (split : c = .split) (overlong : LengthPrefixed.Overlong data)
      (refused : c.bytes data = .error (.io .payloadTooLarge))
      (failed : outcome.failure = some (.io .payloadTooLarge))
      (put : (Target.file name).put (LengthPrefixed.ofStream data) files = .ok outcome.files)

end Conversion

/-- An output that broke off: the frames in front of a unit that is too long are all there is. -/
def BrokenOff (files : Directory) (command : Command) (after : Directory) : Prop :=
  ∃ input path data target, command = split input path ∧ files.read input = .ok data
    ∧ LengthPrefixed.Overlong data ∧ files.create path = .ok target
    ∧ target.put (LengthPrefixed.ofStream data) files = .ok after

/-! ## What commands leave -/

section

variable {files : Directory} {output : Output} {name : String}

/-- What is stored in a file is what there is of the output, whether it goes on or not. -/
theorem store_of_file (events : List Log.Event)
    (opened : files.create output.path = .ok (.file name)) :
    (Target.file name).put output.content files = .ok (store events output files).files
      ∧ (store events output files).failure
        = match output.ending with
          | .ok _ => none
          | .error cause => some (.io cause) := by
  unfold store
  simp only [opened, Target.put]
  cases output.ending with
  | ok written => exact ⟨rfl, rfl⟩
  | error cause => exact ⟨rfl, rfl⟩

/-- Storing fails without a trace, unless the output breaks off. -/
theorem files_store (events : List Log.Event)
    (failed : (store events output files).failure ≠ none) :
    (store events output files).files = files
      ∨ ∃ cause target, output.ending = .error cause ∧ files.create output.path = .ok target
          ∧ target.put output.content files = .ok (store events output files).files := by
  unfold store at failed ⊢
  cases opened : files.create output.path with
  | error fault => exact .inl rfl
  | ok target =>
    cases put : target.put output.content files with
    | error fault => exact .inl (by simp only [put])
    | ok after =>
      cases ending : output.ending with
      | ok written => simp [opened, put, ending] at failed
      | error cause => exact .inr ⟨cause, target, rfl, rfl, by simp only [put]⟩

end

section

variable {files : Directory} {data : List UInt8} {input path name : String}

theorem Conversion.ends (c : Conversion) (held : files.read input = .ok data)
    (opened : files.create path = .ok (.file name)) :
    c.Ends data files name ((c.command input path).execute files) := by
  have held' : files.read (c.command input path).input = .ok data := by cases c <;> exact held
  generalize performed : (c.command input path).perform data = performance
  have shown := performed ▸ c.made data input path
  cases result : performance.result with
  | error failure =>
    rw [result] at shown
    cases shown with
    | refused other refused =>
      rw [execute_of_error performed held' result]
      exact .refused failure other refused rfl rfl
  | ok made =>
    rw [result] at shown
    cases shown with
    | @whole output written dest ending done =>
      obtain ⟨put, failure⟩ := store_of_file performance.events (dest ▸ opened)
      rw [ending] at failure
      rw [execute_of_output performed held' result]
      exact .whole output.content done failure put
    | @front output dest ending split overlong content refused =>
      obtain ⟨put, failure⟩ := store_of_file performance.events (dest ▸ opened)
      rw [ending] at failure
      rw [content] at put
      rw [execute_of_output performed held' result]
      exact .front split overlong refused failure put

/-- No output breaks off but that of a stream with a unit that is too long. -/
theorem overlong_of_ending {command : Command} {output : Output} {cause : Fault}
    (made : (command.perform data).result = .ok (.output output))
    (ending : output.ending = .error cause) :
    (∃ input, command = split input output.path) ∧ LengthPrefixed.Overlong data
      ∧ output.content = LengthPrefixed.ofStream data := by
  have conversion : ∀ (c : Conversion) (input path : String), command = c.command input path →
      c = .split ∧ output.path = path ∧ LengthPrefixed.Overlong data
        ∧ output.content = LengthPrefixed.ofStream data := by
    rintro c input path rfl
    have shown := made ▸ c.made data input path
    cases shown with
    | whole dest whole done => exact absurd (ending.symm.trans whole) (by simp)
    | front dest broken split overlong content refused => exact ⟨split, dest, overlong, content⟩
  cases command with
  | build input path options => exact absurd (conversion (.build options) input path rfl).1 nofun
  | annexB input path => exact absurd (conversion .annexB input path rfl).1 nofun
  | split input path =>
    obtain ⟨-, rfl, front⟩ := conversion .split input path rfl
    exact ⟨⟨input, rfl⟩, front⟩
  | inspect input =>
    -- nothing is written by this command
    simp only [perform, performInspect] at made
    split at made
    · cases made
    · split at made <;> cases made

/-- A command fails without a trace, unless its output breaks off. -/
theorem files_of_failed {command : Command} (failed : (command.execute files).failure ≠ none) :
    (command.execute files).files = files
      ∨ BrokenOff files command (command.execute files).files := by
  cases held : files.read command.input with
  | error fault => exact .inl (by simp only [execute, held])
  | ok data =>
    cases result : (command.perform data).result with
    | error failure => exact .inl (by rw [execute_of_error rfl held result])
    | ok made =>
      cases made with
      | record r => exact .inl (by rw [execute_of_record rfl held result])
      | output output =>
        rw [execute_of_output rfl held result] at failed ⊢
        rcases files_store _ failed with kept | ⟨cause, target, ending, opened, put⟩
        · exact .inl kept
        · obtain ⟨⟨input, rfl⟩, overlong, content⟩ := overlong_of_ending result ending
          rw [content] at put
          exact .inr ⟨input, output.path, data, target, rfl, held, overlong, opened, put⟩

end

/-! ## Outputs that are converted again -/

section

variable {options : Record.Options} {data content : List UInt8}

theorem buildContent_of_not_stream (h : startsWithStartCode data = false) :
    buildContent options data = .ok data := by
  unfold buildContent
  rw [Record.convert_of_not_stream h, Record.writeThrough_unbounded]
  exact congrArg Except.ok (Sink.bytes_holding_plain data)

/-- Neither a record nor data that went through is a stream. -/
theorem not_stream_of_buildContent (done : buildContent options data = .ok content) :
    startsWithStartCode content = false := by
  cases stream : startsWithStartCode data with
  | false =>
    obtain rfl := Except.ok.inj ((buildContent_of_not_stream stream).symm.trans done)
    exact stream
  | true =>
    obtain ⟨r, -, written⟩ := buildContent_eq_ok stream done
    exact Record.not_stream_of_toBytes written

theorem mapError_eq_ok {ε ε' α : Type} {f : ε → ε'} {x : Except ε α} {a : α} :
    x.mapError f = .ok a ↔ x = .ok a := by
  cases x with
  | error e => exact ⟨nofun, nofun⟩
  | ok b => simp [Except.mapError]

/-- What extradata is converted to is a stream, and so is what is copied. -/
theorem stream_of_bytes (done : Conversion.annexB.bytes data = .ok content) :
    startsWithStartCode content = true := by
  cases stream : startsWithStartCode data with
  | true =>
    rw [Conversion.bytes, if_pos stream] at done
    exact Except.ok.inj done ▸ stream
  | false =>
    rw [Conversion.bytes, stream, if_neg Bool.false_ne_true, mapError_eq_ok] at done
    rw [(Extradata.of_toStream stream done).2, Extradata.joined, List.append_assoc,
      List.append_assoc]
    exact Stream.startsWithStartCode_append (by simp [Stream.startCodes]) _

/-- What was built is passed on, and a stream is copied. -/
theorem bytes_again {c c' : Conversion} (again : Conversion.Again c c')
    (done : c.bytes data = .ok content) : c'.bytes content = .ok content := by
  cases again with
  | build options others =>
    rw [Conversion.bytes, mapError_eq_ok] at done ⊢
    exact buildContent_of_not_stream (not_stream_of_buildContent done)
  | annexB => rw [Conversion.bytes, if_pos (stream_of_bytes done)]

end

/-! ## Command lines -/

/-- What is promised of every command line. -/
structure Guarded (files : Directory) (invocation : Invocation) (outcome : Invocation.Outcome) :
    Prop where
  /-- One that asks for no command changes nothing, whatever its exit code. -/
  idle : (∀ command verbosity, invocation ≠ .run command verbosity) → outcome.files = files
  /-- One that fails changes nothing, unless its output broke off. -/
  failed : outcome.exitCode ≠ 0 → outcome.files = files
    ∨ ∃ command verbosity, invocation = .run command verbosity
        ∧ BrokenOff files command outcome.files

/-- A content comes out of a conversion as it is, wherever it is kept and wherever it goes. -/
def Reproduced (c : Conversion) (content : List UInt8) : Prop :=
  ∀ (files : Directory) (input path name : String) (verbosity : Nat),
    files.read input = .ok content → files.create path = .ok (.file name) →
      ((Invocation.run (c.command input path) verbosity).execute files).exitCode = 0
        ∧ ((Invocation.run (c.command input path) verbosity).execute files).files.read path
          = .ok content

/-- What is promised of the conversion of a file with a content, if the path of the output is that
of a file with the given name. -/
structure Converts (c : Conversion) (data : List UInt8) (files : Directory) (path name : String)
    (outcome : Invocation.Outcome) : Prop where
  /-- It succeeds if the library does. -/
  succeeds : outcome.exitCode = 0 ↔ ∃ content, c.bytes data = .ok content
  /-- The output then holds what the library makes of the whole content. -/
  holds : ∀ content, c.bytes data = .ok content → outcome.files.read path = .ok content
  /-- A failure leaves everything as it was, unless units are written one by one. -/
  unchanged : outcome.exitCode ≠ 0 → c ≠ .split → outcome.files = files
  /-- If they are, one of them is too long for a length, and the output holds the frames in front of
  the first such unit. -/
  brokenOff : outcome.exitCode ≠ 0 → c = .split → LengthPrefixed.Overlong data
    ∧ outcome.files.read path
      = .ok ((LengthPrefixed.fitting (LengthPrefixed.payloads data)).flatMap LengthPrefixed.frame)
  others : ∀ other, other ≠ name → outcome.files.lookup other = files.lookup other
  stream : c = .annexB → ∀ content, c.bytes data = .ok content →
    startsWithStartCode content = true
  again : ∀ c', Conversion.Again c c' → ∀ content, c.bytes data = .ok content →
    Reproduced c' content

theorem exitCode_run (files : Directory) (command : Command) (verbosity : Nat) :
    ((Invocation.run command verbosity).execute files).exitCode = 0
      ↔ (command.execute files).failure = none := by
  simp only [Invocation.execute]
  cases (command.execute files).failure with
  | none => exact ⟨fun _ => rfl, fun _ => rfl⟩
  | some failure => exact ⟨nofun, nofun⟩

theorem guarded (files : Directory) (invocation : Invocation) :
    Guarded files invocation (invocation.execute files) := by
  cases invocation with
  | info => exact ⟨fun _ => rfl, fun failed => absurd rfl failed⟩
  | usage => exact ⟨fun _ => rfl, fun _ => .inl rfl⟩
  | run command verbosity =>
    refine ⟨fun idle => absurd rfl (idle command verbosity), fun failed => ?_⟩
    rcases files_of_failed (mt (exitCode_run files command verbosity).mpr failed) with kept | broken
    · exact .inl kept
    · exact .inr ⟨command, verbosity, rfl, broken⟩

theorem reproduced_of_bytes {c : Conversion} {content : List UInt8}
    (same : c.bytes content = .ok content) : Reproduced c content := by
  intro files input path name verbosity held opened
  rw [exitCode_run]
  cases c.ends held opened with
  | refused failure other refused failed kept => exact absurd (refused.symm.trans same) nofun
  | whole result done succeeded put =>
    obtain rfl := Except.ok.inj (done.symm.trans same)
    exact ⟨succeeded, Directory.read_put opened put⟩
  | front split overlong refused failed put => exact absurd (refused.symm.trans same) nofun

section

variable {files : Directory} {data : List UInt8} {input path name : String}

theorem converts (c : Conversion) (verbosity : Nat) (held : files.read input = .ok data)
    (opened : files.create path = .ok (.file name)) :
    Converts c data files path name
      ((Invocation.run (c.command input path) verbosity).execute files) := by
  have code := exitCode_run files (c.command input path) verbosity
  have ended := c.ends held opened
  constructor
  case succeeds =>
    rw [code]
    cases ended with
    | refused failure other refused failed kept => simp [refused, failed]
    | whole content done succeeded put => simp [done, succeeded]
    | front split overlong refused failed put => simp [refused, failed]
  case holds =>
    intro content done
    cases ended with
    | refused failure other refused failed kept => exact absurd (refused.symm.trans done) nofun
    | whole result same succeeded put =>
      obtain rfl := Except.ok.inj (same.symm.trans done)
      exact Directory.read_put opened put
    | front split overlong refused failed put => exact absurd (refused.symm.trans done) nofun
  case unchanged =>
    intro nonzero other
    cases ended with
    | refused failure other refused failed kept => exact kept
    | whole content done succeeded put => exact absurd (code.mpr succeeded) nonzero
    | front split overlong refused failed put => exact absurd split other
  case brokenOff =>
    intro nonzero split
    rw [← LengthPrefixed.ofStream_eq]
    cases ended with
    | refused failure other refused failed kept => exact absurd split other
    | whole content done succeeded put => exact absurd (code.mpr succeeded) nonzero
    | front split overlong refused failed put => exact ⟨overlong, Directory.read_put opened put⟩
  case others =>
    intro other different
    cases ended with
    | refused failure other refused failed kept => exact congrArg (List.lookup _) kept
    | whole content done succeeded put => exact Directory.lookup_put put different
    | front split overlong refused failed put => exact Directory.lookup_put put different
  case stream =>
    rintro rfl content done
    exact stream_of_bytes done
  case again =>
    intro c' again content done
    exact reproduced_of_bytes (bytes_again again done)

end

/-- A command line that fails leaves its output as it was, and one that succeeds leaves in it what
the library makes of the whole input. Only units that are written one by one can break off. A stream
that comes of extradata, and a record that was built, are not converted any further. -/
theorem conversions_exact (files : Directory) (arguments : List String) :
    Guarded files (Arguments.parse arguments) ((Arguments.parse arguments).execute files)
      ∧ ∀ (c : Conversion) (input path : String) (verbosity : Nat),
          Arguments.parse arguments = .run (c.command input path) verbosity →
          ∀ (data : List UInt8) (name : String), files.read input = .ok data →
            files.create path = .ok (.file name) →
              Converts c data files path name ((Arguments.parse arguments).execute files) := by
  refine ⟨guarded files _, ?_⟩
  intro c input path verbosity parsed data name held opened
  rw [parsed]
  exact converts c verbosity held opened

/-- Extradata, a stream without parameter sets, and a file that is to be replaced. -/
def sampleInputs : Directory :=
  [("extradata", Extradata.layout [0, 0, 1, 0, 0, 1] [0x42, 1] [0x44]),
    ("stream", [0, 0, 1, 0x4e]), ("out", [7])]

/-- The extradata replaces the file, and no record that is built of the stream does. -/
theorem conversions_exact_sample :
    ((Arguments.parse ["annexb", "-v", "extradata", "--output=out"]).execute
        sampleInputs).files.read "out"
      = .ok [0, 0, 0, 1, 0x42, 1, 0, 0, 0, 1, 0x44]
      ∧ Reproduced .annexB [0, 0, 0, 1, 0x42, 1, 0, 0, 0, 1, 0x44]
      ∧ ((Arguments.parse ["build", "--complete", "stream", "-oout", "--no-sei"]).execute
        sampleInputs).files = sampleInputs := by
  have made : Conversion.annexB.bytes (Extradata.layout [0, 0, 1, 0, 0, 1] [0x42, 1] [0x44])
      = .ok [0, 0, 0, 1, 0x42, 1, 0, 0, 0, 1, 0x44] := rfl
  obtain ⟨-, lines⟩ := conversions_exact sampleInputs ["annexb", "-v", "extradata", "--output=out"]
  have converted := lines .annexB "extradata" "out" 1 (by decide) _ "out" rfl rfl
  refine ⟨converted.holds _ made, converted.again _ .annexB _ made, ?_⟩
  obtain ⟨-, lines⟩ :=
    conversions_exact sampleInputs ["build", "--complete", "stream", "-oout", "--no-sei"]
  have refused := lines (.build { complete := true, includeSei := false }) "stream" "out" 0
    (by decide) _ "out" rfl rfl
  exact refused.unchanged (by decide +kernel) nofun

/-! ## Outputs that are lost -/

/-- A stream that breaks off is found out when the output is open. -/
theorem split_of_overlong {files : Directory} {data : List UInt8} {input path name : String}
    (verbosity : Nat) (held : files.read input = .ok data)
    (opened : files.create path = .ok (.file name)) (overlong : LengthPrefixed.Overlong data) :
    ((Invocation.run (split input path) verbosity).execute files).exitCode ≠ 0
      ∧ ((Invocation.run (split input path) verbosity).execute files).files.read path
        = .ok (LengthPrefixed.ofStream data) := by
  have converted := converts .split verbosity held opened
  have failed : ((Invocation.run (split input path) verbosity).execute files).exitCode ≠ 0 := by
    intro zero
    obtain ⟨content, done⟩ := converted.succeeds.mp zero
    exact absurd ((Conversion.bytes_of_overlong overlong).symm.trans done) nofun
  refine ⟨failed, ?_⟩
  rw [LengthPrefixed.ofStream_eq]
  exact (converted.brokenOff failed rfl).2

/-- A stream of one unit with so many bytes, and a file that is to be replaced. -/
def longInputs (count : Nat) : Directory :=
  [("in", startCode ++ List.replicate count 0x41), ("out", [7])]

/-- Data that is taken to be a record. -/
def recordInputs : Directory := [("in", [1, 1, 0x60])]

/-- The frame of a unit of four gigabytes cannot be written, and what the output held is gone. And a
command line that also asks for help writes no output, although it does not fail. -/
theorem output_overwritten :
    (longInputs (2 ^ 32)).read "out" = .ok [7]
      ∧ ((Arguments.parse ["split", "in", "-o", "out"]).execute (longInputs (2 ^ 32))).exitCode ≠ 0
      ∧ ((Arguments.parse ["split", "in", "-o", "out"]).execute
          (longInputs (2 ^ 32))).files.read "out" = .ok []
      ∧ (Conversion.build .default).bytes [1, 1, 0x60] = .ok [1, 1, 0x60]
      ∧ ((Arguments.parse ["build", "in", "-o", "out", "--help"]).execute
          recordInputs).exitCode = 0
      ∧ ((Arguments.parse ["build", "in", "-o", "out", "--help"]).execute
          recordInputs).files.read "out" = .error .notFound := by
  have parsed : Arguments.parse ["split", "in", "-o", "out"] = .run (split "in" "out") 0 := by
    decide
  -- that no byte of the unit is zero is all that has to be known of it
  have nonzero : ∀ b ∈ List.replicate (2 ^ 32) (0x41 : UInt8), b ≠ 0 := by
    intro b mem
    rw [List.eq_of_mem_replicate mem]
    decide
  have long : LengthPrefixed.maxPayload < (List.replicate (2 ^ 32) (0x41 : UInt8)).length := by
    rw [List.length_replicate]
    decide
  obtain ⟨overlong, nothing⟩ := LengthPrefixed.overlong_of_nonzero nonzero long
  have held : (longInputs (2 ^ 32)).read "in"
      = .ok (startCode ++ List.replicate (2 ^ 32) 0x41) := rfl
  have opened : (longInputs (2 ^ 32)).create "out" = .ok (.file "out") := rfl
  obtain ⟨failed, left⟩ := split_of_overlong 0 held opened overlong
  rw [parsed]
  refine ⟨rfl, failed, left.trans (congrArg Except.ok nothing), rfl, ?_, ?_⟩
  · decide
  · rfl

end Command

end Hevc
