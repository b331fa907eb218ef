import Hevc.Command.Run
import Hevc.Proofs.Record.Canonical
import Hevc.Proofs.Record.Rebuild

/-!
# Inspecting files

A file is inspected by reading a record from its front and comparing the length of the file with the
size that the record would have if it were written. How many bytes the reading took is not asked
for, but `size_of_demux` says that it was as many: reserved bits may be set in any way and arrays
may stand in any order, and each still takes the bytes that it would be written with.

* `inspect_of_whole`, `inspect_of_left`, `inspect_of_refused` — the three ways in which it ends
* `store_eq_ok` — where an output goes that was stored
* `inspect_exact` — which files are accepted, what is said of the others, and that the files that
  records were built into are among those that are accepted
-/

namespace Hevc

/-! ## What was taken -/

namespace Record

/-- The bytes that were taken are as many as the size of the record says. -/
theorem size_of_demux {bytes : List UInt8} {r : Record} {taken : Nat}
    (read : demux bytes = (.ok r, taken)) : r.size = taken ∧ taken ≤ bytes.length := by
  obtain ⟨l, complete, rest, rfl⟩ := complete_of_demux (congrArg Prod.fst read)
  rw [l.demux_bytes complete] at read
  obtain ⟨ok, rfl⟩ := Prod.mk.inj read
  obtain rfl := Except.ok.inj ok
  exact ⟨(l.toBytes_record complete).2.1.symm, by simp⟩

/-- All bytes are taken of a complete record, and of nothing else. -/
theorem demux_whole_iff {bytes : List UInt8} :
    (∃ r, demux bytes = (.ok r, bytes.length)) ↔ ∃ l : Layout, l.Complete ∧ l.bytes = bytes := by
  constructor
  · rintro ⟨r, read⟩
    obtain ⟨l, complete, front⟩ := complete_of_demux (congrArg Prod.fst read)
    rw [l.demux_of_prefix complete front] at read
    exact ⟨l, complete, front.eq_of_length (congrArg Prod.snd read)⟩
  · rintro ⟨l, complete, rfl⟩
    exact ⟨l.record, l.demux_of_prefix complete (List.prefix_refl _)⟩

end Record

namespace Command

/-! ## Commands in a directory -/

section

variable {command : Command} {files : Directory} {data : List UInt8} {performance : Performance}
  {output : Output}

theorem execute_of_error (performed : command.perform data = performance)
    (held : files.read command.input = .ok data) {failure : Failure}
    (failed : performance.result = .error failure) :
    command.execute files
      = { files, events := performance.events, found := none, failure := some failure } := by
  simp only [execute, held, performed, failed]

theorem execute_of_record (performed : command.perform data = performance)
    (held : files.read command.input = .ok data) {r : Record}
    (found : performance.result = .ok (.record r)) :
    command.execute files
      = { files, events := performance.events, found := some r, failure := none } := by
  simp only [execute, held, performed, found]

theorem execute_of_output (performed : command.perform data = performance)
    (held : files.read command.input = .ok data)
    (made : performance.result = .ok (.output output)) :
    command.execute files = store performance.events output files := by
  simp only [execute, held, performed, made]

/-- What was stored went to what the path of the output leads to. -/
theorem store_eq_ok {events : List Log.Event}
    (done : (store events output files).failure = none) :
    ∃ target, files.create output.path = .ok target
      ∧ target.put output.content files = .ok (store events output files).files := by
  unfold store at done ⊢
  cases opened : files.create output.path with
  | error fault => simp [opened] at done
  | ok target =>
    cases put : target.put output.content files with
    | error fault => simp [opened, put] at done
    | ok after =>
      cases ending : output.ending with
      | error cause => simp [opened, put, ending] at done
      | ok written => exact ⟨target, rfl, by simp only [put]⟩

end

/-! ## What inspecting comes to -/

section

variable {files : Directory} {path : String} {data : List UInt8} {r : Record} {taken : Nat}

/-- The content is one record: it is found and shown. -/
theorem inspect_of_whole (held : files.read path = .ok data)
    (read : Record.demux data = (.ok r, data.length)) :
    (inspect path).execute files
      = { files, events := Log.fieldsOf r, found := some r, failure := none } := by
  have performed : (inspect path).perform data
      = { events := Log.fieldsOf r, result := .ok (.record r) } := by
    simp [perform, performInspect, read, (Record.size_of_demux read).1]
  exact execute_of_record performed held rfl

/-- Bytes are left behind a record: they are counted. -/
theorem inspect_of_left (held : files.read path = .ok data)
    (read : Record.demux data = (.ok r, taken)) {left : Nat} (all : taken + left = data.length)
    (more : 0 < left) :
    (inspect path).execute files
      = { files, events := [], found := none, failure := some (.trailingBytes left) } := by
  have performed : (inspect path).perform data
      = { events := [], result := .error (.trailingBytes left) } := by
    simp [perform, performInspect, read, (Record.size_of_demux read).1, ← all, more]
  exact execute_of_error performed held rfl

/-- There is no record: the reading says why. -/
theorem inspect_of_refused (held : files.read path = .ok data) {fault : Fault}
    (refused : (Record.demux data).1 = .error fault) :
    (inspect path).execute files
      = { files, events := [], found := none, failure := some (.io fault) } := by
  have performed :
      (inspect path).perform data = { events := [], result := .error (.io fault) } := by
    simp only [perform, performInspect, refused]
  exact execute_of_error performed held rfl

/-- Either the content is one record, or nothing is found and nothing is shown. -/
theorem inspect_cases (held : files.read path = .ok data) :
    (∃ r, Record.demux data = (.ok r, data.length)
        ∧ (inspect path).execute files
          = { files, events := Log.fieldsOf r, found := some r, failure := none })
      ∨ ∃ failure, (inspect path).execute files
          = { files, events := [], found := none, failure := some failure } := by
  cases read : Record.demux data with
  | mk result taken =>
    cases result with
    | error fault => exact .inr ⟨_, inspect_of_refused held (congrArg Prod.fst read)⟩
    | ok r =>
      have within := (Record.size_of_demux read).2
      rcases Nat.eq_or_lt_of_le within with rfl | more
      · exact .inl ⟨r, rfl, inspect_of_whole held read⟩
      · have all := Nat.add_sub_of_le within
        exact .inr ⟨_, inspect_of_left held read all (Nat.sub_pos_of_lt more)⟩

/-- What is promised of inspecting a file with a content, if the command ends with `outcome`. -/
structure Inspects (files : Directory) (data : List UInt8) (outcome : Outcome) : Prop where
  /-- The command succeeds if the content is read as one record and nothing is left. -/
  succeeds : outcome.failure = none ↔ ∃ r, Record.demux data = (.ok r, data.length)
  /-- That is so if the content is a complete record. -/
  complete : outcome.failure = none ↔ ∃ l : Record.Layout, l.Complete ∧ l.bytes = data
  /-- What was read is found and shown. -/
  shows : ∀ r, Record.demux data = (.ok r, data.length) →
    outcome.found = some r ∧ outcome.events = Log.fieldsOf r
  /-- Bytes that are left are counted. -/
  trailing : ∀ r taken left, Record.demux data = (.ok r, taken) → taken + left = data.length →
    0 < left → outcome.failure = some (.trailingBytes left)
  /-- What cannot be read fails for the reason that the reading gives. -/
  refused : ∀ fault, (Record.demux data).1 = .error fault → outcome.failure = some (.io fault)
  /-- Nothing is found and nothing is shown when the command fails. -/
  quiet : outcome.failure ≠ none → outcome.found = none ∧ outcome.events = []
  untouched : outcome.files = files

theorem inspects (held : files.read path = .ok data) :
    Inspects files data ((inspect path).execute files) := by
  have succeeds : ((inspect path).execute files).failure = none
      ↔ ∃ r, Record.demux data = (.ok r, data.length) := by
    constructor
    · intro done
      rcases inspect_cases held with ⟨r, read, -⟩ | ⟨failure, same⟩
      · exact ⟨r, read⟩
      · rw [same] at done
        exact absurd done (by simp)
    · rintro ⟨r, read⟩
      rw [inspect_of_whole held read]
  refine ⟨succeeds, succeeds.trans Record.demux_whole_iff, ?_, ?_, ?_, ?_, ?_⟩
  · intro r read
    rw [inspect_of_whole held read]
    exact ⟨rfl, rfl⟩
  · intro r taken left read all more
    rw [inspect_of_left held read all more]
  · intro fault refused
    rw [inspect_of_refused held refused]
  · intro failed
    rcases inspect_cases held with ⟨r, -, same⟩ | ⟨failure, same⟩
    · exact absurd (congrArg Outcome.failure same) failed
    · rw [same]
      exact ⟨rfl, rfl⟩
  · rcases inspect_cases held with ⟨r, -, same⟩ | ⟨failure, same⟩
    · rw [same]
    · rw [same]

end

/-! ## Records that were built -/

/-- An event that reports an array of a record: the type of its units, whether they are all there
are, and the size of each. -/
structure Reports (array : NalArray) (event : Log.Event) : Prop where
  level : event.level = .info
  text : event.text = "array"
  type : event.fields.lookup "nal_unit_type" = some array.type.name
  complete : event.fields.lookup "complete" = some (toString array.complete)
  sizes : event.fields.lookup "sizes" = some
    ("[" ++ ", ".intercalate (array.units.toList.map fun unit => toString unit.length) ++ "]")

theorem reports_arrayOf (array : NalArray) : Reports array (Log.arrayOf array) where
  level := rfl
  text := rfl
  type := rfl
  complete := rfl
  sizes := by
    show some (Log.list (array.units.toList.map (·.length))) = _
    rw [Log.list, List.map_map]
    rfl

/-- A record is found and shown, with all its arrays and the sizes of their units. -/
structure Shows (r : Record) (outcome : Outcome) : Prop where
  succeeds : outcome.failure = none
  /-- The number of sub-layers is found as its field holds it. -/
  found : outcome.found = some r.reduced
  arrays : outcome.found.map Record.arrays = some r.arrays
  /-- The profile and the format come first, and then an event for each array. -/
  reported : ∃ events, outcome.events = Log.profileOf r :: Log.formatOf r.reduced :: events
    ∧ List.Forall₂ Reports r.arrays events

/-- What is promised of a record that was built of a stream and stored as `content`, if that leaves
the files `after`. -/
structure Reopens (options : Record.Options) (data : List UInt8) (output : String)
    (files after : Directory) (r : Record) (content : List UInt8) : Prop where
  built : Record.build options data = .ok r
  written : r.toBytes = .ok content
  size : content.length = r.size
  stored : ∃ target, files.create output = .ok target ∧ target.put content files = .ok after
  /-- The output shows the record, if it is a file of the directory. -/
  reopened : ∀ name, files.create output = .ok (.file name) →
    Shows r ((inspect output).execute after)
  /-- So does every file with the same bytes, wherever it is kept. -/
  copied : ∀ (others : Directory) (path : String), others.read path = .ok content →
    Shows r ((inspect path).execute others)

/-- What is built of a stream are the bytes of its record. -/
theorem buildContent_eq_ok {options : Record.Options} {data content : List UInt8}
    (stream : startsWithStartCode data = true) (done : buildContent options data = .ok content) :
    ∃ r, Record.build options data = .ok r ∧ r.toBytes = .ok content := by
  unfold buildContent at done
  rcases Record.convert_cases options data (.unbounded .plain) with
    ⟨notStream, -⟩ | ⟨e, same⟩ | ⟨r, bytes, built, written, same⟩
  · rw [stream] at notStream
    exact absurd notStream (by decide)
  · rw [same] at done
    exact absurd done (by simp [Except.map])
  · rw [same, Record.writeThrough_unbounded] at done
    obtain rfl : bytes = content := by
      rw [← Except.ok.inj done, Sink.bytes_holding_plain]
    exact ⟨r, built, written⟩

section

variable {options : Record.Options} {files : Directory} {input output : String}
  {data content : List UInt8} {r : Record}

/-- A file with the bytes of a built record shows it. -/
theorem shows_of_built (built : Record.build options data = .ok r)
    (written : r.toBytes = .ok content) (held : files.read input = .ok content) :
    Shows r ((inspect input).execute files) := by
  rw [inspect_of_whole held (Record.demux_of_built built written)]
  refine ⟨rfl, rfl, rfl, _, rfl, ?_⟩
  rw [List.forall₂_map_right_iff]
  exact List.forall₂_same.mpr fun array _ => reports_arrayOf array

/-- Where building succeeds, its content was stored. -/
theorem stored_of_build (held : files.read input = .ok data)
    (done : ((build input output options).execute files).failure = none) :
    ∃ content target, buildContent options data = .ok content
      ∧ files.create output = .ok target
      ∧ target.put content files = .ok ((build input output options).execute files).files := by
  cases made : buildContent options data with
  | error e =>
    have performed : (build input output options).perform data
        = { events := Log.converting options data, result := .error (.library e) } := by
      simp only [perform, performBuild, made]
    rw [execute_of_error performed held rfl] at done
    exact absurd done (by simp)
  | ok content =>
    obtain ⟨written, performed, rfl, rfl⟩ : ∃ written : Output,
        (build input output options).perform data
            = { events := Log.converting options data, result := .ok (.output written) }
          ∧ written.path = output ∧ written.content = content := by
      simp only [perform, performBuild, made]
      exact ⟨_, rfl, rfl, rfl⟩
    rw [execute_of_output performed held rfl] at done ⊢
    obtain ⟨target, opened, put⟩ := store_eq_ok done
    exact ⟨written.content, target, rfl, opened, put⟩

theorem reopens (held : files.read input = .ok data) (stream : startsWithStartCode data = true)
    (done : ((build input output options).execute files).failure = none) :
    ∃ r content, Reopens options data output files
      ((build input output options).execute files).files r content := by
  obtain ⟨content, target, made, opened, put⟩ := stored_of_build held done
  obtain ⟨r, built, written⟩ := buildContent_eq_ok stream made
  refine ⟨r, content, built, written, (Record.toBytes_build built written).1,
    ⟨target, opened, put⟩, ?_, ?_⟩
  · intro name found
    obtain rfl := Except.ok.inj (opened.symm.trans found)
    exact shows_of_built built written (Directory.read_put found put)
  · intro others path same
    exact shows_of_built built written same

end

/-- A file is accepted if it holds one complete record and nothing else. If bytes are left, they are
counted, and if there is no record, the reading says why. The record that was built of a stream is
accepted from where it was stored, and shown with its arrays and the sizes of their units. -/
theorem inspect_exact (files : Directory) (input : String) (data : List UInt8)
    (held : files.read input = .ok data) :
    Inspects files data ((inspect input).execute files)
      ∧ ∀ (output : String) (options : Record.Options), startsWithStartCode data = true →
          ((build input output options).execute files).failure = none →
          ∃ r content, Reopens options data output files
            ((build input output options).execute files).files r content :=
  ⟨inspects held, fun _ _ stream done => reopens held stream done⟩

/-- A stream, and a record without arrays that two bytes follow. -/
def sampleFiles : Directory :=
  [("params.h265", Record.sampleStream Record.oneLayerVps),
    ("padded.bin", 1 :: List.replicate 22 0 ++ [7, 7])]

/-- Neither of the two is accepted, but the record that is built of the stream is found with all its
arrays. -/
theorem inspect_exact_sample :
    ((inspect "params.h265").execute sampleFiles).failure = some (.io (.recordVersion 0))
      ∧ ((inspect "padded.bin").execute sampleFiles).failure = some (.trailingBytes 2)
      ∧ Shows (Record.sampleRecord Record.oneLayerVps 1)
          ((inspect "hvcc.bin").execute
            ((build "params.h265" "hvcc.bin" .default).execute sampleFiles).files)
      ∧ (((inspect "hvcc.bin").execute
              ((build "params.h265" "hvcc.bin" .default).execute sampleFiles).files).found.map
            fun r => r.arrays.map fun array => (array.type, array.units.toList.map List.length))
        = some [(.vps, [20]), (.sps, [23]), (.pps, [5])] := by
  obtain ⟨stream, again⟩ := inspect_exact sampleFiles "params.h265" _ rfl
  obtain ⟨padded, -⟩ := inspect_exact sampleFiles "padded.bin" _ rfl
  obtain ⟨r, content, opens⟩ :=
    again "hvcc.bin" .default (by decide) (by decide +kernel)
  have built : Record.build .default (Record.sampleStream Record.oneLayerVps)
      = .ok (Record.sampleRecord Record.oneLayerVps 1) := toOption_ok (by decide +kernel)
  obtain rfl := Except.ok.inj (opens.built.symm.trans built)
  have shows := opens.reopened "hvcc.bin" rfl
  refine ⟨stream.refused _ rfl, padded.trailing _ 23 2 rfl rfl (by decide), shows, ?_⟩
  rw [shows.found]
  rfl

end Command

end Hevc
