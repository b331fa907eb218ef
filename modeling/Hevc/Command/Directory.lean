import Hevc.Command.Path

/-!
# Directories

`Directory` holds the files of the directory that a command runs in. `Directory.walk` follows the
names of a path through it and through what is known of the system around it, and finds a `Place`
or the reason why there is none. `Directory.read` and `Directory.create` open what a path names,
and `Target.put` gives it its content.

Of the files outside the directory nothing is known and nothing is kept: to read one fails, and
what is written to one is gone. The main statement, `Directory.read_put`, says that what is written
to a file of the directory is read from there again, by whatever path it was opened.
-/

namespace Hevc

/-- The files of a directory, by name. -/
abbrev Directory := List (String × List UInt8)

/-- The directories that a path can pass through. -/
inductive Folder where
  /-- A directory of the system, by the names that lead to it from the root. -/
  | system (names : List String)
  /-- The directory that the command runs in. It lies in the one for temporary files. -/
  | working
deriving DecidableEq, Repr

namespace Folder

/-- The root. -/
def root : Folder := .system []

/-- The directory above. The root has none but itself. -/
def parent : Folder → Folder
  | .system names => .system names.dropLast
  | .working => .system ["tmp"]

/-- The directories that every system has, the root apart. -/
def known : List (List String) :=
  [["bin"], ["boot"], ["dev"], ["dev", "fd"], ["dev", "pts"], ["dev", "shm"], ["etc"], ["home"],
    ["lib"], ["media"], ["mnt"], ["opt"], ["proc"], ["root"], ["run"], ["sbin"], ["srv"], ["sys"],
    ["tmp"], ["usr"], ["usr", "bin"], ["usr", "lib"], ["usr", "local"], ["usr", "sbin"],
    ["usr", "share"], ["var"], ["var", "cache"], ["var", "lib"], ["var", "log"], ["var", "tmp"]]

end Folder

/-- The devices that stand beside the files. -/
inductive Device where
  /-- Holds nothing and takes everything. -/
  | null
  /-- Holds bytes without end and takes everything. -/
  | endless
  /-- Holds bytes without end and takes nothing. -/
  | full
  /-- The terminal of the command, which has none. -/
  | terminal
deriving DecidableEq, Repr

/-- The devices. There is nothing to be read from the standard streams, and nobody keeps what is
written to them. -/
def Device.known : List (List String × Device) :=
  [(["dev", "null"], .null), (["dev", "stdin"], .null), (["dev", "stdout"], .null),
    (["dev", "fd", "0"], .null), (["dev", "fd", "1"], .null), (["dev", "zero"], .endless),
    (["dev", "random"], .endless), (["dev", "urandom"], .endless), (["dev", "full"], .full),
    (["dev", "tty"], .terminal)]

/-- What a path leads to. -/
inductive Place where
  | folder (folder : Folder)
  /-- A file of the directory that the command runs in. -/
  | file (name : String) (content : List UInt8)
  | device (device : Device)
  /-- A name that nothing has yet. -/
  | free (folder : Folder) (name : String)
deriving DecidableEq, Repr

/-- The directory that a path goes on in. -/
def Place.enter : Place → Except FileFault Folder
  | .folder inner => .ok inner
  | .file _ _ | .device _ => .error .notDirectory
  | .free _ _ => .error .notFound

/-- What an output is written to. -/
inductive Target where
  /-- A file of the directory that the command runs in. -/
  | file (name : String)
  /-- Something that takes everything and is not looked at. -/
  | elsewhere
  /-- Something that takes nothing. -/
  | full
deriving DecidableEq, Repr

/-- What can be written to at a place. A name that nothing has is given to a new file. -/
def Place.target : Place → Except FileFault Target
  | .folder _ => .error .isDirectory
  | .file name _ => .ok (.file name)
  | .device .full => .ok .full
  | .device .terminal => .error .noDevice
  | .device _ => .ok .elsewhere
  | .free .working name => .ok (.file name)
  | .free _ _ => .ok .elsewhere

namespace Directory

/-- What a directory has under a name of its own. -/
def entry (files : Directory) (folder : Folder) (name : String) : Place :=
  match folder with
  | .system names =>
    let path := names ++ [name]
    if path ∈ Folder.known then .folder (.system path)
    else
      match Device.known.lookup path with
      | some device => .device device
      | none => .free (.system names) name
  | .working =>
    match files.lookup name with
    | some content => .file name content
    | none => .free .working name

/-- What a name leads to from a directory. One dot stays in it, and two dots go up. -/
def find (files : Directory) (folder : Folder) (name : List Char) : Except FileFault Place :=
  if name = ['.'] then .ok (.folder folder)
  else if name = ['.', '.'] then .ok (.folder folder.parent)
  else if Path.longestName < Path.byteSize name then .error .nameTooLong
  else .ok (files.entry folder (String.ofList name))

/-- Follows names from a place. Each but the last has to lead to a directory. -/
def walk (files : Directory) : Place → List (List Char) → Except FileFault Place
  | place, [] => .ok place
  | place, name :: rest => do
    let folder ← place.enter
    walk files (← files.find folder name) rest

/-- The place where a path begins. -/
def start (path : Path) : Place := .folder (if path.absolute then .root else .working)

/-- What a path leads to. A slash at the end asks to go into it. -/
def locate (files : Directory) (path : Path) : Except FileFault Place :=
  files.walk (start path) (if path.closed then path.names ++ [['.']] else path.names)

/-- The content of what a path leads to. -/
def read (path : String) (files : Directory) : Except FileFault (List UInt8) := do
  match ← files.locate (← Path.parse path.toList) with
  | .folder _ => .error .isDirectory
  | .file _ content => .ok content
  | .device .null => .ok []
  | .device .terminal => .error .noDevice
  | .device _ => .error .outOfMemory
  | .free _ _ => .error .notFound

/-- Opens what a path leads to for writing. With a slash at the end it names a directory, whether
there is one or not. -/
def create (path : String) (files : Directory) : Except FileFault Target := do
  let path ← Path.parse path.toList
  if path.closed then
    let _ ← (← files.walk (start path) path.names.dropLast).enter
    .error .isDirectory
  else (← files.walk (start path) path.names).target

end Directory

/-- Writes a content to what was opened. -/
def Target.put (target : Target) (content : List UInt8) (files : Directory) :
    Except FileFault Directory :=
  match target with
  | .file name => .ok ((name, content) :: files.filter (·.1 ≠ name))
  | .elsewhere => .ok files
  | .full => if content = [] then .ok files else .error .noSpace

/-! ## Reading back -/

namespace Directory

/-- Which directories there are does not depend on the files. -/
theorem entry_eq_folder {files : Directory} (more : Directory) {folder inner : Folder}
    {name : String} (h : files.entry folder name = .folder inner) :
    entry more folder name = .folder inner := by
  cases folder with
  | system => exact h
  | working => simp only [entry] at h; split at h <;> cases h

/-- A file is found again with its new content. -/
theorem entry_put {files after : Directory} {folder : Folder} {name entered : String}
    {content : List UInt8} (h : (files.entry folder entered).target = .ok (.file name))
    (put : (Target.file name).put content files = .ok after) :
    after.entry folder entered = .file name content := by
  cases put
  cases folder with
  | system =>
    simp only [entry] at h
    split at h
    · cases h
    · split at h
      · rename_i device _
        cases device <;> cases h
      · cases h
  | working =>
    have same : entered = name := by simp only [entry] at h; split at h <;> cases h <;> rfl
    simp [entry, same]

/-- Nor does it depend on them which directory a name leads to. -/
theorem find_eq_folder {files : Directory} (more : Directory) {folder inner : Folder}
    {name : List Char} (h : files.find folder name = .ok (.folder inner)) :
    find more folder name = .ok (.folder inner) := by
  unfold find at h ⊢
  repeat' split at h
  · simp_all
  · simp_all
  · cases h
  · simp_all [entry_eq_folder more (Except.ok.inj h)]

/-- The name that led to a file leads to its new content. -/
theorem find_put {files after : Directory} {folder : Folder} {name : String}
    {content : List UInt8} {step : List Char} {place : Place}
    (found : files.find folder step = .ok place) (h : place.target = .ok (.file name))
    (put : (Target.file name).put content files = .ok after) :
    after.find folder step = .ok (.file name content) := by
  unfold find at found ⊢
  repeat' split at found
  · cases found; cases h
  · cases found; cases h
  · cases found
  · cases found; simp_all [entry_put h put]

/-- The names that led to a file lead to its new content. -/
theorem walk_put {files after : Directory} {name : String} {content : List UInt8}
    {names : List (List Char)} {folder : Folder} {place : Place}
    (found : files.walk (.folder folder) names = .ok place) (h : place.target = .ok (.file name))
    (put : (Target.file name).put content files = .ok after) :
    after.walk (.folder folder) names = .ok (.file name content) := by
  induction names generalizing folder with
  | nil => cases found; cases h
  | cons step rest ih =>
    cases hq : files.find folder step with
    | error e => simp [walk, Place.enter, hq, bind, Except.bind] at found
    | ok q =>
      have tail : files.walk q rest = .ok place := by
        simpa [walk, Place.enter, hq, bind, Except.bind] using found
      cases rest with
      | nil =>
        cases tail
        simp [walk, Place.enter, find_put hq h put, bind, Except.bind]
      | cons second more =>
        cases q with
        | folder inner =>
          have := find_eq_folder after hq
          simpa [walk, Place.enter, this, bind, Except.bind] using ih tail
        | file => simp [walk, Place.enter, bind, Except.bind] at tail
        | device => simp [walk, Place.enter, bind, Except.bind] at tail
        | free => simp [walk, Place.enter, bind, Except.bind] at tail

/-- What is written to a path can be read from it. -/
theorem read_put {files after : Directory} {path name : String} {content : List UInt8}
    (opened : files.create path = .ok (.file name))
    (put : (Target.file name).put content files = .ok after) :
    after.read path = .ok content := by
  unfold create at opened
  cases hp : Path.parse path.toList with
  | error e => simp [hp, bind, Except.bind] at opened
  | ok p =>
    simp only [hp, bind, Except.bind] at opened
    split at opened
    · split at opened <;> (try cases opened)
      split at opened <;> cases opened
    · split at opened
      · cases opened
      · rename_i place found
        have := walk_put found opened put
        simp_all [read, locate, start, bind, Except.bind]

end Directory

end Hevc
