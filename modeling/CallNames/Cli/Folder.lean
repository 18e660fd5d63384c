/-!
# Reading files by name

* `ReadError` is why a file cannot be read, with the wording of the operating system;
* `nameDefect?` is what a file system refuses a name for before it looks for the file;
* `Folder` holds files in memory under relative names and answers as a file system does: a name is
  followed step by step, `.` stays, `..` goes back, and **each step needs a folder to start from**.
-/

namespace CallNames

/-- Why a file cannot be read. -/
inductive ReadError where
  /-- There is no such file. -/
  | missing
  /-- A name goes on after a file. -/
  | notAFolder
  /-- The name is that of a folder. -/
  | isFolder
  /-- The name, or one step of it, is longer than a file system allows. -/
  | nameTooLong
  /-- The name holds the character NUL, which ends a name. -/
  | nulInName
  /-- The bytes of the file are no text. -/
  | notText
  /-- Any other reason, in the words of the system. -/
  | refused (reason : String)
deriving DecidableEq, Repr, Inhabited

namespace ReadError

/-- The refusal in words. -/
def message : ReadError → String
  | missing => "No such file or directory (os error 2)"
  | notAFolder => "Not a directory (os error 20)"
  | isFolder => "Is a directory (os error 21)"
  | nameTooLong => "File name too long (os error 36)"
  | nulInName => "file name contained an unexpected NUL byte"
  | notText => "stream did not contain valid UTF-8"
  | refused reason => reason

end ReadError

/-- The bytes of a file read as text. -/
def textOfBytes (bytes : ByteArray) : Except ReadError String :=
  match String.fromUTF8? bytes with
  | some text => .ok text
  | none => .error .notText

/-- The most bytes that one step of a name has. -/
def maxStepBytes : Nat := 255

/-- The most bytes that a whole name has. -/
def maxNameBytes : Nat := 4095

/-- Why a name is refused whatever files there are. -/
def nameDefect? (name : String) : Option ReadError :=
  if name.toList.contains '\x00' then some .nulInName
  else if maxNameBytes < name.utf8ByteSize then some .nameTooLong
  else none

/-- Files by their names, as the steps from the folder to the file. -/
structure Folder where
  files : List (List String × ByteArray)

namespace Folder

/-- Whether a step of a name stays where it is: `.` and, as in `a//b`, the empty step. -/
def isIdle (name : String) : Bool := name.isEmpty || name = "."

/-- Adds a file, or replaces the one with the same name. -/
def write (folder : Folder) (name : String) (bytes : ByteArray) : Folder :=
  ⟨((name.splitOn "/").filter fun s => !isIdle s, bytes) :: folder.files⟩

/-- A place that a name leads to. -/
inductive Place where
  /-- A folder, by the steps to it with the last one first. -/
  | folder (steps : List String)
  | file (bytes : ByteArray)
  /-- Somewhere around the folder, of which nothing is known. -/
  | outside

/-- Whether the steps lead to a folder: some file lies in it. -/
def isFolder (folder : Folder) (steps : List String) : Bool :=
  steps.isEmpty || folder.files.any fun f => steps.length < f.1.length && steps.isPrefixOf f.1

/-- One step of a name. A step that looks for something in a folder has to be short enough. -/
def step (folder : Folder) (place : Place) (name : String) : Except ReadError Place :=
  match place with
  | .file _ => .error .notAFolder
  | .outside =>
    if isIdle name || name = ".." then .ok .outside
    else if maxStepBytes < name.utf8ByteSize then .error .nameTooLong
    else .error .missing
  | .folder steps =>
    if isIdle name then .ok (.folder steps)
    else if name = ".." then
      match steps with
      | [] => .ok .outside
      | _ :: rest => .ok (.folder rest)
    else if maxStepBytes < name.utf8ByteSize then .error .nameTooLong
    else
      let there := (name :: steps).reverse
      match folder.files.lookup there with
      | some bytes => .ok (.file bytes)
      | none => if folder.isFolder there then .ok (.folder (name :: steps)) else .error .missing

/-- **The text of a file.** A name that starts with `/` starts outside the folder. -/
def read (folder : Folder) (name : String) : Except ReadError String := do
  match nameDefect? name with
  | some e => .error e
  | none =>
    let start : Place := if name.startsWith "/" then .outside else .folder []
    match ← (name.splitOn "/").foldlM folder.step start with
    | .file bytes => textOfBytes bytes
    | _ => .error .isFolder

end Folder

end CallNames
