import SpirvModule.Blessing.Run

/-!
# Directories

A run takes place in a directory: its inputs are files that paths lead to from
there, and its database is the one file that it writes. A path is a sequence of
names between slashes. An empty name and `.` stay where they are, `..` leads one
directory up, and a path that starts with a slash starts at the root. Whatever is
followed by a slash has to be a directory.

* `Directory.read`: the bytes of the file that a path leads to.
* `Directory.run`: a run, and the directory after it.
-/
namespace SpirvModule

/-- A directory with the files around it. The names `place` lead from the root to the directory, and
those beside the bytes of a file lead to that file. -/
structure Directory where
  place : List String
  files : List (List String × List UInt8)

namespace Directory

/-- Length in bytes from which on a path is too long. -/
def pathLimit : Nat := 4096

/-- Length in bytes of the longest name. -/
def nameLimit : Nat := 255

/-- The parts of a path between its slashes, of which `part` is the beginning of the first, read
backwards. -/
def partsFrom (part : List Char) : List Char → List String
  | [] => [String.ofList part.reverse]
  | c :: r =>
    if c = '/' then String.ofList part.reverse :: partsFrom [] r else partsFrom (c :: part) r

/-- The bytes of the file that `names` lead to. -/
def file? (d : Directory) (names : List String) : Option (List UInt8) := d.files.lookup names

/-- Whether `names` lead to a directory: to this one, to one around it, or to one with a file. -/
def leadsToDirectory (d : Directory) (names : List String) : Bool :=
  names.isPrefixOf d.place ||
    d.files.any fun f => names.isPrefixOf f.1 && names.length < f.1.length

/-- The names that lead where the parts of a path lead from `here`. -/
def follow (d : Directory) (here : List String) : List String → Except FileError (List String)
  | [] => .ok here
  | part :: parts =>
    if ¬ d.leadsToDirectory here then .error .notDirectory
    else if part = "" ∨ part = "." then d.follow here parts
    else if part = ".." then d.follow here.dropLast parts
    else if nameLimit < part.utf8ByteSize then .error .nameTooLong
    else
      let there := here ++ [part]
      if (d.file? there).isSome || d.leadsToDirectory there then d.follow there parts
      else .error .missing

/-- The names that a path leads to. -/
def resolve (d : Directory) (path : String) : Except FileError (List String) :=
  if path = "" then .error .missing
  else if pathLimit ≤ path.utf8ByteSize then .error .nameTooLong
  else match partsFrom [] path.toList with
    | "" :: parts => d.follow [] parts
    | parts => d.follow d.place parts

/-- The bytes of the file that a path leads to. -/
def read (d : Directory) (path : String) : Except FileError (List UInt8) :=
  match d.resolve path with
  | .error e => .error e
  | .ok names =>
    match d.file? names with
    | some bytes => .ok bytes
    | none => .error .isDirectory

/-- The directory once the file `name` in it holds `bytes`. -/
def write (d : Directory) (name : String) (bytes : List UInt8) : Directory :=
  let names := d.place ++ [name]
  { d with files := (names, bytes) :: d.files.filter (·.1 ≠ names) }

/-- How a run in the directory ends, and the directory after it. -/
def run (d : Directory) (args : List String) (tools : Toolbox) : Outcome × Directory :=
  let o := SpirvModule.run args d.read tools
  match o.saved with
  | some db => (o, d.write databaseName (Text.encode db.render))
  | none => (o, d)

end Directory

end SpirvModule
