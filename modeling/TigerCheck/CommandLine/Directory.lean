import TigerCheck.CommandLine

/-!
# Files in a directory

How paths are followed from a working directory of which the files are known. A path is a list of
names: an empty name and `.` stay in a directory, `..` leaves it, and any other name leads to a file
or into a further directory. Only a directory can be left or stayed in, so the first name behind a
file is an error, whichever it is.

* `Directory`, `Directory.Entry`, `Directory.entry?`: what a name in a directory stands for.
* `Directory.follow`: the file that some names lead to, or why they lead to none.
* `Directory.read`: the same for a path.
-/

namespace TigerCheck

/-- What is known of a directory: the names on the way to each file in it, with the contents, and to
each directory in it that is there without a known file. -/
structure Directory where
  entries : List (List String × Option ByteArray) := []

namespace Directory

/-- What a name in a directory stands for. -/
inductive Entry where
  | file (contents : ByteArray)
  | directory (inner : Directory)

/-- The entries on whose way a name comes first, seen from behind that name. -/
def inside (d : Directory) (name : String) : Directory :=
  ⟨d.entries.filterMap fun (names, contents) =>
    match names with
    | [] => none
    | first :: rest => if first = name then some (rest, contents) else none⟩

/-- What a name stands for, if it is known. -/
def entry? (d : Directory) (name : String) : Option Entry :=
  let inner := d.inside name
  match inner.entries.lookup [] with
  | some (some contents) => some (.file contents)
  | _ => if inner.entries.isEmpty then none else some (.directory inner)

/-- What is known of the root of any system: the directories that none lacks, and the device that
reads as an empty file. -/
def root : Directory where
  entries := (["dev", "null"], some .empty) ::
    ["bin", "dev", "etc", "lib", "proc", "tmp", "usr"].map fun name => ([name], none)

/-- A name has no more bytes than this. -/
def maxNameSize : Nat := 255

/-- A path has no more bytes than this. -/
def maxPathSize : Nat := 4095

/-- The contents of the file that some names lead to from a directory, given the directories above
it, the nearest first, and the directory above all of them, which is above itself. -/
def follow (top : Directory) : Directory → List Directory → List String → Except ReadFailure ByteArray
  | _, _, [] => .error .directory
  | d, above, name :: names =>
    if name = "" ∨ name = "." then follow top d above names
    else if name = ".." then
      match above with
      | [] => follow top top [] names
      | parent :: rest => follow top parent rest names
    else if maxNameSize < name.utf8ByteSize then .error .nameTooLong
    else
      match d.entry? name with
      | none => .error .missing
      | some (.file contents) => if names.isEmpty then .ok contents else .error .notDirectory
      | some (.directory inner) => follow top inner (d :: above) names

/-- The names on a path. -/
def names (path : String) : List String := path.splitToList (· == '/')

/-- The directory of some files given by their paths. -/
def ofFiles (files : List (String × ByteArray)) : Directory :=
  ⟨files.map fun (path, contents) =>
    ((names path).filter fun n => n != "" && n != ".", some contents)⟩

/-- The contents of the file under a path. A path that begins with a slash is followed from the
root; any other one from the directory, and nothing is known of what is above that. -/
def read (d : Directory) (path : String) : Except ReadFailure ByteArray :=
  if path.isEmpty then .error .missing
  else if maxPathSize < path.utf8ByteSize then .error .nameTooLong
  else if path.startsWith "/" then follow root root [] (names path)
  else follow {} d [] (names path)

end Directory

end TigerCheck
