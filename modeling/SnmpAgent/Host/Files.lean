import SnmpAgent.Host.ErrorNumber

/-!
# Files

What the agent reads: whole files and the usage of file systems. A path with a
NUL character names nothing.

* `Files.text?`: the text of a file, which must be valid UTF-8;
* `Files.usage?`: the usage of the file system at a path.
-/

namespace SnmpAgent

/-- What opening and reading a file gives: its octets, or the error number of
    the system. -/
inductive FileContent where
  | octets (content : List UInt8)
  | failure (errno : Int)
  deriving DecidableEq

/-- The block and inode counts of a file system. -/
structure FsUsage where
  /-- The octets of a block. -/
  fragmentSize : UInt64
  blocks : UInt64
  blocksFree : UInt64
  /-- All inodes. -/
  files : UInt64
  /-- The free inodes. -/
  filesFree : UInt64
  deriving DecidableEq

/-- The files of a host. -/
structure Files where
  /-- What reading the file at a path gives. -/
  read : String → FileContent
  /-- The usage of the file system at a path. -/
  statvfs : String → Option FsUsage

namespace Files

/-- The files with given contents and the file systems with given usages.
    Nothing else exists. -/
def ofList (contents : List (String × FileContent)) (usages : List (String × FsUsage)) :
    Files where
  read path := (contents.lookup path).getD (.failure ErrorNumber.notFound)
  statvfs path := usages.lookup path

/-- Why the text of a file is not available: the system refuses to read it, its
    content is not valid UTF-8, or its path holds a NUL character. -/
inductive Unreadable where
  | system (errno : Int)
  | notText
  | nulInPath
  deriving DecidableEq

/-- The wording of a reason. -/
def Unreadable.message : Unreadable → String
  | .system errno => s!"{ErrorNumber.text errno} (os error {errno})"
  | .notText => "stream did not contain valid UTF-8"
  | .nulInPath => "file name contained an unexpected NUL byte"

/-- Whether a path may be given to the system. -/
def isPath (path : String) : Bool := ¬path.toList.contains '\x00'

/-- The text of a file. -/
def text (f : Files) (path : String) : Except Unreadable String :=
  if isPath path then
    match f.read path with
    | .failure errno => .error (.system errno)
    | .octets content =>
      match String.fromUTF8? content.toByteArray with
      | some text => .ok text
      | none => .error .notText
  else .error .nulInPath

/-- The text of a file, if it is available. -/
def text? (f : Files) (path : String) : Option (List Char) :=
  match f.text path with
  | .ok text => some text.toList
  | .error _ => none

/-- The usage of the file system at a path, if it is available. -/
def usage? (f : Files) (path : String) : Option FsUsage :=
  if isPath path then f.statvfs path else none

end Files

end SnmpAgent
