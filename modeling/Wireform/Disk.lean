import Wireform.Text.Basic

/-
  Wireform disks: the files and directories that a command finds. A path is the list of its parts,
  the parts that lead nowhere left out, and an absolute one starts with a slash.
-/

namespace Wireform

/-- Files by their paths. -/
abbrev Files := List (String × String)

/-- Why a file cannot be read or written, or a directory not be made. -/
inductive FileFault where
  | absent
  | isDirectory
  | notDirectory
  | occupied
  deriving DecidableEq, Repr

def FileFault.message : FileFault → String
  | absent => "No such file or directory"
  | isDirectory => "Is a directory"
  | notDirectory => "Not a directory"
  | occupied => "File exists"

/-! ## Paths -/

namespace DiskPath

/-- The parts of a path. -/
def parts (path : String) : List String :=
  (if path.startsWith "/" then ["/"] else []) ++
    ((Text.pieces '/' path.toList).map String.ofList).filter fun s => s ≠ "" && s ≠ "."

/-- A path of its parts. -/
def ofParts : List String → String
  | [] => "."
  | "/" :: r => "/" ++ "/".intercalate r
  | r => "/".intercalate r

/-- A path in its shortest form. -/
def tidy (path : String) : String := ofParts (parts path)

/-- The path of a name within a directory; an absolute name stands for itself. -/
def join (directory name : String) : String :=
  if name.startsWith "/" then tidy name else tidy (directory ++ "/" ++ name)

/-- The directory that holds a path. -/
def directory (path : String) : String := ofParts (parts path).dropLast

end DiskPath

/-! ## Disks -/

/-- The files that are there, and the directories that hold none of them. -/
structure Disk where
  files : Files
  directories : List String

namespace Disk

/-- Whether a directory is there: a starting point, or one that holds a file or is listed. -/
def hasDirectory (d : Disk) (parts : List String) : Bool :=
  parts = [] || parts = ["/"] || d.directories.any (DiskPath.parts · = parts) ||
    d.files.any fun f => parts.isPrefixOf (DiskPath.parts f.1) && parts ≠ DiskPath.parts f.1

/-- Whether a file stands where a path needs a directory. -/
def isBlocked (d : Disk) (parts : List String) : Bool :=
  d.files.any fun f =>
    (DiskPath.parts f.1).isPrefixOf parts && DiskPath.parts f.1 ≠ parts

/-- Why nothing is found at a path. -/
def absence (d : Disk) (parts : List String) : FileFault :=
  if d.isBlocked parts then .notDirectory else .absent

/-- The text of a file. -/
def read (d : Disk) (path : String) : Except FileFault String :=
  if path = "" then .error .absent
  else match d.files.find? fun f => DiskPath.parts f.1 = DiskPath.parts path with
    | some f => .ok f.2
    | none => .error (if d.hasDirectory (DiskPath.parts path) then .isDirectory
        else d.absence (DiskPath.parts path))

/-- A file can be written at a path where its directory is there and no other directory is. -/
def checkFile (d : Disk) (path : String) : Except FileFault Unit :=
  let parts := DiskPath.parts path
  if path = "" then .error .absent
  else if d.hasDirectory parts then .error .isDirectory
  else if d.hasDirectory parts.dropLast then .ok ()
  else .error (d.absence parts)

/-- A directory is there or can be made where no file is in its way. -/
def checkDirectory (d : Disk) (path : String) : Except FileFault Unit :=
  let parts := DiskPath.parts path
  if d.isBlocked parts then .error .notDirectory
  else if d.files.any (DiskPath.parts ·.1 = parts) then .error .occupied
  else .ok ()

end Disk

end Wireform
