import LineScript.Files.Access
import LineScript.Files.Path

/-!
A file system in memory: files and directories in a tree, without links.
-/

set_option autoImplicit false

namespace LineScript

/-- A place in the tree: the names on the way from the root to it. -/
abbrev Location := List String

inductive Entry where
  | file (content : ByteArray)
  | directory

structure FileSystem where
  workingDirectory : Location
  /-- What stands where, latest first.  The root is always a directory. -/
  entries : List (Location × Entry)

namespace FileSystem

def empty (workingDirectory : String) : FileSystem :=
  ⟨[workingDirectory], [([workingDirectory], .directory)]⟩

def find? (location : Location) (files : FileSystem) : Option Entry :=
  match location with
  | [] => some .directory
  | location => files.entries.lookup location

def insert (location : Location) (entry : Entry) (files : FileSystem) : FileSystem :=
  { files with entries := (location, entry) :: files.entries }

def nameLimit : Nat := 255

def pathLimit : Nat := 4095

/-- Goes from a directory along the segments of a path.  Every place left behind on the way has to be
a directory; the last place need not exist. -/
def walk (files : FileSystem) (location : Location) : List String → Except AccessFault Location
  | [] => .ok location
  | segment :: others =>
    match files.find? location with
    | none => .error .noSuchFile
    | some (.file _) => .error .notADirectory
    | some .directory =>
      if segment = "" || segment = "." then walk files location others
      else if segment = ".." then walk files location.dropLast others
      else if nameLimit < segment.utf8ByteSize then .error .nameTooLong
      else walk files (location ++ [segment]) others

def origin (path : String) (files : FileSystem) : Location :=
  if Path.isAbsolute path then [] else files.workingDirectory

/-- Goes along segments from where a path starts, if the path as a whole is fit to be one. -/
def follow (path : String) (segments : List String) (files : FileSystem) :
    Except AccessFault Location :=
  if '\x00' ∈ path.toList then .error .endInsideName
  else if path = "" then .error .noSuchFile
  else if pathLimit < path.utf8ByteSize then .error .nameTooLong
  else files.walk (files.origin path) segments

def locate (path : String) (files : FileSystem) : Except AccessFault Location :=
  files.follow path (Path.segments path)

def lookup (path : String) (files : FileSystem) : Except AccessFault Entry :=
  match files.locate path with
  | .error fault => .error fault
  | .ok location =>
    match files.find? location with
    | none => .error .noSuchFile
    | some entry => .ok entry

def pathExists (path : String) (files : FileSystem) : Bool :=
  (files.lookup path).isOk

def readText (path : String) (files : FileSystem) : Except AccessFault String :=
  match files.lookup path with
  | .error fault => .error fault
  | .ok .directory => .error .isADirectory
  | .ok (.file content) =>
    match String.fromUTF8? content with
    | some text => .ok text
    | none => .error .invalidText

/-- The place where a path creates or replaces a file.  A path with a slash at its end is refused as a
directory whatever its last name stands for, once the way to that name is found. -/
def locateTarget (path : String) (files : FileSystem) : Except AccessFault Location :=
  if Path.endsInSlash path then
    match files.follow path (Path.parents path ++ [""]) with
    | .error fault => .error fault
    | .ok _ => .error .isADirectory
  else files.locate path

def writeText (path text : String) (files : FileSystem) : Except AccessFault FileSystem :=
  match files.locateTarget path with
  | .error fault => .error fault
  | .ok location =>
    match files.find? location with
    | some .directory => .error .isADirectory
    | _ => .ok (files.insert location (.file text.toUTF8))

/-- Goes from a directory along the segments of a path, and puts a directory wherever there is nothing
yet. -/
def pave (files : FileSystem) (location : Location) : List String → Except AccessFault FileSystem
  | [] => .ok files
  | segment :: others =>
    if segment = "" || segment = "." then pave files location others
    else if segment = ".." then pave files location.dropLast others
    else
      match files.find? (location ++ [segment]) with
      | some (.file _) => .error .notADirectory
      | some .directory => pave files (location ++ [segment]) others
      | none => pave (files.insert (location ++ [segment]) .directory) (location ++ [segment]) others

def makeDirectory (path : String) (files : FileSystem) : Except AccessFault FileSystem :=
  files.pave (files.origin path) (Path.segments path)

end FileSystem

instance : FileAccess (StateM FileSystem) where
  pathExists path := fun files => (files.pathExists path, files)
  readText path := fun files => (files.readText path, files)
  writeText path text := fun files =>
    match files.writeText path text with
    | .error fault => (.error fault, files)
    | .ok written => (.ok (), written)

end LineScript
