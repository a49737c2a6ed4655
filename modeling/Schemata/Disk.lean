import Schemata.Fields
import Schemata.Path

/-!
# Files as a command sees them

A `Disk` says what stands at a path and whether a file can be opened there for writing. A file may have
no text, or be closed to the command.

`Disk.ofVolume` is the disk whose current folder holds some files and nothing else; of what is
outside, it has the folders around the current one and the root. To look at a path is to look at its
place. To write, every name on the way has to be a folder, and the file, or the folder for a new file, has
to be open for writing.
-/

namespace Schemata

/-- A file. -/
structure File where
  /-- Its text, if its bytes are one. -/
  text? : Option Text
  /-- Whether the command may read it. -/
  readable : Bool := true
  /-- Whether the command may write it. -/
  writable : Bool := true

/-- What stands at a path. -/
inductive Disk.Item where
  | missing
  | folder
  | file (file : File)

/-- Why a file cannot be opened, or its text cannot be had. -/
inductive OpenError where
  | missing
  | isFolder
  | notFolder
  | tooLong
  /-- The command may not open it. -/
  | denied
  /-- Its bytes are no text. -/
  | undecodable
  deriving DecidableEq

/-- The files that a command can see. -/
structure Disk where
  /-- What stands at a path. -/
  look : Path → Disk.Item
  /-- What keeps a file from being written at a path, if anything does. -/
  obstacle? : Path → Option OpenError

/-- Some files by their paths from the current folder, and the folders around them. -/
structure Volume where
  files : Fields File
  /-- Whether the command may make new files in a folder. -/
  takes : Place → Bool := fun _ => true

namespace Disk.Item

/-- Whether there is anything. -/
def isPresent : Disk.Item → Bool
  | .missing => false
  | _ => true

/-- Whether there is anything that the command may read. -/
def isReadable : Disk.Item → Bool
  | .missing => false
  | .folder => true
  | .file found => found.readable

/-- The text of a file. -/
def text : Disk.Item → Except OpenError Text
  | .missing => .error .missing
  | .folder => .error .isFolder
  | .file found =>
    match found.readable, found.text? with
    | false, _ => .error .denied
    | true, none => .error .undecodable
    | true, some text => .ok text

end Disk.Item

namespace Disk

/-- The longest path on which a file is opened, in bytes. -/
def maxPathSize : Nat := 4095

/-- The longest name that anything has, in bytes. -/
def maxNameSize : Nat := 255

/-- What stands at a place, with those files: the folders on the way to them are there, and every
place without names, which is the root, the current folder or one around it. -/
def lookUp (files : Fields File) (place : Place) : Item :=
  match files.find? fun file => Path.place file.1 = place with
  | some file => .file file.2
  | none =>
    if place.names.isEmpty || files.any fun file => place.holds (Path.place file.1) then .folder
    else .missing

/-- Where a name leads to from a folder, if it leads into another folder. -/
def enterFolder (files : Fields File) (folder : Place) (name : Text) : Except OpenError Place :=
  if maxNameSize < name.byteSize then .error .tooLong
  else
    match lookUp files (folder.enter name) with
    | .missing => .error .missing
    | .file _ => .error .notFolder
    | .folder => .ok (folder.enter name)

/-- What keeps a file of that name from being written in a folder. -/
def nameObstacle? (volume : Volume) (folder : Place) (name : Text) : Option OpenError :=
  if maxNameSize < name.byteSize then some .tooLong
  else
    match lookUp volume.files (folder.enter name) with
    | .folder => some .isFolder
    | .file file => if file.writable then none else some .denied
    | .missing => if volume.takes folder then none else some .denied

/-- What keeps a file from being written at a path. A path that ends with a slash is a folder's,
whether one is there or not. -/
def writeObstacle? (volume : Volume) (path : Path) : Option OpenError :=
  if path.isEmpty then some .missing
  else if maxPathSize < path.byteSize then some .tooLong
  else
    match path.names.getLast? with
    | none => some .isFolder
    | some name =>
      match path.names.dropLast.foldlM (enterFolder volume.files) path.start with
      | .error e => some e
      | .ok folder => if path.isClosed then some .isFolder else nameObstacle? volume folder name

/-- The disk whose current folder holds those files. -/
def ofVolume (volume : Volume) : Disk where
  look path := lookUp volume.files path.place
  obstacle? := writeObstacle? volume

end Disk

end Schemata
