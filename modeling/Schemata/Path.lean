import Schemata.Text

/-!
# Paths

A path is a text of names with slashes between them. It leads from the current folder, or from the
root if it begins with a slash; one dot stays where it is, two dots lead outwards, and the root is
its own outside. A `Place` is where a path leads to, whatever stands on the way: `Path.place`.
-/

namespace Schemata

namespace CodePoint

/-- Whether the code point stands for a byte that is no part of any character's encoding. -/
def isStrayByte (c : CodePoint) : Bool := 0xDC80 ≤ c.val && c.val ≤ 0xDCFF

/-- How many bytes the code point takes in UTF-8. -/
def byteSize (c : CodePoint) : Nat :=
  if c.val < 0x80 ∨ c.isStrayByte then 1
  else if c.val < 0x800 then 2
  else if c.val < 0x10000 then 3
  else 4

end CodePoint

namespace Text

/-- How many bytes the text takes in UTF-8. -/
def byteSize : Text → Nat
  | [] => 0
  | c :: rest => c.byteSize + byteSize rest

end Text

/-- Where the names of a place start. -/
inductive Origin where
  /-- So many folders outside the current one. -/
  | outside (levels : Nat)
  | root
  deriving DecidableEq

/-- Where a path leads to: names from an origin inwards. -/
structure Place where
  origin : Origin
  names : List Text
  deriving DecidableEq

namespace Place

/-- The current folder. -/
def current : Place := ⟨.outside 0, []⟩

/-- The folder around a place. -/
def outwards (place : Place) : Place :=
  match place.names, place.origin with
  | [], .outside levels => ⟨.outside (levels + 1), []⟩
  | [], .root => place
  | names, origin => ⟨origin, names.dropLast⟩

/-- Where a name leads to from a place. -/
def enter (place : Place) (name : Text) : Place :=
  if name = "." then place
  else if name = ".." then place.outwards
  else ⟨place.origin, place.names ++ [name]⟩

/-- Whether the other place is the same or further inwards. -/
def holds (place other : Place) : Bool :=
  place.origin = other.origin && place.names.isPrefixOf other.names

end Place

/-- A path as it is given. -/
abbrev Path := Text

/-- What makes a path one that names nothing on any disk. -/
inductive Path.Fault where
  /-- Half of a surrogate pair that has no encoding. -/
  | unencodable
  /-- The null character. -/
  | null
  deriving DecidableEq

namespace Path

/-- The names in a path, the dots among them. -/
def names (path : Path) : List Text := (Text.pieces '/' path).filter fun name => !name.isEmpty

/-- Whether a path begins with a slash. -/
def isRooted (path : Path) : Bool := path.head? = some (CodePoint.ofChar '/')

/-- Whether a path ends with a slash. -/
def isClosed (path : Path) : Bool := path.getLast? = some (CodePoint.ofChar '/')

/-- Where a path starts. -/
def start (path : Path) : Place := if path.isRooted then ⟨.root, []⟩ else .current

/-- Where a path leads to, whatever stands on the way. -/
def place (path : Path) : Place := path.names.foldl Place.enter path.start

/-- Whether the code point has no encoding. -/
def isUnencodable (c : CodePoint) : Bool :=
  (c.isHighSurrogate || c.isLowSurrogate) && !c.isStrayByte

/-- The fault of a path, if it has one. -/
def fault? (path : Path) : Option Fault :=
  if path.any isUnencodable then some .unencodable
  else if path.contains (CodePoint.ofChar '\x00') then some .null
  else none

example : place "a/./b//../c" = ⟨.outside 0, ["a", "c"]⟩ := by decide +kernel
example : place "a/../../b" = ⟨.outside 1, ["b"]⟩ := by decide +kernel
example : place "/../a/" = ⟨.root, ["a"]⟩ := by decide +kernel

end Path

end Schemata
