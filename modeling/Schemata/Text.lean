/-!
# Text as code points

Everything the library reads or writes is a `Text`, a list of code points. An escape in JSON text
may name one half of a surrogate pair alone, which is no `Char`, so a `CodePoint` is any number
below `0x110000`; a `Char` or a `String` is one by coercion.

* `Text.unrooted` — a name without the one backslash that roots it in the global namespace.
* `Text.pieces` — the parts between the occurrences of a separator; `Text.joined` glues them again.
* `Text.occursIn` — whether one text stands somewhere inside another.
-/

namespace Schemata

/-- A code point, halves of surrogate pairs included. -/
abbrev CodePoint := Fin 0x110000

/-- A list of code points. -/
abbrev Text := List CodePoint

namespace CodePoint

theorem toNat_char_lt (c : Char) : c.toNat < 0x110000 := by
  have h := c.valid
  have e : c.val.toNat = c.toNat := rfl
  simp only [UInt32.isValidChar, Nat.isValidChar, e] at h
  omega

/-- The code point of a character. -/
def ofChar (c : Char) : CodePoint := ⟨c.toNat, toNat_char_lt c⟩

/-- The code point of that number, the replacement character if there is none. -/
def ofNat (n : Nat) : CodePoint :=
  if h : n < 0x110000 then ⟨n, h⟩ else ⟨0xFFFD, by decide⟩

/-- The first half of a surrogate pair. -/
def isHighSurrogate (c : CodePoint) : Bool := 0xD800 ≤ c.val && c.val ≤ 0xDBFF

/-- The second half of a surrogate pair. -/
def isLowSurrogate (c : CodePoint) : Bool := 0xDC00 ≤ c.val && c.val ≤ 0xDFFF

end CodePoint

instance : Coe Char CodePoint := ⟨CodePoint.ofChar⟩

namespace Text

/-- The code points of a string. -/
def ofString (s : String) : Text := s.toList.map CodePoint.ofChar

/-- The string of a text. The null character stands for what is no character. -/
def toString (text : Text) : String := String.ofList (text.map fun c => Char.ofNat c.val)

/-- A name without the one backslash that may root it: `\Foo` and `Foo` name the same thing, `\\Foo`
is a rooted `\Foo`. -/
def unrooted : Text → Text
  | [] => []
  | c :: rest => if c = '\\' then rest else c :: rest

/-- The parts of a text between the occurrences of `separator`; one more than there are of them. -/
def pieces (separator : CodePoint) : Text → List Text
  | [] => [[]]
  | c :: rest =>
    match pieces separator rest with
    | [] => [[c]]
    | piece :: others => if c = separator then [] :: piece :: others else (c :: piece) :: others

/-- The texts one after the other, with `separator` between neighbours. -/
def joined (separator : Text) : List Text → Text
  | [] => []
  | [text] => text
  | text :: rest => text ++ separator ++ joined separator rest

/-- Whether `part` stands somewhere in the text as a run of neighbours. The empty text stands
everywhere. -/
def occursIn (part : Text) : Text → Bool
  | [] => part.isEmpty
  | c :: rest => part.isPrefixOf (c :: rest) || occursIn part rest

end Text

instance : Coe String Text := ⟨Text.ofString⟩

namespace Text

/-- Different strings are different texts. -/
@[simp] theorem ofString_inj {left right : String} :
    ofString left = ofString right ↔ left = right := by
  have hchar : ∀ c d : Char, CodePoint.ofChar c = CodePoint.ofChar d → c = d := by
    intro c d h
    have hval : c.toNat = d.toNat := Fin.mk.inj h
    exact Char.ext (UInt32.toNat_inj.mp hval)
  rw [ofString, ofString, List.map_inj_right hchar, String.toList_inj]

@[simp] theorem pieces_nil (separator : CodePoint) : pieces separator [] = [[]] := rfl

end Text

end Schemata
