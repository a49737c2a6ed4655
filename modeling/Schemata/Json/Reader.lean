import Schemata.Json.Number

/-!
# Reading JSON text

A reader that takes one code point at a time and keeps the brackets that are open. Its state says
what may come next, so reading a text is a fold, and reading two texts one after the other is
reading the first and going on with the second. Of two faults in a text the first one counts; a
word or a number is looked at where it ends.

Strings hold no control characters. An escape may name half of a surrogate pair; two escapes that
name a pair stand for one code point, a half that is alone stays. A name that an object repeats
keeps its first place and its last value. The words `NaN`, `Infinity` and `-Infinity` are numbers.

* `Json.Reader.run_append` — reading in parts.
-/

namespace Schemata

/-- Halves of a surrogate pair that stand next to each other, in order, become the one code point
that they encode. -/
def Text.pairSurrogates : Text → Text
  | [] => []
  | [c] => [c]
  | c :: d :: rest =>
    if c.isHighSurrogate && d.isLowSurrogate then
      CodePoint.ofNat (0x10000 + (c.val - 0xD800) * 0x400 + (d.val - 0xDC00)) ::
        pairSurrogates rest
    else c :: pairSurrogates (d :: rest)

namespace Json

namespace Reader

/-- An open bracket, with what has been read after it. -/
inductive Frame where
  /-- A list, its items in reverse. -/
  | list (items : List Json)
  /-- An object between two of its fields. -/
  | object (fields : Fields Json)
  /-- An object whose field of that name waits for its value. -/
  | entry (fields : Fields Json) (name : Text)

/-- What a string is read for. -/
inductive Role where
  | name
  | value

/-- What may come next. -/
inductive Mode where
  /-- A value, or the end of a list that was just opened. -/
  | value (mayClose : Bool)
  /-- The name of a field, or the end of an object that was just opened. -/
  | name (mayClose : Bool)
  /-- The colon after the name of a field. -/
  | colon (name : Text)
  /-- A comma or a closing bracket. -/
  | separator
  /-- Nothing but space: the value is complete. -/
  | complete (value : Json)
  /-- More of a string, read so far in reverse. -/
  | string (role : Role) (read : Text)
  /-- The rest of an escape. -/
  | escape (role : Role) (read : Text)
  /-- So many hexadecimal digits of an escape, whose value so far is given. -/
  | unit (role : Role) (read : Text) (missing value : Nat)
  /-- More of a literal word or a number, read so far in reverse. -/
  | word (read : Text)

/-- The open brackets, innermost first, and what may come next. -/
structure State where
  frames : List Frame
  mode : Mode

/-- The white space of JSON text. -/
def isSpace (c : CodePoint) : Bool := c = ' ' || c = '\t' || c = '\n' || c = '\r'

/-- Whether the code point ends a literal word or a number. -/
def isDelimiter (c : CodePoint) : Bool :=
  isSpace c || c = ',' || c = ':' || c = '[' || c = ']' || c = '\x7b' || c = '\x7d' || c = '"'

/-- A value is complete: it belongs to the innermost open bracket, or is the whole text. -/
def close (value : Json) : List Frame → Except ReadError State
  | [] => .ok ⟨[], .complete value⟩
  | .list items :: outer => .ok ⟨.list (value :: items) :: outer, .separator⟩
  | .entry fields name :: outer =>
    .ok ⟨.object (Fields.insert fields name value) :: outer, .separator⟩
  | .object _ :: _ => .error .malformed

/-- A closing quote. -/
def closeString (frames : List Frame) (role : Role) (read : Text) : Except ReadError State :=
  let text := Text.pairSurrogates read.reverse
  match role with
  | .value => close (.str text) frames
  | .name => .ok ⟨frames, .colon text⟩

/-- A code point where a value may begin. -/
def beginValue (frames : List Frame) (mayClose : Bool) (c : CodePoint) : Except ReadError State :=
  if c = '"' then .ok ⟨frames, .string .value []⟩
  else if c = '[' then .ok ⟨.list [] :: frames, .value true⟩
  else if c = '\x7b' then .ok ⟨.object [] :: frames, .name true⟩
  else if c = ']' then
    match mayClose, frames with
    | true, .list items :: outer => close (.arr items.reverse) outer
    | _, _ => .error .malformed
  else if isDelimiter c then .error .malformed
  else .ok ⟨frames, .word [c]⟩

/-- A code point where the name of a field may begin. -/
def beginName (frames : List Frame) (mayClose : Bool) (c : CodePoint) : Except ReadError State :=
  if c = '"' then .ok ⟨frames, .string .name []⟩
  else if c = '\x7d' then
    match mayClose, frames with
    | true, .object fields :: outer => close (.obj fields) outer
    | _, _ => .error .malformed
  else .error .malformed

/-- A code point after the name of a field. -/
def afterName (frames : List Frame) (name : Text) (c : CodePoint) : Except ReadError State :=
  if c = ':' then
    match frames with
    | .object fields :: outer => .ok ⟨.entry fields name :: outer, .value false⟩
    | _ => .error .malformed
  else .error .malformed

/-- A code point after a value inside a bracket. -/
def afterValue (frames : List Frame) (c : CodePoint) : Except ReadError State :=
  match frames with
  | .list items :: outer =>
    if c = ',' then .ok ⟨frames, .value false⟩
    else if c = ']' then close (.arr items.reverse) outer
    else .error .malformed
  | .object fields :: outer =>
    if c = ',' then .ok ⟨frames, .name false⟩
    else if c = '\x7d' then close (.obj fields) outer
    else .error .malformed
  | _ => .error .malformed

/-- A code point between the words, strings and numbers of a text. Space changes nothing there. -/
def between (state : State) (c : CodePoint) : Except ReadError State :=
  if isSpace c then .ok state
  else
    match state.mode with
    | .value mayClose => beginValue state.frames mayClose c
    | .name mayClose => beginName state.frames mayClose c
    | .colon name => afterName state.frames name c
    | .separator => afterValue state.frames c
    | _ => .error .malformed

/-- The code point that an escape of one letter stands for. -/
def letterEscape? (c : CodePoint) : Option CodePoint :=
  if c = '"' ∨ c = '\\' ∨ c = '/' then some c
  else if c = 'b' then some 0x08
  else if c = 'f' then some 0x0C
  else if c = 'n' then some '\n'
  else if c = 'r' then some '\r'
  else if c = 't' then some '\t'
  else none

/-- The state after one more code point, with at most so many digits in an integer. -/
def step (limit : Option Nat) (state : State) (c : CodePoint) : Except ReadError State :=
  match state.mode with
  | .string role read =>
    if c = '"' then closeString state.frames role read
    else if c = '\\' then .ok ⟨state.frames, .escape role read⟩
    else if c.val < 0x20 then .error .malformed
    else .ok ⟨state.frames, .string role (c :: read)⟩
  | .escape role read =>
    if c = 'u' then .ok ⟨state.frames, .unit role read 4 0⟩
    else
      match letterEscape? c with
      | some e => .ok ⟨state.frames, .string role (e :: read)⟩
      | none => .error .malformed
  | .unit role read missing value =>
    match c.hexDigit? with
    | some digit =>
      if missing ≤ 1 then
        .ok ⟨state.frames, .string role (CodePoint.ofNat (16 * value + digit) :: read)⟩
      else .ok ⟨state.frames, .unit role read (missing - 1) (16 * value + digit)⟩
    | none => .error .malformed
  | .word read =>
    if isDelimiter c then do
      let value ← ofWord limit read.reverse
      let closed ← close value state.frames
      between closed c
    else .ok ⟨state.frames, .word (c :: read)⟩
  | _ => between state c

/-- The state after a text. -/
def run (limit : Option Nat) : State → Text → Except ReadError State
  | state, [] => .ok state
  | state, c :: rest => (step limit state c).bind fun next => run limit next rest

theorem run_append (limit : Option Nat) (state : State) (left right : Text) :
    run limit state (left ++ right) =
      (run limit state left).bind fun next => run limit next right := by
  induction left generalizing state with
  | nil => rfl
  | cons c rest ih =>
    simp only [List.cons_append, run]
    cases step limit state c with
    | error e => rfl
    | ok next => exact ih next

/-- Before the first code point: a value must come. -/
def start : State := ⟨[], .value false⟩

/-- The value that a text was, if it may end here. -/
def finish (limit : Option Nat) (state : State) : Except ReadError Json :=
  match state.mode, state.frames with
  | .complete value, [] => .ok value
  | .word read, frames =>
    (ofWord limit read.reverse).bind fun value =>
      if frames.isEmpty then .ok value else .error .malformed
  | _, _ => .error .malformed

end Reader

/-- The value that a text writes, with at most so many digits in an integer if a limit is given. -/
def read (limit : Option Nat) (text : Text) : Except ReadError Json :=
  (Reader.run limit Reader.start text).bind (Reader.finish limit)

/-- The value that a text writes, none if it is no JSON text. -/
def read? (text : Text) : Option Json := (read none text).toOption

example : read (some 2) "[12]" = .ok (.arr [.int 12]) := by rfl
example : read (some 2) "[123:" = .error .longInteger := by rfl
example : read (some 2) "[12:, 123" = .error .malformed := by rfl

end Json

end Schemata
