import Schemata.Proofs.ReadNumbers
import Schemata.Proofs.Shapes
import Schemata.Proofs.WrittenValues

/-!
# Text that is read

The reader reads every text of the grammar, if integers may have any number of digits
(`Json.exists_read_of_derives`). It takes one code point at a time, and what it makes of a word is only
known behind it. So a text is followed to its end with a word that stands there completed
(`Reader.settle`); texts of which the second begins with what ends a word can be followed one by one
(`Reader.follow_append`).

* **following** — what the reader does with the texts of each symbol: a value, items of a list, and fields
  of an object, with the names that the grammar says (`Reader.FollowedAs`, `Reader.ItemsFollowedAs`,
  `Reader.FieldsFollowedAs`);
* **values** — in what is read, an object has each name once, with the halves of pairs put together, and
  a value is no number only if the grammar has the word for it (`Json.IsProper`).
-/

namespace Schemata

namespace Json

/-! ## Values -/

/-- What is said about every value that is read from a text with those words. -/
structure IsProper (words : List Text) (value : Json) : Prop where
  nan : IsPart (.float .nan) value → ("NaN" : Text) ∈ words
  names : ∀ fields, IsPart (.obj fields) value →
    (Fields.keys fields).Nodup ∧ ∀ name ∈ Fields.keys fields, name.pairSurrogates = name

namespace IsProper

variable {words : List Text}

/-- A value with nothing inside. -/
theorem single {value : Json} (hlist : ∀ items, value ≠ .arr items)
    (hobject : ∀ fields, value ≠ .obj fields) (h : value = .float .nan → ("NaN" : Text) ∈ words) :
    IsProper words value := by
  have hpart : ∀ part, IsPart part value → part = value := by
    intro part hpart
    cases hpart with
    | refl => rfl
    | item => exact absurd rfl (hlist _)
    | field => exact absurd rfl (hobject _)
  exact ⟨fun hnan => h (hpart _ hnan).symm,
    fun fields hfields => absurd (hpart _ hfields).symm (hobject fields)⟩

theorem arr {items : List Json} (h : ∀ item ∈ items, IsProper words item) :
    IsProper words (.arr items) := by
  constructor
  · intro hnan
    cases hnan with
    | item hitem hpart => exact (h _ hitem).nan hpart
  · intro fields hfields
    cases hfields with
    | item hitem hpart => exact (h _ hitem).names fields hpart

/-- An object of pairs in which a name may come again. -/
theorem obj {pairs : Fields Json} (hnames : ∀ pair ∈ pairs, pair.1.pairSurrogates = pair.1)
    (h : ∀ pair ∈ pairs, IsProper words pair.2) : IsProper words (.obj (Fields.ofList pairs)) := by
  have hfields : ∀ field ∈ Fields.ofList pairs, IsProper words field.2 :=
    fun field hfield => h field (Fields.mem_of_mem_ofList hfield)
  constructor
  · intro hnan
    cases hnan with
    | field hfield hpart => exact (hfields _ hfield).nan hpart
  · intro fields hpart
    cases hpart with
    | refl =>
        refine ⟨?_, fun name hname => ?_⟩
        · rw [Fields.keys_ofList]
          exact nodup_eraseDups _
        · obtain ⟨pair, hpair, rfl⟩ := List.mem_map.mp (Fields.mem_keys_ofList.mp hname)
          exact hnames pair hpair
    | field hfield hpart => exact (hfields _ hfield).names fields hpart

theorem empty (words : List Text) : IsProper words (.obj []) := by
  have hempty : IsProper words (.obj (Fields.ofList [])) := .obj (by simp) (by simp)
  exact hempty

end IsProper

namespace Reader

/-! ## Words -/

/-- The words that are read. -/
def readableWords : List Text := ["null", "true", "false", "NaN", "Infinity", "-Infinity"]

theorem plainWords_subset : plainWords ⊆ readableWords := List.subset_append_left plainWords _

theorem isDelimiter_of_isNumeric {c : CodePoint} (h : isNumeric c = true) : isDelimiter c = false := by
  cases hdelimiter : isDelimiter c with
  | false => rfl
  | true =>
      simp only [isDelimiter, isSpace, Bool.or_eq_true, decide_eq_true_eq] at hdelimiter
      rcases hdelimiter with
        (((((((((rfl | rfl) | rfl) | rfl) | rfl) | rfl) | rfl) | rfl) | rfl) | rfl) | rfl <;> cases h

/-- A text that stands for a value by itself: nothing in it ends a word. -/
structure IsLoneWord (words : List Text) (text : Text) : Prop where
  nonempty : text ≠ []
  undelimited : text.any isDelimiter = false
  value : ∃ value, ofWord none text = .ok value ∧ IsProper words value

theorem isLoneWord_of_isNumber (words : List Text) {text : Text} (h : IsNumber text) :
    IsLoneWord words text where
  nonempty := by
    rintro rfl
    obtain ⟨parts, hparts⟩ := NumberParts.exists_ofText? h
    cases hparts
  undelimited := by
    rw [List.any_eq_false]
    exact fun c hc => Bool.eq_false_iff.mp (isDelimiter_of_isNumeric (h.isNumeric c hc))
  value := by
    obtain ⟨value, hvalue, ⟨number, rfl⟩ | ⟨number, hnumber, rfl⟩⟩ := exists_value_of_isNumber h
    · exact ⟨_, hvalue, .single nofun nofun nofun⟩
    · exact ⟨_, hvalue, .single nofun nofun fun hnan => absurd (Json.float.inj hnan) hnumber⟩

theorem isLoneWord_of_mem {words : List Text} (hwords : words ⊆ readableWords) {text : Text}
    (h : text ∈ words) : IsLoneWord words text := by
  have hreadable := hwords h
  simp only [readableWords, List.mem_cons, List.not_mem_nil, or_false] at hreadable
  rcases hreadable with rfl | rfl | rfl | rfl | rfl | rfl
  · exact ⟨nofun, rfl, _, rfl, .single nofun nofun nofun⟩
  · exact ⟨nofun, rfl, _, rfl, .single nofun nofun nofun⟩
  · exact ⟨nofun, rfl, _, rfl, .single nofun nofun nofun⟩
  · exact ⟨nofun, rfl, _, rfl, .single nofun nofun fun _ => h⟩
  · exact ⟨nofun, rfl, _, rfl, .single nofun nofun nofun⟩
  · exact ⟨nofun, rfl, _, rfl, .single nofun nofun nofun⟩

/-! ## Following a text -/

/-- The state with a word completed, if one has been begun. -/
def settle (state : State) : Except ReadError State :=
  match state.mode with
  | .word read => (ofWord none read.reverse).bind fun value => close value state.frames
  | _ => .ok state

/-- The state after a text, with a word at its end completed. -/
def follow (state : State) (text : Text) : Except ReadError State := (run none state text).bind settle

/-- After a value nothing is left to be completed, and only what ends words may come. -/
theorem of_close {value : Json} {frames : List Frame} {state : State}
    (h : close value frames = .ok state) :
    settle state = .ok state ∧ ∀ c, step none state c = between state c := by
  unfold close at h
  split at h
  · obtain rfl := Except.ok.inj h
    exact ⟨rfl, fun _ => rfl⟩
  · obtain rfl := Except.ok.inj h
    exact ⟨rfl, fun _ => rfl⟩
  · obtain rfl := Except.ok.inj h
    exact ⟨rfl, fun _ => rfl⟩
  · cases h

theorem close_settle (value : Json) (frames : List Frame) :
    (close value frames).bind settle = close value frames := by
  cases h : close value frames with
  | error e => rfl
  | ok state => exact (of_close h).1

theorem follow_nil (state : State) : follow state [] = settle state := rfl

theorem settle_word (frames : List Frame) (read : Text) :
    settle ⟨frames, .word read⟩ = (ofWord none read.reverse).bind fun value => close value frames := rfl

/-- What follows a word completes it first. -/
theorem follow_eq_settle_bind {rest : Text} (h : ∀ c ∈ rest.head?, isDelimiter c = true)
    (state : State) : follow state rest = (settle state).bind fun next => follow next rest := by
  obtain ⟨frames, mode⟩ := state
  cases mode with
  | word read =>
      rw [settle_word]
      cases rest with
      | nil =>
          rw [follow_nil, settle_word]
          cases ofWord none read.reverse with
          | error e => rfl
          | ok value => exact (close_settle value frames).symm
      | cons c others =>
          have hstep : step none ⟨frames, .word read⟩ c =
              (ofWord none read.reverse).bind fun value =>
                (close value frames).bind fun closed => between closed c := if_pos (h c rfl)
          rw [follow, run, hstep]
          cases ofWord none read.reverse with
          | error e => rfl
          | ok value =>
              simp only [Except.bind]
              cases hclose : close value frames with
              | error e => rfl
              | ok closed =>
                  simp only [follow, run, (of_close hclose).2 c]
                  rfl
  | _ => rfl

/-- A text can be followed up to where something ends words, and then on. -/
theorem follow_append {left right : Text} (h : ∀ c ∈ right.head?, isDelimiter c = true)
    (state : State) :
    follow state (left ++ right) = (follow state left).bind fun next => follow next right := by
  rw [follow, run_append, follow]
  cases run none state left with
  | error e => rfl
  | ok next => exact follow_eq_settle_bind h next

/-- White space changes nothing where it may stand. -/
theorem run_spaces {state : State} (hstate : ∀ c, step none state c = between state c) {spaces : Text}
    (h : IsSpaces spaces) : run none state spaces = .ok state := by
  induction spaces with
  | nil => rfl
  | cons c rest ih =>
      obtain ⟨hc, hrest⟩ := List.forall_mem_cons.mp h
      have hstep : step none state c = .ok state := (hstate c).trans (if_pos hc)
      rw [run, hstep]
      exact ih hrest

theorem follow_spaces_append {state : State} (hstate : ∀ c, step none state c = between state c)
    {spaces : Text} (h : IsSpaces spaces) (rest : Text) :
    follow state (spaces ++ rest) = follow state rest := by
  rw [follow, run_append, run_spaces hstate h]
  rfl

theorem follow_cons {state next : State} {c : CodePoint} (h : step none state c = .ok next)
    (rest : Text) : follow state (c :: rest) = follow next rest := by
  rw [follow, run, h]
  rfl

theorem follow_append_cons {c : CodePoint} (h : isDelimiter c = true) (state : State)
    (left rest : Text) :
    follow state (left ++ c :: rest) = (follow state left).bind fun next => follow next (c :: rest) :=
  have hhead : ∀ head ∈ (c :: rest).head?, isDelimiter head = true :=
    fun _ hhead => Option.mem_some.mp hhead ▸ h
  follow_append hhead state

/-- What closes a value is the end of it. -/
theorem follow_closing {state : State} {c : CodePoint} {value : Json} {frames : List Frame}
    (h : step none state c = close value frames) : follow state [c] = close value frames := by
  rw [follow, run, h]
  cases hclose : close value frames with
  | error e => rfl
  | ok next => exact (of_close hclose).1

theorem isDelimiter_of_isSpace {c : CodePoint} (h : isSpace c = true) : isDelimiter c = true := by
  simp [isDelimiter, h]

/-! ## Strings -/

theorem run_unit (frames : List Frame) (role : Role) (read : Text) {digits : Text} {value unit : Nat}
    (hne : digits ≠ []) (h : hexValueFrom value digits = some unit) :
    run none ⟨frames, .unit role read digits.length value⟩ digits =
      .ok ⟨frames, .string role (CodePoint.ofNat unit :: read)⟩ := by
  induction digits generalizing value with
  | nil => exact absurd rfl hne
  | cons c rest ih =>
      obtain ⟨digit, hdigit, hrest⟩ := Option.bind_eq_some_iff.mp h
      cases rest with
      | nil =>
          obtain rfl := Option.some.inj hrest
          have hstep : step none ⟨frames, .unit role read 1 value⟩ c =
              .ok ⟨frames, .string role (CodePoint.ofNat (16 * value + digit) :: read)⟩ := by
            simp only [step, hdigit]
            rfl
          show run none ⟨frames, .unit role read 1 value⟩ [c] = _
          rw [run, hstep]
          rfl
      | cons next others =>
          have hstep : step none ⟨frames, .unit role read (c :: next :: others).length value⟩ c =
              .ok ⟨frames, .unit role read (next :: others).length (16 * value + digit)⟩ := by
            simp only [step, hdigit, List.length_cons]
            rw [if_neg (by omega)]
            rfl
          rw [run, hstep]
          exact ih (List.cons_ne_nil _ _) hrest

/-- **The reader reads what characters spell.** -/
theorem run_spells (frames : List Frame) (role : Role) {characters text : Text}
    (h : Spells characters text) (read : Text) :
    run none ⟨frames, .string role read⟩ characters =
      .ok ⟨frames, .string role (text.reverse ++ read)⟩ := by
  induction h generalizing read with
  | nil => rfl
  | @plain c rest text hprintable hquote hbackslash _ ih =>
      have hstep : step none ⟨frames, .string role read⟩ c =
          .ok ⟨frames, .string role (c :: read)⟩ := by
        simp only [step]
        rw [if_neg hquote, if_neg hbackslash, if_neg (by omega)]
      rw [run, hstep, List.reverse_cons, List.append_assoc]
      exact ih (c :: read)
  | @letter escape rest text hescape _ ih =>
      have hletters : letterEscapes.all (fun escape => escape.1 ≠ CodePoint.ofChar 'u' ∧
          letterEscape? escape.1 = some escape.2) = true := rfl
      obtain ⟨hunit, hletter⟩ := of_decide_eq_true (List.all_eq_true.mp hletters escape hescape)
      have hstep : step none ⟨frames, .escape role read⟩ escape.1 =
          .ok ⟨frames, .string role (escape.2 :: read)⟩ := by
        simp only [step]
        rw [if_neg hunit, hletter]
      show run none ⟨frames, .escape role read⟩ (escape.1 :: rest) = _
      rw [run, hstep, List.reverse_cons, List.append_assoc]
      exact ih (escape.2 :: read)
  | @unit digits rest text unit hlength hvalue _ ih =>
      have hne : digits ≠ [] := List.ne_nil_of_length_pos (by omega)
      have hunit := run_unit frames role read hne hvalue
      rw [hlength] at hunit
      show run none ⟨frames, .unit role read 4 0⟩ (digits ++ rest) = _
      rw [run_append, hunit, List.reverse_cons, List.append_assoc]
      exact ih (CodePoint.ofNat unit :: read)

/-- A quoted string is read to its closing quote. -/
theorem follow_quoted (frames : List Frame) (role : Role) {characters text : Text}
    (h : Spells characters text) (rest : Text) (state : State)
    (hstate : step none state (CodePoint.ofChar '"') = .ok ⟨frames, .string role []⟩) :
    follow state (quoted characters ++ rest) =
      (closeString frames role text.reverse).bind fun next => follow next rest := by
  have hclose : ∀ read, step none ⟨frames, .string role read⟩ (CodePoint.ofChar '"') =
      closeString frames role read := fun _ => rfl
  rw [quoted_append, follow_cons hstate, follow, run_append, run_spells frames role h, List.append_nil]
  show ((step none _ _).bind _).bind settle = _
  rw [hclose]
  cases closeString frames role text.reverse <;> rfl

/-! ## Values, lists and objects -/

/-- The reader follows the text as that value, wherever a value may stand. -/
def FollowedAs (value : Json) (text : Text) : Prop :=
  ∀ frames mayClose, follow ⟨frames, .value mayClose⟩ text = close value frames

/-- The reader follows the text as those items of a list. -/
def ItemsFollowedAs (values : List Json) (text : Text) : Prop :=
  ∀ items frames mayClose, follow ⟨.list items :: frames, .value mayClose⟩ text =
    .ok ⟨.list (values.reverse ++ items) :: frames, .separator⟩

/-- The reader follows the text as those fields of an object. -/
def FieldsFollowedAs (pairs : Fields Json) (text : Text) : Prop :=
  ∀ fields frames mayClose, follow ⟨.object fields :: frames, .name mayClose⟩ text =
    .ok ⟨.object (pairs.foldl (fun fields pair => Fields.insert fields pair.1 pair.2) fields) :: frames,
      .separator⟩

section

variable {words : List Text} {value : Json} {values : List Json} {pairs : Fields Json}
  {text rest spaces before after : Text}

theorem run_word (frames : List Frame) (read : Text) (h : text.any isDelimiter = false) :
    run none ⟨frames, .word read⟩ text = .ok ⟨frames, .word (text.reverse ++ read)⟩ := by
  induction text generalizing read with
  | nil => rfl
  | cons c rest ih =>
      rw [List.any_cons, Bool.or_eq_false_iff] at h
      have hstep : step none ⟨frames, .word read⟩ c = .ok ⟨frames, .word (c :: read)⟩ :=
        if_neg (Bool.eq_false_iff.mp h.1)
      rw [run, hstep, List.reverse_cons, List.append_assoc]
      exact ih (c :: read) h.2

theorem step_begin_word (frames : List Frame) (mayClose : Bool) {c : CodePoint}
    (h : isDelimiter c = false) :
    step none ⟨frames, .value mayClose⟩ c = .ok ⟨frames, .word [c]⟩ := by
  have hparts := h
  simp only [isDelimiter, Bool.or_eq_false_iff, decide_eq_false_iff_not] at hparts
  obtain ⟨⟨⟨⟨⟨⟨⟨hspace, -⟩, -⟩, hopen⟩, hclose⟩, hbrace⟩, -⟩, hquote⟩ := hparts
  show between _ _ = _
  simp [between, beginValue, hspace, hopen, hclose, hbrace, hquote, h]

/-- A word is followed as its value. -/
theorem FollowedAs.word (h : IsLoneWord words text) (hvalue : ofWord none text = .ok value) :
    FollowedAs value text := by
  intro frames mayClose
  obtain ⟨hne, hplain, -⟩ := h
  cases text with
  | nil => exact absurd rfl hne
  | cons c rest =>
      rw [List.any_cons, Bool.or_eq_false_iff] at hplain
      have hend : settle ⟨frames, .word (rest.reverse ++ [c])⟩ = close value frames := by
        have hword : (rest.reverse ++ [c]).reverse = c :: rest := by simp
        rw [settle_word, hword, hvalue]
        rfl
      rw [follow_cons (step_begin_word frames mayClose hplain.1), follow, run_word frames [c] hplain.2]
      exact hend

theorem FollowedAs.string {characters : Text} (h : Spells characters text) :
    FollowedAs (.str text.pairSurrogates) (quoted characters) := by
  intro frames mayClose
  have hquoted := follow_quoted frames .value h [] ⟨frames, .value mayClose⟩ rfl
  rw [List.append_nil] at hquoted
  rw [hquoted, closeString, List.reverse_reverse]
  exact close_settle _ frames

/-- White space on both sides of a value changes nothing. -/
theorem FollowedAs.surrounded (hbefore : IsSpaces before) (h : FollowedAs value text)
    (hafter : IsSpaces after) : FollowedAs value (before ++ (text ++ after)) := by
  intro frames mayClose
  have hhead : ∀ c ∈ after.head?, isDelimiter c = true :=
    fun c hc => isDelimiter_of_isSpace (hafter c (List.mem_of_mem_head? hc))
  rw [follow_spaces_append (fun _ => rfl) hbefore, follow_append hhead, h frames mayClose]
  cases hclose : close value frames with
  | error e => rfl
  | ok state =>
      obtain ⟨hsettled, hstate⟩ := of_close hclose
      show follow state after = _
      rw [follow, run_spaces hstate hafter]
      exact hsettled

theorem ItemsFollowedAs.single (h : FollowedAs value text) : ItemsFollowedAs [value] text :=
  fun items frames mayClose => h (.list items :: frames) mayClose

theorem ItemsFollowedAs.cons (h : FollowedAs value text) (hrest : ItemsFollowedAs values rest) :
    ItemsFollowedAs (value :: values) (text ++ ("," ++ rest)) := by
  intro items frames mayClose
  have hnext : follow ⟨.list (value :: items) :: frames, .separator⟩ (CodePoint.ofChar ',' :: rest) =
      follow ⟨.list (value :: items) :: frames, .value false⟩ rest := follow_cons rfl rest
  have happend := follow_append_cons (c := CodePoint.ofChar ',') rfl
    ⟨.list items :: frames, .value mayClose⟩ text rest
  rw [h (.list items :: frames) mayClose] at happend
  rw [List.reverse_cons, List.append_assoc]
  exact happend.trans (hnext.trans (hrest (value :: items) frames false))

theorem FollowedAs.array (h : ItemsFollowedAs values text) :
    FollowedAs (.arr values) ("[" ++ (text ++ "]")) := by
  intro frames mayClose
  have hopen : follow ⟨frames, .value mayClose⟩ ("[" ++ (text ++ "]")) =
      follow ⟨.list [] :: frames, .value true⟩ (text ++ "]") := follow_cons rfl _
  have happend := follow_append_cons (c := CodePoint.ofChar ']') rfl
    ⟨.list [] :: frames, .value true⟩ text []
  rw [h [] frames true, List.append_nil] at happend
  have hclose : follow ⟨.list values.reverse :: frames, .separator⟩ [CodePoint.ofChar ']'] =
      close (.arr values.reverse.reverse) frames := follow_closing rfl
  rw [List.reverse_reverse] at hclose
  exact hopen.trans (happend.trans hclose)

theorem FollowedAs.emptyArray (h : IsSpaces spaces) : FollowedAs (.arr []) ("[" ++ (spaces ++ "]")) := by
  intro frames mayClose
  have hopen : follow ⟨frames, .value mayClose⟩ ("[" ++ (spaces ++ "]")) =
      follow ⟨.list [] :: frames, .value true⟩ (spaces ++ "]") := follow_cons rfl _
  rw [hopen, follow_spaces_append (fun _ => rfl) h]
  exact follow_closing rfl

theorem FieldsFollowedAs.single {characters name : Text} (hbefore : IsSpaces before)
    (hname : Spells characters name) (hafter : IsSpaces after) (h : FollowedAs value text) :
    FieldsFollowedAs [(name.pairSurrogates, value)]
      (before ++ (quoted characters ++ (after ++ (":" ++ text)))) := by
  intro fields frames mayClose
  have hquoted := follow_quoted (.object fields :: frames) .name hname (after ++ (":" ++ text))
    ⟨.object fields :: frames, .name mayClose⟩ rfl
  rw [closeString, List.reverse_reverse] at hquoted
  have hcolon : follow ⟨.object fields :: frames, .colon name.pairSurrogates⟩ (":" ++ text) =
      follow ⟨.entry fields name.pairSurrogates :: frames, .value false⟩ text := follow_cons rfl _
  rw [follow_spaces_append (fun _ => rfl) hbefore, hquoted]
  show follow ⟨.object fields :: frames, .colon name.pairSurrogates⟩ (after ++ (":" ++ text)) = _
  rw [follow_spaces_append (fun _ => rfl) hafter, hcolon]
  exact h (.entry fields name.pairSurrogates :: frames) false

theorem FieldsFollowedAs.cons {pair : Text × Json} (h : FieldsFollowedAs [pair] text)
    (hrest : FieldsFollowedAs pairs rest) : FieldsFollowedAs (pair :: pairs) (text ++ ("," ++ rest)) := by
  intro fields frames mayClose
  have hnext : ∀ fields, follow ⟨.object fields :: frames, .separator⟩ (CodePoint.ofChar ',' :: rest) =
      follow ⟨.object fields :: frames, .name false⟩ rest := fun _ => follow_cons rfl rest
  have happend := follow_append_cons (c := CodePoint.ofChar ',') rfl
    ⟨.object fields :: frames, .name mayClose⟩ text rest
  rw [h fields frames mayClose] at happend
  exact happend.trans ((hnext _).trans (hrest _ frames false))

theorem FollowedAs.object (h : FieldsFollowedAs pairs text) :
    FollowedAs (.obj (Fields.ofList pairs)) ("\x7b" ++ (text ++ "\x7d")) := by
  intro frames mayClose
  have hopen : follow ⟨frames, .value mayClose⟩ ("\x7b" ++ (text ++ "\x7d")) =
      follow ⟨.object [] :: frames, .name true⟩ (text ++ "\x7d") := follow_cons rfl _
  have happend := follow_append_cons (c := CodePoint.ofChar '\x7d') rfl
    ⟨.object [] :: frames, .name true⟩ text []
  rw [h [] frames true] at happend
  have hclose : follow ⟨.object (Fields.ofList pairs) :: frames, .separator⟩ [CodePoint.ofChar '\x7d'] =
      close (.obj (Fields.ofList pairs)) frames := follow_closing rfl
  exact hopen.trans (happend.trans hclose)

theorem FollowedAs.emptyObject (h : IsSpaces spaces) :
    FollowedAs (.obj []) ("\x7b" ++ (spaces ++ "\x7d")) := by
  intro frames mayClose
  have hopen : follow ⟨frames, .value mayClose⟩ ("\x7b" ++ (spaces ++ "\x7d")) =
      follow ⟨.object [] :: frames, .name true⟩ (spaces ++ "\x7d") := follow_cons rfl _
  rw [hopen, follow_spaces_append (fun _ => rfl) h]
  exact follow_closing rfl

/-- What the reader does with the texts of each symbol. -/
def Followed (words : List Text) : Symbol → Text → Prop
  | .value, text => ∃ value, IsProper words value ∧ FollowedAs value text
  | .element, text => ∃ value, IsProper words value ∧ FollowedAs value text
  | .elements, text => ∃ values, (∀ value ∈ values, IsProper words value) ∧ ItemsFollowedAs values text
  | .member name, text => name.pairSurrogates = name ∧
    ∃ value, IsProper words value ∧ FieldsFollowedAs [(name, value)] text
  | .members names, text => ∃ pairs, Fields.keys pairs = names ∧
    (∀ pair ∈ pairs, pair.1.pairSurrogates = pair.1 ∧ IsProper words pair.2) ∧
      FieldsFollowedAs pairs text

/-- **The reader follows the texts of the grammar.** -/
theorem followed_of_derives (hwords : words ⊆ readableWords) {symbol : Symbol}
    (h : Derives words symbol text) : Followed words symbol text := by
  induction h with
  | word hmem =>
      obtain ⟨value, hvalue, hproper⟩ := (isLoneWord_of_mem hwords hmem).value
      exact ⟨value, hproper, .word (isLoneWord_of_mem hwords hmem) hvalue⟩
  | number hnumber =>
      obtain ⟨value, hvalue, hproper⟩ := (isLoneWord_of_isNumber words hnumber).value
      exact ⟨value, hproper, .word (isLoneWord_of_isNumber words hnumber) hvalue⟩
  | string hspells => exact ⟨.str _, .single nofun nofun nofun, .string hspells⟩
  | emptyArray hspaces => exact ⟨_, .arr (by simp), .emptyArray hspaces⟩
  | array _ ih =>
      obtain ⟨values, hproper, hfollowed⟩ := ih
      exact ⟨_, .arr hproper, .array hfollowed⟩
  | emptyObject hspaces => exact ⟨_, .empty words, .emptyObject hspaces⟩
  | object _ ih =>
      obtain ⟨pairs, -, hpairs, hfollowed⟩ := ih
      exact ⟨_, .obj (fun pair hpair => (hpairs pair hpair).1) (fun pair hpair => (hpairs pair hpair).2),
        .object hfollowed⟩
  | element hbefore _ hafter ih =>
      obtain ⟨value, hproper, hfollowed⟩ := ih
      exact ⟨value, hproper, hfollowed.surrounded hbefore hafter⟩
  | lastElement _ ih =>
      obtain ⟨value, hproper, hfollowed⟩ := ih
      exact ⟨[value], List.forall_mem_singleton.mpr hproper, .single hfollowed⟩
  | elements _ _ ih ihrest =>
      obtain ⟨value, hproper, hfollowed⟩ := ih
      obtain ⟨values, hothers, hrest⟩ := ihrest
      exact ⟨value :: values, List.forall_mem_cons.mpr ⟨hproper, hothers⟩, .cons hfollowed hrest⟩
  | member hbefore hname hafter _ ih =>
      obtain ⟨value, hproper, hfollowed⟩ := ih
      exact ⟨Text.pairSurrogates_pairSurrogates _, value, hproper,
        .single hbefore hname hafter hfollowed⟩
  | lastMember _ ih =>
      obtain ⟨hname, value, hproper, hfollowed⟩ := ih
      exact ⟨[(_, value)], rfl, List.forall_mem_singleton.mpr ⟨hname, hproper⟩, hfollowed⟩
  | members _ _ ih ihrest =>
      obtain ⟨hname, value, hproper, hfollowed⟩ := ih
      obtain ⟨pairs, rfl, hothers, hrest⟩ := ihrest
      exact ⟨(_, value) :: pairs, rfl, List.forall_mem_cons.mpr ⟨⟨hname, hproper⟩, hothers⟩,
        .cons hfollowed hrest⟩

/-! ## Whole texts -/

/-- At the end of a text a word that stands there is completed. -/
theorem finish_eq (state : State) : finish none state = (settle state).bind (finish none) := by
  obtain ⟨frames, mode⟩ := state
  cases mode with
  | word read =>
      rw [settle_word]
      show (ofWord none read.reverse).bind _ = _
      cases ofWord none read.reverse with
      | error e => rfl
      | ok value => cases frames with
        | nil => rfl
        | cons frame outer => cases frame <;> rfl
  | _ => rfl

/-- A text that is followed as a value is read as that value. -/
theorem FollowedAs.read_eq (h : FollowedAs value text) : Json.read none text = .ok value := by
  have hfollow : follow start text = .ok ⟨[], .complete value⟩ := h [] false
  have hread : Json.read none text = (follow start text).bind (finish none) := by
    rw [Json.read, follow]
    cases run none start text with
    | error e => rfl
    | ok state => exact finish_eq state
  rw [hread, hfollow]
  rfl

end

/-! ## Limits -/

section

variable {limit : Option Nat}

theorem step_none_of_ok {state next : State} {c : CodePoint} (h : step limit state c = .ok next) :
    step none state c = .ok next := by
  obtain ⟨frames, mode⟩ := state
  cases mode with
  | word read =>
      simp only [step] at h ⊢
      split at h
      · next hdelimiter =>
        rw [if_pos hdelimiter]
        cases hvalue : ofWord limit read.reverse with
        | error e =>
            rw [hvalue] at h
            cases h
        | ok value =>
            rw [ofWord_none_of_ok hvalue]
            rw [hvalue] at h
            exact h
      · next hdelimiter =>
        rw [if_neg hdelimiter]
        exact h
  | _ => exact h

theorem run_none_of_ok {state next : State} {text : Text} (h : run limit state text = .ok next) :
    run none state text = .ok next := by
  induction text generalizing state with
  | nil => exact h
  | cons c rest ih =>
      rw [run] at h ⊢
      cases hstep : step limit state c with
      | error e =>
          rw [hstep] at h
          cases h
      | ok between =>
          rw [step_none_of_ok hstep]
          rw [hstep] at h
          exact ih h

theorem finish_none_of_ok {state : State} {value : Json} (h : finish limit state = .ok value) :
    finish none state = .ok value := by
  obtain ⟨frames, mode⟩ := state
  cases mode with
  | word read =>
      simp only [finish] at h ⊢
      cases hvalue : ofWord limit read.reverse with
      | error e =>
          rw [hvalue] at h
          cases h
      | ok found =>
          rw [ofWord_none_of_ok hvalue]
          rw [hvalue] at h
          exact h
  | complete found => cases frames <;> exact h
  | _ => exact h

/-- What is read with a limit is read without one. -/
theorem read_none_of_ok {text : Text} {value : Json} (h : Json.read limit text = .ok value) :
    Json.read none text = .ok value := by
  rw [Json.read] at h ⊢
  cases hrun : run limit start text with
  | error e =>
      rw [hrun] at h
      cases h
  | ok state =>
      rw [run_none_of_ok hrun]
      rw [hrun] at h
      exact finish_none_of_ok h

end

end Reader

/-- **Every text of the grammar is read.** -/
theorem exists_read_of_derives {words : List Text} (hwords : words ⊆ Reader.readableWords) {text : Text}
    (h : Derives words .element text) :
    ∃ value, read none text = .ok value ∧ IsProper words value := by
  obtain ⟨value, hproper, hfollowed⟩ := Reader.followed_of_derives hwords h
  exact ⟨value, hfollowed.read_eq, hproper⟩

end Json

end Schemata
