import Schemata.Text

/-!
# Fields in order

The fields of an object are a list of names with values, in the order in which they were first
given. Lists of fields are built by `Fields.insert`, which keeps each name once:

* `Fields.keys_insert_of_mem`, `Fields.keys_insert_of_not_mem` — a known name moves nothing, a new
  one goes to the end.
* `Fields.get?_insert` — the name that was inserted has the new value, every other keeps its own.
-/

namespace Schemata

/-- Named values, in order. -/
abbrev Fields (α : Type) := List (Text × α)

namespace Fields

variable {α : Type}

/-- The names, in order. -/
def keys (fields : Fields α) : List Text := fields.map Prod.fst

/-- The value of the first field of that name. -/
def get? : Fields α → Text → Option α
  | [], _ => none
  | (name, value) :: rest, key => if name = key then some value else get? rest key

/-- The fields with `value` under `key`: in the place of the first field of that name, or at the
end if there is none. -/
def insert : Fields α → Text → α → Fields α
  | [], key, value => [(key, value)]
  | (name, old) :: rest, key, value =>
    if name = key then (name, value) :: rest else (name, old) :: insert rest key value

/-- The fields of a list in which a name may come again: the last value counts, at the first
place. -/
def ofList (pairs : List (Text × α)) : Fields α :=
  pairs.foldl (fun fields pair => insert fields pair.1 pair.2) []

/-- The first field of that name, and the fields without it. -/
def extract? : Fields α → Text → Option (α × Fields α)
  | [], _ => none
  | (name, value) :: rest, key =>
    if name = key then some (value, rest)
    else (extract? rest key).map fun (found, others) => (found, (name, value) :: others)

theorem get?_insert (fields : Fields α) (key name : Text) (value : α) :
    get? (insert fields key value) name = if key = name then some value else get? fields name := by
  induction fields with
  | nil => simp [insert, get?]
  | cons field rest ih =>
    obtain ⟨known, old⟩ := field
    by_cases h : known = key
    · subst h
      by_cases hn : known = name <;> simp [insert, get?, hn]
    · by_cases hn : known = name
      · subst hn
        simp [insert, get?, h, Ne.symm h]
      · simp [insert, get?, h, hn, ih]

theorem keys_insert_of_mem {fields : Fields α} {key : Text} (h : key ∈ keys fields) (value : α) :
    keys (insert fields key value) = keys fields := by
  induction fields with
  | nil => exact absurd h (by simp [keys])
  | cons field rest ih =>
    obtain ⟨known, old⟩ := field
    by_cases hk : known = key
    · simp [insert, keys, hk]
    · have hr : key ∈ keys rest := by
        rcases List.mem_cons.1 h with he | he
        · exact absurd he.symm hk
        · exact he
      simpa [insert, keys, hk] using ih hr

theorem keys_insert_of_not_mem {fields : Fields α} {key : Text} (h : key ∉ keys fields)
    (value : α) : keys (insert fields key value) = keys fields ++ [key] := by
  induction fields with
  | nil => rfl
  | cons field rest ih =>
    obtain ⟨known, old⟩ := field
    have hk : known ≠ key := fun he => h (he ▸ List.mem_cons_self)
    have hr : key ∉ keys rest := fun he => h (List.mem_cons_of_mem _ he)
    simpa [insert, keys, hk] using ih hr

end Fields

end Schemata
