import Mathlib

/-!
A scan that reads places one after another while what they hold changes. It
finds whatever lies in a place at the moment that place is read, so an item that
is always held somewhere is missed only if a change takes it past the scan: out
of every place still to be read, into one that was read before or will not be.
-/

namespace Bongo.Scans

universe u v
variable {Place : Type u} {Item : Type v}

structure Scan (Place : Type u) (Item : Type v) where
  rest : List Place
  found : List Item
  deriving DecidableEq

def Scan.begin (places : List Place) : Scan Place Item := ⟨places, []⟩

def Scan.read (contents : Place → List Item) (scan : Scan Place Item) : Scan Place Item :=
  match scan.rest with
  | [] => scan
  | place :: rest => ⟨rest, scan.found ++ contents place⟩

def Held (contents : Place → List Item) (item : Item) : Prop := ∃ place, item ∈ contents place

/-- The scan has found the item, or will if nothing changes any more. -/
def Covers (contents : Place → List Item) (scan : Scan Place Item) (item : Item) : Prop :=
  item ∈ scan.found ∨ ∃ place ∈ scan.rest, item ∈ contents place

/-- The change takes an item past the scan, or away. -/
def Crosses (before after : Place → List Item) (scan : Scan Place Item) (item : Item) : Prop :=
  Covers before scan item ∧ ¬ Covers after scan item

instance [DecidableEq Item] (contents : Place → List Item) (scan : Scan Place Item)
    (item : Item) : Decidable (Covers contents scan item) :=
  inferInstanceAs (Decidable (item ∈ scan.found ∨ ∃ place ∈ scan.rest, item ∈ contents place))

instance [DecidableEq Item] (before after : Place → List Item) (scan : Scan Place Item)
    (item : Item) : Decidable (Crosses before after scan item) :=
  inferInstanceAs (Decidable (Covers before scan item ∧ ¬ Covers after scan item))

variable {contents : Place → List Item} {scan : Scan Place Item} {item : Item}

theorem covers_begin {places : List Place} :
    Covers contents (Scan.begin places) item ↔ ∃ place ∈ places, item ∈ contents place := by
  simp [Covers, Scan.begin]

theorem covers_of_held {places : List Place} (all : ∀ place, place ∈ places)
    (held : Held contents item) : Covers contents (Scan.begin places) item := by
  obtain ⟨place, there⟩ := held
  exact covers_begin.mpr ⟨place, all place, there⟩

variable (covers : Covers contents scan item)
include covers

theorem Covers.read :
    Covers contents (scan.read contents) item := by
  obtain ⟨rest, found⟩ := scan
  cases rest with
  | nil => exact covers
  | cons place rest =>
    rcases covers with before | ⟨place', unread, there⟩
    · exact Or.inl (List.mem_append_left _ before)
    · rcases List.mem_cons.mp unread with rfl | later
      · exact Or.inl (List.mem_append_right _ there)
      · exact Or.inr ⟨place', later, there⟩

theorem Covers.keep {after : Place → List Item} (behind : ¬ Crosses contents after scan item) :
    Covers after scan item := by
  by_contra missed
  exact behind ⟨covers, missed⟩

/-- A scan that has read everything covers what it has found. -/
theorem Covers.found (finished : scan.rest = []) :
    item ∈ scan.found := by
  rcases covers with found | ⟨place, unread, _⟩
  · exact found
  · rw [finished] at unread
    cases unread

end Bongo.Scans
