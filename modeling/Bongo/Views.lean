import Mathlib

/-!
A list kept at a distance. One side holds a list and the other a copy that is
changed by position only: one entry is struck, or the copy grows to a given
number of entries. The lemmas say when such changes leave the copy equal to the
list they stand for. Positions count from one.
-/

namespace Bongo.Views

universe u
variable {α β : Type u}

def strike (view : List α) (position : Nat) : List α := view.eraseIdx (position - 1)

/-- The view grown to `count` entries, each new one being what `all` has there.
A view is never cut. -/
def grow (all : List α) (count : Nat) (view : List (Option α)) : List (Option α) :=
  view ++ ((List.range count).drop view.length).map (all[·]?)

def places (pick : α → Nat → Bool) (view : List α) : List (α × Nat) :=
  (view.zipIdx 1).filter fun place => pick place.1 place.2

theorem mem_places (pick : α → Nat → Bool) (view : List α) (entry : α) (position : Nat) :
    (entry, position) ∈ places pick view ↔
      1 ≤ position ∧ view[position - 1]? = some entry ∧ pick entry position = true := by
  rw [places, List.mem_filter, List.mk_mem_zipIdx_iff_le_and_getElem?_sub, and_assoc]

theorem places_ascending (pick : α → Nat → Bool) (view : List α) :
    (places pick view).Pairwise fun first second => first.2 < second.2 := by
  apply List.Pairwise.filter
  have numbers : ((view.zipIdx 1).map Prod.snd).Pairwise (· < ·) := by
    rw [List.zipIdx_map_snd]
    exact List.pairwise_lt_range'
  exact List.pairwise_map.mp numbers

theorem places_entries (pick : α → Bool) (view : List α) :
    (places (fun entry _ => pick entry) view).map Prod.fst = view.filter pick := by
  have entries := List.zipIdx_map_fst 1 view
  calc (places (fun entry _ => pick entry) view).map Prod.fst
      = ((view.zipIdx 1).map Prod.fst).filter pick := List.filter_map.symm
    _ = view.filter pick := by rw [entries]

section Striking

theorem strike_map (f : α → β) (view : List α) (position : Nat) :
    strike (view.map f) position = (strike view position).map f :=
  List.eraseIdx_map f view (position - 1)

theorem strikes_map (f : α → β) (positions : List Nat) (view : List α) :
    positions.foldl strike (view.map f) = (positions.foldl strike view).map f := by
  induction positions generalizing view with
  | nil => rfl
  | cons position rest ih => rw [List.foldl_cons, List.foldl_cons, strike_map, ih]

theorem strike_append {front : List α} (entry : α) (back : List α) {position : Nat}
    (here : position = front.length + 1) :
    strike (front ++ entry :: back) position = front ++ back := by
  subst here
  rw [strike, Nat.add_sub_cancel, List.eraseIdx_append_of_length_le (Nat.le_refl _), Nat.sub_self,
    List.eraseIdx_cons_zero]

/-- Striking the unwanted places from the last to the first keeps the rest. -/
theorem strikes_unwanted (keep : α → Bool) (view : List α) :
    ((places (fun entry _ => !keep entry) view).map Prod.snd).reverse.foldl strike view =
      view.filter keep := by
  rw [List.foldl_reverse, places]
  -- the entries before the scanned part stay in front and are never struck
  suffices general : ∀ (front : List α) (start : Nat), start = front.length + 1 →
      ((((view.zipIdx start).filter fun place => !keep place.1).map Prod.snd).foldr
        (fun position rest => strike rest position) (front ++ view)) =
        front ++ view.filter keep from general [] 1 rfl
  induction view with
  | nil =>
    intro front start _
    simp
  | cons entry rest ih =>
    intro front start here
    have later := ih (front ++ [entry]) (start + 1) (by simp [here])
    rw [List.append_assoc, List.append_assoc, List.singleton_append, List.singleton_append]
      at later
    cases wanted : keep entry with
    | true =>
      rw [List.zipIdx_cons, List.filter_cons_of_neg (by simp [wanted]),
        List.filter_cons_of_pos wanted]
      exact later
    | false =>
      rw [List.zipIdx_cons, List.filter_cons_of_pos (by simp [wanted]), List.map_cons,
        List.foldr_cons, later, strike_append entry _ here,
        List.filter_cons_of_neg (by simp [wanted])]

theorem strikes_before (later : List Nat) (view : List α) (position : Nat)
    (positive : 1 ≤ position) (after : ∀ other ∈ later, position < other) :
    (later.foldr (fun place rest => strike rest place) view)[position - 1]? =
      view[position - 1]? := by
  induction later with
  | nil => rfl
  | cons other rest ih =>
    have beyond := after other List.mem_cons_self
    rw [List.foldr_cons, strike, List.getElem?_eraseIdx_of_lt (by omega)]
    exact ih fun place member => after place (List.mem_cons_of_mem _ member)

theorem length_strikes_le (struck : List Nat) (view : List α) :
    (struck.foldr (fun place rest => strike rest place) view).length ≤ view.length := by
  induction struck with
  | nil => exact Nat.le_refl _
  | cons place rest ih =>
    rw [List.foldr_cons, strike]
    exact Nat.le_trans (List.length_eraseIdx_le _ _) ih

variable [DecidableEq α]

/-- The place names the entry it holds, or an entry the view does not have and
a position beyond its end. -/
def Aligned (view : List α) (place : α × Nat) : Prop :=
  1 ≤ place.2 ∧ (view[place.2 - 1]? = some place.1 ∨ place.1 ∉ view ∧ view.length < place.2)

instance (view : List α) (place : α × Nat) : Decidable (Aligned view place) :=
  inferInstanceAs (Decidable (_ ∧ _))

theorem strike_aligned (view : List α) (once : view.Nodup) {place : α × Nat}
    (aligned : Aligned view place) : strike view place.2 = view.erase place.1 := by
  rcases aligned with ⟨positive, here | ⟨absent, beyond⟩⟩
  · obtain ⟨bound, same⟩ := List.getElem?_eq_some_iff.mp here
    rw [strike, ← same, once.erase_getElem]
  · rw [strike, List.eraseIdx_of_length_le (by omega), List.erase_of_not_mem absent]

/-- Striking aligned places from the last to the first is erasing the entries
they name, in any order. -/
theorem strikes_aligned (named : List (α × Nat)) (view : List α) (once : view.Nodup)
    (ascending : named.Pairwise fun first second => first.2 < second.2)
    (aligned : ∀ place ∈ named, Aligned view place) :
    (named.map Prod.snd).reverse.foldl strike view =
      (named.map Prod.fst).foldl List.erase view := by
  rw [List.foldl_reverse, ← List.diff_eq_foldl]
  induction named with
  | nil => rfl
  | cons place rest ih =>
    obtain ⟨first, others⟩ := List.pairwise_cons.mp ascending
    obtain ⟨positive, named⟩ := aligned place List.mem_cons_self
    have tail := ih others fun other member => aligned other (List.mem_cons_of_mem _ member)
    have after : ∀ other ∈ rest.map Prod.snd, place.2 < other := by
      intro other member
      obtain ⟨later, listed, rfl⟩ := List.mem_map.mp member
      exact first later listed
    -- the place is still aligned once the later ones are gone
    have still : Aligned (view.diff (rest.map Prod.fst)) place := by
      refine ⟨positive, ?_⟩
      rcases named with here | ⟨absent, beyond⟩
      · left
        rw [← tail, strikes_before _ _ _ positive after, here]
      · right
        refine ⟨fun member => absent (List.diff_subset _ _ member), ?_⟩
        rw [← tail]
        exact Nat.lt_of_le_of_lt (length_strikes_le _ _) beyond
    rw [List.map_cons, List.foldr_cons, tail,
      strike_aligned _ once.diff still, List.map_cons, List.diff_cons, List.diff_erase]

end Striking

section Growing

theorem leads_getElem {first all : List α} (leads : first <+: all) {index : Nat}
    (inside : index < first.length) : all[index]? = first[index]? := by
  obtain ⟨rest, rfl⟩ := leads
  exact List.getElem?_append_left inside

theorem grow_prefix (seen all : List α) (count : Nat) (leads : seen <+: all)
    (reaches : max count seen.length = all.length) :
    grow all count (seen.map some) = all.map some := by
  obtain ⟨rest, rfl⟩ := leads
  rw [grow, List.map_append, List.length_map, List.append_cancel_left_eq]
  rw [List.length_append] at reaches
  apply List.ext_getElem?
  intro index
  rw [List.getElem?_map, List.getElem?_drop, List.getElem?_map]
  rcases Nat.lt_or_ge index rest.length with inside | outside
  · rw [List.getElem?_range (by omega), List.getElem?_eq_getElem inside]
    simp [inside]
  · rw [List.getElem?_eq_none outside, List.getElem?_eq_none (by simp; omega)]
    rfl

variable [LinearOrder α]

/-- In ascending lists, if whatever is new comes after whatever was seen, what
was seen and is still there comes first. -/
theorem seen_prefix (seen all : List α) (seenSorted : seen.Pairwise (· < ·))
    (sorted : all.Pairwise (· < ·))
    (fresh : ∀ entry ∈ all, entry ∉ seen → ∀ old ∈ seen, old < entry) :
    seen.filter (· ∈ all) ++ all.filter (· ∉ seen) = all := by
  refine List.Pairwise.eq_of_mem_iff (List.pairwise_append.mpr ⟨seenSorted.filter _,
    sorted.filter _, ?_⟩) sorted ?_
  · intro old member entry new
    obtain ⟨listed, unseen⟩ := List.mem_filter.mp new
    exact fresh entry listed (by simpa using unseen) old (List.mem_of_mem_filter member)
  · intro entry
    simp only [List.mem_append, List.mem_filter, decide_eq_true_eq]
    by_cases here : entry ∈ seen <;> simp [here]

end Growing

/-! Thinning: what stays moves forward. -/

theorem filter_index_le (keep : α → Bool) (view : List α) (once : view.Nodup) (before after : Nat)
    (entry : α) (here : view[before]? = some entry)
    (there : (view.filter keep)[after]? = some entry) : after ≤ before := by
  induction view generalizing before after with
  | nil => simp at here
  | cons first rest ih =>
    obtain ⟨fresh, others⟩ := List.nodup_cons.mp once
    cases before with
    | zero =>
      -- the first entry is found again at its own place or not at all
      cases here
      have kept := (List.mem_filter.mp (List.mem_of_getElem? there)).2
      rw [List.filter_cons_of_pos kept] at there
      cases after with
      | zero => exact Nat.le_refl 0
      | succ later =>
        have again := List.mem_of_getElem? (List.getElem?_cons_succ ▸ there)
        exact absurd (List.mem_of_mem_filter again) fresh
    | succ place =>
      rw [List.getElem?_cons_succ] at here
      cases kept : keep first with
      | false =>
        rw [List.filter_cons_of_neg (by simp [kept])] at there
        exact Nat.le_succ_of_le (ih others place after here there)
      | true =>
        rw [List.filter_cons_of_pos kept] at there
        cases after with
        | zero => exact Nat.zero_le _
        | succ later =>
          rw [List.getElem?_cons_succ] at there
          exact Nat.succ_le_succ (ih others place later here there)

/-- An entry that kept its place has nothing struck before it. -/
theorem filter_fixed (keep : α → Bool) (view : List α) (once : view.Nodup) (place : Nat)
    (entry : α) (here : view[place]? = some entry)
    (there : (view.filter keep)[place]? = some entry) :
    ∀ other ∈ view.take (place + 1), keep other = true := by
  induction view generalizing place with
  | nil => simp at here
  | cons first rest ih =>
    obtain ⟨fresh, others⟩ := List.nodup_cons.mp once
    cases kept : keep first with
    | false =>
      rw [List.filter_cons_of_neg (by simp [kept])] at there
      cases place with
      | zero =>
        cases here
        have wanted := (List.mem_filter.mp (List.mem_of_getElem? there)).2
        rw [kept] at wanted
        cases wanted
      | succ earlier =>
        rw [List.getElem?_cons_succ] at here
        have le := filter_index_le keep rest others earlier (earlier + 1) entry here there
        omega
    | true =>
      intro other member
      rw [List.take_succ_cons] at member
      rcases List.mem_cons.mp member with rfl | later
      · exact kept
      cases place with
      | zero => simp at later
      | succ earlier =>
        rw [List.filter_cons_of_pos kept, List.getElem?_cons_succ] at there
        rw [List.getElem?_cons_succ] at here
        exact ih others earlier here there other later

end Bongo.Views
