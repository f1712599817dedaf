import Bongo.ByteKeys

/-!
Positions in byte strings: slices, the first occurrence of a pattern, and the
first occurrence of a byte, as Go's `bytes` package has them.
-/

namespace Bongo.ByteKeys

def slice (text : Bytes) (start stop : Nat) : Bytes := (text.take stop).drop start

theorem slice_length_le (text : Bytes) (start stop : Nat) :
    (slice text start stop).length ≤ stop - start := by
  rw [slice, List.length_drop, List.length_take]
  omega

theorem slice_append_drop (text : Bytes) {start stop : Nat} (order : start ≤ stop) :
    slice text start stop ++ text.drop stop = text.drop start := by
  have split : (text.drop start).drop (stop - start) = text.drop stop := by
    rw [List.drop_drop, Nat.add_sub_cancel' order]
  rw [slice, List.drop_take, ← split, List.take_append_drop]

def index (pattern : Bytes) : Bytes → Option Nat
  | [] => if pattern = [] then some 0 else none
  | byte :: rest =>
    if hasPrefix (byte :: rest) pattern then some 0
    else (index pattern rest).map (· + 1)

def indexByte (byte : UInt8) (text : Bytes) : Option Nat := text.idxOf? byte

theorem index_fits {pattern text : Bytes} {position : Nat}
    (found : index pattern text = some position) : position + pattern.length ≤ text.length := by
  induction text generalizing position with
  | nil =>
    rw [index] at found
    split at found
    next empty =>
      cases found
      rw [empty]
      exact Nat.le_refl _
    next => cases found
  | cons byte rest ih =>
    rw [index] at found
    split at found
    next here =>
      cases found
      rw [Nat.zero_add]
      exact ((hasPrefix_iff _ _).mp here).length_le
    next =>
      obtain ⟨earlier, inner, rfl⟩ := Option.map_eq_some_iff.mp found
      have fits := ih inner
      rw [List.length_cons]
      omega

/-- Two strings are the same at their first mark. -/
theorem append_mark_inj {mark : UInt8} {left right leftTail rightTail : Bytes}
    (leftPlain : mark ∉ left) (rightPlain : mark ∉ right)
    (same : left ++ mark :: leftTail = right ++ mark :: rightTail) :
    left = right ∧ leftTail = rightTail := by
  have cuts := congrArg (cut mark) same
  rw [cut_append mark left _ leftPlain, cut_append mark right _ rightPlain] at cuts
  exact Prod.mk.inj (Option.some.inj cuts)

theorem prefix_mark_iff {mark : UInt8} {left right leftTail rightTail : Bytes}
    (leftPlain : mark ∉ left) (rightPlain : mark ∉ right) :
    left ++ mark :: leftTail <+: right ++ mark :: rightTail ↔
      left = right ∧ leftTail <+: rightTail := by
  constructor
  · rintro ⟨rest, same⟩
    rw [List.append_assoc, List.cons_append] at same
    obtain ⟨heads, tails⟩ := append_mark_inj leftPlain rightPlain same
    exact ⟨heads, rest, tails⟩
  · rintro ⟨rfl, rest, rfl⟩
    exact ⟨rest, by simp⟩

end Bongo.ByteKeys
