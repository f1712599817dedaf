import Bongo.ByteKeys

/-!
Go strings as sequences of runes, and `strings.ToLower` over them. A string is
decoded byte by byte, an invalid byte stands for the replacement character, and
each rune is mapped and encoded again. The case table of Unicode is a parameter;
on ASCII it is the ASCII one.

The main lemma says what lower case cannot tell apart when two strings have
their bytes outside ASCII in common.
-/

namespace Bongo.Runes

set_option maxRecDepth 100000

open ByteKeys

structure CaseTable where
  toLower : Nat → Nat
  ascii : ∀ byte : UInt8, byte < 0x80 → toLower byte.toNat = (lowerByte byte).toNat
  visible : ∀ rune, toLower rune = 0 → rune = 0

def runeError : Nat := 0xFFFD

/-- For the first byte of a longer encoding: how many bytes follow, and the
range of the one next to it. -/
def leading (byte : UInt8) : Option (Nat × UInt8 × UInt8) :=
  if 0xC2 ≤ byte ∧ byte ≤ 0xDF then some (1, 0x80, 0xBF)
  else if byte = 0xE0 then some (2, 0xA0, 0xBF)
  else if byte = 0xED then some (2, 0x80, 0x9F)
  else if 0xE1 ≤ byte ∧ byte ≤ 0xEF then some (2, 0x80, 0xBF)
  else if byte = 0xF0 then some (3, 0x90, 0xBF)
  else if byte = 0xF4 then some (3, 0x80, 0x8F)
  else if 0xF1 ≤ byte ∧ byte ≤ 0xF3 then some (3, 0x80, 0xBF)
  else none

def inRanges (low high : UInt8) : Bytes → Bool
  | [] => true
  | first :: rest => low ≤ first && first ≤ high && rest.all continuation

/-- `utf8.DecodeRune`: the rune at the front and how many bytes it takes after
the first. -/
def decodeRune (byte : UInt8) (rest : Bytes) : Nat × Nat :=
  if byte < 0x80 then (byte.toNat, 0)
  else match leading byte with
    | none => (runeError, 0)
    | some (count, low, high) =>
      let tail := rest.take count
      if tail.length = count ∧ inRanges low high tail then
        (tail.foldl (fun value next => value * 64 + next.toNat % 64)
          (byte.toNat % 2 ^ (6 - count)), count)
      else (runeError, 0)

/-- The runes of a string of which the first `skip` bytes are taken already. -/
def runesFrom : Nat → Bytes → List Nat
  | _, [] => []
  | skip + 1, _ :: rest => runesFrom skip rest
  | 0, byte :: rest => (decodeRune byte rest).1 :: runesFrom (decodeRune byte rest).2 rest

def encodeRune (rune : Nat) : Bytes :=
  if rune < 0x80 then [rune.toUInt8]
  else if rune < 0x800 then [(0xC0 + rune / 64).toUInt8, (0x80 + rune % 64).toUInt8]
  else if 0x10FFFF < rune ∨ 0xD800 ≤ rune ∧ rune ≤ 0xDFFF then [0xEF, 0xBF, 0xBD]
  else if rune < 0x10000 then
    [(0xE0 + rune / 4096).toUInt8, (0x80 + rune / 64 % 64).toUInt8, (0x80 + rune % 64).toUInt8]
  else
    [(0xF0 + rune / 262144).toUInt8, (0x80 + rune / 4096 % 64).toUInt8,
      (0x80 + rune / 64 % 64).toUInt8, (0x80 + rune % 64).toUInt8]

namespace CaseTable

def lowerFrom (table : CaseTable) (skip : Nat) (text : Bytes) : Bytes :=
  (runesFrom skip text).flatMap fun rune => encodeRune (table.toLower rune)

/-- `strings.ToLower`. -/
def lowerText (table : CaseTable) (text : Bytes) : Bytes := table.lowerFrom 0 text

end CaseTable

/-- Two strings with the same bytes outside ASCII at the same places. -/
def Alike : Bytes → Bytes → Prop :=
  List.Forall₂ fun left right => left = right ∨ left < 0x80 ∧ right < 0x80

theorem lowerByte_small : ∀ byte : UInt8, lowerByte byte < 0x80 ↔ byte < 0x80 := by
  decide

theorem lowerByte_changes : ∀ byte : UInt8, lowerByte byte = byte ∨ byte < 0x80 := by
  decide

theorem lowerByte_idem : ∀ byte : UInt8, lowerByte (lowerByte byte) = lowerByte byte := by
  decide

theorem lowerByte_same {left right : UInt8} (same : lowerByte left = lowerByte right) :
    left = right ∨ left < 0x80 ∧ right < 0x80 := by
  have both : left < 0x80 ↔ right < 0x80 := by
    rw [← lowerByte_small left, ← lowerByte_small right, same]
  rcases lowerByte_changes left with leftKept | small
  · rcases lowerByte_changes right with rightKept | small
    · exact Or.inl (leftKept.symm.trans (same.trans rightKept))
    · exact Or.inr ⟨both.mpr small, small⟩
  · exact Or.inr ⟨small, both.mp small⟩

theorem alike_of_lower (left right : Bytes) (same : lower left = lower right) :
    Alike left right := by
  induction left generalizing right with
  | nil =>
    cases right with
    | nil => exact .nil
    | cons byte rest => cases same
  | cons first left ih =>
    cases right with
    | nil => cases same
    | cons second right =>
      obtain ⟨head, tail⟩ := List.cons_eq_cons.mp same
      exact .cons (lowerByte_same head) (ih right tail)

theorem alike_refl (text : Bytes) : Alike text text :=
  List.forall₂_same.mpr fun _ _ => Or.inl rfl

variable {left right : Bytes}

/-- What is like a string of ASCII bytes is one. -/
theorem ascii_of_alike (alike : Alike left right) (plain : ∀ byte ∈ right, byte < 0x80) :
    ∀ byte ∈ left, byte < 0x80 := by
  induction alike with
  | nil => exact plain
  | @cons first second left right same _ ih =>
    intro byte member
    rcases List.mem_cons.mp member with rfl | later
    · rcases same with rfl | ⟨small, -⟩
      · exact plain byte List.mem_cons_self
      · exact small
    · exact ih (fun other inside => plain other (List.mem_cons_of_mem _ inside)) byte later

theorem continuation_same {left right : UInt8} (same : left = right ∨ left < 0x80 ∧ right < 0x80)
    (low high : UInt8) (range : 0x80 ≤ low) :
    (low ≤ left ∧ left ≤ high ↔ low ≤ right ∧ right ≤ high) ∧ (low ≤ left → left = right) := by
  rcases same with rfl | ⟨small, tiny⟩
  · exact ⟨Iff.rfl, fun _ => rfl⟩
  have leftOut : ¬ low ≤ left := by
    rw [UInt8.not_le]
    exact UInt8.lt_of_lt_of_le small range
  have rightOut : ¬ low ≤ right := by
    rw [UInt8.not_le]
    exact UInt8.lt_of_lt_of_le tiny range
  simp [leftOut, rightOut]

theorem all_continuation_same (alike : Alike left right) :
    left.all continuation = right.all continuation ∧
      (left.all continuation = true → left = right) := by
  induction alike with
  | nil => exact ⟨rfl, fun _ => rfl⟩
  | @cons first second left right same _ ih =>
    obtain ⟨range, equal⟩ := continuation_same same 0x80 0xBF (by decide)
    have heads : continuation first = continuation second := by
      rw [Bool.eq_iff_iff]
      simpa [continuation] using range
    refine ⟨by rw [List.all_cons, List.all_cons, heads, ih.1], fun valid => ?_⟩
    rw [List.all_cons, Bool.and_eq_true] at valid
    have low : 0x80 ≤ first := by
      have inside := valid.1
      simp only [continuation, Bool.and_eq_true, decide_eq_true_eq] at inside
      exact inside.1
    rw [equal low, ih.2 valid.2]

theorem inRanges_same (alike : Alike left right) (low high : UInt8) (range : 0x80 ≤ low) :
    inRanges low high left = inRanges low high right ∧
      (inRanges low high left = true → left = right) := by
  cases alike with
  | nil => exact ⟨rfl, fun _ => rfl⟩
  | @cons first second left right same others =>
    obtain ⟨inside, equal⟩ := continuation_same same low high range
    obtain ⟨rest, tails⟩ := all_continuation_same others
    have heads : (decide (low ≤ first) && decide (first ≤ high)) =
        (decide (low ≤ second) && decide (second ≤ high)) := by
      rw [Bool.eq_iff_iff]
      simpa using inside
    refine ⟨by rw [inRanges, inRanges, heads, rest], fun valid => ?_⟩
    simp only [inRanges, Bool.and_eq_true, decide_eq_true_eq] at valid
    rw [equal valid.1.1, tails valid.2]

variable {byte low high : UInt8} {count : Nat}

theorem leading_range (led : leading byte = some (count, low, high)) : 0x80 ≤ low := by
  simp only [leading] at led
  split_ifs at led <;> cases led <;> decide

/-- What follows a first byte outside ASCII is decoded by its bytes outside
ASCII alone. -/
theorem decodeRune_alike (foreign : ¬ byte < 0x80) (alike : Alike left right) :
    decodeRune byte left = decodeRune byte right ∧
      left.take (decodeRune byte left).2 = right.take (decodeRune byte left).2 := by
  rw [decodeRune, decodeRune, if_neg foreign, if_neg foreign]
  cases led : leading byte with
  | none => exact ⟨rfl, rfl⟩
  | some lead =>
    obtain ⟨count, low, high⟩ := lead
    have tails : Alike (left.take count) (right.take count) := List.forall₂_take count alike
    obtain ⟨valid, equal⟩ := inRanges_same tails low high (leading_range led)
    have lengths := tails.length_eq
    dsimp only
    rw [← lengths, ← valid]
    split
    · rename_i good
      have same := equal good.2
      rw [same]
      exact ⟨rfl, rfl⟩
    · exact ⟨rfl, rfl⟩

section Cases

variable (table : CaseTable)

theorem encodeRune_ascii {byte : UInt8} (small : byte < 0x80) :
    encodeRune (table.toLower byte.toNat) = [lowerByte byte] := by
  have range := (lowerByte_small byte).mpr small
  rw [table.ascii byte small, encodeRune, if_pos (by exact range)]
  simp

theorem lowerFrom_ascii (byte : UInt8) (small : byte < 0x80) (rest : Bytes) :
    table.lowerFrom 0 (byte :: rest) = lowerByte byte :: table.lowerFrom 0 rest := by
  have decoded : decodeRune byte rest = (byte.toNat, 0) := if_pos small
  rw [CaseTable.lowerFrom, runesFrom, decoded, List.flatMap_cons, encodeRune_ascii table small]
  rfl

/-- Among strings alike outside ASCII, lower case is ASCII lower case. Lowering keeps
them alike, and twice lowered they still differ where the ASCII case does not account
for it. -/
theorem lowerFrom_alike (alike : Alike left right) (skip : Nat)
    (taken : left.take skip = right.take skip) :
    Alike (table.lowerFrom skip left) (table.lowerFrom skip right) ∧
      (table.lowerFrom skip left = table.lowerFrom skip right ↔ lower left = lower right) ∧
      (lower (table.lowerFrom skip left) = lower (table.lowerFrom skip right) ↔
        lower left = lower right) := by
  induction alike generalizing skip with
  | nil => exact ⟨alike_refl _, iff_of_true rfl rfl, iff_of_true rfl rfl⟩
  | @cons first second left right same others ih =>
    cases skip with
    | succ skip =>
      rw [List.take_succ_cons, List.take_succ_cons, List.cons_eq_cons] at taken
      obtain ⟨rfl, taken⟩ := taken
      have tails := ih skip taken
      simp only [lower, List.map_cons, List.cons.injEq, true_and] at tails ⊢
      exact tails
    | zero =>
      by_cases small : first < 0x80
      · have tiny : second < 0x80 := by
          rcases same with rfl | ⟨-, tiny⟩
          · exact small
          · exact tiny
        obtain ⟨alikes, equals, lowers⟩ := ih 0 rfl
        rw [lowerFrom_ascii table first small, lowerFrom_ascii table second tiny]
        refine ⟨.cons (Or.inr ⟨(lowerByte_small first).mpr small,
          (lowerByte_small second).mpr tiny⟩) alikes, ?_, ?_⟩
        · rw [List.cons_eq_cons, equals]
          simp [lower]
        · simp only [lower, List.map_cons, List.cons.injEq, lowerByte_idem] at lowers ⊢
          rw [lowers]
      · -- the same rune at the front of both, and the bytes it takes are the same
        have equal : first = second := by
          rcases same with rfl | ⟨impossible, -⟩
          · rfl
          · exact absurd impossible small
        subst equal
        obtain ⟨decoded, bytes⟩ := decodeRune_alike small others
        obtain ⟨alikes, tails⟩ := ih (decodeRune first left).2 bytes
        simp only [CaseTable.lowerFrom, runesFrom, List.flatMap_cons, ← decoded, lower,
          List.map_append, List.append_cancel_left_eq, List.map_cons, List.cons.injEq,
          true_and] at alikes tails ⊢
        exact ⟨List.rel_append (alike_refl _) alikes, tails⟩

theorem lowerText_iff (alike : Alike left right) :
    table.lowerText left = table.lowerText right ↔ lower left = lower right :=
  (lowerFrom_alike table alike 0 rfl).2.1

theorem lowerText_congr (same : lower left = lower right) :
    table.lowerText left = table.lowerText right :=
  (lowerText_iff table (alike_of_lower left right same)).mpr same

theorem lowerText_ascii (text : Bytes) (plain : ∀ byte ∈ text, byte < 0x80) :
    table.lowerText text = lower text := by
  induction text with
  | nil => rfl
  | cons byte rest ih =>
    have tail := ih fun other member => plain other (List.mem_cons_of_mem _ member)
    rw [CaseTable.lowerText] at tail ⊢
    rw [lowerFrom_ascii table byte (plain byte List.mem_cons_self), tail]
    rfl

theorem lowerText_twice_iff (alike : Alike left right) :
    table.lowerText (table.lowerText left) = table.lowerText (table.lowerText right) ↔
      lower left = lower right := by
  obtain ⟨lowered, -, lowers⟩ := lowerFrom_alike table alike 0 rfl
  exact (lowerText_iff table lowered).trans lowers

end Cases

theorem fold_pos (tail : Bytes) (value : Nat) (positive : 0 < value) :
    0 < tail.foldl (fun value next => value * 64 + next.toNat % 64) value := by
  induction tail generalizing value with
  | nil => exact positive
  | cons next rest ih => exact ih (value * 64 + next.toNat % 64) (by omega)

/-- A longer encoding has a set bit in its first two bytes. -/
theorem leading_bits (led : leading byte = some (count, low, high)) :
    0 < byte.toNat % 2 ^ (6 - count) ∨ 1 ≤ count ∧ 0x80 < low ∧ high ≤ 0xBF := by
  have bound := byte.toNat_lt
  simp only [leading] at led
  split_ifs at led with two three surrogate longer four last most
  all_goals cases led
  · left
    change 194 ≤ byte.toNat ∧ byte.toNat ≤ 223 at two
    omega
  · exact Or.inr (by decide)
  · left
    subst surrogate
    decide
  · left
    have differs : byte.toNat ≠ 224 := fun same => three (UInt8.toNat_inj.mp same)
    change 225 ≤ byte.toNat ∧ byte.toNat ≤ 239 at longer
    omega
  · exact Or.inr (by decide)
  · left
    subst last
    decide
  · left
    change 241 ≤ byte.toNat ∧ byte.toNat ≤ 243 at most
    omega

theorem tail_bits : ∀ byte : UInt8, 0x80 < byte → byte ≤ 0xBF → 0 < byte.toNat % 64 := by
  decide

theorem decodeRune_pos (visible : byte ≠ 0) (rest : Bytes) : 0 < (decodeRune byte rest).1 := by
  rw [decodeRune]
  split
  · exact Nat.pos_of_ne_zero fun zero => visible (UInt8.toNat_inj.mp zero)
  cases led : leading byte with
  | none => exact Nat.succ_pos _
  | some lead =>
    obtain ⟨count, low, high⟩ := lead
    dsimp only
    split
    · rename_i good
      rcases leading_bits led with positive | ⟨some_, above, below⟩
      · exact fold_pos _ _ positive
      cases tail : rest.take count with
      | nil =>
        rw [tail] at good
        have empty := good.1
        rw [List.length_nil] at empty
        omega
      | cons next others =>
        rw [tail] at good
        simp only [inRanges, Bool.and_eq_true, decide_eq_true_eq] at good
        have set := tail_bits next (UInt8.lt_of_lt_of_le above good.2.1.1)
          (UInt8.le_trans good.2.1.2 below)
        exact fold_pos others (_ * 64 + next.toNat % 64) (by omega)
    · exact Nat.succ_pos _

theorem runesFrom_pos {text : Bytes} (visible : 0 ∉ text) (skip : Nat) :
    ∀ rune ∈ runesFrom skip text, 0 < rune := by
  induction text generalizing skip with
  | nil =>
    intro rune member
    cases skip <;> cases member
  | cons byte rest ih =>
    have others : 0 ∉ rest := fun member => visible (List.mem_cons_of_mem _ member)
    cases skip with
    | succ skip => exact ih others skip
    | zero =>
      have head := decodeRune_pos (fun zero => visible (zero ▸ List.mem_cons_self)) rest
      exact List.forall_mem_cons.mpr ⟨head, ih others _⟩

theorem toUInt8_ne_zero {number : Nat} (low : 0 < number) (high : number < 256) :
    (0 : UInt8) ≠ number.toUInt8 := by
  intro zero
  have same := congrArg UInt8.toNat zero
  change 0 = number % 256 at same
  omega

theorem encodeRune_visible (rune : Nat) (positive : 0 < rune) : (0 : UInt8) ∉ encodeRune rune := by
  rw [encodeRune]
  split_ifs with one two three four
  all_goals simp only [List.mem_cons, List.not_mem_nil, or_false, not_or]
  · exact toUInt8_ne_zero positive (by omega)
  · exact ⟨toUInt8_ne_zero (by omega) (by omega), toUInt8_ne_zero (by omega) (by omega)⟩
  · decide
  · exact ⟨toUInt8_ne_zero (by omega) (by omega), toUInt8_ne_zero (by omega) (by omega),
      toUInt8_ne_zero (by omega) (by omega)⟩
  · exact ⟨toUInt8_ne_zero (by omega) (by omega), toUInt8_ne_zero (by omega) (by omega),
      toUInt8_ne_zero (by omega) (by omega), toUInt8_ne_zero (by omega) (by omega)⟩

theorem lowerText_visible (table : CaseTable) (text : Bytes) (visible : 0 ∉ text) :
    0 ∉ table.lowerText text := by
  rw [CaseTable.lowerText, CaseTable.lowerFrom, List.mem_flatMap]
  rintro ⟨rune, member, inside⟩
  have positive := runesFrom_pos visible 0 rune member
  exact encodeRune_visible _
    (Nat.pos_of_ne_zero fun zero => absurd (table.visible rune zero) (by omega)) inside

/-- A rune that has an encoding of its own. -/
def Scalar (rune : Nat) : Prop := rune ≤ 0x10FFFF ∧ ¬ (0xD800 ≤ rune ∧ rune ≤ 0xDFFF)

instance (rune : Nat) : Decidable (Scalar rune) := inferInstanceAs (Decidable (_ ∧ _))

theorem toNat_toUInt8 (number : Nat) (small : number < 256) : number.toUInt8.toNat = number := by
  simp [Nat.mod_eq_of_lt small]

theorem encodeRune_foreign {rune : Nat} (foreign : ¬ Scalar rune) :
    encodeRune rune = encodeRune runeError := by
  unfold Scalar at foreign
  have outside : 0x10FFFF < rune ∨ 0xD800 ≤ rune ∧ rune ≤ 0xDFFF := by omega
  have long : ¬ rune < 0x80 ∧ ¬ rune < 0x800 := by omega
  rw [encodeRune, if_neg long.1, if_neg long.2, if_pos outside]
  decide

theorem continuation_iff (byte : UInt8) :
    continuation byte = true ↔ 0x80 ≤ byte.toNat ∧ byte.toNat ≤ 0xBF := by
  simp [continuation, UInt8.le_iff_toNat_le]

theorem decodeRune_long (tail rest : Bytes) (foreign : 0x80 ≤ byte.toNat)
    (leads : leading byte = some (count, low, high)) (size : tail.length = count)
    (ranges : inRanges low high tail = true) :
    decodeRune byte (tail ++ rest) = (tail.foldl (fun value next => value * 64 + next.toNat % 64)
        (byte.toNat % 2 ^ (6 - count)), count) := by
  have long : ¬ byte < 0x80 := by
    rw [UInt8.lt_iff_toNat_lt]
    exact not_lt.mpr foreign
  have taken : (tail ++ rest).take count = tail := by rw [← size, List.take_left]
  rw [decodeRune, if_neg long, leads]
  simp [size, ranges]

theorem leading_two (low : 0xC2 ≤ byte.toNat) (high : byte.toNat ≤ 0xDF) :
    leading byte = some (1, 0x80, 0xBF) := by
  rw [leading, if_pos]
  exact ⟨UInt8.le_iff_toNat_le.mpr low, UInt8.le_iff_toNat_le.mpr high⟩

/-- The byte after the first one of three rules out short forms and surrogates. -/
theorem leading_three : ∀ byte : UInt8, 0xE0 ≤ byte.toNat → byte.toNat ≤ 0xEF →
    leading byte = some (2, if byte.toNat = 0xE0 then 0xA0 else 0x80,
      if byte.toNat = 0xED then 0x9F else 0xBF) := by
  decide

theorem leading_four : ∀ byte : UInt8, 0xF0 ≤ byte.toNat → byte.toNat ≤ 0xF4 →
    leading byte = some (3, if byte.toNat = 0xF0 then 0x90 else 0x80,
      if byte.toNat = 0xF4 then 0x8F else 0xBF) := by
  decide

/-- A decoder that starts at an encoded rune reads that rune and stops at its end. -/
theorem decodeRune_encode (rune : Nat) (scalar : Scalar rune) :
    ∃ byte tail, encodeRune rune = byte :: tail ∧
      ∀ rest, decodeRune byte (tail ++ rest) = (rune, tail.length) := by
  obtain ⟨top, surrogate⟩ := scalar
  unfold encodeRune
  -- One case for each length of the encoding.
  split
  case isTrue small =>
    have value := toNat_toUInt8 rune (by omega)
    have low : rune.toUInt8 < 0x80 := by
      rw [UInt8.lt_iff_toNat_lt, value]
      exact small
    exact ⟨_, _, rfl, fun rest => by simp [decodeRune, low, value]⟩
  case isFalse above =>
    split
    case isTrue small =>
      have first := toNat_toUInt8 (0xC0 + rune / 64) (by omega)
      have second := toNat_toUInt8 (0x80 + rune % 64) (by omega)
      refine ⟨_, _, rfl, fun rest => ?_⟩
      rw [decodeRune_long _ rest (by omega) (leading_two (by omega) (by omega)) rfl]
      · simp only [List.foldl, Prod.mk.injEq, List.length_singleton, and_true]
        omega
      · simp only [inRanges, UInt8.le_iff_toNat_le]
        simp
        omega
    case isFalse beyond =>
      rw [if_neg (by omega)]
      split
      case isTrue small =>
        have first := toNat_toUInt8 (0xE0 + rune / 4096) (by omega)
        have second := toNat_toUInt8 (0x80 + rune / 64 % 64) (by omega)
        have third := toNat_toUInt8 (0x80 + rune % 64) (by omega)
        refine ⟨_, _, rfl, fun rest => ?_⟩
        rw [decodeRune_long _ rest (by omega) (leading_three _ (by omega) (by omega)) rfl]
        · simp only [List.foldl, Prod.mk.injEq, List.length_cons, List.length_nil, and_true]
          omega
        simp only [inRanges, List.all_cons, List.all_nil, Bool.and_true, Bool.and_eq_true,
          continuation_iff, decide_eq_true_eq, UInt8.le_iff_toNat_le, apply_ite UInt8.toNat,
          UInt8.reduceToNat]
        refine ⟨⟨?_, ?_⟩, by omega⟩
        · split <;> omega
        · split <;> omega
      case isFalse large =>
        have first := toNat_toUInt8 (0xF0 + rune / 262144) (by omega)
        have second := toNat_toUInt8 (0x80 + rune / 4096 % 64) (by omega)
        have third := toNat_toUInt8 (0x80 + rune / 64 % 64) (by omega)
        have fourth := toNat_toUInt8 (0x80 + rune % 64) (by omega)
        refine ⟨_, _, rfl, fun rest => ?_⟩
        rw [decodeRune_long _ rest (by omega) (leading_four _ (by omega) (by omega)) rfl]
        · simp only [List.foldl, Prod.mk.injEq, List.length_cons, List.length_nil, and_true]
          omega
        simp only [inRanges, List.all_cons, List.all_nil, Bool.and_true, Bool.and_eq_true,
          continuation_iff, decide_eq_true_eq, UInt8.le_iff_toNat_le, apply_ite UInt8.toNat,
          UInt8.reduceToNat]
        refine ⟨⟨?_, ?_⟩, by omega, by omega⟩
        · split <;> omega
        · split <;> omega

theorem runesFrom_skip (tail rest : Bytes) :
    runesFrom tail.length (tail ++ rest) = runesFrom 0 rest := by
  induction tail with
  | nil => rfl
  | cons byte tail ih => exact ih

theorem runesFrom_encode (rune : Nat) (rest : Bytes) :
    runesFrom 0 (encodeRune rune ++ rest) =
      (if Scalar rune then rune else runeError) :: runesFrom 0 rest := by
  have read : ∀ scalar, Scalar scalar →
      runesFrom 0 (encodeRune scalar ++ rest) = scalar :: runesFrom 0 rest := by
    intro scalar valid
    obtain ⟨byte, tail, encoded, decoded⟩ := decodeRune_encode scalar valid
    rw [encoded, List.cons_append, runesFrom, decoded, runesFrom_skip]
  split
  case isTrue valid => exact read rune valid
  case isFalse foreign =>
    rw [encodeRune_foreign foreign]
    exact read runeError (by decide)

/-- `strings.ToLower` settles at once where the table does. -/
theorem lowerText_idem (table : CaseTable)
    (settled : ∀ rune, table.toLower (table.toLower rune) = table.toLower rune)
    (error : table.toLower runeError = runeError) (text : Bytes) :
    table.lowerText (table.lowerText text) = table.lowerText text := by
  unfold CaseTable.lowerText CaseTable.lowerFrom
  generalize runesFrom 0 text = runes
  induction runes with
  | nil => rfl
  | cons rune rest ih =>
    rw [List.flatMap_cons, runesFrom_encode, List.flatMap_cons, ih]
    split
    case isTrue => rw [settled]
    case isFalse foreign => rw [error, encodeRune_foreign foreign]

/-! White space at the ends of a string, and comparison without regard to case. -/

/-- The runes `unicode.IsSpace` accepts. -/
def spaceRunes : List Nat :=
  [0x09, 0x0A, 0x0B, 0x0C, 0x0D, 0x20, 0x85, 0xA0, 0x1680, 0x2000, 0x2001, 0x2002, 0x2003,
    0x2004, 0x2005, 0x2006, 0x2007, 0x2008, 0x2009, 0x200A, 0x2028, 0x2029, 0x202F, 0x205F,
    0x3000]

/-- The text without its leading white space; `skip` bytes of a space are left. -/
def trimFront : Nat → Bytes → Bytes
  | _, [] => []
  | skip + 1, _ :: rest => trimFront skip rest
  | 0, byte :: rest =>
    if (decodeRune byte rest).1 ∈ spaceRunes then trimFront (decodeRune byte rest).2 rest
    else byte :: rest

/-- The space a reversed text begins with: how many bytes it takes after the
first. -/
def lastSpace (reversed : Bytes) : Option Nat :=
  (spaceRunes.find? fun rune => (encodeRune rune).reverse.isPrefixOf reversed).map
    fun rune => (encodeRune rune).length - 1

/-- `trimFront` for a reversed text. -/
def trimBack : Nat → Bytes → Bytes
  | _, [] => []
  | skip + 1, _ :: rest => trimBack skip rest
  | 0, byte :: rest =>
    match lastSpace (byte :: rest) with
    | some count => trimBack count rest
    | none => byte :: rest

/-- `strings.TrimSpace`. -/
def trimSpace (text : Bytes) : Bytes := (trimBack 0 (trimFront 0 text).reverse).reverse

theorem graphic_not_space : ∀ byte : UInt8, 0x21 ≤ byte → byte ≤ 0x7E →
    byte < 0x80 ∧ byte.toNat ∉ spaceRunes ∧
      ∀ rune ∈ spaceRunes, (encodeRune rune).reverse.head? ≠ some byte ∧ encodeRune rune ≠ [] := by
  decide

theorem trimSpace_graphic (text : Bytes)
    (graphic : ∀ byte ∈ text, (0x21 : UInt8) ≤ byte ∧ byte ≤ 0x7E) : trimSpace text = text := by
  have front : trimFront 0 text = text := by
    cases text with
    | nil => rfl
    | cons byte rest =>
      have range := graphic byte List.mem_cons_self
      obtain ⟨small, visible, -⟩ := graphic_not_space byte range.1 range.2
      have rune : (decodeRune byte rest).1 = byte.toNat := by rw [decodeRune, if_pos small]
      rw [trimFront, rune, if_neg visible]
  have back : trimBack 0 text.reverse = text.reverse := by
    cases shape : text.reverse with
    | nil => rfl
    | cons byte rest =>
      have member : byte ∈ text := List.mem_reverse.mp (shape ▸ List.mem_cons_self)
      have range := graphic byte member
      obtain ⟨-, -, ends⟩ := graphic_not_space byte range.1 range.2
      have none : lastSpace (byte :: rest) = none := by
        rw [lastSpace, Option.map_eq_none_iff, List.find?_eq_none]
        intro rune space found
        obtain ⟨different, nonempty⟩ := ends rune space
        cases tail : (encodeRune rune).reverse with
        | nil => exact nonempty (List.reverse_eq_nil_iff.mp tail)
        | cons first more =>
          rw [tail] at found different
          have same : first = byte := by
            simp only [List.isPrefixOf, Bool.and_eq_true, beq_iff_eq] at found
            exact found.1
          exact different (by rw [List.head?_cons, same])
      rw [trimBack, none]
  rw [trimSpace, front, back, List.reverse_reverse]

/-- The case table with upper case and the fold that `strings.EqualFold` compares
runes by. -/
structure FoldTable extends CaseTable where
  toUpper : Nat → Nat
  fold : Nat → Nat

/-- `strings.ToUpper`. -/
def FoldTable.upperText (table : FoldTable) (text : Bytes) : Bytes :=
  (runesFrom 0 text).flatMap fun rune => encodeRune (table.toUpper rune)

/-- `strings.EqualFold`. -/
def FoldTable.equalFold (table : FoldTable) (left right : Bytes) : Bool :=
  (runesFrom 0 left).map table.fold = (runesFrom 0 right).map table.fold

def asciiFolds : FoldTable where
  toLower rune := if 65 ≤ rune ∧ rune ≤ 90 then rune + 32 else rune
  ascii := by decide
  visible rune same := by
    split at same
    · cases same
    · exact same
  toUpper rune := if 97 ≤ rune ∧ rune ≤ 122 then rune - 32 else rune
  fold rune := if 65 ≤ rune ∧ rune ≤ 90 then rune + 32 else rune

end Bongo.Runes
