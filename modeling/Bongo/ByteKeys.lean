import Mathlib

/-!
Byte strings as database keys and Go strings: ASCII literals, cutting at a
separator, zero-padded decimals, and the half-open key range that a prefix scan
reads. Keys compare bytewise from the left, as an ordered store does.
-/

namespace Bongo.ByteKeys

abbrev Bytes := List UInt8

instance lawfulBytes : LawfulBEq Bytes := inferInstance

def ascii (text : String) : Bytes :=
  text.toList.map fun char => char.toNat.toUInt8

def hasPrefix (key lead : Bytes) : Bool := lead.isPrefixOf key

def hasSuffix (key tail : Bytes) : Bool := tail.isSuffixOf key

/-- `strings.TrimPrefix`: the key itself when the prefix does not match. -/
def trimPrefix (key lead : Bytes) : Bytes :=
  if hasPrefix key lead then key.drop lead.length else key

@[simp] theorem hasPrefix_iff (key lead : Bytes) :
    hasPrefix key lead = true ↔ lead <+: key := by
  simp [hasPrefix]

@[simp] theorem trimPrefix_append (lead rest : Bytes) :
    trimPrefix (lead ++ rest) lead = rest := by
  simp [trimPrefix]

/-- `strings.Cut`: the parts before and after the first separator. -/
def cut (separator : UInt8) : Bytes → Option (Bytes × Bytes)
  | [] => none
  | byte :: rest =>
    if byte = separator then some ([], rest)
    else (cut separator rest).map fun parts => (byte :: parts.1, parts.2)

theorem cut_append (separator : UInt8) (left right : Bytes)
    (absent : separator ∉ left) :
    cut separator (left ++ separator :: right) = some (left, right) := by
  induction left with
  | nil => simp [cut]
  | cons byte rest ih =>
    rw [List.mem_cons, not_or] at absent
    simp [cut, Ne.symm absent.1, ih absent.2]

/-- Fields one after the other, each followed by a mark. -/
def frames (mark : UInt8) (fields : List Bytes) : Bytes :=
  fields.flatMap fun field => field ++ [mark]

theorem frames_cons (mark : UInt8) (field : Bytes) (rest : List Bytes) :
    frames mark (field :: rest) = field ++ mark :: frames mark rest := by
  simp [frames]

theorem length_le_count_frames (mark : UInt8) (fields : List Bytes) :
    fields.length ≤ (frames mark fields).count mark := by
  induction fields with
  | nil => exact Nat.zero_le _
  | cons field rest ih =>
    rw [frames_cons, List.count_append, List.count_cons_self, List.length_cons]
    omega

theorem count_frames (mark : UInt8) (fields : List Bytes)
    (clean : ∀ field ∈ fields, mark ∉ field) :
    (frames mark fields).count mark = fields.length := by
  induction fields with
  | nil => rfl
  | cons field rest ih =>
    have head : field.count mark = 0 := List.count_eq_zero.mpr (clean field List.mem_cons_self)
    have tail := ih fun other member => clean other (List.mem_cons_of_mem _ member)
    rw [frames_cons, List.count_append, List.count_cons_self, List.length_cons, head, tail]
    omega

/-- As many fields are recovered from their frames when one of the two lists is
free of the mark: a mark inside the other would be one too many. -/
theorem frames_inj (mark : UInt8) (fields others : List Bytes)
    (lengths : fields.length = others.length) (clean : ∀ other ∈ others, mark ∉ other)
    (same : frames mark fields = frames mark others) : fields = others := by
  induction fields generalizing others with
  | nil => exact (List.length_eq_zero_iff.mp lengths.symm).symm
  | cons field rest ih =>
    cases others with
    | nil => cases lengths
    | cons other more =>
      have cleanTail : ∀ later ∈ more, mark ∉ later :=
        fun later member => clean later (List.mem_cons_of_mem _ member)
      have apart : mark ∉ other := clean other List.mem_cons_self
      have absent : mark ∉ field := by
        have counts := congrArg (List.count mark) same
        rw [count_frames mark _ clean, frames_cons, List.count_append,
          List.count_cons_self] at counts
        have least := length_le_count_frames mark rest
        rw [List.length_cons, List.length_cons] at lengths
        rw [List.length_cons] at counts
        exact List.count_eq_zero.mp (by omega)
      have split := congrArg (cut mark) same
      rw [frames_cons, frames_cons, cut_append mark _ _ absent, cut_append mark _ _ apart] at split
      obtain ⟨head, tail⟩ := Prod.mk.inj (Option.some.inj split)
      rw [head, ih more (Nat.succ.inj lengths) cleanTail tail]

/-- ASCII lower case; bytes outside `A`–`Z` are kept. -/
def lowerByte (byte : UInt8) : UInt8 :=
  if 65 ≤ byte ∧ byte ≤ 90 then byte + 32 else byte

def lower (text : Bytes) : Bytes := text.map lowerByte

/-- Case-insensitive comparison. Against an ASCII word without `k` and `s`
this is `strings.EqualFold`: no other code point folds to its letters. -/
def equalFold (left right : Bytes) : Bool := lower left == lower right

def continuation (byte : UInt8) : Bool := 0x80 ≤ byte && byte ≤ 0xBF

/-- `utf8.ValidString`: shortest-form encodings up to U+10FFFF without
surrogates. -/
def validUTF8 : Bytes → Bool
  | [] => true
  | a :: rest =>
    if a < 0x80 then validUTF8 rest
    else match rest with
      | [] => false
      | b :: rest =>
        if 0xC2 ≤ a && a ≤ 0xDF then continuation b && validUTF8 rest
        else match rest with
          | [] => false
          | c :: rest =>
            if 0xE0 ≤ a && a ≤ 0xEF then
              (if a = 0xE0 then 0xA0 ≤ b && b ≤ 0xBF
                else if a = 0xED then 0x80 ≤ b && b ≤ 0x9F
                else continuation b) && continuation c && validUTF8 rest
            else match rest with
              | [] => false
              | d :: rest =>
                if 0xF0 ≤ a && a ≤ 0xF4 then
                  (if a = 0xF0 then 0x90 ≤ b && b ≤ 0xBF
                    else if a = 0xF4 then 0x80 ≤ b && b ≤ 0x8F
                    else continuation b) && continuation c && continuation d &&
                    validUTF8 rest
                else false

/-! Fixed-width decimals. `%0*d` of a number below `10 ^ width` has exactly
`width` digits, so these fields sort as the numbers do. -/

def digit (number : Nat) : UInt8 := 48 + (number % 10).toUInt8

def decimal : Nat → Nat → Bytes
  | 0, _ => []
  | width + 1, number => decimal width (number / 10) ++ [digit number]

@[simp] theorem decimal_length (width number : Nat) :
    (decimal width number).length = width := by
  induction width generalizing number with
  | zero => rfl
  | succ width ih => simp [decimal, ih]

theorem digit_toNat (number : Nat) : (digit number).toNat = 48 + number % 10 := by
  have bound : number % 10 < 10 := Nat.mod_lt _ (by decide)
  have small : (number % 10).toUInt8.toNat = number % 10 := by
    simp only [UInt8.toNat_ofNat']
    omega
  simp only [digit, UInt8.toNat_add]
  have literal : (48 : UInt8).toNat = 48 := rfl
  rw [literal]
  omega

/-- Every byte of a decimal field is a digit, so it is never a separator. -/
theorem mem_decimal (width number : Nat) (byte : UInt8)
    (member : byte ∈ decimal width number) : 48 ≤ byte.toNat ∧ byte.toNat ≤ 57 := by
  induction width generalizing number with
  | zero => simp [decimal] at member
  | succ width ih =>
    rcases List.mem_append.mp member with front | last
    · exact ih (number / 10) front
    have same : byte = digit number := by simpa using last
    subst byte
    rw [digit_toNat]
    omega

def readDecimal (digits : Bytes) : Nat :=
  digits.foldl (fun number byte => number * 10 + (byte.toNat - 48)) 0

theorem readDecimal_decimal (width number : Nat) (bound : number < 10 ^ width) :
    readDecimal (decimal width number) = number := by
  induction width generalizing number with
  | zero =>
    rw [Nat.lt_one_iff.mp bound]
    rfl
  | succ width ih =>
    rw [pow_succ] at bound
    have front := ih (number / 10) (by omega)
    rw [readDecimal] at front
    rw [readDecimal, decimal, List.foldl_append, front, List.foldl_cons, List.foldl_nil,
      digit_toNat]
    omega

theorem decimal_inj (width left right : Nat) (leftBound : left < 10 ^ width)
    (rightBound : right < 10 ^ width) (same : decimal width left = decimal width right) :
    left = right := by
  have read := congrArg readDecimal same
  rwa [readDecimal_decimal width left leftBound, readDecimal_decimal width right rightBound] at read

def bigEndian : Nat → Nat → Bytes
  | 0, _ => []
  | width + 1, number => bigEndian width (number / 256) ++ [UInt8.ofNat number]

def readBigEndian (bytes : Bytes) : Nat :=
  bytes.foldl (fun number byte => number * 256 + byte.toNat) 0

@[simp] theorem bigEndian_length (width number : Nat) :
    (bigEndian width number).length = width := by
  induction width generalizing number with
  | zero => rfl
  | succ width ih => simp [bigEndian, ih]

theorem readBigEndian_bigEndian (width number : Nat) (bound : number < 256 ^ width) :
    readBigEndian (bigEndian width number) = number := by
  induction width generalizing number with
  | zero =>
    rw [Nat.lt_one_iff.mp bound]
    rfl
  | succ width ih =>
    rw [pow_succ] at bound
    have front := ih (number / 256) (by omega)
    rw [readBigEndian] at front
    rw [readBigEndian, bigEndian, List.foldl_append, front, List.foldl_cons, List.foldl_nil,
      UInt8.toNat_ofNat']
    omega

theorem compare_cons (left right : UInt8) (leftRest rightRest : Bytes) :
    compare (left :: leftRest) (right :: rightRest) =
      (compare left right).then (compare leftRest rightRest) := by
  simp

theorem compare_append (left right leftRest rightRest : Bytes)
    (aligned : left.length = right.length) :
    compare (left ++ leftRest) (right ++ rightRest) =
      (compare left right).then (compare leftRest rightRest) := by
  induction left generalizing right with
  | nil =>
    have empty : right = [] := by simpa using aligned.symm
    subst right
    simp [List.compare_eq_compareLex]
  | cons first rest ih =>
    cases right with
    | nil => simp at aligned
    | cons other tail =>
      rw [List.cons_append, List.cons_append, compare_cons, compare_cons,
        ih tail (by simpa using aligned)]
      cases compare first other <;> rfl

theorem compare_toNat (left right : UInt8) :
    compare left right = compare left.toNat right.toNat := by
  simp [compare, compareOfLessAndEq, UInt8.lt_iff_toNat_lt, UInt8.toNat_inj]

/-- Padded decimals sort as the numbers they spell. -/
theorem decimal_compare (width left right : Nat) (leftBound : left < 10 ^ width)
    (rightBound : right < 10 ^ width) :
    compare (decimal width left) (decimal width right) = compare left right := by
  induction width generalizing left right with
  | zero =>
    have same : left = right := by omega
    simp [same]
  | succ width ih =>
    rw [pow_succ] at leftBound rightBound
    rw [decimal, decimal, compare_append _ _ _ _ (by simp),
      ih (left / 10) (right / 10) (by omega) (by omega), compare_cons, compare_toNat,
      digit_toNat, digit_toNat]
    have tail : compare ([] : Bytes) [] = .eq := by simp
    rw [tail, Ordering.then_eq]
    -- the last digit decides only where the digits before it agree
    simp only [Nat.compare_eq_ite_lt]
    split_ifs <;> first | rfl | omega

/-- The end of the range of keys that start with `lead`: the last byte below
`0xFF` incremented and everything after it cut off; no end if there is none. -/
def upperBound (lead : Bytes) : Option Bytes :=
  match lead.reverse.dropWhile (· == 0xFF) with
  | [] => none
  | last :: rest => some (rest.reverse ++ [last + 1])

def inRange (lead key : Bytes) : Bool :=
  (compare lead key).isLE &&
    match upperBound lead with
    | none => true
    | some upper => (compare key upper).isLT

theorem upperBound_cons (byte : UInt8) (rest : Bytes) :
    upperBound (byte :: rest) =
      match upperBound rest with
      | some upper => some (byte :: upper)
      | none => if byte = 0xFF then none else some [byte + 1] := by
  simp only [upperBound, List.reverse_cons, List.dropWhile_append]
  cases trimmed : rest.reverse.dropWhile (· == 0xFF) with
  | nil =>
    by_cases full : byte = 0xFF
    · simp [full]
    · simp [full]
  | cons last front => simp

theorem below_full {byte other : UInt8} (less : byte.toNat < other.toNat) :
    byte ≠ 0xFF := by
  intro full
  have limit := other.toNat_lt
  subst full
  have literal : (0xFF : UInt8).toNat = 255 := rfl
  omega

theorem successor_toNat {byte other : UInt8} (less : byte.toNat < other.toNat) :
    (byte + 1).toNat = byte.toNat + 1 := by
  have limit := other.toNat_lt
  rw [UInt8.toNat_add]
  have literal : (1 : UInt8).toNat = 1 := rfl
  omega

/-- A scan of `[lead, upperBound lead)` reads exactly the keys that start
with `lead`, whatever bytes `lead` ends in. -/
theorem inRange_iff (lead key : Bytes) : inRange lead key = true ↔ lead <+: key := by
  induction lead generalizing key with
  | nil => cases key <;> simp [inRange, upperBound]
  | cons byte rest ih =>
    cases key with
    | nil => simp [inRange, List.compare_eq_compareLex]
    | cons first tail =>
      have bounded := ih tail
      simp only [inRange, upperBound_cons, List.cons_prefix_cons] at bounded ⊢
      rcases Nat.lt_trichotomy byte.toNat first.toNat with less | equal | more
      · -- above the lead byte only the upper bound can cut the key off
        have different : byte ≠ first := by
          intro same
          exact absurd (congrArg UInt8.toNat same) (by omega)
        have room : (byte + 1).toNat = byte.toNat + 1 := successor_toNat less
        cases upperBound rest with
        | some upper =>
          simp [compare_toNat, Nat.compare_eq_gt.mpr less, different]
        | none =>
          have below : byte ≠ 0xFF := below_full less
          simp only [below, ↓reduceIte, compare_cons, compare_toNat first, room, different,
            false_and, iff_false, Bool.and_eq_true, not_and, Bool.not_eq_true]
          intro _
          rcases Nat.lt_or_eq_of_le (Nat.succ_le_of_lt less) with further | next
          · rw [Nat.compare_eq_gt.mpr further]
            rfl
          · rw [Nat.compare_eq_eq.mpr next.symm]
            cases tail <;> simp
      · have same : byte = first := UInt8.toNat_inj.mp equal
        subst same
        have itself : compare byte byte = .eq := by simp
        cases upper : upperBound rest with
        | some upper => simpa [upper, compare_cons, itself] using bounded
        | none =>
          by_cases full : byte = 0xFF
          · simpa [upper, full] using bounded
          have next : compare byte (byte + 1) = .lt := by
            rw [compare_toNat, Nat.compare_eq_lt]
            have limit := byte.toNat_lt
            have short : byte.toNat ≠ 255 := fun top => full (UInt8.toNat_inj.mp top)
            rw [UInt8.toNat_add]
            have literal : (1 : UInt8).toNat = 1 := rfl
            omega
          simpa [upper, full, compare_cons, itself, next] using bounded
      · have different : byte ≠ first := by
          intro same
          exact absurd (congrArg UInt8.toNat same) (by omega)
        simp [compare_toNat, Nat.compare_eq_gt.mpr more, different]

theorem upperBound_concat (front : Bytes) (last : UInt8) (room : last ≠ 0xFF) :
    upperBound (front ++ [last]) = some (front ++ [last + 1]) := by
  simp [upperBound, room]

/-- The keys below the end of the range of `stop` are those below `stop` and
those that start with it. -/
theorem below_upperBound {stop upper : Bytes} (bound : upperBound stop = some upper)
    (key : Bytes) :
    (compare key upper).isLT = true ↔ compare key stop = .lt ∨ stop <+: key := by
  have range : ∀ other, stop <+: other ↔
      (compare stop other).isLE = true ∧ (compare other upper).isLT = true := by
    intro other
    rw [← inRange_iff, inRange, bound, Bool.and_eq_true]
  constructor
  · intro below
    cases order : compare key stop with
    | lt => exact Or.inl rfl
    | eq =>
      right
      rw [Std.LawfulEqOrd.eq_of_compare order]
    | gt =>
      right
      refine (range key).mpr ⟨?_, below⟩
      rw [Std.OrientedOrd.eq_swap (a := stop) (b := key), order]
      rfl
  · rintro (less | leads)
    · have inside := ((range stop).mp (List.prefix_refl stop)).2
      have next : compare stop upper = .lt := by
        cases order : compare stop upper with
        | lt => rfl
        | eq | gt => rw [order] at inside; cases inside
      rw [Std.TransCmp.lt_trans less next]
      rfl
    · exact ((range key).mp leads).2

end Bongo.ByteKeys
