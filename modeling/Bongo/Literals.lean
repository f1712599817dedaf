import Bongo.ByteKeys

/-!
Numbers and binary data written as text: signed decimals of 64 bits, and the base32
and base64 encodings without padding.
-/

namespace Bongo.Literals

open ByteKeys

def parseInt (text : Bytes) : Option Int :=
  let digits := match text with
    | 43 :: rest | 45 :: rest => rest
    | _ => text
  if digits = [] ∨ ¬ digits.all (fun byte => 48 ≤ byte && byte ≤ 57) then none
  else
    let number : Int := if text.head? = some 45 then -(readDecimal digits : Int)
      else readDecimal digits
    if -2 ^ 63 ≤ number ∧ number < 2 ^ 63 then some number else none

def formatNat (number : Nat) : Bytes := decimal (Nat.log 10 number + 1) number

def formatInt (number : Int) : Bytes :=
  if number < 0 then 45 :: formatNat number.natAbs else formatNat number.natAbs

theorem readDecimal_formatNat (number : Nat) : readDecimal (formatNat number) = number :=
  readDecimal_decimal _ number (Nat.lt_pow_succ_log_self (by decide) number)

theorem mem_formatInt {number : Int} {byte : UInt8} (member : byte ∈ formatInt number) :
    byte = 45 ∨ 48 ≤ byte.toNat ∧ byte.toNat ≤ 57 := by
  unfold formatInt at member
  split at member
  · rcases List.mem_cons.mp member with sign | digits
    · exact Or.inl sign
    · exact Or.inr (mem_decimal _ _ byte digits)
  · exact Or.inr (mem_decimal _ _ byte member)

theorem formatNat_ne_minus (number : Nat) (rest : Bytes) : formatNat number ≠ 45 :: rest := by
  intro same
  have member : 45 ∈ formatNat number := same ▸ List.mem_cons_self
  exact absurd (mem_decimal _ _ 45 member).1 (by decide)

theorem formatInt_inj {left right : Int} (same : formatInt left = formatInt right) :
    left = right := by
  have back : ∀ {first second : Nat}, formatNat first = formatNat second → first = second := by
    intro first second texts
    rw [← readDecimal_formatNat first, texts, readDecimal_formatNat]
  unfold formatInt at same
  split at same <;> split at same
  · have sizes := back (List.cons.inj same).2
    omega
  · exact (formatNat_ne_minus _ _ same.symm).elim
  · exact (formatNat_ne_minus _ _ same).elim
  · have sizes := back same
    omega

def bitsOf : Nat → Nat → List Bool
  | 0, _ => []
  | width + 1, number => bitsOf width (number / 2) ++ [decide (number % 2 = 1)]

def numberOf (bits : List Bool) : Nat :=
  bits.foldl (fun number bit => 2 * number + bit.toNat) 0

/-- The bits in groups of `size`; the last one can be shorter. -/
def groups (size : Nat) : Nat → List Bool → List (List Bool)
  | 0, _ => []
  | _ + 1, [] => []
  | rounds + 1, bits => bits.take size :: groups size rounds (bits.drop size)

def padTo (size : Nat) (group : List Bool) : List Bool :=
  group ++ List.replicate (size - group.length) false

def symbol (alphabet : Bytes) (group : List Bool) : UInt8 := alphabet.getD (numberOf group) 0

def symbols (alphabet : Bytes) (width : Nat) (bits : List Bool) : Bytes :=
  (groups width bits.length bits).map fun group => symbol alphabet (padTo width group)

def octets (bits : List Bool) : Bytes :=
  ((groups 8 bits.length bits).filter fun group => group.length = 8).map fun group =>
    UInt8.ofNat (numberOf group)

def encodeText (alphabet : Bytes) (width : Nat) (data : Bytes) : Bytes :=
  symbols alphabet width (data.flatMap fun byte => bitsOf 8 byte.toNat)

/-- Line ends are skipped; a byte outside the alphabet is an error. -/
def valuesOf (alphabet text : Bytes) : Option (List Nat) :=
  (text.filter fun byte => byte ≠ 10 ∧ byte ≠ 13).mapM fun byte => alphabet.idxOf? byte

def octetsOf (width : Nat) (values : List Nat) : Bytes :=
  octets (values.flatMap fun value => bitsOf width value)

theorem mem_encodeText {alphabet data : Bytes} {width : Nat} {byte : UInt8}
    (member : byte ∈ encodeText alphabet width data) : byte ∈ alphabet ∨ byte = 0 := by
  obtain ⟨group, -, rfl⟩ := List.mem_map.mp member
  rw [symbol, List.getD_eq_getElem?_getD]
  cases found : alphabet[numberOf (padTo width group)]? with
  | none => exact Or.inr rfl
  | some symbol => exact Or.inl (List.mem_of_getElem? found)

theorem numberOf_append (bits : List Bool) (bit : Bool) :
    numberOf (bits ++ [bit]) = 2 * numberOf bits + bit.toNat := by
  rw [numberOf, List.foldl_append]
  rfl

theorem numberOf_lt (bits : List Bool) : numberOf bits < 2 ^ bits.length := by
  induction bits using List.reverseRecOn with
  | nil => exact Nat.one_pos
  | append_singleton bits bit ih =>
    rw [numberOf_append, List.length_append, List.length_singleton, pow_succ]
    have small := Bool.toNat_lt bit
    omega

theorem bitsOf_numberOf (bits : List Bool) : bitsOf bits.length (numberOf bits) = bits := by
  induction bits using List.reverseRecOn with
  | nil => rfl
  | append_singleton bits bit ih =>
    have half : (2 * numberOf bits + bit.toNat) / 2 = numberOf bits := by
      have small := Bool.toNat_lt bit
      omega
    have last : decide ((2 * numberOf bits + bit.toNat) % 2 = 1) = bit := by
      cases bit <;> simp [Nat.add_mod]
    rw [numberOf_append, List.length_append, List.length_singleton, bitsOf, half, ih, last]

theorem bitsOf_length (width number : Nat) : (bitsOf width number).length = width := by
  induction width generalizing number with
  | zero => rfl
  | succ width ih => rw [bitsOf, List.length_append, ih, List.length_singleton]

theorem numberOf_bitsOf {width number : Nat} (bound : number < 2 ^ width) :
    numberOf (bitsOf width number) = number := by
  induction width generalizing number with
  | zero => exact (Nat.lt_one_iff.mp bound).symm
  | succ width ih =>
    rw [pow_succ] at bound
    rw [bitsOf, numberOf_append, ih (by omega)]
    by_cases odd : number % 2 = 1
    · simp only [odd, decide_true, Bool.toNat_true]
      omega
    · simp only [odd, decide_false, Bool.toNat_false]
      omega

theorem bits_of_data_inj {left right : Bytes}
    (same : (left.flatMap fun byte => bitsOf 8 byte.toNat) =
      right.flatMap fun byte => bitsOf 8 byte.toNat) : left = right := by
  induction left generalizing right with
  | nil =>
    cases right with
    | nil => rfl
    | cons byte rest =>
      have lengths := congrArg List.length same
      simp only [List.flatMap_nil, List.flatMap_cons, List.length_append, bitsOf_length,
        List.length_nil] at lengths
      omega
  | cons byte rest ih =>
    cases right with
    | nil =>
      have lengths := congrArg List.length same
      simp only [List.flatMap_nil, List.flatMap_cons, List.length_append, bitsOf_length,
        List.length_nil] at lengths
      omega
    | cons other more =>
      rw [List.flatMap_cons, List.flatMap_cons] at same
      obtain ⟨heads, tails⟩ := List.append_inj same
        ((bitsOf_length 8 _).trans (bitsOf_length 8 _).symm)
      have numbers := congrArg numberOf heads
      rw [numberOf_bitsOf byte.toNat_lt, numberOf_bitsOf other.toNat_lt] at numbers
      rw [UInt8.toNat_inj.mp numbers, ih tails]

theorem groups_nil (size rounds : Nat) : groups size rounds [] = [] := by
  cases rounds <;> rfl

/-- The groups, each filled up, are the bits and less than one group of zeros. -/
theorem groups_padded {size : Nat} (positive : 0 < size) (rounds : Nat) (bits : List Bool)
    (enough : bits.length ≤ rounds) :
    (∀ group ∈ groups size rounds bits, (padTo size group).length = size) ∧
      ∃ pad < size, ((groups size rounds bits).map (padTo size)).flatten =
        bits ++ List.replicate pad false := by
  induction rounds generalizing bits with
  | zero =>
    obtain rfl := List.length_eq_zero_iff.mp (Nat.le_zero.mp enough)
    exact ⟨nofun, 0, positive, rfl⟩
  | succ rounds ih =>
    cases bits with
    | nil => exact ⟨nofun, 0, positive, rfl⟩
    | cons bit rest =>
      rw [List.length_cons] at enough
      have split : groups size (rounds + 1) (bit :: rest) =
          (bit :: rest).take size :: groups size rounds ((bit :: rest).drop size) := rfl
      have shorter : ((bit :: rest).drop size).length ≤ rounds := by
        rw [List.length_drop, List.length_cons]
        omega
      obtain ⟨full, pad, small, joined⟩ := ih ((bit :: rest).drop size) shorter
      rw [split]
      constructor
      · intro group member
        rcases List.mem_cons.mp member with rfl | later
        · rw [padTo, List.length_append, List.length_replicate, List.length_take]
          omega
        · exact full group later
      · by_cases last : (bit :: rest).length ≤ size
        · refine ⟨size - (bit :: rest).length, by rw [List.length_cons]; omega, ?_⟩
          rw [List.take_of_length_le last, List.drop_of_length_le last, groups_nil]
          simp [padTo]
        refine ⟨pad, small, ?_⟩
        have whole : padTo size ((bit :: rest).take size) = (bit :: rest).take size := by
          rw [padTo, List.length_take, Nat.min_eq_left (by omega), Nat.sub_self]
          exact List.append_nil _
        rw [List.map_cons, List.flatten_cons, whole, joined, ← List.append_assoc,
          List.take_append_drop]

/-- What a text was encoded from can be read off it. -/
theorem encodeText_injective {alphabet : Bytes} {width : Nat} (distinct : alphabet.Nodup)
    (size : alphabet.length = 2 ^ width) (positive : 0 < width) (narrow : width ≤ 8) :
    Function.Injective (encodeText alphabet width) := by
  -- The bits behind a text, up to a few zeros at the end.
  have behind : ∀ bits : List Bool, ∃ pad < width,
      (((symbols alphabet width bits).map fun byte => bitsOf width (alphabet.idxOf byte)).flatten) =
        bits ++ List.replicate pad false := by
    intro bits
    obtain ⟨full, pad, small, joined⟩ := groups_padded positive bits.length bits (le_refl _)
    refine ⟨pad, small, ?_⟩
    rw [← joined, symbols, List.map_map]
    congr 1
    apply List.map_congr_left
    intro group member
    have length := full group member
    have inside : numberOf (padTo width group) < alphabet.length := by
      have bound := numberOf_lt (padTo width group)
      rw [length] at bound
      exact size ▸ bound
    have place : alphabet.idxOf (symbol alphabet (padTo width group)) =
        numberOf (padTo width group) := by
      rw [symbol, List.getD_eq_getElem _ _ inside, distinct.idxOf_getElem]
    rw [Function.comp_apply, place]
    have back := bitsOf_numberOf (padTo width group)
    rw [length] at back
    exact back
  intro left right same
  apply bits_of_data_inj
  obtain ⟨leftPad, leftSmall, leftBits⟩ := behind (left.flatMap fun byte => bitsOf 8 byte.toNat)
  obtain ⟨rightPad, rightSmall, rightBits⟩ := behind (right.flatMap fun byte => bitsOf 8 byte.toNat)
  have equal : (left.flatMap fun byte => bitsOf 8 byte.toNat) ++ List.replicate leftPad false =
      (right.flatMap fun byte => bitsOf 8 byte.toNat) ++ List.replicate rightPad false := by
    rw [← leftBits, ← rightBits]
    exact congrArg (fun text => (text.map fun byte => bitsOf width (alphabet.idxOf byte)).flatten)
      same
  have octet : ∀ data : Bytes, (data.flatMap fun byte => bitsOf 8 byte.toNat).length =
      8 * data.length := by
    intro data
    induction data with
    | nil => rfl
    | cons byte rest ih =>
      rw [List.flatMap_cons, List.length_append, ih, bitsOf_length, List.length_cons]
      omega
  have lengths := congrArg List.length equal
  rw [List.length_append, List.length_append, List.length_replicate, List.length_replicate,
    octet, octet] at lengths
  exact (List.append_inj equal (by rw [octet, octet]; omega)).1

def base32Alphabet : Bytes := ascii "ABCDEFGHIJKLMNOPQRSTUVWXYZ234567"

def encodeBase32 (data : Bytes) : Bytes := encodeText base32Alphabet 5 data

/-- A last group of one, three or six symbols does not make up a whole number of bytes;
the decoder drops it without an error. -/
def decodeBase32 (text : Bytes) : Option Bytes :=
  (valuesOf base32Alphabet text).map fun values =>
    let last := values.length % 8
    octetsOf 5 (values.take (if last ∈ [1, 3, 6] then values.length - last else values.length))

def base64Alphabet : Bytes :=
  ascii "ABCDEFGHIJKLMNOPQRSTUVWXYZabcdefghijklmnopqrstuvwxyz0123456789-_"

def encodeBase64 (data : Bytes) : Bytes := encodeText base64Alphabet 6 data

/-- A last group of one symbol is an error; the bits left over are not looked at. -/
def decodeBase64 (text : Bytes) : Option Bytes :=
  (valuesOf base64Alphabet text).bind fun values =>
    if values.length % 4 = 1 then none else some (octetsOf 6 values)

theorem encodeBase64_injective : Function.Injective encodeBase64 :=
  encodeText_injective (by decide) (by decide) (by decide) (by decide)

example : encodeBase64 (ascii "bongo") = ascii "Ym9uZ28" := by decide

example : decodeBase64 (ascii "Ym9uZ28") = some (ascii "bongo") := by decide

/-! Hexadecimal text. -/

def hexDigit (value : UInt8) : UInt8 := if value < 10 then 48 + value else 87 + value

def encodeHex (data : Bytes) : Bytes :=
  data.flatMap fun byte => [hexDigit (byte / 16), hexDigit (byte % 16)]

end Bongo.Literals
