import Bongo.ByteSearch
import Bongo.ImapParts

/-!
BODY[section]<offset.size>. The end of a window is computed in 64-bit arithmetic before it is
compared with the length of the section, so a window may end before it begins.
-/

namespace Bongo.ImapParts

open ByteKeys

inductive PartSpecifier where
  | none
  | header
  | text
  | mime
  deriving DecidableEq

structure SectionPartial where
  offset : Int64
  size : Int64
  deriving DecidableEq

structure FetchItemBodySection where
  specifier : PartSpecifier
  part : List Int
  window : Option SectionPartial
  deriving DecidableEq

/-- Without an empty line the whole message is the header. -/
def sectionContent (parse : Bytes → Option Envelope) (item : FetchItemBodySection)
    (rawMsg : Bytes) : Bytes :=
  let headerEnd := (index (ascii "\r\n\r\n") rawMsg).map (· + 4)
  match item.specifier with
  | .header => (headerEnd.map rawMsg.take).getD rawMsg
  | .text => (headerEnd.map rawMsg.drop).getD []
  | _ => if item.part = [] then rawMsg else bodySection (parse rawMsg) item.part

/-- `content[start:stop]`; a slice that is out of range panics. -/
def sliceAt (content : Bytes) (start stop : Int) : Option Bytes :=
  if 0 ≤ start ∧ start ≤ stop ∧ stop ≤ content.length then
    some (slice content start.toNat stop.toNat)
  else none

def writeBodySection (parse : Bytes → Option Envelope) (item : FetchItemBodySection)
    (rawMsg : Bytes) : Option Bytes :=
  let content := sectionContent parse item rawMsg
  match item.window with
  | none => some content
  | some ⟨offset, size⟩ =>
    if content.length ≤ offset.toInt then some []
    else
      let stop := (offset + size).toInt
      sliceAt content offset.toInt (if content.length < stop then content.length else stop)

section Windows

variable (parse : Bytes → Option Envelope) (item : FetchItemBodySection) (rawMsg : Bytes)

def request (offset size : Int64) : Option Bytes :=
  writeBodySection parse { item with window := some ⟨offset, size⟩ } rawMsg

/-- The window holds what it should, computed without a bound on the numbers. -/
def Exact (offset size : Int64) : Prop :=
  let content := sectionContent parse item rawMsg
  request parse item rawMsg offset size =
    some (slice content (min offset.toInt.toNat content.length)
      (min (offset.toInt.toNat + size.toInt.toNat) content.length))

/-- The windows of the given sizes, one after the other. -/
def requests : Nat → List Nat → Option Bytes
  | _, [] => some []
  | offset, size :: rest => do
    let here ← request parse item rawMsg (.ofNat offset) (.ofNat size)
    let later ← requests (offset + size) rest
    return here ++ later

variable (small : (sectionContent parse item rawMsg).length < 2 ^ 63)
include small

theorem exact_iff {offset size : Int64} (start : 0 ≤ offset.toInt) (positive : 0 ≤ size.toInt) :
    Exact parse item rawMsg offset size ↔
      (sectionContent parse item rawMsg).length ≤ offset.toInt ∨
        offset.toInt + size.toInt < 2 ^ 63 := by
  have below := offset.toInt_lt
  have bounded := size.toInt_lt
  have same : sectionContent parse { item with window := some ⟨offset, size⟩ } rawMsg =
      sectionContent parse item rawMsg := rfl
  simp only [Exact, request, writeBodySection, same, Int64.toInt_add]
  generalize sectionContent parse item rawMsg = content at small
  split
  case isTrue past =>
    rw [Nat.min_eq_right (by omega), Nat.min_eq_right (by omega), slice, List.take_length,
      List.drop_length]
    exact iff_of_true rfl (.inl past)
  case isFalse inside =>
    rw [Nat.min_eq_left (by omega), or_iff_right inside, sliceAt]
    by_cases fits : offset.toInt + size.toInt < 2 ^ 63
    · rw [Int.bmod_eq_of_le (by omega) (by omega), iff_true_right fits, if_pos (by omega)]
      split
      case isTrue long => rw [Nat.min_eq_right (by omega), Int.toNat_natCast]
      case isFalse short => rw [Nat.min_eq_left (by omega), Int.toNat_add start positive]
    · -- the sum wraps to a negative end
      have wraps : (offset.toInt + size.toInt).bmod (2 ^ 64) =
          offset.toInt + size.toInt - 2 ^ 64 := by
        rw [Int.bmod_def]
        omega
      rw [wraps, if_neg (by omega)]
      exact iff_of_false (by simp) fits

theorem requests_eq {offset : Nat} {sizes : List Nat} (bound : offset + sizes.sum < 2 ^ 63) :
    requests parse item rawMsg offset sizes =
      some (((sectionContent parse item rawMsg).drop offset).take sizes.sum) := by
  induction sizes generalizing offset with
  | nil => simp [requests]
  | cons size rest ih =>
    rw [List.sum_cons] at bound ⊢
    have start : (Int64.ofNat offset).toInt = offset := Int64.toInt_ofNat_of_lt (by omega)
    have length : (Int64.ofNat size).toInt = size := Int64.toInt_ofNat_of_lt (by omega)
    have here := (exact_iff parse item rawMsg small (by omega) (by omega)).mpr
      (.inr (show (Int64.ofNat offset).toInt + (Int64.ofNat size).toInt < 2 ^ 63 by omega))
    rw [Exact, start, length, Int.toNat_natCast, Int.toNat_natCast, slice,
      ← List.take_eq_take_min] at here
    rw [requests, here, ih (by omega)]
    generalize sectionContent parse item rawMsg = content
    have window : (content.take (offset + size)).drop (min offset content.length) =
        (content.drop offset).take size := by
      by_cases inside : offset ≤ content.length
      · rw [Nat.min_eq_left inside, List.drop_take, Nat.add_sub_cancel_left]
      · rw [List.take_of_length_le (by omega), Nat.min_eq_right (by omega), List.drop_length,
          List.drop_of_length_le (by omega), List.take_nil]
    rw [window, List.take_add, List.drop_drop]
    rfl

/-- A window is exact where its end can be represented or it begins past the section, and
only there. Windows of representable ends make up the section, header and text the message. -/
theorem windows_exact_iff :
    (∀ offset size : Int64, 0 ≤ offset.toInt → 0 ≤ size.toInt →
      (Exact parse item rawMsg offset size ↔
        (sectionContent parse item rawMsg).length ≤ offset.toInt ∨
          offset.toInt + size.toInt < 2 ^ 63)) ∧
      (∀ sizes : List Nat, (sectionContent parse item rawMsg).length ≤ sizes.sum →
        sizes.sum < 2 ^ 63 →
        requests parse item rawMsg 0 sizes = some (sectionContent parse item rawMsg)) ∧
      ∃ header text, writeBodySection parse ⟨.header, [], none⟩ rawMsg = some header ∧
        writeBodySection parse ⟨.text, [], none⟩ rawMsg = some text ∧ header ++ text = rawMsg := by
  refine ⟨fun _ _ => exact_iff parse item rawMsg small, ?_, _, _, rfl, rfl, ?_⟩
  · intro sizes long bound
    rw [requests_eq parse item rawMsg small (by rwa [Nat.zero_add]), List.drop_zero,
      List.take_of_length_le long]
  · simp only [sectionContent]
    cases index (ascii "\r\n\r\n") rawMsg with
    | none => exact List.append_nil rawMsg
    | some idx => exact List.take_append_drop (idx + 4) rawMsg

end Windows

def wholeMessage : FetchItemBodySection := ⟨.none, [], none⟩

theorem windows_exact_iff_short :
    requests (fun _ => none) wholeMessage (ascii "To: a") 0 [3, 4] = some (ascii "To: a") :=
  (windows_exact_iff (fun _ => none) wholeMessage (ascii "To: a") (by decide)).2.1 [3, 4]
    (by decide) (by decide)

/-- BODY[]<1.9223372036854775807> panics. -/
theorem window_out_of_range :
    request (fun _ => none) wholeMessage (ascii "To: a") 1 9223372036854775807 = none := by
  decide

end Bongo.ImapParts
