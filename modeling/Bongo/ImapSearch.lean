import Bongo.Mailbox
import Bongo.Runes

/-!
IMAP SEARCH without the full-text index. A criteria tree is evaluated twice: once with all its
tests, if it has a text test at all, and once more as a filter that looks at flags and dates
only and takes every text test as passed. Under an odd number of negations that second reading
is the stricter one.
-/

namespace Bongo.ImapSearch

open ByteKeys Records Mailbox Runes

/-- `time.Time`: seconds since the year one and nanoseconds; the zero time means no bound. -/
structure Time where
  seconds : Int64
  nanoseconds : Nat
  deriving DecidableEq

def Time.isZero (time : Time) : Bool := time.seconds = 0 ∧ time.nanoseconds = 0

def Time.before (time other : Time) : Bool :=
  time.seconds < other.seconds ∨ time.seconds = other.seconds ∧ time.nanoseconds < other.nanoseconds

def unixTime (seconds : Int64) : Time := ⟨seconds + 62135596800, 0⟩

structure Leaves where
  flag : List Bytes := []
  notFlag : List Bytes := []
  since : Time := ⟨0, 0⟩
  before : Time := ⟨0, 0⟩
  header : List (Bytes × Bytes) := []
  body : List Bytes := []
  text : List Bytes := []

inductive SearchCriteria where
  | node (leaves : Leaves) (not : List SearchCriteria) (or : List (SearchCriteria × SearchCriteria))

def hasText (leaves : Leaves) : Bool :=
  leaves.header ≠ [] || leaves.body ≠ [] || leaves.text ≠ []

def hasDates (leaves : Leaves) : Bool := !leaves.since.isZero || !leaves.before.isZero

mutual

def hasTextCriteria : SearchCriteria → Bool
  | .node leaves not or =>
    hasText leaves || hasDates leaves || anyHasText not || pairHasText or

def anyHasText : List SearchCriteria → Bool
  | [] => false
  | first :: rest => hasTextCriteria first || anyHasText rest

def pairHasText : List (SearchCriteria × SearchCriteria) → Bool
  | [] => false
  | (left, right) :: rest => hasTextCriteria left || hasTextCriteria right || pairHasText rest

end

section Evaluators

mutual

/-- Both evaluators walk the tree in this way and differ in the tests of a node. -/
def evaluate (test : Leaves → Bool) : SearchCriteria → Bool
  | .node leaves not or => test leaves && evaluateNot test not && evaluateOr test or

def evaluateNot (test : Leaves → Bool) : List SearchCriteria → Bool
  | [] => true
  | first :: rest => !evaluate test first && evaluateNot test rest

def evaluateOr (test : Leaves → Bool) : List (SearchCriteria × SearchCriteria) → Bool
  | [] => true
  | (left, right) :: rest => (evaluate test left || evaluate test right) && evaluateOr test rest

end

def hasFlag (flags : UInt32) (flag : Bytes) : Bool :=
  if flag = ascii "\\Seen" then flags &&& flagSeen ≠ 0
  else if flag = ascii "\\Answered" then flags &&& flagAnswered ≠ 0
  else if flag = ascii "\\Flagged" then flags &&& flagFlagged ≠ 0
  else if flag = ascii "\\Deleted" then flags &&& flagDeleted ≠ 0
  else if flag = ascii "\\Draft" then flags &&& flagDraft ≠ 0
  else false

def flagTest (flags : UInt32) (internalDate : Int64) (leaves : Leaves) : Bool :=
  leaves.flag.all (hasFlag flags) && leaves.notFlag.all (fun flag => !hasFlag flags flag) &&
    !(!leaves.since.isZero && (unixTime internalDate).before leaves.since) &&
    !(!leaves.before.isZero && !(unixTime internalDate).before leaves.before)

/-- `load` has the raw message of a guid, unless it cannot be read. -/
structure Session where
  table : CaseTable
  load : Bytes → Option Bytes

variable (session : Session)

def containsFold (raw value : Bytes) : Bool :=
  (ByteKeys.index (session.table.lowerText value) (session.table.lowerText raw)).isSome

def textTest (guid : Bytes) (leaves : Leaves) : Bool :=
  if hasText leaves then
    match session.load guid with
    | none => false
    | some raw =>
      leaves.header.all (fun field => containsFold session raw field.2) &&
        leaves.body.all (containsFold session raw) && leaves.text.all (containsFold session raw)
  else true

def leafTest (msg : MailboxMessage) (leaves : Leaves) : Bool :=
  flagTest msg.flags msg.internalDate leaves && textTest session msg.mailGuid leaves

def matchesCriteria (msg : MailboxMessage) (criteria : SearchCriteria) : Bool :=
  evaluate (leafTest session msg) criteria

def matchesFlagCriteria (flags : UInt32) (internalDate : Int64) (criteria : SearchCriteria) :
    Bool :=
  evaluate (flagTest flags internalDate) criteria

/-- `index` has the guids the full-text index found, if it was asked and answered. -/
def keeps (index : Option (List Bytes)) (criteria : SearchCriteria) (msg : MailboxMessage) : Bool :=
  (match index with
    | some guids => guids.contains msg.mailGuid
    | none => if hasTextCriteria criteria then matchesCriteria session msg criteria else true) &&
  matchesFlagCriteria msg.flags msg.internalDate criteria

def search (index : Option (List Bytes)) (criteria : SearchCriteria)
    (msgs : List MailboxMessage) : List UInt32 :=
  (msgs.filter (keeps session index criteria)).map MailboxMessage.uid

end Evaluators

mutual

/-- The tree is true: the tests of the node pass, no negated tree is true, and of each pair
one is. -/
def SearchCriteria.Holds (test : Leaves → Prop) : SearchCriteria → Prop
  | .node leaves not or => test leaves ∧ NoneHolds test not ∧ PairsHold test or

def NoneHolds (test : Leaves → Prop) : List SearchCriteria → Prop
  | [] => True
  | first :: rest => ¬ first.Holds test ∧ NoneHolds test rest

def PairsHold (test : Leaves → Prop) : List (SearchCriteria × SearchCriteria) → Prop
  | [] => True
  | (left, right) :: rest => (left.Holds test ∨ right.Holds test) ∧ PairsHold test rest

end

mutual

theorem evaluate_iff (test : Leaves → Bool) : ∀ criteria : SearchCriteria,
    evaluate test criteria = true ↔ criteria.Holds fun leaves => test leaves = true
  | .node leaves not or => by
      rw [evaluate, SearchCriteria.Holds, Bool.and_eq_true, Bool.and_eq_true, and_assoc,
        evaluateNot_iff test not, evaluateOr_iff test or]

theorem evaluateNot_iff (test : Leaves → Bool) : ∀ criteria : List SearchCriteria,
    evaluateNot test criteria = true ↔ NoneHolds (fun leaves => test leaves = true) criteria
  | [] => by simp [evaluateNot, NoneHolds]
  | first :: rest => by
      rw [evaluateNot, NoneHolds, Bool.and_eq_true, evaluateNot_iff test rest,
        Bool.not_eq_true', ← Bool.not_eq_true, evaluate_iff test first]

theorem evaluateOr_iff (test : Leaves → Bool) :
    ∀ pairs : List (SearchCriteria × SearchCriteria),
    evaluateOr test pairs = true ↔ PairsHold (fun leaves => test leaves = true) pairs
  | [] => by simp [evaluateOr, PairsHold]
  | (left, right) :: rest => by
      rw [evaluateOr, PairsHold, Bool.and_eq_true, Bool.or_eq_true, evaluateOr_iff test rest,
        evaluate_iff test left, evaluate_iff test right]

end

section Sides

mutual

/-- Every text test stands under an even number of negations, or under an odd one. -/
def Sided (even : Bool) : SearchCriteria → Prop
  | .node leaves not or => (even = true ∨ hasText leaves = false) ∧ SidedAll (!even) not ∧
      SidedPairs even or

def SidedAll (even : Bool) : List SearchCriteria → Prop
  | [] => True
  | first :: rest => Sided even first ∧ SidedAll even rest

def SidedPairs (even : Bool) : List (SearchCriteria × SearchCriteria) → Prop
  | [] => True
  | (left, right) :: rest => Sided even left ∧ Sided even right ∧ SidedPairs even rest

end

/-- The direction in which the reading without text tests errs. -/
def Errs (even : Bool) (full flags : Prop) : Prop := if even then full → flags else flags → full

theorem Errs.not {even : Bool} {full flags : Prop} (errs : Errs (!even) full flags) :
    Errs even (¬ full) (¬ flags) := by
  cases even with
  | true | false => exact fun rejected accepted => rejected (errs accepted)

theorem Errs.and {even : Bool} {full flags more others : Prop} (first : Errs even full flags)
    (second : Errs even more others) : Errs even (full ∧ more) (flags ∧ others) := by
  cases even with
  | true | false => exact fun both => ⟨first both.1, second both.2⟩

theorem Errs.or {even : Bool} {full flags more others : Prop} (first : Errs even full flags)
    (second : Errs even more others) : Errs even (full ∨ more) (flags ∨ others) := by
  cases even with
  | true | false => exact fun either => either.imp first second

/-- The second reading of a node's tests is weaker, and the same where there is no text test. -/
def Weakens (full flags : Leaves → Prop) : Prop :=
  ∀ leaves, (full leaves → flags leaves) ∧ (hasText leaves = false → flags leaves → full leaves)

variable {full flags : Leaves → Prop}

mutual

theorem holds_errs (weaker : Weakens full flags) :
    ∀ (even : Bool) (criteria : SearchCriteria), Sided even criteria →
      Errs even (criteria.Holds full) (criteria.Holds flags)
  | even, .node leaves not or, ⟨own, negated, pairs⟩ => by
      have first : Errs even (full leaves) (flags leaves) := by
        cases even with
        | true => exact (weaker leaves).1
        | false => exact (weaker leaves).2 (own.resolve_left Bool.false_ne_true)
      exact first.and ((noneHolds_errs weaker even not negated).and
        (pairsHold_errs weaker even or pairs))

theorem noneHolds_errs (weaker : Weakens full flags) :
    ∀ (even : Bool) (criteria : List SearchCriteria), SidedAll (!even) criteria →
      Errs even (NoneHolds full criteria) (NoneHolds flags criteria)
  | even, [], _ => by
      cases even with
      | true | false => exact id
  | even, first :: rest, ⟨head, tail⟩ =>
    (holds_errs weaker (!even) first head).not.and (noneHolds_errs weaker even rest tail)

theorem pairsHold_errs (weaker : Weakens full flags) :
    ∀ (even : Bool) (pairs : List (SearchCriteria × SearchCriteria)), SidedPairs even pairs →
      Errs even (PairsHold full pairs) (PairsHold flags pairs)
  | even, [], _ => by
      cases even with
      | true | false => exact id
  | even, (left, right) :: rest, ⟨first, second, tail⟩ =>
    ((holds_errs weaker even left first).or (holds_errs weaker even right second)).and
      (pairsHold_errs weaker even rest tail)

end

mutual

theorem sided_of_no_text : ∀ (even : Bool) (criteria : SearchCriteria),
    hasTextCriteria criteria = false → Sided even criteria
  | even, .node leaves not or, plain => by
      simp only [hasTextCriteria, Bool.or_eq_false_iff] at plain
      obtain ⟨⟨⟨text, -⟩, negated⟩, pairs⟩ := plain
      exact ⟨Or.inr text, sidedAll_of_no_text (!even) not negated,
        sidedPairs_of_no_text even or pairs⟩

theorem sidedAll_of_no_text : ∀ (even : Bool) (criteria : List SearchCriteria),
    anyHasText criteria = false → SidedAll even criteria
  | _, [], _ => trivial
  | even, first :: rest, plain => by
      simp only [anyHasText, Bool.or_eq_false_iff] at plain
      exact ⟨sided_of_no_text even first plain.1, sidedAll_of_no_text even rest plain.2⟩

theorem sidedPairs_of_no_text : ∀ (even : Bool)
    (pairs : List (SearchCriteria × SearchCriteria)),
    pairHasText pairs = false → SidedPairs even pairs
  | _, [], _ => trivial
  | even, (left, right) :: rest, plain => by
      simp only [pairHasText, Bool.or_eq_false_iff] at plain
      exact ⟨sided_of_no_text even left plain.1.1, sided_of_no_text even right plain.1.2,
        sidedPairs_of_no_text even rest plain.2⟩

end

end Sides

section Searches

variable (session : Session)

/-- The message passes the tests of a node, or those of its flags and dates. -/
def Passes (msg : MailboxMessage) (leaves : Leaves) : Prop := leafTest session msg leaves = true

def FlagsPass (msg : MailboxMessage) (leaves : Leaves) : Prop :=
  flagTest msg.flags msg.internalDate leaves = true

theorem flagsPass_weakens (msg : MailboxMessage) :
    Weakens (Passes session msg) (FlagsPass msg) := by
  intro leaves
  refine ⟨fun passes => (Bool.and_eq_true_iff.mp passes).1, fun plain passes => ?_⟩
  refine Bool.and_eq_true_iff.mpr ⟨passes, ?_⟩
  rw [textTest, plain]
  rfl

theorem errs_of_sided (msg : MailboxMessage) {even : Bool} {criteria : SearchCriteria}
    (sided : Sided even criteria) :
    Errs even (criteria.Holds (Passes session msg)) (criteria.Holds (FlagsPass msg)) :=
  holds_errs (flagsPass_weakens session msg) even criteria sided

/-- Without the index a message is kept if the tree is true of it and also true with every
text test taken as passed. -/
theorem keeps_iff (criteria : SearchCriteria) (msg : MailboxMessage) :
    keeps session none criteria msg = true ↔
      criteria.Holds (Passes session msg) ∧ criteria.Holds (FlagsPass msg) := by
  have filtered : matchesFlagCriteria msg.flags msg.internalDate criteria = true ↔
      criteria.Holds (FlagsPass msg) := evaluate_iff _ criteria
  have matched : matchesCriteria session msg criteria = true ↔
      criteria.Holds (Passes session msg) := evaluate_iff _ criteria
  rw [keeps, Bool.and_eq_true, filtered]
  cases text : hasTextCriteria criteria with
  | true => rw [← matched]; rfl
  | false =>
    -- A tree without text tests errs in neither direction.
    have exact : criteria.Holds (FlagsPass msg) → criteria.Holds (Passes session msg) :=
      errs_of_sided session msg (sided_of_no_text false criteria text)
    constructor
    · rintro ⟨-, flags⟩
      exact ⟨exact flags, flags⟩
    · rintro ⟨-, flags⟩
      exact ⟨rfl, flags⟩

/-- The node has text tests and nothing else. -/
def TextOnly : SearchCriteria → Prop
  | .node leaves not or => leaves.flag = [] ∧ leaves.notFlag = [] ∧ hasDates leaves = false ∧
      not = [] ∧ or = []

theorem TextOnly.holds {only : SearchCriteria} (text : TextOnly only) (msg : MailboxMessage) :
    only.Holds (FlagsPass msg) := by
  obtain ⟨leaves, not, or⟩ := only
  obtain ⟨flag, notFlag, dates, rfl, rfl⟩ := text
  simp only [hasDates, Bool.or_eq_false_iff, Bool.not_eq_false'] at dates
  exact ⟨by simp [FlagsPass, flagTest, flag, notFlag, dates], trivial, trivial⟩

theorem not_noneHolds {test : Leaves → Prop} {criteria : List SearchCriteria}
    {one : SearchCriteria} (member : one ∈ criteria) (holds : one.Holds test) :
    ¬ NoneHolds test criteria := by
  induction criteria with
  | nil => cases member
  | cons first rest ih =>
    rintro ⟨rejected, others⟩
    rcases List.mem_cons.mp member with rfl | later
    · exact rejected holds
    · exact ih later others

def sampleSession : Session where
  table := asciiFolds.toCaseTable
  load _ := some (ascii "Subject: hello")

def notSpam : SearchCriteria := .node {} [.node { text := [ascii "spam"] } [] []] []

def helloMessage : MailboxMessage := ⟨1, ascii "m1", 0, 0, []⟩

/-- NOT NOT TEXT "hello" beside the flag test NOT \Seen. -/
def twiceNegated : SearchCriteria :=
  .node {} [.node {} [.node { text := [ascii "hello"] } [] []] [],
    .node { flag := [ascii "\\Seen"] } [] []] []

end Searches

end Bongo.ImapSearch
