import Bongo.ByteSearch

/-!
The keys of a user's mailbox tree. A mailbox name goes into its keys as it is,
hierarchy delimiters included, so the range scanned for one mailbox can hold
keys of another; `Encloses` says exactly when.
-/

namespace Bongo.MailboxKeys

open ByteKeys

/-- A user id: never empty and never a path of several segments (ids are
UUIDs). -/
structure UserID where
  bytes : Bytes
  nonempty : bytes ≠ []
  slashless : (47 : UInt8) ∉ bytes
  deriving DecidableEq

def mailboxPrefix (userID : Bytes) : Bytes := ascii "/user/" ++ (userID ++ ascii "/mailbox/")

def mailboxMetaKey (userID name : Bytes) : Bytes :=
  mailboxPrefix userID ++ (name ++ ascii "/meta")

def mailboxMsgPrefix (userID name : Bytes) : Bytes :=
  mailboxPrefix userID ++ (name ++ ascii "/msg/")

def mailboxMsgKey (userID name : Bytes) (uid : UInt32) : Bytes :=
  mailboxPrefix userID ++ (name ++ ascii "/msg/" ++ decimal 10 uid.toNat)

def mailMetaKey (userID guid : Bytes) : Bytes :=
  ascii "/user/" ++ (userID ++ (ascii "/mail/" ++ guid))

/-- `other` is `name/msg` or lies below it in the hierarchy. -/
def Encloses (name other : Bytes) : Prop := name ++ ascii "/msg/" <+: other ++ ascii "/"

instance (name other : Bytes) : Decidable (Encloses name other) :=
  inferInstanceAs (Decidable (name ++ ascii "/msg/" <+: other ++ ascii "/"))

variable (userID : Bytes)

theorem decimal_uid_inj {left right : UInt32}
    (same : decimal 10 left.toNat = decimal 10 right.toNat) : left = right := by
  have leftBound := left.toNat_lt
  have rightBound := right.toNat_lt
  exact UInt32.toNat_inj.mp (decimal_inj 10 _ _ (by omega) (by omega) same)

@[simp] theorem metaKey_inj (left right : Bytes) :
    mailboxMetaKey userID left = mailboxMetaKey userID right ↔ left = right := by
  simp [mailboxMetaKey]

@[simp] theorem msgKey_inj (left right : Bytes) (leftUid rightUid : UInt32) :
    mailboxMsgKey userID left leftUid = mailboxMsgKey userID right rightUid ↔
      left = right ∧ leftUid = rightUid := by
  constructor
  · intro same
    have tails := List.append_cancel_left same
    have parts := List.append_inj' tails (by simp)
    exact ⟨List.append_cancel_right parts.1, decimal_uid_inj parts.2⟩
  · rintro ⟨rfl, rfl⟩
    rfl

theorem decimal_concat (number : Nat) :
    decimal 10 number = decimal 9 (number / 10) ++ [digit number] := rfl

/-- A metadata key ends in a letter and a message key in a digit. -/
@[simp] theorem metaKey_ne_msgKey (left right : Bytes) (uid : UInt32) :
    mailboxMetaKey userID left ≠ mailboxMsgKey userID right uid := by
  intro same
  have tails := List.append_cancel_left same
  have ends : (left ++ ascii "/met") ++ [97] =
      (right ++ ascii "/msg/" ++ decimal 9 (uid.toNat / 10)) ++ [digit uid.toNat] := by
    rw [decimal_concat] at tails
    have letters : ascii "/meta" = ascii "/met" ++ [97] := by decide
    simpa [letters] using tails
  have last := (List.append_inj' ends rfl).2
  have value : (97 : UInt8).toNat = (digit uid.toNat).toNat := by
    rw [List.singleton_inj.mp last]
  rw [digit_toNat] at value
  have letter : (97 : UInt8).toNat = 97 := rfl
  omega

@[simp] theorem msgKey_ne_metaKey (left right : Bytes) (uid : UInt32) :
    mailboxMsgKey userID right uid ≠ mailboxMetaKey userID left :=
  Ne.symm (metaKey_ne_msgKey userID left right uid)

theorem mailboxPrefix_metaKey (name : Bytes) :
    mailboxPrefix userID <+: mailboxMetaKey userID name := List.prefix_append _ _

theorem mailboxPrefix_msgKey (name : Bytes) (uid : UInt32) :
    mailboxPrefix userID <+: mailboxMsgKey userID name uid := List.prefix_append _ _

/-- The mail tree is beside the mailbox tree, not in it. -/
theorem mailboxPrefix_mailMetaKey (guid : Bytes) :
    ¬ mailboxPrefix userID <+: mailMetaKey userID guid := by
  intro leads
  rw [mailboxPrefix, mailMetaKey, List.prefix_append_right_inj,
    List.prefix_append_right_inj] at leads
  obtain ⟨tail, same⟩ := leads
  have split : ascii "/mailbox/" = ascii "/mail" ++ (98 :: ascii "ox/") := by decide
  have other : ascii "/mail/" ++ guid = ascii "/mail" ++ (47 :: guid) := by rfl
  rw [split, other, List.append_assoc, List.append_cancel_left_eq, List.cons_append] at same
  exact absurd (List.cons_eq_cons.mp same).1 (by decide)

theorem user_unique {left right : UserID} {leftTail rightTail : Bytes}
    (same : ascii "/user/" ++ (left.bytes ++ 47 :: leftTail) =
      ascii "/user/" ++ (right.bytes ++ 47 :: rightTail)) : left = right := by
  have leftCut := cut_append 47 left.bytes leftTail left.slashless
  have rightCut := cut_append 47 right.bytes rightTail right.slashless
  rw [List.append_cancel_left same, rightCut] at leftCut
  have bytes : right.bytes = left.bytes := by
    simpa using congrArg (Option.map Prod.fst) leftCut
  cases left
  cases right
  simpa using bytes.symm

theorem mailboxPrefix_disjoint (left right : UserID) (key : Bytes)
    (inLeft : mailboxPrefix left.bytes <+: key) (inRight : mailboxPrefix right.bytes <+: key) :
    left = right := by
  obtain ⟨leftTail, leftKey⟩ := inLeft
  obtain ⟨rightTail, rightKey⟩ := inRight
  have same := leftKey.trans rightKey.symm
  simp only [mailboxPrefix, List.append_assoc] at same
  exact user_unique same

theorem mailboxPrefix_any_mail (left right : UserID) (guid : Bytes) :
    ¬ mailboxPrefix left.bytes <+: mailMetaKey right.bytes guid := by
  rintro leads
  obtain ⟨tail, same⟩ := leads
  have owner : left = right := by
    rw [mailboxPrefix, mailMetaKey, List.append_assoc, List.append_assoc] at same
    exact user_unique same
  subst owner
  exact mailboxPrefix_mailMetaKey left.bytes guid ⟨tail, same⟩

/-! What the range of one mailbox's messages holds. -/

/-- A lead that ends in a separator either ends no later than the separator
after `other`, or at a separator inside what follows. -/
theorem prefix_at_separator {lead other tail : Bytes}
    (leads : lead ++ [47] <+: other ++ [47] ++ tail) :
    lead ++ [47] <+: other ++ [47] ∨
      ∃ part rest, tail = part ++ 47 :: rest ∧ lead = other ++ 47 :: part := by
  rcases List.prefix_or_prefix_of_prefix leads (List.prefix_append _ _) with short | long
  · exact Or.inl short
  obtain ⟨extra, same⟩ := long
  rcases List.eq_nil_or_concat extra with rfl | ⟨part, last, rfl⟩
  · left
    rw [← same, List.append_nil]
  right
  have ends : (other ++ [47] ++ part) ++ [last] = lead ++ [47] := by simpa using same
  have parts := List.append_inj' ends rfl
  obtain ⟨rest, whole⟩ := leads
  refine ⟨part, rest, ?_, by simpa using parts.1.symm⟩
  rw [← parts.1] at whole
  simpa using whole.symm

theorem separator_notMem_decimal (width number : Nat) : (47 : UInt8) ∉ decimal width number := by
  intro member
  have low := (mem_decimal width number 47 member).1
  have slash : (47 : UInt8).toNat = 47 := rfl
  omega

theorem separator_unique {part rest word digits : Bytes} (wordPlain : (47 : UInt8) ∉ word)
    (digitsPlain : (47 : UInt8) ∉ digits)
    (same : word ++ 47 :: digits = part ++ 47 :: rest) : part = word := by
  have marks := congrArg (List.count 47) same
  simp only [List.count_append, List.count_cons_self, List.count_eq_zero.mpr wordPlain,
    List.count_eq_zero.mpr digitsPlain] at marks
  exact (append_mark_inj (List.count_eq_zero.mp (by omega)) wordPlain same.symm).1

theorem msgPrefix_metaKey_iff (name other : Bytes) :
    mailboxMsgPrefix userID name <+: mailboxMetaKey userID other ↔ Encloses name other := by
  rw [mailboxMsgPrefix, mailboxMetaKey, List.prefix_append_right_inj, Encloses]
  constructor
  · intro leads
    have shaped : (name ++ ascii "/msg") ++ [47] <+: other ++ [47] ++ ascii "meta" := by
      simpa [ascii] using leads
    rcases prefix_at_separator shaped with short | ⟨part, rest, letters, -⟩
    · simpa [ascii] using short
    · have inside : (47 : UInt8) ∈ ascii "meta" := by simp [letters]
      exact absurd inside (by decide)
  · intro leads
    exact leads.trans (by simp [ascii])

theorem msgPrefix_msgKey_iff (name other : Bytes) (uid : UInt32) :
    mailboxMsgPrefix userID name <+: mailboxMsgKey userID other uid ↔
      name = other ∨ Encloses name other := by
  rw [mailboxMsgPrefix, mailboxMsgKey, List.prefix_append_right_inj, Encloses]
  constructor
  · intro leads
    have shaped : (name ++ ascii "/msg") ++ [47] <+:
        other ++ [47] ++ (ascii "msg" ++ 47 :: decimal 10 uid.toNat) := by
      simpa [ascii] using leads
    rcases prefix_at_separator shaped with short | ⟨part, rest, split, same⟩
    · right
      simpa [ascii] using short
    left
    have word : part = ascii "msg" :=
      separator_unique (by decide) (separator_notMem_decimal _ _) split
    subst word
    exact List.append_cancel_right same
  · rintro (rfl | leads)
    · exact List.prefix_append _ _
    · exact leads.trans (by simp [ascii])

theorem Encloses.ne {name other : Bytes} (encloses : Encloses name other) : name ≠ other := by
  rintro rfl
  have sizes := encloses.length_le
  simp [ascii] at sizes

end Bongo.MailboxKeys
