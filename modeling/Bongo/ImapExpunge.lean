import Bongo.MailboxStore

/-!
EXPUNGE and UID EXPUNGE of an IMAP session. The session hands the command on without the
client's UIDs; the store lists the mailbox, and if a listed message carries `\Deleted` a
command is applied that lists it once more and removes what carries the flag. What a listing
reads is every record in the mailbox's key range.
-/

namespace Bongo.ImapExpunge

open ByteKeys KeyValue Records MailboxKeys Mailbox MailboxTree MailboxSteps MailboxStore

section Command

/-- A mailbox is selected, and the checks of the account and of a read-only selection
are passed. -/
structure Session where
  user : UserID
  selectedMailbox : Bytes
  selected : selectedMailbox ≠ []

variable (s : Session) (ps : PebbleStore)

def command : RaftCommand := (MailboxOp.expunge s.selectedMailbox).command s.user.bytes

/-- `MailboxStore.Expunge`: the store afterwards and the UIDs listed before. -/
def storeExpunge : PebbleStore × List UInt32 :=
  let msgs := listMessages ps s.user.bytes s.selectedMailbox
  let expunged := (msgs.filter markedDeleted).map MailboxMessage.uid
  if expunged = [] then (ps, [])
  else match applyMailboxExpunge ps (command s) with
    | .ok (after, _) => (after, expunged)
    | .error _ => (ps, expunged)

/-- `uids` is the set of a UID EXPUNGE. Neither this call nor those below read it. -/
def expunge (_uids : Option (UInt32 → Bool)) : PebbleStore := (storeExpunge s ps).1

end Command

variable {msg : MailboxMessage} {uid : UInt32}

section Listing

variable (ps : PebbleStore) (userID name : Bytes)

def InRange (msg : MailboxMessage) : Prop :=
  ∃ key value, mailboxMsgPrefix userID name <+: key ∧ get ps key = some value ∧
    value.unmarshal MailboxMessage = some msg

/-- Every record of the range is a message in the wire format. The metadata of a mailbox inside
the range is: it reads as a message with UID 0. -/
def Readable : Prop :=
  ∀ entry ∈ prefixScan ps (mailboxMsgPrefix userID name),
    (entry.2.unmarshal MailboxMessage).isSome = true

instance : Decidable (Readable ps userID name) := inferInstanceAs (Decidable (∀ _ ∈ _, _))

theorem mem_listMessages (msg : MailboxMessage) :
    msg ∈ listMessages ps userID name ↔ InRange ps userID name msg := by
  simp only [listMessages, List.mem_filterMap, Prod.exists, mem_prefixScan, InRange, and_assoc]

/-- The command's listing is the other one where every record reads, and fails where one does
not. -/
theorem listMailboxMessages_readable (readable : Readable ps userID name) :
    listMailboxMessages ps userID name = .ok (listMessages ps userID name) := by
  rw [listMailboxMessages, orError_ok]
  exact mapM_total _ _ fun entry scanned => Option.isSome_iff_exists.mp (readable entry scanned)

theorem listMailboxMessages_unreadable (unreadable : ¬ Readable ps userID name) :
    ∃ error, listMailboxMessages ps userID name = .error error := by
  cases listed : listMailboxMessages ps userID name with
  | error error => exact ⟨error, rfl⟩
  | ok msgs =>
    rw [listMailboxMessages, orError_ok] at listed
    refine absurd (fun entry scanned => ?_) unreadable
    exact Option.isSome_iff_exists.mpr ((mapM_readable _ _ _ listed).2 entry scanned)

def marked : List UInt32 :=
  ((listMessages ps userID name).filter markedDeleted).map MailboxMessage.uid

theorem mem_marked (uid : UInt32) :
    uid ∈ marked ps userID name ↔
      ∃ msg, InRange ps userID name msg ∧ markedDeleted msg = true ∧ msg.uid = uid := by
  simp only [marked, List.mem_map, List.mem_filter, mem_listMessages, and_assoc]

variable {ps userID name}

theorem inRange_own (shown : (tree ps userID).messages name uid = some msg) :
    InRange ps userID name msg := by
  simp only [tree, Option.bind_eq_some_iff] at shown
  obtain ⟨value, stored, read⟩ := shown
  exact ⟨_, value, (msgPrefix_msgKey_iff userID name name uid).mpr (Or.inl rfl), stored, read⟩

end Listing

section Effect

variable (s : Session) {ps : PebbleStore}

def messages (ps : PebbleStore) : UInt32 → Option MailboxMessage :=
  (tree ps s.user.bytes).messages s.selectedMailbox

/-- The messages that carry `\Deleted` and are asked for are gone, the others are in place. -/
def RemovesExactly (ps after : PebbleStore) (uids : Option (UInt32 → Bool)) : Prop :=
  ∀ uid, messages s after uid =
    (messages s ps uid).filter fun msg => !(markedDeleted msg && uids.all fun set => set uid)

theorem parse_expungeKey :
    parseMailboxScopedKey (mailboxExpungeKey s.user.bytes s.selectedMailbox) mailboxExpungePrefix =
      .ok (s.user.bytes, s.selectedMailbox) := by
  rw [parseMailboxScopedKey, orError_ok, mailboxExpungeKey, scopedKey, trimPrefix_append,
    splitScoped, cut_append 47 _ _ s.user.slashless]
  simp only [s.user.nonempty, s.selected, or_self, if_false]

theorem apply_command (ps : PebbleStore) : applyMailboxExpunge ps (command s) =
    listMailboxMessages ps s.user.bytes s.selectedMailbox >>= fun msgs =>
      let removed := (msgs.filter markedDeleted).map MailboxMessage.uid
      pure (commit ps ((removed.map (mailboxMsgKey s.user.bytes s.selectedMailbox)).map .delete),
        { expunged := removed.map fun uid => ⟨s.user.bytes, s.selectedMailbox, uid⟩ }) := by
  unfold applyMailboxExpunge
  rw [command, MailboxOp.command, parse_expungeKey]
  rfl

theorem apply_readable (readable : Readable ps s.user.bytes s.selectedMailbox) :
    ∃ result, applyMailboxExpunge ps (command s) =
      .ok (commit ps (((marked ps s.user.bytes s.selectedMailbox).map
        (mailboxMsgKey s.user.bytes s.selectedMailbox)).map .delete), result) := by
  rw [apply_command, listMailboxMessages_readable _ _ _ readable]
  exact ⟨_, rfl⟩

theorem apply_unreadable (unreadable : ¬ Readable ps s.user.bytes s.selectedMailbox) :
    ∃ error, applyMailboxExpunge ps (command s) = .error error := by
  obtain ⟨error, failed⟩ := listMailboxMessages_unreadable _ _ _ unreadable
  rw [apply_command, failed]
  exact ⟨error, rfl⟩

/-- Where every record of the range reads, the mailbox loses the UIDs of all records of the
range that carry the flag; where one does not, it loses nothing. -/
theorem messages_expunge (uids : Option (UInt32 → Bool)) (uid : UInt32) :
    messages s (expunge s ps uids) uid =
      if Readable ps s.user.bytes s.selectedMailbox ∧
          uid ∈ marked ps s.user.bytes s.selectedMailbox then none
      else messages s ps uid := by
  have unchanged : marked ps s.user.bytes s.selectedMailbox = [] → expunge s ps uids = ps := by
    intro none
    unfold expunge storeExpunge
    simp only [marked] at none
    rw [if_pos none]
  by_cases empty : marked ps s.user.bytes s.selectedMailbox = []
  · rw [unchanged empty, empty, if_neg (fun both => List.not_mem_nil both.2)]
  have listed : expunge s ps uids =
      match applyMailboxExpunge ps (command s) with
      | .ok (after, _) => after
      | .error _ => ps := by
    unfold expunge storeExpunge
    simp only [marked] at empty
    rw [if_neg empty]
    split <;> rfl
  rw [listed]
  by_cases readable : Readable ps s.user.bytes s.selectedMailbox
  · obtain ⟨result, applied⟩ := apply_readable s readable
    rw [applied]
    simp only [messages, tree_removeUids, Tree.removeUids, readable]
  · obtain ⟨error, failed⟩ := apply_unreadable s readable
    rw [failed, if_neg (fun both => readable both.1)]

/-- What has to hold of a mailbox and the UIDs asked for. Where every record of the range
reads, each message with the flag is asked for, and no record of another mailbox in the range
carries the flag with the UID of a message that does not; where one does not read (some
value that is neither a message nor metadata), no message with the flag is asked for. -/
structure Fits (ps : PebbleStore) (uids : Option (UInt32 → Bool)) : Prop where
  asked : Readable ps s.user.bytes s.selectedMailbox → ∀ uid, ∀ msg ∈ messages s ps uid,
    markedDeleted msg = true → (uids.all fun set => set uid) = true
  alone : Readable ps s.user.bytes s.selectedMailbox → ∀ uid, ∀ msg ∈ messages s ps uid,
    markedDeleted msg = false → ∀ other, InRange ps s.user.bytes s.selectedMailbox other →
      markedDeleted other = true → other.uid ≠ uid
  idle : ¬ Readable ps s.user.bytes s.selectedMailbox → ∀ uid, ∀ msg ∈ messages s ps uid,
    markedDeleted msg = true → (uids.all fun set => set uid) = false

theorem own_marked (tidy : Tidy ps s.user.bytes) (shown : messages s ps uid = some msg)
    (flagged : markedDeleted msg = true) : uid ∈ marked ps s.user.bytes s.selectedMailbox :=
  (mem_marked _ _ _ uid).mpr ⟨msg, inRange_own shown, flagged, tidy.own_uid _ uid msg shown⟩

/-- EXPUNGE, with a UID set or without, removes what it should exactly where the mailbox and
the set fit. -/
theorem expunge_exact_iff (ps : PebbleStore) (tidy : Tidy ps s.user.bytes)
    (uids : Option (UInt32 → Bool)) :
    RemovesExactly s ps (expunge s ps uids) uids ↔ Fits s ps uids := by
  -- One message at a time: it goes, and it should go.
  have single : RemovesExactly s ps (expunge s ps uids) uids ↔ ∀ uid, ∀ msg ∈ messages s ps uid,
        (Readable ps s.user.bytes s.selectedMailbox ∧
          uid ∈ marked ps s.user.bytes s.selectedMailbox) ↔
        (markedDeleted msg = true ∧ (uids.all fun set => set uid) = true) := by
    refine forall_congr' fun uid => ?_
    rw [messages_expunge]
    cases shown : messages s ps uid with
    | none => simp
    | some msg =>
      by_cases goes : Readable ps s.user.bytes s.selectedMailbox ∧
          uid ∈ marked ps s.user.bytes s.selectedMailbox
      · simp [goes, Option.filter]
      · simp [goes, Option.filter]
  rw [single]
  constructor
  · intro exactly
    constructor
    case asked =>
      intro readable uid msg shown flagged
      exact ((exactly uid msg shown).mp ⟨readable, own_marked s tidy shown flagged⟩).2
    case alone =>
      intro readable uid msg shown plain other inside flagged same
      have listed := (mem_marked _ _ _ uid).mpr ⟨other, inside, flagged, same⟩
      have goes := ((exactly uid msg shown).mp ⟨readable, listed⟩).1
      rw [plain] at goes
      cases goes
    case idle =>
      intro unreadable uid msg shown flagged
      by_contra wanted
      rw [Bool.not_eq_false] at wanted
      exact unreadable ((exactly uid msg shown).mpr ⟨flagged, wanted⟩).1
  · intro fits uid msg shown
    constructor
    · rintro ⟨readable, listed⟩
      have flagged : markedDeleted msg = true := by
        by_contra plain
        rw [Bool.not_eq_true] at plain
        obtain ⟨other, inside, flagged, same⟩ := (mem_marked _ _ _ uid).mp listed
        exact fits.alone readable uid msg shown plain other inside flagged same
      exact ⟨flagged, fits.asked readable uid msg shown flagged⟩
    · rintro ⟨flagged, wanted⟩
      refine ⟨?_, own_marked s tidy shown flagged⟩
      by_contra unreadable
      have idle := fits.idle unreadable uid msg shown flagged
      rw [wanted] at idle
      cases idle

end Effect

def sampleSession : Session := ⟨sampleUser, ascii "A", by decide⟩

def first : MailboxMessage := ⟨1, ascii "g1", flagDeleted, 0, []⟩

def second : MailboxMessage := ⟨2, ascii "g2", flagDeleted, 0, []⟩

def oneMarked : PebbleStore := set ∅ (mailboxMsgKey (ascii "u1") (ascii "A") 1) (.encoded first)

def bothMarked : PebbleStore :=
  set oneMarked (mailboxMsgKey (ascii "u1") (ascii "A") 2) (.encoded second)

/-- UID EXPUNGE 1 with both messages marked. -/
theorem uid_expunge_removes_other :
    messages sampleSession bothMarked 2 = some second ∧
      messages sampleSession (expunge sampleSession bothMarked (some (· == 1))) 2 = none := by
  decide

/-- Message 1 is marked and message 2 is not. -/
def plain : MailboxMessage := ⟨2, ascii "g2", 0, 0, []⟩

def oneOfTwo : PebbleStore :=
  set oneMarked (mailboxMsgKey (ascii "u1") (ascii "A") 2) (.encoded plain)

theorem oneOfTwo_tidy : Tidy oneOfTwo (ascii "u1") := by
  have none : Tidy ∅ (ascii "u1") := by
    intro key value _ stored
    rw [get_empty] at stored
    cases stored
  exact (none.set (entry_message (ascii "u1") (ascii "A") first (by decide))).set
    (entry_message (ascii "u1") (ascii "A") plain (by decide))

theorem oneOfTwo_inRange (inside : InRange oneOfTwo (ascii "u1") (ascii "A") msg) :
    msg = first ∨ msg = plain := by
  obtain ⟨key, value, -, stored, read⟩ := inside
  simp only [oneOfTwo, oneMarked, get_set, get_empty] at stored
  split_ifs at stored
  · cases stored
    rw [Value.unmarshal_encoded plain (by decide)] at read
    exact Or.inr (Option.some.inj read).symm
  · cases stored
    rw [Value.unmarshal_encoded first (by decide)] at read
    exact Or.inl (Option.some.inj read).symm

theorem oneOfTwo_messages (shown : messages sampleSession oneOfTwo uid = some msg) :
    uid = msg.uid ∧ (msg = first ∨ msg = plain) :=
  ⟨(oneOfTwo_tidy.own_uid _ uid msg shown).symm, oneOfTwo_inRange (inRange_own shown)⟩

/-- UID EXPUNGE 1:2 takes message 1 away and leaves message 2. -/
theorem expunge_exact_iff_set :
    RemovesExactly sampleSession oneOfTwo
        (expunge sampleSession oneOfTwo (some fun uid => uid == 1 || uid == 2))
        (some fun uid => uid == 1 || uid == 2) ∧
      messages sampleSession oneOfTwo 1 = some first ∧
      messages sampleSession oneOfTwo 2 = some plain := by
  refine ⟨(expunge_exact_iff sampleSession oneOfTwo oneOfTwo_tidy _).mpr ⟨?_, ?_, ?_⟩, by decide,
    by decide⟩
  · intro _ uid msg shown _
    obtain ⟨rfl, rfl | rfl⟩ := oneOfTwo_messages shown
    · decide
    · decide
  · intro _ uid msg shown unmarked other inside flagged same
    obtain ⟨rfl, rfl | rfl⟩ := oneOfTwo_messages shown
    · cases unmarked
    · rcases oneOfTwo_inRange inside with rfl | rfl
      · cases same
      · cases flagged
  · intro unreadable
    exact absurd (by decide) unreadable

end Bongo.ImapExpunge
