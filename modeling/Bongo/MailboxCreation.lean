import Bongo.Clients
import Bongo.MailboxStore

/-!
Creating mailboxes while mail arrives. `CreateMailbox` looks for the mailbox
locally and later writes a whole fresh metadata record, with UidNext 1, over
whatever is there by then.
-/

namespace Bongo.MailboxCreation

open ByteKeys KeyValue MailboxKeys Mailbox MailboxTree MailboxSteps MailboxBounds MailboxStore
open Proto Records Histories Clients
open Fsm (land)

inductive Call where
  | create (name : Bytes) (now : Int64)
  | ensureDefault (name : Bytes) (now : Int64)
  | deliver (mailbox mailMeta : Bytes) (flags : UInt32)
  | append (mailbox mailGuid : Bytes) (flags : UInt32) (internalDate : Int64)
  | copy (srcMailbox : Bytes) (uid : UInt32) (dstMailbox : Bytes)
  | move (srcMailbox : Bytes) (uid : UInt32) (dstMailbox : Bytes)
  | expunge (mailbox : Bytes)
  deriving DecidableEq

def issue (user : UserID) (ps : PebbleStore) : Call → Option RaftCommand
  | .create name now => (createMailbox ps user.bytes name now).toOption
  | .ensureDefault name now =>
    if name ∈ defaultMailboxes then ensureMailbox ps user.bytes name now else none
  | .deliver mailbox mailMeta flags => some (deliverMessage user.bytes mailbox mailMeta flags)
  | .append mailbox mailGuid flags internalDate =>
    (appendMessage user.bytes mailbox mailGuid flags internalDate).toOption
  | .copy srcMailbox uid dstMailbox => some (copyMessage user.bytes srcMailbox uid dstMailbox)
  | .move srcMailbox uid dstMailbox => some (moveMessage user.bytes srcMailbox uid dstMailbox)
  | .expunge mailbox => (MailboxStore.expunge ps user.bytes mailbox).toOption

/-- A fresh metadata record lands only where no message is stored, and no UID
counter runs over. -/
def Safe (user : UserID) (ps : PebbleStore) (call : Call) (_ : RaftCommand) : Prop :=
  match call with
  | .create name _ => ∀ uid, (tree ps user.bytes).messages name uid = none
  | .ensureDefault name _ => ∀ uid, (tree ps user.bytes).messages name uid = none
  | .deliver mailbox _ _ => Room (tree ps user.bytes) mailbox
  | .append mailbox _ _ _ => Room (tree ps user.bytes) mailbox
  | .copy _ _ dstMailbox => Room (tree ps user.bytes) dstMailbox
  | .move _ _ dstMailbox => Room (tree ps user.bytes) dstMailbox
  | .expunge _ => True

/-- What a call has under way: a fresh metadata record or one command. -/
inductive Issued (user : UserID) : Call → RaftCommand → Prop
  | create {name : Bytes} {now : Int64} (valid : marshalable (newMailbox name now) = true) :
      Issued user (.create name now)
        ⟨.put, mailboxMetaKey user.bytes name, .encoded (newMailbox name now)⟩
  | ensureDefault {name : Bytes} {now : Int64} (valid : marshalable (newMailbox name now) = true) :
      Issued user (.ensureDefault name now)
        ⟨.put, mailboxMetaKey user.bytes name, .encoded (newMailbox name now)⟩
  | command {call : Call} {op : MailboxOp}
      (needs : ∀ ps cmd, Safe user ps call cmd → Spacious (tree ps user.bytes) op) :
      Issued user call (op.command user.bytes)

theorem issue_issued (user : UserID) (ps : PebbleStore) (call : Call) (cmd : RaftCommand)
    (issued : issue user ps call = some cmd) : Issued user call cmd := by
  cases call with
  | create name now =>
    obtain ⟨-, valid, rfl⟩ := createMailbox_ok ps (toOption_some issued)
    exact .create valid
  | ensureDefault name now =>
    simp only [issue, ensureMailbox] at issued
    split_ifs at issued with listed present
    obtain ⟨-, valid, rfl⟩ := createMailbox_ok ps (toOption_some issued)
    exact .ensureDefault valid
  | deliver mailbox mailMeta flags =>
    cases issued
    exact .command fun _ _ room => room
  | append mailbox mailGuid flags internalDate =>
    have built := toOption_some issued
    simp only [appendMessage, bind_ok, pure, Except.pure, Except.ok.injEq] at built
    obtain ⟨data, -, rfl⟩ := built
    exact .command fun _ _ room => room
  | copy srcMailbox uid dstMailbox | move srcMailbox uid dstMailbox =>
    cases issued
    exact .command fun _ _ room => room
  | expunge mailbox =>
    have built := toOption_some issued
    simp only [MailboxStore.expunge] at built
    split_ifs at built
    cases built
    exact .command fun _ _ _ => trivial

section Runs

variable (user : UserID)

/-- A metadata record that lands where no message is stored. -/
theorem put_meta_lands {ps : PebbleStore} (name : Bytes) {mbMeta : MailboxMeta}
    (regular : Regular user ps) (valid : marshalable mbMeta = true)
    (empty : ∀ uid, (tree ps user.bytes).messages name uid = none) :
    Regular user (land ps ⟨.put, mailboxMetaKey user.bytes name, .encoded mbMeta⟩) ∧
      Untouched (tree ps user.bytes)
        (tree (land ps ⟨.put, mailboxMetaKey user.bytes name, .encoded mbMeta⟩) user.bytes) := by
  rw [land_put_meta, tree_set_meta, Value.unmarshal_encoded _ valid]
  refine ⟨⟨regular.tidy.set (entry_meta user.bytes name mbMeta valid), ?_⟩, fun _ _ _ here =>
    Or.inl here⟩
  rw [tree_set_meta, Value.unmarshal_encoded _ valid]
  exact regular.sound.appear mbMeta empty

theorem issued_lands {ps : PebbleStore} {call : Call} {cmd : RaftCommand}
    (regular : Regular user ps)
    (issued : Issued user call cmd) (safe : Safe user ps call cmd) :
    Regular user (land ps cmd) ∧
      Untouched (tree ps user.bytes) (tree (land ps cmd) user.bytes) := by
  cases issued with
  | create valid => exact put_meta_lands user _ regular valid safe
  | ensureDefault valid => exact put_meta_lands user _ regular valid safe
  | command needs => exact regular.command (needs ps _ safe)

end Runs

/-- In every state of a safe run the next UID of a mailbox is above all messages
stored under it, and no landing replaces a stored message by another. -/
theorem uid_next_above_messages (user : UserID) (start : PebbleStore)
    (empty : ∀ key, mailboxPrefix user.bytes <+: key → get start key = none)
    (events : List (Event Call))
    (safe : Along (act (issue user) land) (AtLanding (Safe user)) ⟨start, []⟩ events) :
    (∀ reached, Passes (act (issue user) land) ⟨start, []⟩ events reached →
      Within (tree reached.store user.bytes)) ∧
    Along (act (issue user) land) (AtLanding fun ps _ cmd =>
      Untouched (tree ps user.bytes) (tree (land ps cmd) user.bytes)) ⟨start, []⟩ events := by
  have initial : Kept (Regular user) (Issued user)
      (⟨start, []⟩ : System PebbleStore Call RaftCommand) := by
    constructor
    · exact regular_empty start user empty
    · intro call cmd member
      cases member
  have issues : ∀ ps call cmd, Regular user ps → issue user ps call = some cmd →
      Issued user call cmd := fun ps call cmd _ => issue_issued user ps call cmd
  have lands : ∀ ps call cmd, Regular user ps → Issued user call cmd → Safe user ps call cmd →
      Regular user (land ps cmd) := fun ps call cmd regular issued now =>
    (issued_lands user regular issued now).1
  constructor
  · intro reached passed
    have kept := passes_invariant (act_kept (issue user) land issues lands) initial safe passed
    exact kept.store.sound.within
  · exact along_landings (issue user) land issues lands
      (fun ps call cmd regular issued now => (issued_lands user regular issued now).2) initial safe

def sampleDelivery (mailbox guid : String) : Call :=
  .deliver (ascii mailbox) (sampleMail guid) 0

/-- The mailbox is created, and then two messages are delivered to it. -/
def createThenDeliver : List (Event Call) :=
  [.begin (.create (ascii "INBOX") 1700000000), .land 0, .begin (sampleDelivery "INBOX" "g1"),
    .begin (sampleDelivery "INBOX" "g2"), .land 1, .land 0]

theorem uid_next_above_messages_create_then_deliver :
    Within (tree (run (act (issue sampleUser) land) ⟨∅, []⟩ createThenDeliver).store
      sampleUser.bytes) := by
  refine (uid_next_above_messages sampleUser ∅ (fun key _ => get_empty key) createThenDeliver
    ?_).1 _ ⟨createThenDeliver, [], by rw [List.append_nil], rfl⟩
  refine ⟨trivial, ?_, trivial, trivial, ?_, ?_, trivial⟩
  · exact atLanding_of_found (.create (ascii "INBOX") 1700000000)
      ⟨.put, mailboxMetaKey sampleUser.bytes (ascii "INBOX"),
        .encoded (newMailbox (ascii "INBOX") 1700000000)⟩ (by decide) fun uid => rfl
  · refine atLanding_of_found (sampleDelivery "INBOX" "g2")
      (deliverMessage sampleUser.bytes (ascii "INBOX") (sampleMail "g2") 0) (by decide) ?_
    change Room _ (ascii "INBOX")
    decide
  · refine atLanding_of_found (sampleDelivery "INBOX" "g1")
      (deliverMessage sampleUser.bytes (ascii "INBOX") (sampleMail "g1") 0) (by decide) ?_
    change Room _ (ascii "INBOX")
    decide

/-- A `CreateMailbox` that looked before a delivery created the mailbox and lands
after it sets UidNext back to 1, and the next delivery replaces the message. -/
theorem late_create_replaces_message :
    let before := run (act (issue sampleUser) land) ⟨∅, []⟩
      [.begin (.create (ascii "INBOX") 1700000000), .begin (sampleDelivery "INBOX" "g1"),
        .land 1, .land 0]
    let after := run (act (issue sampleUser) land) before
      [.begin (sampleDelivery "INBOX" "g2"), .land 0]
    ¬ Within (tree before.store sampleUser.bytes) ∧
      ¬ Untouched (tree before.store sampleUser.bytes) (tree after.store sampleUser.bytes) := by
  intro before after
  have counter : (tree before.store sampleUser.bytes).metas (ascii "INBOX") =
      some ⟨ascii "INBOX", 1700000000, 1, false⟩ := by decide
  have stored : (tree before.store sampleUser.bytes).messages (ascii "INBOX") 1 =
      some ⟨1, ascii "g1", 0, 0, []⟩ := by decide
  have replaced : (tree after.store sampleUser.bytes).messages (ascii "INBOX") 1 =
      some ⟨1, ascii "g2", 0, 0, []⟩ := by decide
  constructor
  · intro within
    exact absurd (within _ _ _ _ counter stored) (by decide)
  · intro untouched
    rcases untouched _ _ _ stored with same | gone
    · exact absurd (replaced.symm.trans same) (by decide)
    · exact absurd (replaced.symm.trans gone) (by decide)

end Bongo.MailboxCreation
