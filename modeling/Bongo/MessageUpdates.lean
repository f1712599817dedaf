import Bongo.Clients
import Bongo.MailboxStore

/-!
Flag and tag updates among moves, expunges, deletes and renames. An update
reads the record of a message, changes it and later writes the whole record
back; the plain PUT that lands checks neither that the message is still there
nor that it is still the record that was read.
-/

namespace Bongo.MessageUpdates

open ByteKeys KeyValue MailboxKeys Mailbox MailboxTree MailboxSteps MailboxBounds MailboxStore
open Proto Records Histories Clients
open Fsm (land)

inductive Call where
  | update (change : Change) (mailbox : Bytes) (uid : UInt32)
  | move (srcMailbox : Bytes) (uid : UInt32) (dstMailbox : Bytes)
  | expunge (mailbox : Bytes)
  | delete (mailbox : Bytes)
  | rename (oldName newName : Bytes)
  deriving DecidableEq

/-- The mailbox command of a call; an update has none, it is a plain PUT. -/
def Call.op : Call → Option MailboxOp
  | .update _ _ _ => none
  | .move srcMailbox uid dstMailbox =>
    some (.move (.json (.transfer ⟨srcMailbox, uid, dstMailbox⟩)))
  | .expunge mailbox => some (.expunge mailbox)
  | .delete mailbox => some (.delete mailbox)
  | .rename oldName newName => some (.rename (.json (.rename ⟨oldName, newName⟩)))

structure Pending where
  cmd : RaftCommand
  seen : Option MailboxMessage
  deriving DecidableEq

def issue (user : UserID) (ps : PebbleStore) : Call → Option Pending
  | .update change mailbox uid =>
    (updateMessage change ps user.bytes mailbox uid).toOption.map
      fun cmd => ⟨cmd, (getMessage ps user.bytes mailbox uid).toOption⟩
  | .move srcMailbox uid dstMailbox =>
    some ⟨moveMessage user.bytes srcMailbox uid dstMailbox, none⟩
  | .expunge mailbox => (MailboxStore.expunge ps user.bytes mailbox).toOption.map (⟨·, none⟩)
  | .delete mailbox => (deleteMailbox user.bytes mailbox).toOption.map (⟨·, none⟩)
  | .rename oldName newName => (renameMailbox user.bytes oldName newName).toOption.map (⟨·, none⟩)

def deliver (ps : PebbleStore) (pending : Pending) : PebbleStore := land ps pending.cmd

/-- The message is the one that was seen, and its flags and its tags are each as they were
seen or as the change would write them. -/
structure Unmoved (change : Change) (seen current : MailboxMessage) : Prop where
  uid : current.uid = seen.uid
  guid : current.mailGuid = seen.mailGuid
  date : current.internalDate = seen.internalDate
  flags : current.flags = seen.flags ∨ current.flags = (change.apply seen).flags
  tags : current.tags = seen.tags ∨ current.tags = (change.apply seen).tags

/-- An update lands on the message it read, unmoved; a move finds room, and a rename takes no
other mailbox's messages along and does not land on the name `home`. -/
def Safe (user : UserID) (home : Bytes) (ps : PebbleStore) (call : Call) (pending : Pending) :
    Prop :=
  match call with
  | .update change mailbox uid =>
    ∃ current, (tree ps user.bytes).messages mailbox uid = some current ∧
      ∀ seen, pending.seen = some seen → Unmoved change seen current
  | .move _ _ dstMailbox => Room (tree ps user.bytes) dstMailbox
  | .rename oldName newName => newName ≠ home ∧
    Spacious (tree ps user.bytes) (.rename (.json (.rename ⟨oldName, newName⟩)))
  | _ => True

/-- An update as one step: the change is made to the record of the moment, and
a message that is gone stays gone. -/
def InPlace (user : UserID) (ps : PebbleStore) (call : Call) (pending : Pending) : Prop :=
  match call with
  | .update change mailbox uid =>
    tree (deliver ps pending) user.bytes = (tree ps user.bytes).setMessage mailbox uid
      (((tree ps user.bytes).messages mailbox uid).map change.apply)
  | _ => True

/-- A message shows a change that would leave it as it is. -/
def Shown (change : Change) (msg : MailboxMessage) : Prop := change.apply msg = msg

/-- A change that the record of the moment shows is undone only by an update whose client
read a record that showed it. -/
def Respects (user : UserID) (ps : PebbleStore) (call : Call) (pending : Pending) : Prop :=
  match call with
  | .update _ mailbox uid => ∀ made before after seen,
    (tree ps user.bytes).messages mailbox uid = some before →
    (tree (deliver ps pending) user.bytes).messages mailbox uid = some after →
    pending.seen = some seen → Shown made before → Shown made after ∨ Shown made seen
  | _ => True

section Unmoved

variable {change : Change} {seen current : MailboxMessage}
  (unmoved : Unmoved change seen current)
include unmoved

theorem apply_unmoved : change.apply seen = change.apply current := by
  obtain ⟨uid, guid, date, flags, tags⟩ := unmoved
  cases seen
  cases current
  cases change with
  | setFlags flags => simp_all [Change.apply]
  | addFlags added =>
    rcases flags with same | same
    · simp_all [Change.apply]
    · simp_all [Change.apply, UInt32.or_assoc]
  | removeFlags removed =>
    rcases flags with same | same
    · simp_all [Change.apply]
    · simp_all [Change.apply, UInt32.and_assoc]
  | writeTags tags => simp_all [Change.apply]

/-- Flags and tags are each written as they are, or were seen as they are. -/
theorem shown_unmoved {made : Change} (shown : Shown made current) :
    Shown made (change.apply seen) ∨ Shown made seen := by
  obtain ⟨-, -, -, flags, tags⟩ := unmoved
  cases made with
  | writeTags written =>
    have own : current.tags = written := (congrArg MailboxMessage.tags shown).symm
    rcases tags with same | same
    · exact .inr (by rw [Shown, Change.apply, ← own, same])
    · exact .inl (by rw [Shown, Change.apply, ← own, same])
  | setFlags set | addFlags set | removeFlags set =>
    -- the flags are those that were seen or those that are written
    have own := congrArg MailboxMessage.flags shown
    simp only [Change.apply] at own
    rcases flags with same | same
    · rw [same] at own
      exact .inr (by rw [Shown, Change.apply, own])
    · rw [same] at own
      exact .inl (by rw [Shown, Change.apply, own])

end Unmoved

variable {op : MailboxOp}

section Removed

/-- The mailbox, if it exists, will not hand out the UID again. -/
def Spent (t : Tree) (mailbox : Bytes) (uid : UInt32) : Prop :=
  ∀ mbMeta, t.metas mailbox = some mbMeta → uid < mbMeta.uidNext

structure Gone (t : Tree) (mailbox : Bytes) (uid : UInt32) : Prop where
  absent : t.messages mailbox uid = none
  spent : Spent t mailbox uid

/-- The commands of this module: none creates a mailbox, and a rename brings
one under another name than `mailbox`. -/
def Elsewhere (mailbox : Bytes) : MailboxOp → Prop
  | .deliver _ _ => False
  | .rename (.json (.rename payload)) => payload.newName ≠ mailbox
  | _ => True

variable {t after : Tree} {mailbox : Bytes} {uid : UInt32}

theorem Spent.place (spent : Spent t mailbox uid) {dst : Bytes} {dstMeta : MailboxMeta}
    (msg : MailboxMessage) (found : t.metas dst = some dstMeta)
    (room : dstMeta.uidNext ≠ 0xFFFFFFFF) : Spent (t.place dst dstMeta msg) mailbox uid := by
  intro mbMeta present
  rcases ite_eq_iff.mp present with ⟨rfl, new⟩ | ⟨-, present⟩
  · cases new
    exact UInt32.lt_trans (spent dstMeta found) (lt_succ_of_room _ room)
  · exact spent mbMeta present

theorem Spent.shrink (spent : Spent t mailbox uid) {less : Tree} (shrinks : Shrinks t less) :
    Spent less mailbox uid :=
  fun mbMeta present => spent mbMeta (shrinks.meta_of present)

theorem Spent.step (spent : Spent t mailbox uid) (space : Spacious t op)
    (elsewhere : Elsewhere mailbox op) (stepped : Step t op after) : Spent after mailbox uid := by
  cases stepped with
  | append parsed found => exact spent.place _ found (space.of_found found)
  | deliver found => exact elsewhere.elim
  | copy source found => exact spent.place _ found (space.of_found found)
  | move source found =>
    exact (spent.place _ found (space.of_found found)).shrink (shrinks_setMessage_none _ _ _)
  | delete kept => exact spent.shrink (shrinks_drop _ _)
  | expunge covers exactly => exact spent.shrink (shrinks_removeUids _ _ _)
  | rename found different free exactly =>
    intro mbMeta present
    simp only [Tree.renamed] at present
    split_ifs at present with old new
    · exact absurd new elsewhere
    · exact spent mbMeta present
  | subscribe found =>
    rename_i name value named flag
    intro mbMeta present
    rcases ite_eq_iff.mp present with ⟨rfl, new⟩ | ⟨-, present⟩
    · cases new
      exact spent named found
    · exact spent mbMeta present

theorem Gone.place (gone : Gone t mailbox uid) {dst : Bytes} {dstMeta : MailboxMeta}
    (msg : MailboxMessage) (found : t.metas dst = some dstMeta) :
    (t.place dst dstMeta msg).messages mailbox uid = none := by
  have other : ¬ (dst = mailbox ∧ dstMeta.uidNext = uid) := by
    rintro ⟨rfl, rfl⟩
    exact absurd (gone.spent dstMeta found) (by simp)
  simp only [Tree.place, setMessage_messages, other]
  exact gone.absent

theorem Gone.shrink (gone : t.messages mailbox uid = none) {less : Tree}
    (shrinks : Shrinks t less) : less.messages mailbox uid = none := by
  rcases shrinks.messages mailbox uid with same | removed
  · exact same.trans gone
  · exact removed

theorem Gone.step (gone : Gone t mailbox uid) (space : Spacious t op)
    (elsewhere : Elsewhere mailbox op) (stepped : Step t op after) : Gone after mailbox uid := by
  refine ⟨?_, gone.spent.step space elsewhere stepped⟩
  cases stepped with
  | append parsed found => exact gone.place _ found
  | deliver found => exact elsewhere.elim
  | copy source found => exact gone.place _ found
  | move source found =>
    exact Gone.shrink (gone.place _ found) (shrinks_setMessage_none _ _ _)
  | delete kept => exact Gone.shrink gone.absent (shrinks_drop _ _)
  | expunge covers exactly => exact Gone.shrink gone.absent (shrinks_removeUids _ _ _)
  | rename found different free exactly =>
    simp only [Tree.renamed]
    split_ifs with old new
    · rfl
    · exact absurd new elsewhere
    · exact gone.absent
  | subscribe found => exact gone.absent

end Removed

section Runs

variable (user : UserID)

inductive Issued : Call → Pending → Prop
  | update {change : Change} {mailbox : Bytes} {uid : UInt32} {seen : MailboxMessage}
      (own : seen.uid = uid) (valid : marshalable (change.apply seen) = true) :
      Issued (.update change mailbox uid)
        ⟨⟨.put, mailboxMsgKey user.bytes mailbox uid, .encoded (change.apply seen)⟩, some seen⟩
  | command {call : Call} {op : MailboxOp} (made : call.op = some op) :
      Issued call ⟨op.command user.bytes, none⟩

theorem issue_issued (ps : PebbleStore) (call : Call) (pending : Pending)
    (regular : Regular user ps) (issued : issue user ps call = some pending) :
    Issued user call pending := by
  cases call with
  | update change mailbox uid =>
    obtain ⟨cmd, built, rfl⟩ := Option.map_eq_some_iff.mp issued
    obtain ⟨seen, read, here, valid, rfl⟩ := updateMessage_ok (toOption_some built)
    rw [read]
    exact .update (regular.tidy.own_uid mailbox uid seen here) valid
  | move srcMailbox uid dstMailbox =>
    cases issued
    exact .command rfl
  | expunge _ | delete _ | rename _ _ =>
    obtain ⟨cmd, built, rfl⟩ := Option.map_eq_some_iff.mp issued
    have command := toOption_some built
    simp only [MailboxStore.expunge, deleteMailbox, renameMailbox] at command
    split_ifs at command
    cases command
    exact .command rfl

variable {user} {ps : PebbleStore}

section Conditions

variable {call : Call} {pending : Pending} {home : Bytes} (made : call.op = some op)
  (safe : Safe user home ps call pending)
include made safe

theorem safe_spacious : Spacious (tree ps user.bytes) op := by
  cases call with
  | update change mailbox uid => cases made
  | move _ _ _ =>
    cases made
    exact safe
  | rename _ _ =>
    cases made
    exact safe.2
  | expunge _ | delete _ =>
    cases made
    trivial

theorem safe_elsewhere : Elsewhere home op := by
  cases call with
  | update change mailbox uid => cases made
  | rename oldName newName =>
    cases made
    exact safe.1
  | _ =>
    cases made
    trivial

end Conditions

/-- The landing of an update, on trees. -/
theorem tree_put_message (mailbox : Bytes) (uid : UInt32) (msg : MailboxMessage)
    (valid : marshalable msg = true) :
    tree (land ps ⟨.put, mailboxMsgKey user.bytes mailbox uid, .encoded msg⟩) user.bytes =
      (tree ps user.bytes).setMessage mailbox uid (some msg) := by
  rw [land_put_message, tree_set_message, Value.unmarshal_encoded _ valid]

section Landing

variable {call : Call} {pending : Pending} {home : Bytes} (issued : Issued user call pending)
  (safe : Safe user home ps call pending)
include issued safe

theorem issued_in_place : InPlace user ps call pending := by
  cases issued with
  | update own valid =>
    obtain ⟨current, here, unmoved⟩ := safe
    simp only [InPlace, deliver, here, Option.map_some]
    rw [tree_put_message _ _ _ valid, apply_unmoved (unmoved _ rfl)]
  | command made =>
    cases call with
    | update change mailbox uid => cases made
    | move _ _ _ | expunge _ | delete _ | rename _ _ => trivial

theorem issued_respects : Respects user ps call pending := by
  cases issued with
  | update own valid =>
    obtain ⟨current, here, unmoved⟩ := safe
    intro made before after seen first second read shown
    cases read
    cases here.symm.trans first
    rw [deliver, tree_put_message _ _ _ valid, setMessage_messages, if_pos ⟨rfl, rfl⟩] at second
    cases second
    exact shown_unmoved (unmoved _ rfl) shown
  | command made =>
    cases call with
    | update change mailbox uid => cases made
    | move _ _ _ | expunge _ | delete _ | rename _ _ => trivial

end Landing

theorem sound_in_place {t : Tree} (sound : Sound t) (mailbox : Bytes) (uid : UInt32)
    (change : Change) :
    Sound (t.setMessage mailbox uid ((t.messages mailbox uid).map change.apply)) := by
  constructor
  · intro name place absent
    rw [setMessage_messages]
    split_ifs with same
    · obtain ⟨rfl, rfl⟩ := same
      rw [sound.homed mailbox uid absent, Option.map_none]
    · exact sound.homed name place absent
  · intro name mbMeta place msg present here
    rw [setMessage_messages] at here
    split_ifs at here with same
    · obtain ⟨rfl, rfl⟩ := same
      obtain ⟨before, stored, -⟩ := Option.map_eq_some_iff.mp here
      exact sound.within mailbox mbMeta uid before present stored
    · exact sound.within name mbMeta place msg present here

theorem issued_regular {call : Call} {pending : Pending} {home : Bytes} (regular : Regular user ps)
    (issued : Issued user call pending) (safe : Safe user home ps call pending) :
    Regular user (deliver ps pending) := by
  have inPlace := issued_in_place issued safe
  cases issued with
  | update own valid =>
    rename_i change mailbox uid seen
    subst own
    constructor
    · rw [deliver, land_put_message, ← apply_uid change seen]
      exact regular.tidy.set (entry_message user.bytes mailbox _ valid)
    · rw [inPlace]
      exact sound_in_place regular.sound _ _ _
  | command made => exact (regular.command (safe_spacious made safe)).1

/-- A safe landing changes a record in place, or does nothing, or steps the tree with
the space it needs. -/
theorem issued_cases {call : Call} {pending : Pending} {home : Bytes} (regular : Regular user ps)
    (issued : Issued user call pending) (safe : Safe user home ps call pending) :
    (∃ change mailbox uid, tree (deliver ps pending) user.bytes =
      (tree ps user.bytes).setMessage mailbox uid
        (((tree ps user.bytes).messages mailbox uid).map (Change.apply change))) ∨
      tree (deliver ps pending) user.bytes = tree ps user.bytes ∨
      ∃ op, Elsewhere home op ∧ Spacious (tree ps user.bytes) op ∧
        Step (tree ps user.bytes) op (tree (deliver ps pending) user.bytes) := by
  have inPlace := issued_in_place issued safe
  cases issued with
  | update own valid => exact .inl ⟨_, _, _, inPlace⟩
  | command made =>
    rename_i op
    rcases land_command_cases ps user regular.tidy op with same | ⟨stepped, -⟩
    · exact .inr (.inl (by rw [deliver, same]))
    · exact .inr (.inr ⟨op, safe_elsewhere made safe, safe_spacious made safe, stepped⟩)

section Landed

variable {call : Call} {pending : Pending} {mailbox : Bytes} {uid : UInt32}
  (regular : Regular user ps) (issued : Issued user call pending)
  (safe : Safe user mailbox ps call pending)
include regular issued safe

theorem issued_spent (spent : Spent (tree ps user.bytes) mailbox uid) :
    Spent (tree (deliver ps pending) user.bytes) mailbox uid := by
  rcases issued_cases regular issued safe with
    ⟨_, _, _, changed⟩ | same | ⟨op, elsewhere, space, stepped⟩
  · rw [changed]
    exact spent
  · rw [same]
    exact spent
  · exact spent.step space elsewhere stepped

theorem issued_gone (gone : Gone (tree ps user.bytes) mailbox uid) :
    Gone (tree (deliver ps pending) user.bytes) mailbox uid := by
  refine ⟨?_, issued_spent regular issued safe gone.spent⟩
  rcases issued_cases regular issued safe with
    ⟨_, _, _, changed⟩ | same | ⟨op, elsewhere, space, stepped⟩
  · rw [changed, setMessage_messages]
    split_ifs with here
    · -- a message that is gone is not there to be changed
      obtain ⟨rfl, rfl⟩ := here
      rw [gone.absent, Option.map_none]
    · exact gone.absent
  · rw [same]
    exact gone.absent
  · exact (gone.step space elsewhere stepped).absent

/-- A message that a landing removed is gone. -/
theorem issued_removes
    (present : (tree ps user.bytes).messages mailbox uid ≠ none)
    (absent : (tree (deliver ps pending) user.bytes).messages mailbox uid = none) :
    Gone (tree (deliver ps pending) user.bytes) mailbox uid := by
  refine ⟨absent, issued_spent regular issued safe ?_⟩
  intro mbMeta found
  obtain ⟨msg, here⟩ := Option.ne_none_iff_exists'.mp present
  exact regular.sound.within mailbox mbMeta uid msg found here

end Landed

/-- A landing that removes a message leaves a system in which it is gone. -/
theorem landing_removes {sys : System PebbleStore Call Pending} {position : Nat}
    {mailbox : Bytes} {uid : UInt32} (kept : Kept (Regular user) (Issued user) sys)
    (safe : AtLanding (Safe user mailbox) sys (.land position))
    (present : (tree sys.store user.bytes).messages mailbox uid ≠ none)
    (absent : (tree (act (issue user) deliver sys (.land position)).store
      user.bytes).messages mailbox uid = none) :
    Kept (fun ps => Regular user ps ∧ Gone (tree ps user.bytes) mailbox uid) (Issued user)
      (act (issue user) deliver sys (.land position)) := by
  have next := act_kept (issue user) deliver (issue_issued user)
    (fun ps call pending => issued_regular) sys (.land position) kept safe
  refine ⟨⟨next.store, ?_⟩, next.inflight⟩
  simp only [act] at absent ⊢
  cases found : sys.inflight[position]? with
  | none =>
    rw [found] at absent
    exact absurd absent present
  | some entry =>
    obtain ⟨call, pending⟩ := entry
    rw [found] at absent
    exact issued_removes kept.store (kept.inflight call pending (List.mem_of_getElem? found))
      (safe call pending found) present absent

end Runs

/-- Along a safe run every update acts as one step on the record of the moment and undoes
no change that its client had not read, and a message that some landing removed is not seen
again under its mailbox and UID. -/
theorem updates_act_in_place (user : UserID) (mailbox : Bytes) (start : PebbleStore)
    (regular : Regular user start) (events : List (Event Call))
    (safe : Along (act (issue user) deliver) (AtLanding (Safe user mailbox)) ⟨start, []⟩ events) :
    Along (act (issue user) deliver)
      (AtLanding fun ps call pending => InPlace user ps call pending ∧
        Respects user ps call pending) ⟨start, []⟩ events ∧
    ∀ before position middle after uid,
      events = before ++ .land position :: (middle ++ after) →
      let present := run (act (issue user) deliver) ⟨start, []⟩ before
      let removed := act (issue user) deliver present (.land position)
      (tree present.store user.bytes).messages mailbox uid ≠ none →
      (tree removed.store user.bytes).messages mailbox uid = none →
      (tree (run (act (issue user) deliver) removed middle).store user.bytes).messages mailbox
        uid = none := by
  have initial : Kept (Regular user) (Issued user)
      (⟨start, []⟩ : System PebbleStore Call Pending) := by
    constructor
    · exact regular
    · intro call pending member
      cases member
  constructor
  · exact along_landings (issue user) deliver (issue_issued user)
      (fun ps call pending => issued_regular)
      (fun ps call pending _ issued now =>
        ⟨issued_in_place issued now, issued_respects issued now⟩) initial safe
  intro before position middle after uid split present removed there notThere
  subst split
  obtain ⟨safeBefore, safeLanding, safeLater⟩ := (along_append _ _ _ before _).mp safe
  have safeMiddle := ((along_append _ _ _ middle after).mp safeLater).1
  have kept : Kept (Regular user) (Issued user) present :=
    run_invariant (act_kept (issue user) deliver (issue_issued user)
      (fun ps call pending => issued_regular)) initial safeBefore
  have gone := landing_removes kept safeLanding there notThere
  -- from here on the message stays gone
  have stays := run_invariant (act_kept (issue user) deliver
    (fun ps call pending both => issue_issued user ps call pending both.1)
    (fun ps call pending both issued now =>
      ⟨issued_regular both.1 issued now, issued_gone both.1 issued now both.2⟩)) gone safeMiddle
  exact stays.store.2.absent

def twoMailboxes : PebbleStore :=
  land (land ∅ (deliverMessage sampleUser.bytes (ascii "A") (sampleMail "g1") 0))
    (deliverMessage sampleUser.bytes (ascii "B") (sampleMail "g2") 0)

theorem twoMailboxes_regular : Regular sampleUser twoMailboxes := by
  have empty := regular_empty ∅ sampleUser fun key _ => get_empty key
  have first := empty.deliver (sampleMail "g1") 0 (by decide : Room _ (ascii "A"))
  exact first.deliver (sampleMail "g2") 0 (by decide : Room _ (ascii "B"))

/-- Two clients mark the same message at once, and a third then moves it away. -/
def markThenMove : List (Event Call) :=
  [.begin (.update (.addFlags flagSeen) (ascii "A") 1),
    .begin (.update (.addFlags flagSeen) (ascii "A") 1), .land 0, .land 0,
    .begin (.move (ascii "A") 1 (ascii "B")), .land 0]

/-- The PUT of either client. -/
def mark : Pending :=
  ⟨⟨.put, mailboxMsgKey sampleUser.bytes (ascii "A") 1,
    .encoded (⟨1, ascii "g1", flagSeen, 0, []⟩ : MailboxMessage)⟩, some ⟨1, ascii "g1", 0, 0, []⟩⟩

theorem markThenMove_safe :
    Along (act (issue sampleUser) deliver) (AtLanding (Safe sampleUser (ascii "A")))
      ⟨twoMailboxes, []⟩ markThenMove := by
  refine ⟨trivial, trivial, ?_, ?_, trivial, ?_, trivial⟩
  · refine atLanding_of_found (.update (.addFlags flagSeen) (ascii "A") 1) mark (by decide) ?_
    refine ⟨⟨1, ascii "g1", 0, 0, []⟩, by decide, ?_⟩
    rintro seen ⟨⟩
    exact ⟨rfl, rfl, rfl, .inl rfl, .inl rfl⟩
  · -- the second client read the record without the flag, which it now writes as it is
    refine atLanding_of_found (.update (.addFlags flagSeen) (ascii "A") 1) mark (by decide) ?_
    refine ⟨⟨1, ascii "g1", flagSeen, 0, []⟩, by decide, ?_⟩
    rintro seen ⟨⟩
    exact ⟨rfl, rfl, rfl, .inr rfl, .inl rfl⟩
  · refine atLanding_of_found (.move (ascii "A") 1 (ascii "B"))
      ⟨moveMessage sampleUser.bytes (ascii "A") 1 (ascii "B"), none⟩ (by decide) ?_
    change Room _ (ascii "B")
    decide

theorem updates_act_in_place_mark_then_move :
    Along (act (issue sampleUser) deliver)
      (AtLanding fun ps call pending => InPlace sampleUser ps call pending ∧
        Respects sampleUser ps call pending) ⟨twoMailboxes, []⟩ markThenMove ∧
    (tree (run (act (issue sampleUser) deliver) ⟨twoMailboxes, []⟩ markThenMove).store
      sampleUser.bytes).messages (ascii "A") 1 = none :=
  have both := updates_act_in_place sampleUser (ascii "A") twoMailboxes twoMailboxes_regular
    markThenMove markThenMove_safe
  ⟨both.1, both.2 (markThenMove.take 5) 0 [] [] 1 rfl (by decide) (by decide)⟩

/-- A message is moved away between the read and the write of an update, and the
write puts it back; and of two updates that read the same record, the later
write undoes the earlier one. -/
theorem stale_update_restores_message :
    let moved := run (act (issue sampleUser) deliver) ⟨twoMailboxes, []⟩
      [.begin (.update (.addFlags flagSeen) (ascii "A") 1),
        .begin (.move (ascii "A") 1 (ascii "B")), .land 1]
    let later := act (issue sampleUser) deliver moved (.land 0)
    let marked := run (act (issue sampleUser) deliver) ⟨twoMailboxes, []⟩
      [.begin (.update (.addFlags flagSeen) (ascii "A") 1),
        .begin (.update (.addFlags flagFlagged) (ascii "A") 1), .land 0]
    let lost := act (issue sampleUser) deliver marked (.land 0)
    ((tree moved.store sampleUser.bytes).messages (ascii "A") 1 = none ∧
      (tree later.store sampleUser.bytes).messages (ascii "A") 1 ≠ none) ∧
    ((tree marked.store sampleUser.bytes).messages (ascii "A") 1).map (·.flags) = some flagSeen ∧
      ((tree lost.store sampleUser.bytes).messages (ascii "A") 1).map (·.flags) =
        some flagFlagged := by
  decide

end Bongo.MessageUpdates
