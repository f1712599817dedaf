import Bongo.Fsm
import Bongo.MailboxBounds

/-!
The mailbox operations as clients run them: each reads the local store and
issues one replicated command, which lands later through the state machine.
What a method read is stale by then unless the command itself checks again.
-/

namespace Bongo.MailboxStore

open ByteKeys KeyValue MailboxKeys Mailbox MailboxTree MailboxSteps MailboxBounds Proto Records
open Fsm (land)

inductive ClientError where
  | alreadyExists (name : Bytes)
  | messageNotFound (uid : UInt32)
  | parsingMessage
  | marshalingMeta
  | marshalingMessage
  | nothingDeleted
  | cannotDeleteInbox
  | cannotRenameInbox
  deriving DecidableEq

/-- `uint32(time.Now().Unix() & 0xffffffff)`. -/
def clockValidity (now : Int64) : UInt32 := now.toUInt64.toUInt32

def newMailbox (name : Bytes) (now : Int64) : MailboxMeta :=
  { name := name, uidValidity := clockValidity now, uidNext := 1, unsubscribed := false }

def createMailbox (ps : PebbleStore) (userID name : Bytes) (now : Int64) :
    Except ClientError RaftCommand := do
  reject (.alreadyExists name) ((get ps (mailboxMetaKey userID name)).isSome)
  let data ← orError .marshalingMeta (Value.marshal (newMailbox name now))
  return { op := .put, key := mailboxMetaKey userID name, value := data }

def deleteMailbox (userID name : Bytes) : Except ClientError RaftCommand :=
  if equalFold name inbox then .error .cannotDeleteInbox
  else .ok ((MailboxOp.delete name).command userID)

def renameMailbox (userID oldName newName : Bytes) : Except ClientError RaftCommand :=
  if equalFold oldName inbox then .error .cannotRenameInbox
  else .ok ((MailboxOp.rename (.json (.rename ⟨oldName, newName⟩))).command userID)

def defaultMailboxes : List Bytes :=
  [ascii "INBOX", ascii "Sent", ascii "Drafts", ascii "Trash", ascii "Junk"]

/-- One round of `EnsureDefaultMailboxes`: an existing mailbox is skipped. The
source reads a second time inside `CreateMailbox`; both reads are local. -/
def ensureMailbox (ps : PebbleStore) (userID name : Bytes) (now : Int64) : Option RaftCommand :=
  if (get ps (mailboxMetaKey userID name)).isSome then none
  else (createMailbox ps userID name now).toOption

def getMessage (ps : PebbleStore) (userID mailbox : Bytes) (uid : UInt32) :
    Except ClientError MailboxMessage := do
  let data ← orError (.messageNotFound uid) (get ps (mailboxMsgKey userID mailbox uid))
  orError .parsingMessage (data.unmarshal MailboxMessage)

/-- The whole record is written, not the change. -/
def writeMessage (userID mailbox : Bytes) (uid : UInt32) (msg : MailboxMessage) :
    Except ClientError RaftCommand := do
  let data ← orError .marshalingMessage (Value.marshal msg)
  return { op := .put, key := mailboxMsgKey userID mailbox uid, value := data }

inductive Change where
  | setFlags (flags : UInt32)
  | addFlags (flags : UInt32)
  | removeFlags (flags : UInt32)
  | writeTags (tags : List Bytes)
  deriving DecidableEq

def Change.apply (change : Change) (msg : MailboxMessage) : MailboxMessage :=
  match change with
  | .setFlags flags => { msg with flags := flags }
  | .addFlags flags => { msg with flags := msg.flags ||| flags }
  | .removeFlags flags => { msg with flags := msg.flags &&& ~~~flags }
  | .writeTags tags => { msg with tags := tags }

def updateMessage (change : Change) (ps : PebbleStore) (userID mailbox : Bytes) (uid : UInt32) :
    Except ClientError RaftCommand := do
  let msg ← getMessage ps userID mailbox uid
  writeMessage userID mailbox uid (change.apply msg)

def setFlags (ps : PebbleStore) (userID mailbox : Bytes) (uid flags : UInt32) :
    Except ClientError RaftCommand := updateMessage (.setFlags flags) ps userID mailbox uid

def addFlags (ps : PebbleStore) (userID mailbox : Bytes) (uid flags : UInt32) :
    Except ClientError RaftCommand := updateMessage (.addFlags flags) ps userID mailbox uid

def removeFlags (ps : PebbleStore) (userID mailbox : Bytes) (uid flags : UInt32) :
    Except ClientError RaftCommand := updateMessage (.removeFlags flags) ps userID mailbox uid

def writeMessageTags (ps : PebbleStore) (userID mailbox : Bytes) (uid : UInt32)
    (tags : List Bytes) : Except ClientError RaftCommand :=
  updateMessage (.writeTags tags) ps userID mailbox uid

/-- Unlike the listing of a command, this one skips unreadable records. -/
def listMessages (ps : PebbleStore) (userID mailbox : Bytes) : List MailboxMessage :=
  (prefixScan ps (mailboxMsgPrefix userID mailbox)).filterMap
    fun entry => entry.2.unmarshal MailboxMessage

structure Counts where
  total : UInt32
  recent : UInt32
  unseen : UInt32
  deriving DecidableEq

def tally (msgs : List MailboxMessage) : Counts where
  total := msgs.length.toUInt32
  recent := (msgs.filter fun msg => msg.flags &&& flagRecent != 0).length.toUInt32
  unseen := (msgs.filter fun msg => msg.flags &&& flagSeen == 0).length.toUInt32

def countMessages (ps : PebbleStore) (userID mailbox : Bytes) : Counts :=
  tally (listMessages ps userID mailbox)

/-- The command is issued only if some listed message is marked; which ones go
is decided again when it lands. -/
def expunge (ps : PebbleStore) (userID mailbox : Bytes) : Except ClientError RaftCommand :=
  if ((listMessages ps userID mailbox).filter markedDeleted).isEmpty then .error .nothingDeleted
  else .ok ((MailboxOp.expunge mailbox).command userID)

def deliverMessage (userID mailbox : Bytes) (mailMeta : Bytes) (flags : UInt32) : RaftCommand :=
  (MailboxOp.deliver mailbox (.json (.delivery ⟨mailMeta, flags⟩))).command userID

def appendMessage (userID mailbox mailGuid : Bytes) (flags : UInt32) (internalDate : Int64) :
    Except ClientError RaftCommand := do
  let data ← orError .marshalingMessage (Value.marshal
    ({ uid := 0, mailGuid := mailGuid, flags := flags, internalDate := internalDate, tags := [] } :
      MailboxMessage))
  return (MailboxOp.append mailbox data).command userID

def copyMessage (userID srcMailbox : Bytes) (uid : UInt32) (dstMailbox : Bytes) : RaftCommand :=
  (MailboxOp.copy (.json (.transfer ⟨srcMailbox, uid, dstMailbox⟩))).command userID

def moveMessage (userID srcMailbox : Bytes) (uid : UInt32) (dstMailbox : Bytes) : RaftCommand :=
  (MailboxOp.move (.json (.transfer ⟨srcMailbox, uid, dstMailbox⟩))).command userID

section Landing

variable (ps : PebbleStore) (user : UserID)

theorem land_command (op : MailboxOp) :
    land ps (op.command user.bytes) =
      match applyMailboxCommand ps (op.command user.bytes) with
      | .ok (after, _) => after
      | .error _ => ps := by
  have synthetic : isMailboxSyntheticCommand (op.command user.bytes).key = true := by
    cases op <;> rfl
  have put : (op.command user.bytes).op = .put := by
    cases op <;> rfl
  rw [land, Fsm.applyProto, if_pos ⟨put, synthetic⟩, Fsm.applyMailbox]
  cases applyMailboxCommand ps (op.command user.bytes) <;> rfl

/-- A command leaves the tree and the store as they are or steps the tree. -/
theorem land_command_cases (tidy : Tidy ps user.bytes) (op : MailboxOp) :
    land ps (op.command user.bytes) = ps ∨
      Step (tree ps user.bytes) op (tree (land ps (op.command user.bytes)) user.bytes) ∧
        Tidy (land ps (op.command user.bytes)) user.bytes := by
  rw [land_command]
  cases applied : applyMailboxCommand ps (op.command user.bytes) with
  | error error => exact Or.inl rfl
  | ok outcome =>
    obtain ⟨after, result⟩ := outcome
    obtain ⟨stepped, batch, rfl, lawful⟩ := command_step user tidy op after result applied
    exact Or.inr ⟨stepped, tidy.commit batch lawful⟩

theorem user_key_plain (rest : Bytes) : ¬ Fsm.marker <+: ascii "/user/" ++ rest := by
  rintro ⟨tail, same⟩
  exact absurd (congrArg (fun bytes => bytes[1]?) same) (by simp [Fsm.marker, ascii])

theorem land_put (key : Bytes) (value : Value) (plain : ¬ Fsm.marker <+: key) :
    land ps { op := .put, key := key, value := value } = set ps key value := by
  rw [land, Fsm.applyProto_plain _ _ plain]

theorem land_put_meta (name : Bytes) (value : Value) :
    land ps { op := .put, key := mailboxMetaKey user.bytes name, value := value } =
      set ps (mailboxMetaKey user.bytes name) value := by
  apply land_put
  rw [mailboxMetaKey, mailboxPrefix, List.append_assoc]
  exact user_key_plain _

theorem land_put_message (name : Bytes) (uid : UInt32) (value : Value) :
    land ps { op := .put, key := mailboxMsgKey user.bytes name uid, value := value } =
      set ps (mailboxMsgKey user.bytes name uid) value := by
  apply land_put
  rw [mailboxMsgKey, mailboxPrefix, List.append_assoc]
  exact user_key_plain _

theorem createMailbox_ok {userID name : Bytes} {now : Int64} {cmd : RaftCommand}
    (created : createMailbox ps userID name now = .ok cmd) :
    get ps (mailboxMetaKey userID name) = none ∧ marshalable (newMailbox name now) = true ∧
      cmd = ⟨.put, mailboxMetaKey userID name, .encoded (newMailbox name now)⟩ := by
  simp only [createMailbox, bind_ok, reject_ok, orError_ok, Value.marshal_some, pure, Except.pure,
    Except.ok.injEq] at created
  obtain ⟨-, free, -, ⟨valid, rfl⟩, rfl⟩ := created
  exact ⟨Option.not_isSome_iff_eq_none.mp free, valid, rfl⟩

theorem apply_uid (change : Change) (msg : MailboxMessage) : (change.apply msg).uid = msg.uid := by
  cases change <;> rfl

theorem updateMessage_ok {ps : PebbleStore} {change : Change} {userID mailbox : Bytes}
    {uid : UInt32} {cmd : RaftCommand}
    (updated : updateMessage change ps userID mailbox uid = .ok cmd) :
    ∃ seen, getMessage ps userID mailbox uid = .ok seen ∧
      (tree ps userID).messages mailbox uid = some seen ∧
      marshalable (change.apply seen) = true ∧
      cmd = ⟨.put, mailboxMsgKey userID mailbox uid, .encoded (change.apply seen)⟩ := by
  simp only [updateMessage, writeMessage, bind_ok, orError_ok, Value.marshal_some, pure,
    Except.pure, Except.ok.injEq] at updated
  obtain ⟨seen, read, -, ⟨valid, rfl⟩, rfl⟩ := updated
  refine ⟨seen, read, ?_, valid, rfl⟩
  simp only [getMessage, bind_ok, orError_ok] at read
  simpa only [tree, Option.bind_eq_some_iff] using read

/-- A `CreateMailbox` that lands in the store it read adds an empty mailbox. -/
theorem created_tree (tidy : Tidy ps user.bytes) {name : Bytes} {now : Int64} {cmd : RaftCommand}
    (created : createMailbox ps user.bytes name now = .ok cmd) :
    (tree ps user.bytes).metas name = none ∧ Tidy (land ps cmd) user.bytes ∧
      tree (land ps cmd) user.bytes =
        (tree ps user.bytes).setMeta name (some (newMailbox name now)) := by
  obtain ⟨free, valid, rfl⟩ := createMailbox_ok ps created
  rw [land_put_meta, tree_set_meta, Value.unmarshal_encoded _ valid]
  exact ⟨by simp [tree, free], tidy.set (entry_meta user.bytes name _ valid), rfl⟩

structure Regular (user : UserID) (ps : PebbleStore) : Prop where
  tidy : Tidy ps user.bytes
  sound : Sound (tree ps user.bytes)

theorem regular_empty (empty : ∀ key, mailboxPrefix user.bytes <+: key → get ps key = none) :
    Regular user ps :=
  ⟨tidy_empty user ps empty, sound_empty user ps empty⟩

variable {ps user}

theorem Regular.command (regular : Regular user ps) {op : MailboxOp}
    (space : Spacious (tree ps user.bytes) op) :
    Regular user (land ps (op.command user.bytes)) ∧
      Untouched (tree ps user.bytes) (tree (land ps (op.command user.bytes)) user.bytes) := by
  rcases land_command_cases ps user regular.tidy op with same | ⟨stepped, tidy⟩
  · rw [same]
    exact ⟨regular, untouched_refl _⟩
  · obtain ⟨sound, untouched⟩ := regular.sound.step space stepped
    exact ⟨⟨tidy, sound⟩, untouched⟩

theorem Regular.deliver (regular : Regular user ps) {mailbox : Bytes} (mailMeta : Bytes)
    (flags : UInt32) (room : Room (tree ps user.bytes) mailbox) :
    Regular user (land ps (deliverMessage user.bytes mailbox mailMeta flags)) := by
  have space : Spacious (tree ps user.bytes)
      (.deliver mailbox (.json (.delivery ⟨mailMeta, flags⟩))) := room
  exact (regular.command space).1

end Landing

/-! A user and a mail for the runs on concrete stores. -/

def sampleUser : UserID := ⟨ascii "u1", by decide, by decide⟩

def sampleMail (guid : String) : Bytes :=
  encode (Message.fields (⟨ascii guid, 0, []⟩ : MailMeta))

end Bongo.MailboxStore
