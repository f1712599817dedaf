import Bongo.MailboxKeys
import Bongo.Records

/-!
The mailbox commands as the replicated state machine applies them: each reads
the store, plans one batch and commits it, or fails and leaves the store alone.
Storage faults are not modelled, so a read that fails is a missing key or an
unreadable record.
-/

namespace Bongo.Mailbox

open ByteKeys KeyValue MailboxKeys Proto Records

inductive Error where
  | notMailboxCommand
  | invalidAppendKey (key : Bytes)
  | invalidScopedKey (key : Bytes)
  | invalidTransferKey (key : Bytes)
  | invalidRenameKey (key : Bytes)
  | parsingPayload
  | parsingMailMeta
  | missingGuid
  | invalidTransferPayload
  | invalidRenamePayload
  | readingMailbox (mailbox : Bytes)
  | readingMessage
  | parsingMeta
  | parsingMessage
  | marshalingMeta
  | marshalingMessage
  | cannotDeleteInbox
  | cannotRenameInbox
  | alreadyExists (mailbox : Bytes)
  deriving DecidableEq

def flagSeen : UInt32 := 1
def flagAnswered : UInt32 := 2
def flagFlagged : UInt32 := 4
def flagDeleted : UInt32 := 8
def flagDraft : UInt32 := 16
def flagRecent : UInt32 := 32

def mailboxAppendPrefix : Bytes := ascii "/__mailbox_append__/"
def mailboxCopyPrefix : Bytes := ascii "/__mailbox_copy__/"
def mailboxDeletePrefix : Bytes := ascii "/__mailbox_delete__/"
def mailboxDeliverPrefix : Bytes := ascii "/__mailbox_deliver__/"
def mailboxExpungePrefix : Bytes := ascii "/__mailbox_expunge__/"
def mailboxMovePrefix : Bytes := ascii "/__mailbox_move__/"
def mailboxRenamePrefix : Bytes := ascii "/__mailbox_rename__/"
def mailboxSubscribePrefix : Bytes := ascii "/__mailbox_subscribe__/"

def inbox : Bytes := ascii "INBOX"

structure MailboxMessageRef where
  userID : Bytes
  mailbox : Bytes
  uid : UInt32
  deriving DecidableEq

structure MailboxNewMail where
  userID : Bytes
  mailbox : Bytes
  uid : UInt32
  guid : Bytes
  mailMeta : Option MailMeta
  deriving DecidableEq

structure MailboxCommandResult where
  newMail : Option MailboxNewMail := none
  arrivals : List MailboxMessageRef := []
  expunged : List MailboxMessageRef := []
  deriving DecidableEq

/-- `strings.SplitN(rest, "/", 2)` with both parts present and non-empty. -/
def splitScoped (rest : Bytes) : Option (Bytes × Bytes) :=
  match cut 47 rest with
  | some (userID, mailbox) => if userID = [] ∨ mailbox = [] then none else some (userID, mailbox)
  | none => none

def parseMailboxScopedKey (key lead : Bytes) : Except Error (Bytes × Bytes) :=
  orError (.invalidScopedKey key) (splitScoped (trimPrefix key lead))

def parseTransferPayload : Value → Option TransferPayload
  | .json (.transfer payload) => some payload
  | _ => none

def parseRenamePayload : Value → Option RenamePayload
  | .json (.rename payload) => some payload
  | _ => none

def parseDeliveryPayload : Value → Option DeliveryPayload
  | .json (.delivery payload) => some payload
  | _ => none

def parseSubscribePayload : Value → Option SubscribePayload
  | .json (.subscribe payload) => some payload
  | _ => none

def parseMailboxTransferCommand (key : Bytes) (value : Value) (lead : Bytes) :
    Except Error (Bytes × TransferPayload) := do
  let userID := trimPrefix key lead
  reject (.invalidTransferKey key) (userID = [])
  let payload ← orError .parsingPayload (parseTransferPayload value)
  reject .invalidTransferPayload
    (payload.srcMailbox = [] ∨ payload.dstMailbox = [] ∨ payload.srcUID = 0)
  return (userID, payload)

def parseMailboxRenameCommand (key : Bytes) (value : Value) :
    Except Error (Bytes × RenamePayload) := do
  let userID := trimPrefix key mailboxRenamePrefix
  reject (.invalidRenameKey key) (userID = [])
  let payload ← orError .parsingPayload (parseRenamePayload value)
  reject .invalidRenamePayload (payload.oldName = [] ∨ payload.newName = [])
  return (userID, payload)

def readMailboxMeta (ps : PebbleStore) (userID mailbox : Bytes) : Except Error MailboxMeta := do
  let data ← orError (.readingMailbox mailbox) (get ps (mailboxMetaKey userID mailbox))
  orError .parsingMeta (data.unmarshal MailboxMeta)

/-- A mailbox that is not stored starts with validity 1 and UID 1. -/
def readOrInitMailboxMeta (ps : PebbleStore) (userID mailbox : Bytes) :
    Except Error MailboxMeta :=
  match readMailboxMeta ps userID mailbox with
  | .error (.readingMailbox _) =>
    .ok { name := mailbox, uidValidity := 1, uidNext := 1, unsubscribed := false }
  | other => other

def readMailboxMessage (ps : PebbleStore) (userID mailbox : Bytes) (uid : UInt32) :
    Except Error MailboxMessage := do
  let data ← orError .readingMessage (get ps (mailboxMsgKey userID mailbox uid))
  orError .parsingMessage (data.unmarshal MailboxMessage)

def writeMailboxMetaBatch (userID mailbox : Bytes) (mbMeta : MailboxMeta) :
    Except Error (Write Value) := do
  let data ← orError .marshalingMeta (Value.marshal mbMeta)
  return .set (mailboxMetaKey userID mailbox) data

def writeMailboxMessageBatch (userID mailbox : Bytes) (uid : UInt32) (msg : MailboxMessage) :
    Except Error (Write Value) := do
  let data ← orError .marshalingMessage (Value.marshal msg)
  return .set (mailboxMsgKey userID mailbox uid) data

def listMailboxMessages (ps : PebbleStore) (userID mailbox : Bytes) :
    Except Error (List MailboxMessage) :=
  orError .parsingMessage
    ((prefixScan ps (mailboxMsgPrefix userID mailbox)).mapM
      fun entry => entry.2.unmarshal MailboxMessage)

def placeMessage (userID mailbox : Bytes) (mbMeta : MailboxMeta) (msg : MailboxMessage) :
    Except Error (List (Write Value)) := do
  let uid := mbMeta.uidNext
  let metaWrite ← writeMailboxMetaBatch userID mailbox { mbMeta with uidNext := uid + 1 }
  let msgWrite ← writeMailboxMessageBatch userID mailbox uid { msg with uid := uid }
  return [metaWrite, msgWrite]

def applyMailboxAppend (ps : PebbleStore) (cmd : RaftCommand) :
    Except Error (PebbleStore × MailboxCommandResult) := do
  let (userID, mailbox) ← orError (.invalidAppendKey cmd.key)
    (splitScoped (trimPrefix cmd.key mailboxAppendPrefix))
  let msg ← orError .parsingPayload (cmd.value.unmarshal MailboxMessage)
  reject .missingGuid (msg.mailGuid = [])
  let mbMeta ← readMailboxMeta ps userID mailbox
  let writes ← placeMessage userID mailbox mbMeta msg
  return (commit ps writes,
    { newMail := some ⟨userID, mailbox, mbMeta.uidNext, msg.mailGuid, none⟩ })

def applyMailboxDelivery (ps : PebbleStore) (cmd : RaftCommand) :
    Except Error (PebbleStore × MailboxCommandResult) := do
  let (userID, mailbox) ← parseMailboxScopedKey cmd.key mailboxDeliverPrefix
  let payload ← orError .parsingPayload (parseDeliveryPayload cmd.value)
  let mailMeta ← orError .parsingMailMeta (unmarshal MailMeta payload.mailMeta)
  reject .missingGuid (mailMeta.guid = [])
  let mbMeta ← readOrInitMailboxMeta ps userID mailbox
  let msg : MailboxMessage :=
    { uid := mbMeta.uidNext, mailGuid := mailMeta.guid, flags := payload.flags,
      internalDate := mailMeta.receivedAt, tags := mailMeta.tags }
  let writes ← placeMessage userID mailbox mbMeta msg
  return (commit ps (.set (mailMetaKey userID mailMeta.guid) (.bytes payload.mailMeta) :: writes),
    { newMail := some ⟨userID, mailbox, mbMeta.uidNext, mailMeta.guid, some mailMeta⟩ })

/-- The copy of a message that a copy or a move places in the destination. -/
def transferred (srcMsg : MailboxMessage) (newUID : UInt32) : MailboxMessage :=
  { uid := newUID, mailGuid := srcMsg.mailGuid, flags := srcMsg.flags &&& ~~~flagRecent,
    internalDate := srcMsg.internalDate, tags := srcMsg.tags }

def applyMailboxCopy (ps : PebbleStore) (cmd : RaftCommand) :
    Except Error (PebbleStore × MailboxCommandResult) := do
  let (userID, payload) ← parseMailboxTransferCommand cmd.key cmd.value mailboxCopyPrefix
  let srcMsg ← readMailboxMessage ps userID payload.srcMailbox payload.srcUID
  let dstMeta ← readMailboxMeta ps userID payload.dstMailbox
  let writes ← placeMessage userID payload.dstMailbox dstMeta (transferred srcMsg dstMeta.uidNext)
  return (commit ps writes, { arrivals := [⟨userID, payload.dstMailbox, dstMeta.uidNext⟩] })

def deleteBatch (userID mailbox : Bytes) (msgs : List MailboxMessage) : List (Write Value) :=
  (msgs.map fun msg => mailboxMsgKey userID mailbox msg.uid).map .delete ++
    [.delete (mailboxMetaKey userID mailbox)]

def applyMailboxDelete (ps : PebbleStore) (cmd : RaftCommand) : Except Error PebbleStore := do
  let (userID, mailbox) ← parseMailboxScopedKey cmd.key mailboxDeletePrefix
  reject .cannotDeleteInbox (equalFold mailbox inbox)
  let msgs ← listMailboxMessages ps userID mailbox
  return commit ps (deleteBatch userID mailbox msgs)

def markedDeleted (msg : MailboxMessage) : Bool := msg.flags &&& flagDeleted != 0

def applyMailboxExpunge (ps : PebbleStore) (cmd : RaftCommand) :
    Except Error (PebbleStore × MailboxCommandResult) := do
  let (userID, mailbox) ← parseMailboxScopedKey cmd.key mailboxExpungePrefix
  let msgs ← listMailboxMessages ps userID mailbox
  let removed := (msgs.filter markedDeleted).map (·.uid)
  return (commit ps ((removed.map (mailboxMsgKey userID mailbox)).map .delete),
    { expunged := removed.map fun uid => ⟨userID, mailbox, uid⟩ })

def applyMailboxMove (ps : PebbleStore) (cmd : RaftCommand) :
    Except Error (PebbleStore × MailboxCommandResult) := do
  let (userID, payload) ← parseMailboxTransferCommand cmd.key cmd.value mailboxMovePrefix
  let srcMsg ← readMailboxMessage ps userID payload.srcMailbox payload.srcUID
  let dstMeta ← readMailboxMeta ps userID payload.dstMailbox
  let writes ← placeMessage userID payload.dstMailbox dstMeta (transferred srcMsg dstMeta.uidNext)
  return (commit ps (writes ++ [.delete (mailboxMsgKey userID payload.srcMailbox payload.srcUID)]),
    { expunged := [⟨userID, payload.srcMailbox, payload.srcUID⟩]
      arrivals := [⟨userID, payload.dstMailbox, dstMeta.uidNext⟩] })

/-- The writes of a rename's loop: each listed message is written under the new
name and deleted under the old one. -/
def renameMessages (userID oldName newName : Bytes) :
    List MailboxMessage → Except Error (List (Write Value))
  | [] => .ok []
  | msg :: rest => do
      let write ← writeMailboxMessageBatch userID newName msg.uid msg
      let others ← renameMessages userID oldName newName rest
      return write :: .delete (mailboxMsgKey userID oldName msg.uid) :: others

def applyMailboxRename (ps : PebbleStore) (cmd : RaftCommand) : Except Error PebbleStore := do
  let (userID, payload) ← parseMailboxRenameCommand cmd.key cmd.value
  reject .cannotRenameInbox (equalFold payload.oldName inbox)
  let oldMeta ← readMailboxMeta ps userID payload.oldName
  reject (.alreadyExists payload.newName)
    (equalFold payload.newName inbox ∨ payload.newName = payload.oldName)
  reject (.alreadyExists payload.newName)
    ((get ps (mailboxMetaKey userID payload.newName)).isSome)
  let newMeta := { oldMeta with name := payload.newName }
  let msgs ← listMailboxMessages ps userID payload.oldName
  let metaWrite ← writeMailboxMetaBatch userID payload.newName newMeta
  let writes ← renameMessages userID payload.oldName payload.newName msgs
  return commit ps (metaWrite :: writes ++ [.delete (mailboxMetaKey userID payload.oldName)])

def applyMailboxSubscribe (ps : PebbleStore) (cmd : RaftCommand) : Except Error PebbleStore := do
  let (userID, mailbox) ← parseMailboxScopedKey cmd.key mailboxSubscribePrefix
  let payload ← orError .parsingPayload (parseSubscribePayload cmd.value)
  let mbMeta ← readMailboxMeta ps userID mailbox
  let write ← writeMailboxMetaBatch userID mailbox
    { mbMeta with unsubscribed := !payload.subscribed }
  return commit ps [write]

def isMailboxSyntheticCommand (key : Bytes) : Bool :=
  hasPrefix key mailboxAppendPrefix || hasPrefix key mailboxCopyPrefix ||
    hasPrefix key mailboxDeletePrefix || hasPrefix key mailboxDeliverPrefix ||
    hasPrefix key mailboxExpungePrefix || hasPrefix key mailboxMovePrefix ||
    hasPrefix key mailboxRenamePrefix || hasPrefix key mailboxSubscribePrefix

def withResult (applied : Except Error (PebbleStore × MailboxCommandResult)) :
    Except Error (PebbleStore × Option MailboxCommandResult) :=
  applied.map fun outcome => (outcome.1, some outcome.2)

def withoutResult (applied : Except Error PebbleStore) :
    Except Error (PebbleStore × Option MailboxCommandResult) :=
  applied.map fun ps => (ps, none)

def applyMailboxCommand (ps : PebbleStore) (cmd : RaftCommand) :
    Except Error (PebbleStore × Option MailboxCommandResult) :=
  if hasPrefix cmd.key mailboxAppendPrefix then withResult (applyMailboxAppend ps cmd)
  else if hasPrefix cmd.key mailboxCopyPrefix then withResult (applyMailboxCopy ps cmd)
  else if hasPrefix cmd.key mailboxDeletePrefix then withoutResult (applyMailboxDelete ps cmd)
  else if hasPrefix cmd.key mailboxDeliverPrefix then withResult (applyMailboxDelivery ps cmd)
  else if hasPrefix cmd.key mailboxExpungePrefix then withResult (applyMailboxExpunge ps cmd)
  else if hasPrefix cmd.key mailboxMovePrefix then withResult (applyMailboxMove ps cmd)
  else if hasPrefix cmd.key mailboxRenamePrefix then withoutResult (applyMailboxRename ps cmd)
  else if hasPrefix cmd.key mailboxSubscribePrefix then
    withoutResult (applyMailboxSubscribe ps cmd)
  else .error .notMailboxCommand

/-! What a command that succeeds has read and written. Each lemma gives the
whole batch, so nothing below unfolds a command again. -/
section Outcomes

variable {ps : PebbleStore} {cmd : RaftCommand}

variable {userID : Bytes}

theorem placeMessage_ok {mailbox : Bytes} {mbMeta : MailboxMeta} {msg : MailboxMessage}
    {writes : List (Write Value)} (placed : placeMessage userID mailbox mbMeta msg = .ok writes) :
    marshalable { mbMeta with uidNext := mbMeta.uidNext + 1 } = true ∧
      marshalable { msg with uid := mbMeta.uidNext } = true ∧
      writes = [.set (mailboxMetaKey userID mailbox)
          (.encoded { mbMeta with uidNext := mbMeta.uidNext + 1 }),
        .set (mailboxMsgKey userID mailbox mbMeta.uidNext)
          (.encoded { msg with uid := mbMeta.uidNext })] := by
  simp only [placeMessage, writeMailboxMetaBatch, writeMailboxMessageBatch, bind_ok, orError_ok,
    Value.marshal_some, pure, Except.pure, Except.ok.injEq] at placed
  obtain ⟨-, ⟨-, ⟨metaValid, rfl⟩, rfl⟩, -, ⟨-, ⟨msgValid, rfl⟩, rfl⟩, rfl⟩ := placed
  exact ⟨metaValid, msgValid, rfl⟩

variable {result : MailboxCommandResult} {ps' : PebbleStore}

theorem append_ok (applied : applyMailboxAppend ps cmd = .ok (ps', result)) :
    ∃ userID mailbox msg mbMeta writes,
      splitScoped (trimPrefix cmd.key mailboxAppendPrefix) = some (userID, mailbox) ∧
      cmd.value.unmarshal MailboxMessage = some msg ∧ msg.mailGuid ≠ [] ∧
      readMailboxMeta ps userID mailbox = .ok mbMeta ∧
      placeMessage userID mailbox mbMeta msg = .ok writes ∧ ps' = commit ps writes := by
  simp only [applyMailboxAppend, bind_ok, orError_ok, reject_ok] at applied
  obtain ⟨⟨userID, mailbox⟩, key, msg, parsed, -, guid, mbMeta, found, writes, placed, rfl, -⟩ :=
    applied
  exact ⟨userID, mailbox, msg, mbMeta, writes, key, parsed, guid, found, placed, rfl⟩

theorem delivery_ok (applied : applyMailboxDelivery ps cmd = .ok (ps', result)) :
    ∃ userID mailbox payload mailMeta mbMeta writes,
      splitScoped (trimPrefix cmd.key mailboxDeliverPrefix) = some (userID, mailbox) ∧
      parseDeliveryPayload cmd.value = some payload ∧
      unmarshal MailMeta payload.mailMeta = some mailMeta ∧ mailMeta.guid ≠ [] ∧
      readOrInitMailboxMeta ps userID mailbox = .ok mbMeta ∧
      placeMessage userID mailbox mbMeta
        { uid := mbMeta.uidNext, mailGuid := mailMeta.guid, flags := payload.flags,
          internalDate := mailMeta.receivedAt, tags := mailMeta.tags } = .ok writes ∧
      ps' = commit ps
        (.set (mailMetaKey userID mailMeta.guid) (.bytes payload.mailMeta) :: writes) := by
  simp only [applyMailboxDelivery, parseMailboxScopedKey, bind_ok, orError_ok, reject_ok] at applied
  obtain ⟨⟨userID, mailbox⟩, key, payload, parsed, mailMeta, read, -, guid, mbMeta, found, writes,
    placed, rfl, -⟩ := applied
  exact ⟨userID, mailbox, payload, mailMeta, mbMeta, writes, key, parsed, read, guid, found, placed,
    rfl⟩

theorem transfer_ok {key lead : Bytes} {value : Value} {payload : TransferPayload}
    (parsed : parseMailboxTransferCommand key value lead = .ok (userID, payload)) :
    userID = trimPrefix key lead ∧ value = .json (.transfer payload) ∧
      payload.srcMailbox ≠ [] ∧ payload.dstMailbox ≠ [] ∧ payload.srcUID ≠ 0 := by
  simp only [parseMailboxTransferCommand, bind_ok, reject_ok, not_or] at parsed
  obtain ⟨-, -, read, spelled, -, ⟨src, dst, uid⟩, rfl, rfl⟩ := parsed
  refine ⟨rfl, ?_, src, dst, uid⟩
  unfold parseTransferPayload at spelled
  split at spelled
  · cases spelled
    rfl
  · cases spelled

theorem copy_ok (applied : applyMailboxCopy ps cmd = .ok (ps', result)) :
    ∃ userID payload srcMsg dstMeta writes,
      parseMailboxTransferCommand cmd.key cmd.value mailboxCopyPrefix = .ok (userID, payload) ∧
      readMailboxMessage ps userID payload.srcMailbox payload.srcUID = .ok srcMsg ∧
      readMailboxMeta ps userID payload.dstMailbox = .ok dstMeta ∧
      placeMessage userID payload.dstMailbox dstMeta (transferred srcMsg dstMeta.uidNext) =
        .ok writes ∧
      ps' = commit ps writes := by
  simp only [applyMailboxCopy, bind_ok] at applied
  obtain ⟨⟨userID, payload⟩, parsed, srcMsg, source, dstMeta, found, writes, placed, rfl, -⟩ :=
    applied
  exact ⟨userID, payload, srcMsg, dstMeta, writes, parsed, source, found, placed, rfl⟩

theorem move_ok (applied : applyMailboxMove ps cmd = .ok (ps', result)) :
    ∃ userID payload srcMsg dstMeta writes,
      parseMailboxTransferCommand cmd.key cmd.value mailboxMovePrefix = .ok (userID, payload) ∧
      readMailboxMessage ps userID payload.srcMailbox payload.srcUID = .ok srcMsg ∧
      readMailboxMeta ps userID payload.dstMailbox = .ok dstMeta ∧
      placeMessage userID payload.dstMailbox dstMeta (transferred srcMsg dstMeta.uidNext) =
        .ok writes ∧
      ps' = delete (commit ps writes)
        (mailboxMsgKey userID payload.srcMailbox payload.srcUID) := by
  simp only [applyMailboxMove, bind_ok] at applied
  obtain ⟨⟨userID, payload⟩, parsed, srcMsg, source, dstMeta, found, writes, placed, rfl, -⟩ :=
    applied
  refine ⟨userID, payload, srcMsg, dstMeta, writes, parsed, source, found, placed, ?_⟩
  rw [commit_append, commit_delete, commit_nil]

theorem delete_ok (applied : applyMailboxDelete ps cmd = .ok ps') :
    ∃ userID mailbox msgs,
      splitScoped (trimPrefix cmd.key mailboxDeletePrefix) = some (userID, mailbox) ∧
      equalFold mailbox inbox = false ∧
      listMailboxMessages ps userID mailbox = .ok msgs ∧
      ps' = commit ps (deleteBatch userID mailbox msgs) := by
  simp only [applyMailboxDelete, parseMailboxScopedKey, bind_ok, orError_ok, reject_ok, pure,
    Except.pure, Except.ok.injEq, Bool.not_eq_true] at applied
  obtain ⟨⟨userID, mailbox⟩, key, -, allowed, msgs, listed, rfl⟩ := applied
  exact ⟨userID, mailbox, msgs, key, allowed, listed, rfl⟩

theorem expunge_ok (applied : applyMailboxExpunge ps cmd = .ok (ps', result)) :
    ∃ userID mailbox msgs,
      splitScoped (trimPrefix cmd.key mailboxExpungePrefix) = some (userID, mailbox) ∧
      listMailboxMessages ps userID mailbox = .ok msgs ∧
      ps' = commit ps ((((msgs.filter markedDeleted).map (·.uid)).map
        (mailboxMsgKey userID mailbox)).map .delete) := by
  simp only [applyMailboxExpunge, parseMailboxScopedKey, bind_ok, orError_ok] at applied
  obtain ⟨⟨userID, mailbox⟩, key, msgs, listed, rfl, -⟩ := applied
  exact ⟨userID, mailbox, msgs, key, listed, rfl⟩

theorem renameMessages_ok {oldName newName : Bytes} {msgs : List MailboxMessage}
    {writes : List (Write Value)} (moved : renameMessages userID oldName newName msgs =
      .ok writes) :
    (∀ msg ∈ msgs, marshalable msg = true) ∧
      writes = relocation (fun msg => mailboxMsgKey userID newName msg.uid)
        (fun msg => mailboxMsgKey userID oldName msg.uid) Value.encoded msgs := by
  induction msgs generalizing writes with
  | nil =>
    cases moved
    exact ⟨by simp, rfl⟩
  | cons msg rest ih =>
    simp only [renameMessages, writeMailboxMessageBatch, bind_ok, orError_ok,
      Value.marshal_some, pure, Except.pure, Except.ok.injEq] at moved
    obtain ⟨-, ⟨-, ⟨valid, rfl⟩, rfl⟩, others, more, rfl⟩ := moved
    obtain ⟨restValid, rfl⟩ := ih more
    refine ⟨?_, rfl⟩
    exact List.forall_mem_cons.mpr ⟨valid, restValid⟩

theorem renameCommand_ok {key : Bytes} {value : Value} {payload : RenamePayload}
    (parsed : parseMailboxRenameCommand key value = .ok (userID, payload)) :
    userID = trimPrefix key mailboxRenamePrefix ∧ value = .json (.rename payload) ∧
      payload.oldName ≠ [] ∧ payload.newName ≠ [] := by
  simp only [parseMailboxRenameCommand, bind_ok, reject_ok, not_or] at parsed
  obtain ⟨-, -, read, spelled, -, ⟨oldPresent, newPresent⟩, rfl, rfl⟩ := parsed
  refine ⟨rfl, ?_, oldPresent, newPresent⟩
  unfold parseRenamePayload at spelled
  split at spelled
  · cases spelled
    rfl
  · cases spelled

def renamed (ps : PebbleStore) (userID : Bytes) (payload : RenamePayload) (oldMeta : MailboxMeta)
    (msgs : List MailboxMessage) : PebbleStore :=
  delete
    (commit (set ps (mailboxMetaKey userID payload.newName)
        (.encoded { oldMeta with name := payload.newName }))
      (relocation (fun msg => mailboxMsgKey userID payload.newName msg.uid)
        (fun msg => mailboxMsgKey userID payload.oldName msg.uid) Value.encoded msgs))
    (mailboxMetaKey userID payload.oldName)

theorem rename_ok (applied : applyMailboxRename ps cmd = .ok ps') :
    ∃ userID payload oldMeta msgs,
      parseMailboxRenameCommand cmd.key cmd.value = .ok (userID, payload) ∧
      readMailboxMeta ps userID payload.oldName = .ok oldMeta ∧
      payload.newName ≠ payload.oldName ∧
      get ps (mailboxMetaKey userID payload.newName) = none ∧
      listMailboxMessages ps userID payload.oldName = .ok msgs ∧
      marshalable { oldMeta with name := payload.newName } = true ∧
      (∀ msg ∈ msgs, marshalable msg = true) ∧
      ps' = renamed ps userID payload oldMeta msgs := by
  simp only [applyMailboxRename, writeMailboxMetaBatch, bind_ok, orError_ok, reject_ok,
    Value.marshal_some, pure, Except.pure, Except.ok.injEq, not_or] at applied
  obtain ⟨⟨userID, payload⟩, parsed, -, -, oldMeta, found, -, ⟨-, different⟩, -, free, msgs, listed,
    -, ⟨-, ⟨valid, rfl⟩, rfl⟩, writes, relocated, rfl⟩ := applied
  obtain ⟨msgsValid, rfl⟩ := renameMessages_ok relocated
  refine ⟨userID, payload, oldMeta, msgs, parsed, found, different, ?_, listed, valid, msgsValid,
    ?_⟩
  · exact Option.not_isSome_iff_eq_none.mp free
  · rw [renamed, commit_append, commit_set, commit_delete, commit_nil]

theorem subscribe_ok (applied : applyMailboxSubscribe ps cmd = .ok ps') :
    ∃ userID mailbox payload mbMeta,
      splitScoped (trimPrefix cmd.key mailboxSubscribePrefix) = some (userID, mailbox) ∧
      parseSubscribePayload cmd.value = some payload ∧
      readMailboxMeta ps userID mailbox = .ok mbMeta ∧
      marshalable { mbMeta with unsubscribed := !payload.subscribed } = true ∧
      ps' = set ps (mailboxMetaKey userID mailbox)
        (.encoded { mbMeta with unsubscribed := !payload.subscribed }) := by
  simp only [applyMailboxSubscribe, parseMailboxScopedKey, writeMailboxMetaBatch, bind_ok,
    orError_ok, Value.marshal_some, pure, Except.pure, Except.ok.injEq] at applied
  obtain ⟨⟨userID, mailbox⟩, key, payload, parsed, mbMeta, found, -, ⟨-, ⟨valid, rfl⟩, rfl⟩, rfl⟩ :=
    applied
  exact ⟨userID, mailbox, payload, mbMeta, key, parsed, found, valid, rfl⟩

end Outcomes

end Bongo.Mailbox
