import Bongo.Records

/-!
The outbound queue. A message waits under a pending key that spells its next
retry time and ends in its id, or rests under a bounced key; the move between
two keys is one replicated command.
-/

namespace Bongo.Queue

open ByteKeys KeyValue Proto Records

inductive MessageStatus where
  | unspecified
  | pending
  | failed
  | delivered
  | bounced
  deriving DecidableEq

def MessageStatus.number : MessageStatus → UInt64
  | .unspecified => 0
  | .pending => 1
  | .failed => 2
  | .delivered => 3
  | .bounced => 4

def MessageStatus.ofNumber (number : UInt64) : MessageStatus :=
  if number = 1 then .pending
  else if number = 2 then .failed
  else if number = 3 then .delivered
  else if number = 4 then .bounced
  else .unspecified

inductive OutboundOrigin where
  | unspecified
  | fromLocal
  | forward
  | autoreply
  deriving DecidableEq

def OutboundOrigin.number : OutboundOrigin → UInt64
  | .unspecified => 0
  | .fromLocal => 1
  | .forward => 2
  | .autoreply => 3

def OutboundOrigin.ofNumber (number : UInt64) : OutboundOrigin :=
  if number = 1 then .fromLocal
  else if number = 2 then .forward
  else if number = 3 then .autoreply
  else .unspecified

@[simp] theorem MessageStatus.ofNumber_number (status : MessageStatus) :
    MessageStatus.ofNumber status.number = status := by
  cases status <;> rfl

@[simp] theorem OutboundOrigin.ofNumber_number (origin : OutboundOrigin) :
    OutboundOrigin.ofNumber origin.number = origin := by
  cases origin <;> rfl

/-- The nested records (layout segments, attachment references, DSN parameters)
are carried in their encoding. -/
structure OutboundMessage where
  id : Bytes
  senderId : Bytes
  senderEmail : Bytes
  recipients : List Bytes
  blobHash : Bytes
  attemptCount : Int32
  createdAt : Int64
  nextRetryAt : Int64
  status : MessageStatus
  statusReason : Bytes
  failedRecipients : List Bytes
  messageGuid : Bytes
  layout : List Bytes
  attachments : List Bytes
  origin : OutboundOrigin
  senderAuthenticated : Bool
  dsnRet : Bytes
  dsnEnvid : Bytes
  recipientDsn : List Bytes
  delayReportSent : Bool
  deriving DecidableEq

instance : Message OutboundMessage where
  strings := [1, 2, 3, 4, 5, 10, 11, 12, 17, 18]
  fields data :=
    bytesField 1 data.id ++ (bytesField 2 data.senderId ++ (bytesField 3 data.senderEmail ++
    (repeatedField 4 data.recipients ++ (bytesField 5 data.blobHash ++
    (varintField 6 data.attemptCount.toInt64.toUInt64 ++ (varintField 7 data.createdAt.toUInt64 ++
    (varintField 8 data.nextRetryAt.toUInt64 ++ (varintField 9 data.status.number ++
    (bytesField 10 data.statusReason ++ (repeatedField 11 data.failedRecipients ++
    (bytesField 12 data.messageGuid ++ (repeatedField 13 data.layout ++
    (repeatedField 14 data.attachments ++ (varintField 15 data.origin.number ++
    (varintField 16 (boolVarint data.senderAuthenticated) ++ (bytesField 17 data.dsnRet ++
    (bytesField 18 data.dsnEnvid ++ (repeatedField 19 data.recipientDsn ++
      varintField 20 (boolVarint data.delayReportSent)))))))))))))))))))
  ofFields record :=
    { id := bytesAt 1 record
      senderId := bytesAt 2 record
      senderEmail := bytesAt 3 record
      recipients := repeatedAt 4 record
      blobHash := bytesAt 5 record
      attemptCount := (varintAt 6 record).toInt64.toInt32
      createdAt := (varintAt 7 record).toInt64
      nextRetryAt := (varintAt 8 record).toInt64
      status := .ofNumber (varintAt 9 record)
      statusReason := bytesAt 10 record
      failedRecipients := repeatedAt 11 record
      messageGuid := bytesAt 12 record
      layout := repeatedAt 13 record
      attachments := repeatedAt 14 record
      origin := .ofNumber (varintAt 15 record)
      senderAuthenticated := varintAt 16 record != 0
      dsnRet := bytesAt 17 record
      dsnEnvid := bytesAt 18 record
      recipientDsn := repeatedAt 19 record
      delayReportSent := varintAt 20 record != 0 }
  ofFields_fields data := by
    simp [bytesAt, varintAt, bytesFrom_repeatedField, repeatedAt_bytesField,
      repeatedAt_repeatedField]
  carried record := by simp

def sampleMessage : OutboundMessage where
  id := ascii "m1"
  senderId := ascii "u1"
  senderEmail := ascii "u1@a.example"
  recipients := [ascii "r@b.example"]
  blobHash := ascii "h1"
  attemptCount := 0
  createdAt := 5
  nextRetryAt := 5
  status := .pending
  statusReason := []
  failedRecipients := []
  messageGuid := ascii "g1"
  layout := []
  attachments := []
  origin := .fromLocal
  senderAuthenticated := false
  dsnRet := []
  dsnEnvid := []
  recipientDsn := []
  delayReportSent := false

def pendingPrefix : Bytes := ascii "/queue/pending/"
def bouncedPrefix : Bytes := ascii "/queue/bounced/"

/-- `%020d`: the sign of a negative number takes the place of one digit. -/
def padded (number : Int64) : Bytes :=
  if number < 0 then ascii "-" ++ decimal 19 number.toInt.natAbs
  else decimal 20 number.toInt.toNat

def pendingKey (nextRetryAt : Int64) (id : Bytes) : Bytes :=
  pendingPrefix ++ (padded nextRetryAt ++ (ascii "-" ++ id))

def bouncedKey (id : Bytes) : Bytes := bouncedPrefix ++ id

theorem padded_length (number : Int64) : (padded number).length = 20 := by
  rw [padded]
  split
  · rw [List.length_append, decimal_length]
    rfl
  · rw [decimal_length]

theorem decimal_unsigned (number magnitude : Nat) :
    decimal 20 number ≠ ascii "-" ++ decimal 19 magnitude := by
  intro same
  have sign : (45 : UInt8) ∈ decimal 20 number := by
    rw [same]
    exact List.mem_cons_self
  have range := mem_decimal 20 number 45 sign
  exact absurd range.1 (by decide)

theorem padded_inj {left right : Int64} (same : padded left = padded right) : left = right := by
  have leftLow := left.le_toInt
  have leftHigh := left.toInt_lt
  have rightLow := right.le_toInt
  have rightHigh := right.toInt_lt
  rw [← Int64.toInt_inj]
  simp only [padded, Int64.lt_iff_toInt_lt, Int64.toInt_zero] at same
  split_ifs at same with leftNegative rightNegative rightNegative
  · have equal := decimal_inj 19 _ _ (by omega) (by omega) (List.append_cancel_left same)
    omega
  · exact absurd same.symm (decimal_unsigned _ _)
  · exact absurd same (decimal_unsigned _ _)
  · have equal := decimal_inj 20 _ _ (by omega) (by omega) same
    omega

inductive Place where
  | pending (nextRetryAt : Int64)
  | bounced
  deriving DecidableEq

def Place.key (id : Bytes) : Place → Bytes
  | .pending nextRetryAt => pendingKey nextRetryAt id
  | .bounced => bouncedKey id

theorem pending_ne_bounced (left right : Bytes) :
    pendingPrefix ++ left ≠ bouncedPrefix ++ right := by
  intro same
  have lengths : pendingPrefix.length = bouncedPrefix.length := by decide
  have prefixes := (List.append_inj same lengths).1
  exact absurd prefixes (by decide)

/-- A key belongs to one message and one place. -/
theorem place_key_inj {left right : Bytes} {here there : Place}
    (same : here.key left = there.key right) : left = right ∧ here = there := by
  cases here with
  | pending leftTime =>
    cases there with
    | pending rightTime =>
      have parts := List.append_inj (List.append_cancel_left same)
        ((padded_length leftTime).trans (padded_length rightTime).symm)
      have time := padded_inj parts.1
      have id := List.append_cancel_left parts.2
      rw [time, id]
      exact ⟨rfl, rfl⟩
    | bounced => exact absurd same (pending_ne_bounced _ _)
  | bounced =>
    cases there with
    | pending rightTime => exact absurd same.symm (pending_ne_bounced _ _)
    | bounced => exact ⟨List.append_cancel_left same, rfl⟩

theorem place_key_eq {left right : Bytes} {here there : Place} :
    here.key left = there.key right ↔ left = right ∧ here = there := by
  constructor
  · exact place_key_inj
  · rintro ⟨rfl, rfl⟩
    rfl

inductive MoveError where
  | notQueueCommand
  | parsingPayload
  | missingNewKey
  | missingID
  deriving DecidableEq

def queueMovePrefix : Bytes := ascii "/__queue_move__/"

def isQueueSyntheticCommand (key : Bytes) : Bool := hasPrefix key queueMovePrefix

def parseQueueMovePayload : Value → Option QueueMovePayload
  | .json (.queueMove payload) => some payload
  | _ => none

def buildQueueMoveCommand (id oldKey newKey value : Bytes) : Except MoveError RaftCommand := do
  reject .missingID (id = [])
  reject .missingNewKey (newKey = [])
  return {
    op := .put
    key := queueMovePrefix ++ id
    value := .json (.queueMove ⟨oldKey, newKey, value⟩) }

/-- The old key is deleted before the new one is written, so the message
survives a move onto its own key. -/
def moveBatch (payload : QueueMovePayload) : List (Write Value) :=
  (if payload.oldKey = [] then [] else [.delete payload.oldKey]) ++
    [.set payload.newKey (.bytes payload.value)]

def planQueueMove (cmd : RaftCommand) : Except MoveError (List (Write Value)) := do
  reject .notQueueCommand (isQueueSyntheticCommand cmd.key = false)
  let payload ← orError .parsingPayload (parseQueueMovePayload cmd.value)
  reject .missingNewKey (payload.newKey = [])
  return moveBatch payload

def applyQueueCommand (ps : PebbleStore) (cmd : RaftCommand) : PebbleStore × Option MoveError :=
  commitSyncBatch ps (planQueueMove cmd)

theorem get_moveBatch (ps : PebbleStore) (payload : QueueMovePayload) (key : Bytes) :
    get (commit ps (moveBatch payload)) key =
      if payload.newKey = key then some (.bytes payload.value)
      else if payload.oldKey ≠ [] ∧ payload.oldKey = key then none
      else get ps key := by
  by_cases empty : payload.oldKey = []
  · simp [moveBatch, empty]
  · simp [moveBatch, empty]

theorem planQueueMove_settles (cmd : RaftCommand) :
    Settles fun _ => planQueueMove cmd := by
  intro ps batch again planned replanned
  cases planned.symm.trans replanned
  simp only [planQueueMove, bind_ok, orError_ok, reject_ok, pure, Except.pure,
    Except.ok.injEq] at planned
  obtain ⟨-, -, payload, -, -, -, rfl⟩ := planned
  apply store_ext
  intro key
  rw [get_moveBatch, get_moveBatch]
  split_ifs <;> rfl

/-! The queue as its callers use it. A method reads the local store and issues
one command; the commands of `MarkFailed`, `MarkBounced` and `RetryNow` move the
message from the key that was found. -/
section Store

inductive StoreError where
  | notFound (id : Bytes)
  | readingMessage
  | parsingMessage
  | marshalingMessage
  | moving (error : MoveError)
  deriving DecidableEq

variable (ps : PebbleStore)

def enqueue (msg : OutboundMessage) (now : Int64) : Except StoreError RaftCommand := do
  let msg := { msg with
    nextRetryAt := if msg.nextRetryAt = 0 then now else msg.nextRetryAt
    createdAt := if msg.createdAt = 0 then now else msg.createdAt
    status := .pending }
  let data ← orError .marshalingMessage (Value.marshal msg)
  return { op := .put, key := pendingKey msg.nextRetryAt msg.id, value := data }

/-- The first pending key that ends in the id. -/
def findPendingKey (id : Bytes) : Except StoreError Bytes :=
  orError (.notFound id)
    ((scanKeys ps pendingPrefix).find? fun key => hasSuffix key (ascii "-" ++ id))

def applyMove (id oldKey newKey value : Bytes) : Except StoreError RaftCommand :=
  match buildQueueMoveCommand id oldKey newKey value with
  | .ok cmd => .ok cmd
  | .error error => .error (.moving error)

def deleteFound (id : Bytes) : Except StoreError RaftCommand := do
  let key ← findPendingKey ps id
  return { op := .delete, key := key, value := .empty }

def markDelivered (id : Bytes) : Except StoreError RaftCommand := deleteFound ps id

def delete (id : Bytes) : Except StoreError RaftCommand := deleteFound ps id

def failedOnce (msg : OutboundMessage) (nextRetryAt : Int64) : OutboundMessage :=
  { msg with
    attemptCount := msg.attemptCount + 1
    status := .failed
    nextRetryAt := nextRetryAt }

def markFailed (msg : OutboundMessage) (nextRetryAt : Int64) : Except StoreError RaftCommand := do
  let oldKey ← findPendingKey ps msg.id
  let data ← orError .marshalingMessage (Proto.marshal (failedOnce msg nextRetryAt))
  applyMove msg.id oldKey (pendingKey nextRetryAt msg.id) data

def markBounced (msg : OutboundMessage) : Except StoreError RaftCommand := do
  let oldKey ← findPendingKey ps msg.id
  let data ← orError .marshalingMessage (Proto.marshal { msg with status := .bounced })
  applyMove msg.id oldKey (bouncedKey msg.id) data

def getMessage (id : Bytes) : Except StoreError OutboundMessage := do
  let key ← findPendingKey ps id
  let data ← orError .readingMessage (get ps key)
  orError .parsingMessage (data.unmarshal OutboundMessage)

/-- What `RetryNow` does with the message it has read. -/
def retryRead (id : Bytes) (msg : OutboundMessage) (now : Int64) :
    Except StoreError RaftCommand := do
  let oldKey ← findPendingKey ps id
  let data ← orError .marshalingMessage (Proto.marshal { msg with nextRetryAt := now })
  applyMove msg.id oldKey (pendingKey now msg.id) data

def readable (entries : List (Bytes × Value)) : List OutboundMessage :=
  entries.filterMap fun entry => entry.2.unmarshal OutboundMessage

def listPending (limit : Nat) : List OutboundMessage :=
  (readable (prefixScan ps pendingPrefix)).take limit

/-- The ids `FlushQueue` calls `RetryNow` for, one after another. -/
def flushQueue : List Bytes := (listPending ps 1000).map (·.id)

def deleteBounced (id : Bytes) : RaftCommand :=
  { op := .delete, key := bouncedKey id, value := .empty }

end Store

end Bongo.Queue
