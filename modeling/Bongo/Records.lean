import Bongo.KeyValue
import Bongo.Proto

/-!
The protobuf records of the mail store, the payloads of its synthetic commands
and the replicated command itself. A stored value and a command's value are
bytes; the JSON texts that commands carry are kept as the payloads they spell,
so `json.Unmarshal` into another payload type, or from plain bytes, is a parse
error, and so is reading a JSON text as a protobuf record.
-/

namespace Bongo.Records

open ByteKeys KeyValue Proto

section Fallible

variable {E A B : Type}

def orError (error : E) : Option A → Except E A
  | some value => .ok value
  | none => .error error

theorem orError_ok (error : E) (found : Option A) (value : A) :
    orError error found = .ok value ↔ found = some value := by
  cases found <;> simp [orError]

def reject (error : E) (condition : Prop) [Decidable condition] : Except E Unit :=
  if condition then .error error else .ok ()

theorem reject_ok (error : E) (condition : Prop) [Decidable condition] (done : Unit) :
    reject error condition = .ok done ↔ ¬ condition := by
  by_cases refused : condition <;> simp [reject, refused]

theorem bind_ok (first : Except E A) (next : A → Except E B) (result : B) :
    (first >>= next) = .ok result ↔ ∃ value, first = .ok value ∧ next value = .ok result := by
  cases first <;> simp [bind, Except.bind]

theorem toOption_some {result : Except E A} {value : A}
    (some : result.toOption = some value) : result = .ok value := by
  cases result with
  | error error => cases some
  | ok found =>
    cases some
    rfl

end Fallible

def text (data : Bytes) : Bool := fits data && validUTF8 data

structure MailboxMeta where
  name : Bytes
  uidValidity : UInt32
  uidNext : UInt32
  unsubscribed : Bool
  deriving DecidableEq

structure MailboxMessage where
  uid : UInt32
  mailGuid : Bytes
  flags : UInt32
  internalDate : Int64
  tags : List Bytes
  deriving DecidableEq

/-- The fields of a mail's metadata that the mailbox commands read. The record
itself is stored as the bytes it arrived in; its nested records (blob
references and layout segments) are not decoded here. -/
structure MailMeta where
  guid : Bytes
  receivedAt : Int64
  tags : List Bytes
  deriving DecidableEq

def boolVarint (flag : Bool) : UInt64 := if flag then 1 else 0

@[simp] theorem boolVarint_ne_zero (flag : Bool) : (boolVarint flag != 0) = flag := by
  cases flag <;> rfl

instance : Message MailboxMeta where
  strings := [1]
  fields data :=
    bytesField 1 data.name ++ (varintField 2 data.uidValidity.toUInt64 ++
      (varintField 3 data.uidNext.toUInt64 ++ varintField 4 (boolVarint data.unsubscribed)))
  ofFields record :=
    { name := bytesAt 1 record
      uidValidity := (varintAt 2 record).toUInt32
      uidNext := (varintAt 3 record).toUInt32
      unsubscribed := varintAt 4 record != 0 }
  ofFields_fields data := by simp [bytesAt, varintAt]
  carried record := by simp

instance : Message MailboxMessage where
  strings := [2, 5]
  fields data :=
    varintField 1 data.uid.toUInt64 ++ (bytesField 2 data.mailGuid ++
      (varintField 3 data.flags.toUInt64 ++ (varintField 4 data.internalDate.toUInt64 ++
        repeatedField 5 data.tags)))
  ofFields record :=
    { uid := (varintAt 1 record).toUInt32
      mailGuid := bytesAt 2 record
      flags := (varintAt 3 record).toUInt32
      internalDate := (varintAt 4 record).toInt64
      tags := repeatedAt 5 record }
  ofFields_fields data := by
    simp [bytesAt, varintAt, bytesFrom_repeatedField, repeatedAt_bytesField,
      repeatedAt_repeatedField]
  carried record := by simp

instance : Message MailMeta where
  strings := [1, 2, 3, 4, 5, 9, 11, 12, 13, 15, 16, 17, 18, 19, 21, 22, 23]
  fields data :=
    bytesField 1 data.guid ++ (varintField 6 data.receivedAt.toUInt64 ++ repeatedField 19 data.tags)
  ofFields record :=
    { guid := bytesAt 1 record
      receivedAt := (varintAt 6 record).toInt64
      tags := repeatedAt 19 record }
  ofFields_fields data := by
    simp [bytesAt, varintAt, bytesFrom_repeatedField, repeatedAt_bytesField,
      repeatedAt_repeatedField]
  carried record := by simp

theorem MailboxMeta.marshalable_eq (data : MailboxMeta) :
    marshalable data = text data.name := by
  simp [marshalable, Message.fields, Message.strings, writable_bytesField, writable_varintField,
    text]

/-! Payloads of the synthetic commands, one structure per JSON type. -/

structure TransferPayload where
  srcMailbox : Bytes
  srcUID : UInt32
  dstMailbox : Bytes
  deriving DecidableEq

structure RenamePayload where
  oldName : Bytes
  newName : Bytes
  deriving DecidableEq

structure DeliveryPayload where
  mailMeta : Bytes
  flags : UInt32
  deriving DecidableEq

structure SubscribePayload where
  subscribed : Bool
  deriving DecidableEq

structure QueueMovePayload where
  oldKey : Bytes
  newKey : Bytes
  value : Bytes
  deriving DecidableEq

structure BayesTrainPayload where
  userID : Bytes
  guid : Bytes
  category : Bytes
  tokens : List Bytes
  deriving DecidableEq

structure ACLPayload where
  op : Bytes
  kind : Bytes
  owner : Bytes
  resource : Bytes
  grantee : Bytes
  level : Bytes
  rights : Bytes
  state : Bytes
  grantedBy : Bytes
  atTime : Int64
  keepState : Bool
  deriving DecidableEq

structure AppPasswordTouchPayload where
  user : Bytes
  id : Bytes
  day : Int64
  deriving DecidableEq

structure AppPasswordTicketPayload where
  user : Bytes
  hash : Bytes
  atTime : Int64
  deriving DecidableEq

inductive Json where
  | transfer (payload : TransferPayload)
  | rename (payload : RenamePayload)
  | delivery (payload : DeliveryPayload)
  | subscribe (payload : SubscribePayload)
  | queueMove (payload : QueueMovePayload)
  | bayesTrain (payload : BayesTrainPayload)
  | acl (payload : ACLPayload)
  | appPasswordTouch (payload : AppPasswordTouchPayload)
  | appPasswordTicket (payload : AppPasswordTicketPayload)
  deriving DecidableEq

inductive Value where
  | bytes (data : Bytes)
  | json (payload : Json)
  deriving DecidableEq

def Value.empty : Value := .bytes []

abbrev PebbleStore := Store Value

/-- A batch commits whole or, when planning it failed, not at all. -/
def commitSyncBatch {E : Type} (ps : PebbleStore) :
    Except E (List (Write Value)) → PebbleStore × Option E
  | .ok batch => (commit ps batch, none)
  | .error error => (ps, some error)

theorem commitSyncBatch_error {E : Type} (ps : PebbleStore)
    (plan : Except E (List (Write Value))) (error : E)
    (failed : (commitSyncBatch ps plan).2 = some error) : (commitSyncBatch ps plan).1 = ps := by
  cases plan with
  | ok batch => cases failed
  | error refused => rfl

/-- Planning again after the plan was committed gives nothing new. -/
def Settles {E : Type} (plan : PebbleStore → Except E (List (Write Value))) : Prop :=
  ∀ ps batch again, plan ps = .ok batch → plan (commit ps batch) = .ok again →
    commit (commit ps batch) again = commit ps batch

theorem commitSyncBatch_again {E : Type} (plan : PebbleStore → Except E (List (Write Value)))
    (settles : Settles plan) (ps after : PebbleStore)
    (accepted : commitSyncBatch ps (plan ps) = (after, none)) :
    (commitSyncBatch after (plan after)).1 = after := by
  cases planned : plan ps with
  | error refused =>
    rw [planned] at accepted
    cases accepted
  | ok batch =>
    rw [planned] at accepted
    cases accepted
    cases replanned : plan (commit ps batch) with
    | error refused => rfl
    | ok again => exact settles ps batch again planned replanned

def Value.unmarshal (M : Type) [Message M] : Value → Option M
  | .bytes data => Proto.unmarshal M data
  | .json _ => none

def Value.encoded {M : Type} [Message M] (message : M) : Value :=
  .bytes (encode (Message.fields message))

def Value.marshal {M : Type} [Message M] (message : M) : Option Value :=
  if marshalable message then some (Value.encoded message) else none

theorem Value.marshal_some {M : Type} [Message M] (message : M) (value : Value) :
    Value.marshal message = some value ↔
      marshalable message = true ∧ value = Value.encoded message := by
  by_cases valid : marshalable message = true <;> simp [Value.marshal, valid, eq_comm]

theorem Value.unmarshal_encoded {M : Type} [Message M] (message : M)
    (valid : marshalable message = true) :
    Value.unmarshal M (Value.encoded message) = some message :=
  Proto.unmarshal_marshal message _ (marshal_of_marshalable message valid)

theorem Value.marshalable_of_unmarshal {M : Type} [Message M] (message : M) (value : Value)
    (parsed : Value.unmarshal M value = some message) : marshalable message = true := by
  cases value with
  | bytes data => exact Proto.marshalable_of_unmarshal data message parsed
  | json payload => cases parsed

inductive Op where
  | unspecified
  | put
  | delete
  deriving DecidableEq

structure RaftCommand where
  op : Op
  key : Bytes
  value : Value
  deriving DecidableEq

end Bongo.Records
