import Bongo.Acl
import Bongo.Bayes
import Bongo.Credentials
import Bongo.Mailbox
import Bongo.Queue

/-!
The replicated state machine. An entry of the log is one command; synthetic
keys go to the command families and every other put or delete to the store.
Behind each entry the index of the log is noted in the store, and entries up to
it are skipped when the log is replayed. Derived indexes and notifications are
not part of the store and are left out.
-/

namespace Bongo.Fsm

open ByteKeys KeyValue Records

inductive Error where
  | mailbox (error : Mailbox.Error)
  | queue (error : Queue.MoveError)
  | bayes (error : Bayes.Error)
  | acl (error : Acl.Error)
  | credential (error : Credentials.Error)
  | unknownOp
  | unmarshal
  deriving DecidableEq

def relabel {E : Type} (label : E → Error) (applied : PebbleStore × Option E) :
    PebbleStore × Option Error :=
  (applied.1, applied.2.map label)

def applyMailbox (ps : PebbleStore) (cmd : RaftCommand) : PebbleStore × Option Error :=
  match Mailbox.applyMailboxCommand ps cmd with
  | .ok (after, _) => (after, none)
  | .error error => (ps, some (.mailbox error))

def applyProto (ps : PebbleStore) (cmd : RaftCommand) : PebbleStore × Option Error :=
  if cmd.op = .put ∧ Mailbox.isMailboxSyntheticCommand cmd.key then applyMailbox ps cmd
  else if cmd.op = .put ∧ Queue.isQueueSyntheticCommand cmd.key then
    relabel .queue (Queue.applyQueueCommand ps cmd)
  else if cmd.op = .put ∧ Bayes.isBayesSyntheticCommand cmd.key then
    relabel .bayes (Bayes.applyBayesTrainCommand ps cmd)
  else if cmd.op = .put ∧ Acl.isACLSyntheticCommand cmd.key then
    relabel .acl (Acl.applyACLCommand ps cmd)
  else if cmd.op = .put ∧ Credentials.isAppPasswordSyntheticCommand cmd.key then
    relabel .credential (Credentials.applyAppPasswordTouch ps cmd)
  else if cmd.op = .put ∧ Credentials.isAppPasswordTicketCommand cmd.key then
    relabel .credential (Credentials.applyAppPasswordTicketConsume ps cmd)
  else match cmd.op with
    | .put => (set ps cmd.key cmd.value, none)
    | .delete => (delete ps cmd.key, none)
    | .unspecified => (ps, some .unknownOp)

/-- The store after a command landed, whether or not it was accepted. -/
def land (ps : PebbleStore) (cmd : RaftCommand) : PebbleStore := (applyProto ps cmd).1

def marker : Bytes := ascii "/__"

theorem not_hasPrefix_of_marker (key word : Bytes) (plain : ¬ marker <+: key)
    (marked : marker <+: word) : hasPrefix key word = false := by
  by_contra found
  have leads : word <+: key := by simpa using found
  exact plain (marked.trans leads)

theorem applyProto_plain (ps : PebbleStore) (cmd : RaftCommand) (plain : ¬ marker <+: cmd.key) :
    applyProto ps cmd =
      match cmd.op with
      | .put => (set ps cmd.key cmd.value, none)
      | .delete => (delete ps cmd.key, none)
      | .unspecified => (ps, some .unknownOp) := by
  have unmarked := fun word => not_hasPrefix_of_marker cmd.key word plain
  have mailbox : Mailbox.isMailboxSyntheticCommand cmd.key = false := by
    simp only [Mailbox.isMailboxSyntheticCommand]
    rw [unmarked _ (by decide), unmarked _ (by decide), unmarked _ (by decide),
      unmarked _ (by decide), unmarked _ (by decide), unmarked _ (by decide),
      unmarked _ (by decide), unmarked _ (by decide)]
    rfl
  have queue : Queue.isQueueSyntheticCommand cmd.key = false := unmarked _ (by decide)
  have bayes : Bayes.isBayesSyntheticCommand cmd.key = false := unmarked _ (by decide)
  have acl : Acl.isACLSyntheticCommand cmd.key = false := unmarked _ (by decide)
  have touch : Credentials.isAppPasswordSyntheticCommand cmd.key = false :=
    unmarked _ (by decide)
  have ticket : Credentials.isAppPasswordTicketCommand cmd.key = false := unmarked _ (by decide)
  simp [applyProto, mailbox, queue, bayes, acl, touch, ticket]

inductive LegacyOp where
  | put
  | delete
  | unknown
  deriving DecidableEq

/-- What the data of an entry decodes to. A protobuf command without an
operation is not JSON either, and neither is malformed data. -/
inductive LogData where
  | proto (cmd : RaftCommand)
  | legacy (op : LegacyOp) (key : Bytes) (value : Value)
  | malformed
  deriving DecidableEq

/-- The indices of a Raft log start at 1. -/
structure LogEntry where
  index : UInt64
  data : LogData
  positive : index ≠ 0
  deriving DecidableEq

def raftAppliedIndexKey : Bytes := ascii "/system/raft/applied_index"

/-- Any value but eight bytes counts as 0; the JSON of every payload is longer. -/
def appliedIndex (ps : PebbleStore) : UInt64 :=
  match get ps raftAppliedIndexKey with
  | some (.bytes data) => if data.length = 8 then UInt64.ofNat (readBigEndian data) else 0
  | _ => 0

def setAppliedIndex (ps : PebbleStore) (index : UInt64) : PebbleStore :=
  set ps raftAppliedIndexKey (.bytes (bigEndian 8 index.toNat))

def applyEntry (ps : PebbleStore) (entry : LogEntry) : PebbleStore × Option Error :=
  match entry.data with
  | .proto cmd => if cmd.op = .unspecified then (ps, some .unmarshal) else applyProto ps cmd
  | .legacy .put key value => (set ps key value, none)
  | .legacy .delete key _ => (delete ps key, none)
  | .legacy .unknown _ _ => (ps, some .unknownOp)
  | .malformed => (ps, some .unmarshal)

def apply (ps : PebbleStore) (entry : LogEntry) : PebbleStore × Option Error :=
  if entry.index ≠ 0 ∧ entry.index ≤ appliedIndex ps then (ps, none)
  else
    let (after, result) := applyEntry ps entry
    if entry.index ≠ 0 then (setAppliedIndex after entry.index, result) else (after, result)

@[simp] theorem appliedIndex_set (ps : PebbleStore) (index : UInt64) :
    appliedIndex (setAppliedIndex ps index) = index := by
  have bound := index.toNat_lt
  simp only [appliedIndex, setAppliedIndex, get_set, ↓reduceIte, bigEndian_length]
  rw [readBigEndian_bigEndian 8 _ (by omega), UInt64.ofNat_toNat]

theorem appliedIndex_of_agree {ps after : PebbleStore}
    (same : get after raftAppliedIndexKey = get ps raftAppliedIndexKey) :
    appliedIndex after = appliedIndex ps := by
  rw [appliedIndex, appliedIndex, same]

end Bongo.Fsm
