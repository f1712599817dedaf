import Bongo.Histories
import Bongo.Records

/-!
App passwords and the one-time device links that create them. Both commands
write conditionally inside the state machine: a touch only moves a stored
last-used day forward, and a link is marked used only while it is unused and
unexpired.
-/

namespace Bongo.Credentials

open ByteKeys KeyValue Proto Records Histories

structure AppPassword where
  id : Bytes
  label : Bytes
  createdAt : Int64
  lastUsedAt : Int64
  passwordHash : Bytes
  deriving DecidableEq

structure AppPasswordTicket where
  label : Bytes
  host : Bytes
  epoch : Bytes
  createdAt : Int64
  expiresAt : Int64
  usedAt : Int64
  deriving DecidableEq

instance : Message AppPassword where
  strings := [1, 2]
  fields data :=
    bytesField 1 data.id ++ (bytesField 2 data.label ++
      (varintField 3 data.createdAt.toUInt64 ++ (varintField 4 data.lastUsedAt.toUInt64 ++
        bytesField 5 data.passwordHash)))
  ofFields record :=
    { id := bytesAt 1 record
      label := bytesAt 2 record
      createdAt := (varintAt 3 record).toInt64
      lastUsedAt := (varintAt 4 record).toInt64
      passwordHash := bytesAt 5 record }
  ofFields_fields data := by simp [bytesAt, varintAt]
  carried record := by simp

instance : Message AppPasswordTicket where
  strings := [1, 2, 3]
  fields data :=
    bytesField 1 data.label ++ (bytesField 2 data.host ++ (bytesField 3 data.epoch ++
      (varintField 4 data.createdAt.toUInt64 ++ (varintField 5 data.expiresAt.toUInt64 ++
        varintField 6 data.usedAt.toUInt64))))
  ofFields record :=
    { label := bytesAt 1 record
      host := bytesAt 2 record
      epoch := bytesAt 3 record
      createdAt := (varintAt 4 record).toInt64
      expiresAt := (varintAt 5 record).toInt64
      usedAt := (varintAt 6 record).toInt64 }
  ofFields_fields data := by simp [bytesAt, varintAt]
  carried record := by simp

inductive Error where
  | notTouchCommand
  | notTicketCommand
  | parsingPayload
  | invalidUser
  | invalidAppPasswordID
  | invalidDay
  | invalidDeviceLink
  | invalidTime
  | ticketRefused
  | unmarshaling
  | marshaling
  deriving DecidableEq

def appPasswordTouchPrefix : Bytes := ascii "/__apppassword_touch__/"
def appPasswordTicketPrefix : Bytes := ascii "/__apppassword_ticket__/"
def appPasswordAlphabet : Bytes := ascii "abcdefghjkmnpqrstuvwxyz"
def appPasswordIDLen : Nat := 6

def validAppPasswordID (id : Bytes) : Bool :=
  id.length == appPasswordIDLen && id.all appPasswordAlphabet.contains

def appPasswordKey (userID id : Bytes) : Bytes :=
  ascii "/user/" ++ userID ++ ascii "/apppassword/" ++ id

/-- Sixty-four lower-case hexadecimal digits. -/
def isValidHash (hash : Bytes) : Bool :=
  hash.length == 64 &&
    hash.all fun byte => (48 ≤ byte && byte ≤ 57) || (97 ≤ byte && byte ≤ 102)

def validDeviceLinkUser (userID : Bytes) : Bool := userID ≠ [] && !userID.contains 47

def deviceLinkKey (userID hash : Bytes) : Except Error Bytes := do
  reject .invalidDeviceLink
    (validDeviceLinkUser userID = false ∨ isValidHash hash = false)
  return ascii "/user/" ++ userID ++ ascii "/devicelink/" ++ hash

def isAppPasswordSyntheticCommand (key : Bytes) : Bool := hasPrefix key appPasswordTouchPrefix

def isAppPasswordTicketCommand (key : Bytes) : Bool := hasPrefix key appPasswordTicketPrefix

def parseTouchPayload : Value → Option AppPasswordTouchPayload
  | .json (.appPasswordTouch payload) => some payload
  | _ => none

def parseTicketPayload : Value → Option AppPasswordTicketPayload
  | .json (.appPasswordTicket payload) => some payload
  | _ => none

def validateAppPasswordTouch (payload : AppPasswordTouchPayload) : Except Error Unit := do
  reject .invalidUser (payload.user = [] ∨ 47 ∈ payload.user)
  reject .invalidAppPasswordID (validAppPasswordID payload.id = false)
  reject .invalidDay (payload.day ≤ 0)

def validateTicket (payload : AppPasswordTicketPayload) : Except Error Unit := do
  reject .invalidDeviceLink
    (validDeviceLinkUser payload.user = false ∨ isValidHash payload.hash = false)
  reject .invalidTime (payload.atTime ≤ 0)

section Planning

variable (get : Bytes → Option Value)

/-- No write when the record is absent or already at the day or past it. -/
def planAppPasswordTouch (cmd : RaftCommand) : Except Error (Option (Bytes × Value)) := do
  reject .notTouchCommand (isAppPasswordSyntheticCommand cmd.key = false)
  let payload ← orError .parsingPayload (parseTouchPayload cmd.value)
  validateAppPasswordTouch payload
  let key := appPasswordKey payload.user payload.id
  match (get key).filter (· ≠ .empty) with
  | none => return none
  | some stored =>
    let record ← orError .unmarshaling (stored.unmarshal AppPassword)
    if payload.day ≤ record.lastUsedAt then return none
    else
      let value ← orError .marshaling
        (Value.marshal { record with lastUsedAt := payload.day })
      return some (key, value)

/-- Refused, with nothing written, when the link is absent, used or expired. -/
def planAppPasswordTicketConsume (cmd : RaftCommand) : Except Error (Bytes × Value) := do
  reject .notTicketCommand (isAppPasswordTicketCommand cmd.key = false)
  let payload ← orError .parsingPayload (parseTicketPayload cmd.value)
  validateTicket payload
  let key ← deviceLinkKey payload.user payload.hash
  let stored ← orError .ticketRefused ((get key).filter (· ≠ .empty))
  let record ← orError .unmarshaling (stored.unmarshal AppPasswordTicket)
  reject .ticketRefused (record.usedAt ≠ 0 ∨ record.expiresAt ≤ payload.atTime)
  let value ← orError .marshaling (Value.marshal { record with usedAt := payload.atTime })
  return (key, value)

end Planning

def touchBatch (ps : PebbleStore) (cmd : RaftCommand) : Except Error (List (Write Value)) := do
  let write ← planAppPasswordTouch (get ps) cmd
  return write.toList.map fun entry => .set entry.1 entry.2

def ticketBatch (ps : PebbleStore) (cmd : RaftCommand) : Except Error (List (Write Value)) := do
  let entry ← planAppPasswordTicketConsume (get ps) cmd
  return [.set entry.1 entry.2]

def applyAppPasswordTouch (ps : PebbleStore) (cmd : RaftCommand) : PebbleStore × Option Error :=
  commitSyncBatch ps (touchBatch ps cmd)

def applyAppPasswordTicketConsume (ps : PebbleStore) (cmd : RaftCommand) :
    PebbleStore × Option Error :=
  commitSyncBatch ps (ticketBatch ps cmd)

theorem touchBatch_ok {ps : PebbleStore} {cmd : RaftCommand} {batch : List (Write Value)}
    (planned : touchBatch ps cmd = .ok batch) :
    ∃ payload, parseTouchPayload cmd.value = some payload ∧ (batch = [] ∨ ∃ stored record,
        get ps (appPasswordKey payload.user payload.id) = some stored ∧
        stored.unmarshal AppPassword = some record ∧ ¬ payload.day ≤ record.lastUsedAt ∧
        marshalable { record with lastUsedAt := payload.day } = true ∧
        batch = [.set (appPasswordKey payload.user payload.id)
          (.encoded { record with lastUsedAt := payload.day })]) := by
  simp only [touchBatch, planAppPasswordTouch, bind_ok, orError_ok, pure, Except.pure,
    Except.ok.injEq] at planned
  obtain ⟨write, ⟨-, -, payload, parsed, -, -, planned⟩, rfl⟩ := planned
  refine ⟨payload, parsed, ?_⟩
  split at planned
  case h_1 =>
    cases planned
    exact Or.inl rfl
  case h_2 stored found =>
    obtain ⟨present, -⟩ := Option.filter_eq_some_iff.mp found
    simp only [bind_ok, orError_ok] at planned
    obtain ⟨record, read, planned⟩ := planned
    split at planned
    case isTrue =>
      cases planned
      exact Or.inl rfl
    case isFalse earlier =>
      simp only [bind_ok, orError_ok, Value.marshal_some, Except.ok.injEq] at planned
      obtain ⟨-, ⟨valid, rfl⟩, rfl⟩ := planned
      exact Or.inr ⟨stored, record, present, read, earlier, valid, rfl⟩

/-- After a touch the stored day is the payload's, so a repeated one writes
nothing. -/
theorem touchBatch_settles (cmd : RaftCommand) : Settles fun ps => touchBatch ps cmd := by
  intro ps batch again planned replanned
  obtain ⟨payload, parsed, outcome⟩ := touchBatch_ok planned
  obtain ⟨same, reparsed, repeated⟩ := touchBatch_ok replanned
  cases parsed.symm.trans reparsed
  rcases outcome with rfl | ⟨stored, record, -, -, -, valid, rfl⟩
  · rw [commit_nil, planned] at replanned
    cases replanned
    rfl
  rcases repeated with rfl | ⟨reread, again, present, read, later, -, -⟩
  · rfl
  rw [commit_set, commit_nil, get_set, if_pos rfl] at present
  cases present
  cases (Value.unmarshal_encoded _ valid).symm.trans read
  exact absurd Int64.le_rfl later

theorem ticketBatch_ok {ps : PebbleStore} {cmd : RaftCommand} {batch : List (Write Value)}
    (planned : ticketBatch ps cmd = .ok batch) :
    ∃ payload key stored record, parseTicketPayload cmd.value = some payload ∧
      payload.atTime ≠ 0 ∧ deviceLinkKey payload.user payload.hash = .ok key ∧
      get ps key = some stored ∧ stored.unmarshal AppPasswordTicket = some record ∧
      record.usedAt = 0 ∧ marshalable { record with usedAt := payload.atTime } = true ∧
      batch = [.set key (.encoded { record with usedAt := payload.atTime })] := by
  simp only [ticketBatch, planAppPasswordTicketConsume, validateTicket, bind_ok, reject_ok,
    orError_ok, Value.marshal_some, pure, Except.pure, Except.ok.injEq, not_or,
    Decidable.not_not] at planned
  obtain ⟨entry, ⟨-, -, payload, parsed, -, ⟨-, -, positive⟩, key, named, stored, found, record,
    read, -, ⟨unused, -⟩, -, ⟨valid, rfl⟩, rfl⟩, rfl⟩ := planned
  obtain ⟨present, -⟩ := Option.filter_eq_some_iff.mp found
  refine ⟨payload, key, stored, record, parsed, ?_, named, present, read, unused, valid, rfl⟩
  intro zero
  rw [zero] at positive
  exact positive Int64.le_rfl

/-- A link that was consumed is used, so a repeated consume is refused. -/
theorem ticketBatch_settles (cmd : RaftCommand) : Settles fun ps => ticketBatch ps cmd := by
  intro ps batch again planned replanned
  obtain ⟨payload, key, -, record, parsed, time, named, -, -, -, valid, rfl⟩ :=
    ticketBatch_ok planned
  obtain ⟨same, rekey, reread, used, reparsed, -, renamed, present, read, unused, -⟩ :=
    ticketBatch_ok replanned
  cases parsed.symm.trans reparsed
  cases named.symm.trans renamed
  rw [commit_set, commit_nil, get_set, if_pos rfl] at present
  cases present
  cases (Value.unmarshal_encoded _ valid).symm.trans read
  exact absurd unused time

section Redemption

variable {key : Bytes} {ps : PebbleStore} {cmd : RaftCommand}

def consume (ps : PebbleStore) (cmd : RaftCommand) : PebbleStore :=
  (applyAppPasswordTicketConsume ps cmd).1

/-- The command is accepted, and redeems the link stored under the key. -/
def Redeems (key : Bytes) (ps : PebbleStore) (cmd : RaftCommand) : Prop :=
  ∃ value, ticketBatch ps cmd = .ok [.set key value]

/-- Any write but one that stores the link anew. -/
abbrev Other (key : Bytes) : Type := { write : Write Value // ∀ value, write ≠ .set key value }

def proceed (ps : PebbleStore) : RaftCommand ⊕ Other key → PebbleStore
  | .inl cmd => consume ps cmd
  | .inr write => commit ps [write.1]

/-- The link is used, or gone. -/
def Spent (key : Bytes) (ps : PebbleStore) : Prop :=
  ∀ record, (get ps key).bind (·.unmarshal AppPasswordTicket) = some record → record.usedAt ≠ 0

theorem Redeems.spends (redeems : Redeems key ps cmd) :
    ¬ Spent key ps ∧ Spent key (consume ps cmd) := by
  obtain ⟨value, planned⟩ := redeems
  obtain ⟨_, _, _, record, -, time, -, present, read, unused, valid, ⟨⟩⟩ := ticketBatch_ok planned
  refine ⟨fun spent => spent record (by simp [present, read]) unused, ?_⟩
  rw [consume, applyAppPasswordTicketConsume, planned]
  simpa [Spent, commitSyncBatch, Value.unmarshal_encoded _ valid] using time

theorem Spent.write (spent : Spent key ps) (write : Other key) :
    Spent key (commit ps [write.1]) := by
  obtain ⟨write, elsewhere⟩ := write
  by_cases here : write.key = key
  · cases write with
    | set => cases here; exact absurd rfl (elsewhere _)
    | delete => simp_all [Spent, Write.key]
  · rw [Spent, get_commit_untouched ps [write] key (by simpa using here)]
    exact spent

/-- A command leaves a spent link alone. -/
theorem Spent.proceed (spent : Spent key ps) (event : RaftCommand ⊕ Other key) :
    Spent key (proceed ps event) := by
  cases event with
  | inr write => exact spent.write write
  | inl cmd =>
    rw [Credentials.proceed, consume, applyAppPasswordTicketConsume]
    cases planned : ticketBatch ps cmd with
    | error error => exact spent
    | ok batch =>
      obtain ⟨_, other, -, record, -, -, -, -, -, -, -, rfl⟩ := ticketBatch_ok planned
      refine spent.write ⟨_, ?_⟩
      rintro value ⟨⟩
      exact Redeems.spends ⟨_, planned⟩ |>.1 spent

end Redemption

/-- Of all the commands that try to redeem a link, in whatever order and among whatever
other writes they are applied, one is accepted at most. -/
theorem link_redeemed_once (key : Bytes) (ps : PebbleStore) (first : RaftCommand)
    (between : List (RaftCommand ⊕ Other key)) (again : RaftCommand) :
    ¬ (Redeems key ps first ∧
      Redeems key (run proceed (consume ps first) between) again) := by
  rintro ⟨redeemed, repeated⟩
  exact repeated.spends.1 (run_invariant (fun _ event spent _ => spent.proceed event)
    redeemed.spends.2 (along_of_forall fun _ _ _ => trivial))

end Bongo.Credentials
