import Bongo.Records

/-!
Calendar grants and the command that changes them. A grant is stored under a
forward key of its owner and a reverse marker of its grantee; a command plans
its writes from the stored grant and its own time, never from a clock.
-/

namespace Bongo.Acl

open ByteKeys KeyValue Proto Records

structure Grant where
  level : Bytes
  rights : Bytes
  state : Bytes
  grantedBy : Bytes
  createdAt : Int64
  updatedAt : Int64
  deriving DecidableEq

instance : Message Grant where
  strings := [1, 2, 3, 4]
  fields data :=
    bytesField 1 data.level ++ (bytesField 2 data.rights ++ (bytesField 3 data.state ++
      (bytesField 4 data.grantedBy ++ (varintField 5 data.createdAt.toUInt64 ++
        varintField 6 data.updatedAt.toUInt64))))
  ofFields record :=
    { level := bytesAt 1 record
      rights := bytesAt 2 record
      state := bytesAt 3 record
      grantedBy := bytesAt 4 record
      createdAt := (varintAt 5 record).toInt64
      updatedAt := (varintAt 6 record).toInt64 }
  ofFields_fields data := by simp [bytesAt, varintAt]
  carried record := by simp

def aclPrefix : Bytes := ascii "/__acl__/"
def aclKindCalendar : Bytes := ascii "calendar"
def grantLevelFreeBusy : Bytes := ascii "freebusy"
def grantLevelRead : Bytes := ascii "read"
def grantLevelWrite : Bytes := ascii "write"
def grantStatePending : Bytes := ascii "pending"
def grantStateAccepted : Bytes := ascii "accepted"
def aclOpSet : Bytes := ascii "set"
def aclOpAccept : Bytes := ascii "accept"
def aclOpRevoke : Bytes := ascii "revoke"
def aclOpRevokeResource : Bytes := ascii "revoke_resource"
def aclOpRevokeOwner : Bytes := ascii "revoke_owner"
def aclOpRevokeGrantee : Bytes := ascii "revoke_grantee"

def aclKinds : List Bytes := [aclKindCalendar]

def pendingGrantTTL : Int64 := 30 * 24 * 60 * 60

/-- An accepted grant never expires; the age of a pending one runs from its
last change, or from its creation. -/
def pendingGrantExpired (grant : Grant) (atTime : Int64) : Bool :=
  if grant.state ≠ grantStatePending then false
  else
    let base := if grant.updatedAt = 0 then grant.createdAt else grant.updatedAt
    decide (pendingGrantTTL < atTime - base)

/-! Key segments. `url.PathEscape` keeps unreserved bytes and `$&+:=@`. -/

def plainByte (byte : UInt8) : Bool :=
  (97 ≤ byte && byte ≤ 122) || (65 ≤ byte && byte ≤ 90) || (48 ≤ byte && byte ≤ 57) ||
    (ascii "-_.~$&+:=@").contains byte

def hexDigit (value : UInt8) : UInt8 := if value < 10 then 48 + value else 55 + value

def unhex (byte : UInt8) : Option UInt8 :=
  if 48 ≤ byte && byte ≤ 57 then some (byte - 48)
  else if 97 ≤ byte && byte ≤ 102 then some (byte - 87)
  else if 65 ≤ byte && byte ≤ 70 then some (byte - 55)
  else none

def escSeg (segment : Bytes) : Bytes :=
  segment.flatMap fun byte =>
    if plainByte byte then [byte] else [37, hexDigit (byte / 16), hexDigit (byte % 16)]

def pathUnescape : Bytes → Option Bytes
  | [] => some []
  | 37 :: high :: low :: rest => do
      let high ← unhex high
      let low ← unhex low
      let tail ← pathUnescape rest
      return (high * 16 + low) :: tail
  | byte :: rest => if byte = 37 then none else (pathUnescape rest).map (byte :: ·)

def aclKey (kind owner resource grantee : Bytes) : Bytes :=
  ascii "/acl/" ++ kind ++ [47] ++ escSeg owner ++ [47] ++ escSeg resource ++ ascii "/u:" ++
    escSeg grantee

def aclRevKey (kind owner resource grantee : Bytes) : Bytes :=
  ascii "/aclrev/u:" ++ escSeg grantee ++ [47] ++ kind ++ [47] ++ escSeg owner ++ [47] ++
    escSeg resource

def aclResourcePrefix (kind owner resource : Bytes) : Bytes :=
  ascii "/acl/" ++ kind ++ [47] ++ escSeg owner ++ [47] ++ escSeg resource ++ [47]

def aclOwnerPrefix (kind owner : Bytes) : Bytes :=
  ascii "/acl/" ++ kind ++ [47] ++ escSeg owner ++ [47]

def aclGranteePrefix (grantee : Bytes) : Bytes :=
  ascii "/aclrev/u:" ++ escSeg grantee ++ [47]

structure GrantRef where
  kind : Bytes
  owner : Bytes
  resource : Bytes
  grantee : Bytes
  deriving DecidableEq

def GrantRef.forwardKey (ref : GrantRef) : Bytes :=
  aclKey ref.kind ref.owner ref.resource ref.grantee

def GrantRef.reverseKey (ref : GrantRef) : Bytes :=
  aclRevKey ref.kind ref.owner ref.resource ref.grantee

/-- An unescaped segment; an empty one names nothing. -/
def segment (escaped : Bytes) : Option Bytes := do
  let plain ← pathUnescape escaped
  if plain = [] then none else return plain

def readRef (kind owner resource grantee : Bytes) : Option GrantRef := do
  if hasPrefix grantee (ascii "u:") && aclKinds.contains kind then
    let owner ← segment owner
    let resource ← segment resource
    let grantee ← segment (trimPrefix grantee (ascii "u:"))
    return ⟨kind, owner, resource, grantee⟩
  else none

def parseACLKey (key : Bytes) : Option GrantRef :=
  if hasPrefix key (ascii "/acl/") then
    match (trimPrefix key (ascii "/acl/")).splitOn 47 with
    | [kind, owner, resource, grantee] => readRef kind owner resource grantee
    | _ => none
  else if hasPrefix key (ascii "/aclrev/") then
    match (trimPrefix key (ascii "/aclrev/")).splitOn 47 with
    | [grantee, kind, owner, resource] => readRef kind owner resource grantee
    | _ => none
  else none

/-- The keys to delete for the keys a scan found; a key that does not parse is
left alone. -/
def forwardAndReverse (keys : List Bytes) : List Bytes :=
  keys.flatMap fun key =>
    match parseACLKey key with
    | some ref => [ref.forwardKey, ref.reverseKey]
    | none => []

inductive FieldName where
  | owner
  | resource
  | grantee
  deriving DecidableEq

inductive Error where
  | notACLCommand
  | parsingPayload
  | invalidKind (kind : Bytes)
  | missing (op : Bytes) (names : List FieldName)
  | invalidLevel (level : Bytes)
  | invalidState (state : Bytes)
  | invalidOp (op : Bytes)
  | unmarshalingGrant
  | marshalingGrant
  deriving DecidableEq

def validCalendarLevel (level : Bytes) : Bool :=
  [grantLevelFreeBusy, grantLevelRead, grantLevelWrite].contains level

def validGrantState (state : Bytes) : Bool :=
  state == grantStatePending || state == grantStateAccepted

/-- All missing fields are reported together. -/
def need (payload : ACLPayload) (wanted : List (FieldName × Bytes)) : Except Error Unit :=
  let absent := (wanted.filter fun field => field.2 = []).map Prod.fst
  reject (.missing payload.op absent) (absent ≠ [])

def validateACLPayload (payload : ACLPayload) : Except Error Unit := do
  let owner := (FieldName.owner, payload.owner)
  let resource := (FieldName.resource, payload.resource)
  let grantee := (FieldName.grantee, payload.grantee)
  reject (.invalidKind payload.kind) (payload.kind ∉ aclKinds)
  if payload.op = aclOpSet then
    reject (.invalidLevel payload.level) (validCalendarLevel payload.level = false)
    reject (.invalidState payload.state) (validGrantState payload.state = false)
    need payload [owner, resource, grantee]
  else if payload.op = aclOpAccept ∨ payload.op = aclOpRevoke then
    need payload [owner, resource, grantee]
  else if payload.op = aclOpRevokeResource then need payload [owner, resource]
  else if payload.op = aclOpRevokeOwner then need payload [owner]
  else if payload.op = aclOpRevokeGrantee then need payload [grantee]
  else .error (.invalidOp payload.op)

def isACLSyntheticCommand (key : Bytes) : Bool := hasPrefix key aclPrefix

def parseACLPayload : Value → Option ACLPayload
  | .json (.acl payload) => some payload
  | _ => none

section Planning

variable (get : Bytes → Option Value) (scan : Bytes → List Bytes)

/-- A missing key may also be reported as an empty value. -/
def present (key : Bytes) : Option Value := (get key).filter (· ≠ .empty)

/-- The grant a set writes over the one stored: the creation time is kept, and
the state too when the command asks for that. -/
def setGrant (payload : ACLPayload) (old : Option Grant) : Grant :=
  { level := payload.level
    rights := payload.rights
    state := match old with
      | some grant =>
        if payload.keepState && validGrantState grant.state then grant.state else payload.state
      | none => payload.state
    grantedBy := payload.grantedBy
    createdAt := match old with
      | some grant => if grant.createdAt ≠ 0 then grant.createdAt else payload.atTime
      | none => payload.atTime
    updatedAt := payload.atTime }

def planSet (payload : ACLPayload) : Except Error (List (Write Value)) := do
  let fwd := aclKey payload.kind payload.owner payload.resource payload.grantee
  let old := (present get fwd).bind (·.unmarshal Grant)
  let value ← orError .marshalingGrant (Value.marshal (setGrant payload old))
  return [.set fwd value,
    .set (aclRevKey payload.kind payload.owner payload.resource payload.grantee) .empty]

def planAccept (payload : ACLPayload) : Except Error (List (Write Value)) := do
  let fwd := aclKey payload.kind payload.owner payload.resource payload.grantee
  match present get fwd with
  | none => return []
  | some stored =>
    let grant ← orError .unmarshalingGrant (stored.unmarshal Grant)
    if grant.state ≠ grantStatePending ∨ pendingGrantExpired grant payload.atTime then
      return []
    else
      let value ← orError .marshalingGrant (Value.marshal
        { grant with state := grantStateAccepted, updatedAt := payload.atTime })
      return [.set fwd value]

def revokedKeys (payload : ACLPayload) : List Bytes :=
  if payload.op = aclOpRevoke then
    [aclKey payload.kind payload.owner payload.resource payload.grantee,
      aclRevKey payload.kind payload.owner payload.resource payload.grantee]
  else if payload.op = aclOpRevokeResource then
    forwardAndReverse (scan (aclResourcePrefix payload.kind payload.owner payload.resource))
  else if payload.op = aclOpRevokeOwner then
    forwardAndReverse (aclKinds.flatMap fun kind => scan (aclOwnerPrefix kind payload.owner))
  else forwardAndReverse (scan (aclGranteePrefix payload.grantee))

def planValidated (payload : ACLPayload) : Except Error (List (Write Value)) :=
  if payload.op = aclOpSet then planSet get payload
  else if payload.op = aclOpAccept then planAccept get payload
  else .ok ((revokedKeys scan payload).map .delete)

def planACL (cmd : RaftCommand) : Except Error (List (Write Value)) := do
  reject .notACLCommand (isACLSyntheticCommand cmd.key = false)
  let payload ← orError .parsingPayload (parseACLPayload cmd.value)
  validateACLPayload payload
  planValidated get scan payload

end Planning

/-- A command that plans nothing commits nothing. -/
def applyACLCommand (ps : PebbleStore) (cmd : RaftCommand) : PebbleStore × Option Error :=
  commitSyncBatch ps (planACL (get ps) (scanKeys ps) cmd)

theorem aclKey_ne_aclRevKey (kind owner resource grantee : Bytes) :
    aclKey kind owner resource grantee ≠ aclRevKey kind owner resource grantee := by
  intro same
  simp [aclKey, aclRevKey, ascii] at same

theorem planACL_ok {get : Bytes → Option Value} {scan : Bytes → List Bytes} {cmd : RaftCommand}
    {batch : List (Write Value)} (planned : planACL get scan cmd = .ok batch) :
    ∃ payload, parseACLPayload cmd.value = some payload ∧
      validateACLPayload payload = .ok () ∧ planValidated get scan payload = .ok batch := by
  simp only [planACL, bind_ok, orError_ok] at planned
  obtain ⟨-, -, payload, parsed, ⟨⟩, valid, planned⟩ := planned
  exact ⟨payload, parsed, valid, planned⟩

theorem validate_set {payload : ACLPayload} (valid : validateACLPayload payload = .ok ())
    (isSet : payload.op = aclOpSet) :
    payload.level ≠ [] ∧ validGrantState payload.state = true := by
  simp only [validateACLPayload, isSet, ↓reduceIte, bind_ok, reject_ok, Bool.not_eq_false] at valid
  obtain ⟨-, -, -, level, -, state, -⟩ := valid
  refine ⟨?_, state⟩
  intro empty
  rw [empty] at level
  exact absurd level (by decide)

theorem setGrant_again {payload : ACLPayload} (old : Option Grant)
    (state : validGrantState payload.state = true) :
    setGrant payload (some (setGrant payload old)) = setGrant payload old := by
  -- the creation time is a fixed point whether it was kept or taken from the command
  have created : (setGrant payload (some (setGrant payload old))).createdAt =
      (setGrant payload old).createdAt := by
    cases old with
    | none =>
      by_cases zero : payload.atTime = 0 <;> simp [setGrant, zero]
    | some grant =>
      by_cases zero : grant.createdAt = 0 <;> simp [setGrant, zero]
  have kept : (setGrant payload (some (setGrant payload old))).state =
      (setGrant payload old).state := by
    cases old with
    | none => simp [setGrant, state]
    | some grant =>
      by_cases keep : payload.keepState && validGrantState grant.state
      · simp [setGrant, keep]
      · by_cases asked : payload.keepState <;> simp_all [setGrant]
  calc setGrant payload (some (setGrant payload old))
      = { setGrant payload old with
          state := (setGrant payload (some (setGrant payload old))).state
          createdAt := (setGrant payload (some (setGrant payload old))).createdAt } := rfl
    _ = setGrant payload old := by rw [created, kept]

theorem encoded_ne_empty {M : Type} [Message M] (message : M)
    (valid : marshalable message = true) (different : message ≠ Message.ofFields []) :
    Value.encoded message ≠ .empty := by
  intro empty
  have read := Value.unmarshal_encoded message valid
  rw [empty] at read
  exact different (Option.some.inj read).symm

theorem planSet_settles {payload : ACLPayload} (level : payload.level ≠ [])
    (state : validGrantState payload.state = true) :
    Settles fun ps => planSet (KeyValue.get ps) payload := by
  intro ps batch again planned replanned
  simp only [planSet, bind_ok, orError_ok, Value.marshal_some, pure, Except.pure,
    Except.ok.injEq] at planned replanned
  obtain ⟨-, ⟨valid, rfl⟩, rfl⟩ := planned
  obtain ⟨-, ⟨-, rfl⟩, rfl⟩ := replanned
  have apart := aclKey_ne_aclRevKey payload.kind payload.owner payload.resource payload.grantee
  generalize aclKey payload.kind payload.owner payload.resource payload.grantee = fwd at *
  generalize aclRevKey payload.kind payload.owner payload.resource payload.grantee = rev at *
  generalize (present (KeyValue.get ps) fwd).bind (·.unmarshal Grant) = old at *
  have nonempty : Value.encoded (setGrant payload old) ≠ .empty := by
    apply encoded_ne_empty _ valid
    intro same
    exact level (congrArg Grant.level same)
  have reread : (present (KeyValue.get (KeyValue.set (KeyValue.set ps fwd
      (.encoded (setGrant payload old))) rev .empty)) fwd).bind (·.unmarshal Grant) =
      some (setGrant payload old) := by
    simp [present, Ne.symm apart, Option.filter_some, nonempty, Value.unmarshal_encoded _ valid]
  simp only [commit_set, commit_nil, reread, setGrant_again old state]
  -- both writes repeat what is stored
  rw [set_stored _ fwd _ (by simp [Ne.symm apart]), set_stored _ rev _ (by simp)]

theorem planAccept_settles (payload : ACLPayload) :
    Settles fun ps => planAccept (KeyValue.get ps) payload := by
  intro ps batch again planned replanned
  simp only [planAccept] at planned replanned
  generalize aclKey payload.kind payload.owner payload.resource payload.grantee = fwd at *
  cases stored : present (KeyValue.get ps) fwd with
  | none =>
    simp only [stored] at planned
    cases planned
    simp only [commit_nil, stored] at replanned
    cases replanned
    rfl
  | some value =>
    simp only [stored, bind_ok, orError_ok] at planned
    obtain ⟨grant, parsed, planned⟩ := planned
    split at planned
    case isTrue refused =>
      cases planned
      simp only [commit_nil, stored, parsed, orError, bind, Except.bind, refused] at replanned
      cases replanned
      rfl
    case isFalse =>
      simp only [bind_ok, orError_ok, Value.marshal_some, pure, Except.pure,
        Except.ok.injEq] at planned
      obtain ⟨-, ⟨valid, rfl⟩, rfl⟩ := planned
      simp only [commit_set, commit_nil] at replanned ⊢
      split at replanned
      case h_1 => cases replanned; rfl
      case h_2 reread found =>
        -- the stored grant is now accepted, so the accept plans nothing
        obtain ⟨found, -⟩ := Option.filter_eq_some_iff.mp found
        rw [get_set, if_pos rfl] at found
        cases found
        simp only [Value.unmarshal_encoded _ valid, orError, bind, Except.bind] at replanned
        rw [if_pos (Or.inl (by decide))] at replanned
        cases replanned
        rfl

theorem forwardAndReverse_mono (keys more : List Bytes) (within : ∀ key ∈ keys, key ∈ more) :
    ∀ key ∈ forwardAndReverse keys, key ∈ forwardAndReverse more := by
  intro key member
  obtain ⟨found, listed, here⟩ := List.mem_flatMap.mp member
  exact List.mem_flatMap.mpr ⟨found, within found listed, here⟩

theorem revokedKeys_mono (payload : ACLPayload) (scan more : Bytes → List Bytes)
    (within : ∀ lead, ∀ key ∈ scan lead, key ∈ more lead) :
    ∀ key ∈ revokedKeys scan payload, key ∈ revokedKeys more payload := by
  unfold revokedKeys
  split_ifs
  · exact fun key member => member
  · exact forwardAndReverse_mono _ _ (within _)
  · apply forwardAndReverse_mono
    intro key member
    obtain ⟨kind, listed, here⟩ := List.mem_flatMap.mp member
    exact List.mem_flatMap.mpr ⟨kind, listed, within _ key here⟩
  · exact forwardAndReverse_mono _ _ (within _)

theorem planACL_settles (cmd : RaftCommand) :
    Settles fun ps => planACL (KeyValue.get ps) (scanKeys ps) cmd := by
  intro ps batch again planned replanned
  obtain ⟨payload, parsed, valid, planned⟩ := planACL_ok planned
  obtain ⟨same, reparsed, -, replanned⟩ := planACL_ok replanned
  cases parsed.symm.trans reparsed
  simp only [planValidated] at planned replanned
  split_ifs at planned replanned with isSet isAccept
  · obtain ⟨level, state⟩ := validate_set valid isSet
    exact planSet_settles level state ps batch again planned replanned
  · exact planAccept_settles payload ps batch again planned replanned
  cases planned
  cases replanned
  apply commit_deletes_again
  apply revokedKeys_mono
  intro lead key member
  exact scanKeys_subset ps _ lead key (get_of_commit_deletes ps _) member

end Bongo.Acl
