import Bongo.AclKeys
import Bongo.Histories

/-!
What the grant commands are for: a ledger that maps each named grant to its
record. The store shows the ledger, a record under the forward key and a marker
under the reverse key of each grant and nothing else, and every command changes
the ledger as it says. From this follow what the revoking commands remove and
where an accepted grant comes from.
-/

namespace Bongo.Acl

open ByteKeys KeyValue Proto Records Histories

/-! The ledger. -/

abbrev Ledger := GrantRef → Option Grant

def refOf (payload : ACLPayload) : GrantRef :=
  ⟨payload.kind, payload.owner, payload.resource, payload.grantee⟩

def Revokes (payload : ACLPayload) (ref : GrantRef) : Prop :=
  payload.op = aclOpRevoke ∧ refOf payload = ref ∨
  payload.op = aclOpRevokeResource ∧ payload.kind = ref.kind ∧ payload.owner = ref.owner ∧
    payload.resource = ref.resource ∨
  payload.op = aclOpRevokeOwner ∧ payload.owner = ref.owner ∨
  payload.op = aclOpRevokeGrantee ∧ payload.grantee = ref.grantee

instance (payload : ACLPayload) (ref : GrantRef) : Decidable (Revokes payload ref) :=
  inferInstanceAs (Decidable (_ ∨ _ ∨ _ ∨ _))

def acceptedAt (grant : Grant) (time : Int64) : Grant :=
  { grant with state := grantStateAccepted, updatedAt := time }

/-- The accept finds a pending grant that is not too old. -/
def Acceptable (grant : Grant) (time : Int64) : Prop :=
  grant.state = grantStatePending ∧ pendingGrantExpired grant time = false

instance (grant : Grant) (time : Int64) : Decidable (Acceptable grant time) :=
  inferInstanceAs (Decidable (_ ∧ _))

def change (ledger : Ledger) (payload : ACLPayload) : Ledger :=
  if payload.op = aclOpSet then
    Function.update ledger (refOf payload) (some (setGrant payload (ledger (refOf payload))))
  else if payload.op = aclOpAccept then
    match ledger (refOf payload) with
    | some grant =>
      if Acceptable grant payload.atTime then
        Function.update ledger (refOf payload) (some (acceptedAt grant payload.atTime))
      else ledger
    | none => ledger
  else fun ref => if Revokes payload ref then none else ledger ref

/-- The store holds the ledger and nothing else. -/
structure Shows (ps : PebbleStore) (ledger : Ledger) : Prop where
  named : ∀ ref grant, ledger ref = some grant → Named ref
  sound : ∀ ref grant, ledger ref = some grant → marshalable grant = true ∧ grant.level ≠ []
  forward : ∀ ref, Named ref → get ps ref.forwardKey = (ledger ref).map Value.encoded
  reverse : ∀ ref, Named ref → get ps ref.reverseKey = (ledger ref).map fun _ => Value.empty
  only : ∀ key value, get ps key = some value →
    ∃ ref, Named ref ∧ (key = ref.forwardKey ∨ key = ref.reverseKey)

theorem shows_empty : Shows ∅ fun _ => none where
  named _ _ impossible := by cases impossible
  sound _ _ impossible := by cases impossible
  forward _ _ := get_empty _
  reverse _ _ := get_empty _
  only key value present := by
    rw [get_empty] at present
    cases present

section Validation

variable {payload : ACLPayload}

theorem validate_kind (valid : validateACLPayload payload = .ok ()) : payload.kind ∈ aclKinds := by
  simp only [validateACLPayload, bind_ok, reject_ok, not_not] at valid
  exact valid.choose_spec.1

theorem need_ok {wanted : List (FieldName × Bytes)} (met : need payload wanted = .ok ()) :
    ∀ field ∈ wanted, field.2 ≠ [] := by
  simp only [need, reject_ok, ne_eq, not_not, List.map_eq_nil_iff, List.filter_eq_nil_iff,
    decide_eq_true_eq] at met
  exact met

theorem validate_named (valid : validateACLPayload payload = .ok ())
    (one : payload.op = aclOpSet ∨ payload.op = aclOpAccept ∨ payload.op = aclOpRevoke) :
    Named (refOf payload) := by
  have known := validate_kind valid
  have wanted : need payload [(.owner, payload.owner), (.resource, payload.resource),
      (.grantee, payload.grantee)] = .ok () := by
    simp only [validateACLPayload, bind_ok] at valid
    obtain ⟨-, -, valid⟩ := valid
    rcases one with isSet | rest
    · rw [if_pos isSet] at valid
      simp only [bind_ok] at valid
      obtain ⟨-, -, -, -, valid⟩ := valid
      exact valid
    · have other : payload.op ≠ aclOpSet := by
        rcases rest with same | same <;>
          · rw [same]
            decide
      rw [if_neg other, if_pos rest] at valid
      exact valid
  have fields := need_ok wanted
  exact ⟨known, fields (.owner, payload.owner) (by simp),
    fields (.resource, payload.resource) (by simp),
    fields (.grantee, payload.grantee) (by simp)⟩

/-- A valid command that neither sets nor accepts is one of the four revocations. -/
theorem validate_revocation (valid : validateACLPayload payload = .ok ())
    (notSet : payload.op ≠ aclOpSet) (notAccept : payload.op ≠ aclOpAccept) :
    payload.op = aclOpRevoke ∨ payload.op = aclOpRevokeResource ∨
      payload.op = aclOpRevokeOwner ∨ payload.op = aclOpRevokeGrantee := by
  simp only [validateACLPayload, bind_ok] at valid
  obtain ⟨-, -, valid⟩ := valid
  rw [if_neg notSet] at valid
  split_ifs at valid with one resource owner grantee
  · exact Or.inl (one.resolve_left notAccept)
  · exact Or.inr (Or.inl resource)
  · exact Or.inr (Or.inr (Or.inl owner))
  · exact Or.inr (Or.inr (Or.inr grantee))

end Validation

variable {grant : Grant}

section Reading

variable {ps : PebbleStore} {ledger : Ledger} (shows_ : Shows ps ledger)
include shows_

theorem Shows.present_forward {ref : GrantRef} (named : Named ref) :
    present (get ps) ref.forwardKey = (ledger ref).map Value.encoded := by
  rw [present, shows_.forward ref named]
  cases held : ledger ref with
  | none => rfl
  | some grant =>
    obtain ⟨valid, level⟩ := shows_.sound ref grant held
    have nonempty : Value.encoded grant ≠ .empty := by
      apply encoded_ne_empty _ valid
      intro same
      exact level (congrArg Grant.level same)
    simp [nonempty]

theorem Shows.unmarshal {ref : GrantRef} (held : ledger ref = some grant) :
    (Value.encoded grant).unmarshal Grant = some grant :=
  Value.unmarshal_encoded grant (shows_.sound ref grant held).1

/-- A key in the store parses to the named grant it belongs to. -/
theorem Shows.parse_stored {key : Bytes} {value : Value} (present : get ps key = some value) :
    ∃ ref grant, Named ref ∧ ledger ref = some grant ∧ parseACLKey key = some ref ∧
      (key = ref.forwardKey ∨ key = ref.reverseKey) := by
  obtain ⟨ref, named, at_⟩ := shows_.only key value present
  have held : ∃ grant, ledger ref = some grant := by
    rcases at_ with rfl | rfl
    · rw [shows_.forward ref named, Option.map_eq_some_iff] at present
      exact present.imp fun _ => And.left
    · rw [shows_.reverse ref named, Option.map_eq_some_iff] at present
      exact present.imp fun _ => And.left
  obtain ⟨grant, held⟩ := held
  exact ⟨ref, grant, named, held, parse_key named at_, at_⟩

theorem Shows.stored_forward {ref : GrantRef} (held : ledger ref = some grant) :
    get ps ref.forwardKey = some (.encoded grant) := by
  rw [shows_.forward ref (shows_.named ref grant held), held]
  rfl

theorem Shows.stored_reverse {ref : GrantRef} (held : ledger ref = some grant) :
    get ps ref.reverseKey = some .empty := by
  rw [shows_.reverse ref (shows_.named ref grant held), held]
  rfl

end Reading

section Writing

variable {ps : PebbleStore} {ledger : Ledger} (shows_ : Shows ps ledger)
include shows_

theorem Shows.write {ref : GrantRef} (named : Named ref) (valid : marshalable grant = true)
    (level : grant.level ≠ []) :
    Shows (set (set ps ref.forwardKey (.encoded grant)) ref.reverseKey .empty)
      (Function.update ledger ref (some grant)) := by
  have apart := forwardKey_ne_reverseKey
  constructor
  · apply (Function.forall_update_iff ledger fun other held =>
      ∀ found, held = some found → Named other).mpr
    exact ⟨fun _ _ => named, fun other _ => shows_.named other⟩
  · apply (Function.forall_update_iff ledger fun _ held =>
      ∀ found, held = some found → marshalable found = true ∧ found.level ≠ []).mpr
    exact ⟨fun _ held => Option.some.inj held ▸ ⟨valid, level⟩, fun other _ => shows_.sound other⟩
  · intro other otherNamed
    rw [get_set, if_neg (Ne.symm (apart other ref)), get_set]
    by_cases same : other = ref
    · rw [same, if_pos rfl, Function.update_self]
      rfl
    · rw [if_neg fun keys => same (holder_unique otherNamed named (Or.inl rfl) (Or.inl keys.symm)),
        Function.update_of_ne same]
      exact shows_.forward other otherNamed
  · intro other otherNamed
    rw [get_set]
    by_cases same : other = ref
    · rw [same, if_pos rfl, Function.update_self]
      rfl
    · rw [if_neg fun keys => same (holder_unique otherNamed named (Or.inr rfl) (Or.inr keys.symm)),
        get_set, if_neg (apart ref other), Function.update_of_ne same]
      exact shows_.reverse other otherNamed
  · intro key value present
    rw [get_set, get_set] at present
    split_ifs at present with marker record
    · exact ⟨ref, named, Or.inr marker.symm⟩
    · exact ⟨ref, named, Or.inl record.symm⟩
    · exact shows_.only key value present

/-- The keys are those of the grants in the ledger that `gone` picks. -/
structure Picks (ledger : Ledger) (keys : List Bytes) (gone : GrantRef → Prop) : Prop where
  only : ∀ ref, Named ref → ref.forwardKey ∈ keys ∨ ref.reverseKey ∈ keys → gone ref
  all : ∀ ref grant, ledger ref = some grant → gone ref →
    ref.forwardKey ∈ keys ∧ ref.reverseKey ∈ keys

theorem Shows.remove {keys : List Bytes} {gone : GrantRef → Prop} [DecidablePred gone]
    (picks : Picks ledger keys gone) :
    Shows (commit ps (keys.map .delete)) fun ref => if gone ref then none else ledger ref := by
  have kept : ∀ ref grant, (if gone ref then none else ledger ref) = some grant →
      ledger ref = some grant := by
    intro ref grant held
    split_ifs at held
    exact held
  constructor
  · exact fun ref grant held => shows_.named ref grant (kept ref grant held)
  · exact fun ref grant held => shows_.sound ref grant (kept ref grant held)
  · intro ref named
    rw [get_commit_deletes, shows_.forward ref named]
    by_cases leaves : gone ref
    · rw [if_pos leaves]
      cases held : ledger ref with
      | none => simp
      | some grant => rw [if_pos (picks.all ref grant held leaves).1]; rfl
    · rw [if_neg leaves, if_neg fun listed => leaves (picks.only ref named (Or.inl listed))]
  · intro ref named
    rw [get_commit_deletes, shows_.reverse ref named]
    by_cases leaves : gone ref
    · rw [if_pos leaves]
      cases held : ledger ref with
      | none => simp
      | some grant => rw [if_pos (picks.all ref grant held leaves).2]; rfl
    · rw [if_neg leaves, if_neg fun listed => leaves (picks.only ref named (Or.inr listed))]
  · intro key value present
    exact shows_.only key value (get_of_commit_deletes ps keys key value present)

omit shows_ in
theorem mem_forwardAndReverse (keys : List Bytes) (key : Bytes) :
    key ∈ forwardAndReverse keys ↔ ∃ found ∈ keys, ∃ ref, parseACLKey found = some ref ∧
      (key = ref.forwardKey ∨ key = ref.reverseKey) := by
  simp only [forwardAndReverse, List.mem_flatMap]
  constructor
  · rintro ⟨found, listed, here⟩
    cases parsed : parseACLKey found with
    | none =>
      rw [parsed] at here
      exact absurd here List.not_mem_nil
    | some ref =>
      rw [parsed] at here
      exact ⟨found, listed, ref, parsed, by simpa using here⟩
  · rintro ⟨found, listed, ref, parsed, either⟩
    exact ⟨found, listed, by rw [parsed]; simpa using either⟩

/-- A scan whose lead covers one of the two keys of exactly the grants in
question removes exactly those. -/
theorem Shows.picks_scanned {lead : Bytes} {gone : GrantRef → Prop}
    (covers : ∀ ref, Named ref → (lead <+: ref.forwardKey ∨ lead <+: ref.reverseKey ↔ gone ref)) :
    Picks ledger (forwardAndReverse (scanKeys ps lead)) gone := by
  -- a listed key belongs to a stored grant that the lead covers
  have owner : ∀ key ∈ forwardAndReverse (scanKeys ps lead),
      ∃ ref, Named ref ∧ gone ref ∧ (key = ref.forwardKey ∨ key = ref.reverseKey) := by
    intro key listed
    obtain ⟨found, scanned, ref, parsed, keys⟩ := (mem_forwardAndReverse _ _).mp listed
    obtain ⟨leads, value, present⟩ := (mem_scanKeys ps lead found).mp scanned
    obtain ⟨stored, -, named, -, reparsed, foundKeys⟩ := shows_.parse_stored present
    cases parsed.symm.trans reparsed
    refine ⟨ref, named, (covers ref named).mp ?_, keys⟩
    rcases foundKeys with rfl | rfl
    · exact Or.inl leads
    · exact Or.inr leads
  constructor
  · intro ref named listed
    rcases listed with listed | listed
    · obtain ⟨other, otherNamed, leaves, own⟩ := owner _ listed
      exact holder_unique otherNamed named own (Or.inl rfl) ▸ leaves
    · obtain ⟨other, otherNamed, leaves, own⟩ := owner _ listed
      exact holder_unique otherNamed named own (Or.inr rfl) ▸ leaves
  · intro ref grant held leaves
    have named := shows_.named ref grant held
    have scanned : ∃ key ∈ scanKeys ps lead, parseACLKey key = some ref := by
      rcases (covers ref named).mpr leaves with leads | leads
      · exact ⟨ref.forwardKey,
          (mem_scanKeys _ _ _).mpr ⟨leads, _, shows_.stored_forward held⟩, parse_forwardKey named⟩
      · exact ⟨ref.reverseKey,
          (mem_scanKeys _ _ _).mpr ⟨leads, _, shows_.stored_reverse held⟩, parse_reverseKey named⟩
    obtain ⟨key, scanned, parsed⟩ := scanned
    exact ⟨(mem_forwardAndReverse _ _).mpr ⟨key, scanned, ref, parsed, Or.inl rfl⟩,
      (mem_forwardAndReverse _ _).mpr ⟨key, scanned, ref, parsed, Or.inr rfl⟩⟩

end Writing

section Revocations

variable {payload : ACLPayload} {ref : GrantRef}

theorem revocations_apart :
    (aclOpRevoke ≠ aclOpRevokeResource ∧ aclOpRevoke ≠ aclOpRevokeOwner ∧
      aclOpRevoke ≠ aclOpRevokeGrantee) ∧
    (aclOpRevokeResource ≠ aclOpRevoke ∧ aclOpRevokeResource ≠ aclOpRevokeOwner ∧
      aclOpRevokeResource ≠ aclOpRevokeGrantee) ∧
    (aclOpRevokeOwner ≠ aclOpRevoke ∧ aclOpRevokeOwner ≠ aclOpRevokeResource ∧
      aclOpRevokeOwner ≠ aclOpRevokeGrantee) ∧
    aclOpRevokeGrantee ≠ aclOpRevoke ∧ aclOpRevokeGrantee ≠ aclOpRevokeResource ∧
      aclOpRevokeGrantee ≠ aclOpRevokeOwner := by
  decide

theorem revokes_one (op : payload.op = aclOpRevoke) :
    Revokes payload ref ↔ refOf payload = ref := by
  simp [Revokes, op, revocations_apart]

theorem revokes_resource (op : payload.op = aclOpRevokeResource) :
    Revokes payload ref ↔ payload.kind = ref.kind ∧ payload.owner = ref.owner ∧
      payload.resource = ref.resource := by
  simp [Revokes, op, revocations_apart]

theorem revokes_owner (op : payload.op = aclOpRevokeOwner) :
    Revokes payload ref ↔ payload.owner = ref.owner := by
  simp [Revokes, op, revocations_apart]

theorem revokes_grantee (op : payload.op = aclOpRevokeGrantee) :
    Revokes payload ref ↔ payload.grantee = ref.grantee := by
  simp [Revokes, op, revocations_apart]

end Revocations

section Changing

variable {ps : PebbleStore} {ledger : Ledger} (shows_ : Shows ps ledger)
  {payload : ACLPayload} (valid : validateACLPayload payload = .ok ())
include shows_ valid

variable {batch : List (Write Value)}

theorem Shows.set_change (isSet : payload.op = aclOpSet)
    (planned : planSet (get ps) payload = .ok batch) :
    Shows (commit ps batch) (change ledger payload) := by
  have named := validate_named valid (Or.inl isSet)
  have level := (validate_set valid isSet).1
  have forward : aclKey payload.kind payload.owner payload.resource payload.grantee =
      (refOf payload).forwardKey := rfl
  have old : (present (get ps) (refOf payload).forwardKey).bind (·.unmarshal Grant) =
      ledger (refOf payload) := by
    rw [shows_.present_forward named]
    cases held : ledger (refOf payload) with
    | none => rfl
    | some grant => exact shows_.unmarshal held
  simp only [planSet, forward, old, bind_ok, orError_ok, Value.marshal_some, pure, Except.pure,
    Except.ok.injEq] at planned
  obtain ⟨-, ⟨marshals, rfl⟩, rfl⟩ := planned
  rw [change, if_pos isSet]
  exact shows_.write named marshals level

theorem Shows.accept_change (isAccept : payload.op = aclOpAccept)
    (planned : planAccept (get ps) payload = .ok batch) :
    Shows (commit ps batch) (change ledger payload) := by
  have named := validate_named valid (Or.inr (Or.inl isAccept))
  have notSet : payload.op ≠ aclOpSet := by
    rw [isAccept]
    decide
  have forward : aclKey payload.kind payload.owner payload.resource payload.grantee =
      (refOf payload).forwardKey := rfl
  rw [change, if_neg notSet, if_pos isAccept]
  simp only [planAccept, forward, shows_.present_forward named] at planned
  cases held : ledger (refOf payload) with
  | none =>
    rw [held] at planned
    cases planned
    exact shows_
  | some grant =>
    simp only [held, Option.map_some, bind_ok, orError_ok] at planned
    obtain ⟨read, parsed, planned⟩ := planned
    cases (shows_.unmarshal held).symm.trans parsed
    by_cases acceptable : Acceptable grant payload.atTime
    · have live : ¬ (grant.state ≠ grantStatePending ∨
          pendingGrantExpired grant payload.atTime = true) := by
        rw [acceptable.1, acceptable.2]
        simp
      rw [if_neg live] at planned
      simp only [bind_ok, orError_ok, Value.marshal_some, pure, Except.pure,
        Except.ok.injEq] at planned
      obtain ⟨-, ⟨marshals, rfl⟩, rfl⟩ := planned
      -- the marker is there already
      have written := shows_.write named marshals (shows_.sound _ grant held).2
      rw [set_stored _ _ _ (by
        rw [get_set, if_neg (forwardKey_ne_reverseKey _ _), shows_.stored_reverse held])] at written
      simp only [if_pos acceptable]
      exact written
    · have refused : grant.state ≠ grantStatePending ∨
          pendingGrantExpired grant payload.atTime = true := by
        rw [Acceptable, not_and_or, Bool.not_eq_false] at acceptable
        exact acceptable
      rw [if_pos refused] at planned
      cases planned
      simp only [if_neg acceptable]
      exact shows_

/-- The keys a revoking command deletes are those of the grants it revokes. -/
theorem Shows.picks_revoked (notSet : payload.op ≠ aclOpSet)
    (notAccept : payload.op ≠ aclOpAccept) :
    Picks ledger (revokedKeys (scanKeys ps) payload) (Revokes payload) := by
  have known := validate_kind valid
  rcases validate_revocation valid notSet notAccept with op | op | op | op
  · have named := validate_named valid (Or.inr (Or.inr op))
    have keys : revokedKeys (scanKeys ps) payload =
        [(refOf payload).forwardKey, (refOf payload).reverseKey] := by
      rw [revokedKeys, if_pos op]
      rfl
    rw [keys]
    constructor
    · intro ref refNamed listed
      rw [revokes_one op]
      simp only [List.mem_cons, List.not_mem_nil, or_false] at listed
      rcases listed with own | own
      · exact holder_unique named refNamed own (Or.inl rfl)
      · exact holder_unique named refNamed own (Or.inr rfl)
    · intro ref grant held leaves
      cases (revokes_one op).mp leaves
      exact ⟨List.mem_cons_self, List.mem_cons_of_mem _ List.mem_cons_self⟩
  · have keys : revokedKeys (scanKeys ps) payload = forwardAndReverse (scanKeys ps
        (aclResourcePrefix payload.kind payload.owner payload.resource)) := by
      simp [revokedKeys, op, revocations_apart]
    rw [keys]
    apply shows_.picks_scanned
    intro ref named
    rw [revokes_resource op, ← resource_covers named known]
    exact or_iff_left (resourcePrefix_apart _ _ _ ref)
  · have keys : revokedKeys (scanKeys ps) payload = forwardAndReverse (scanKeys ps
        (aclOwnerPrefix aclKindCalendar payload.owner)) := by
      simp [revokedKeys, op, revocations_apart, aclKinds]
    rw [keys]
    apply shows_.picks_scanned
    intro ref named
    have kind : aclKindCalendar = ref.kind := (List.mem_singleton.mp named.kind).symm
    rw [revokes_owner op, or_iff_left (ownerPrefix_apart _ _ ref),
      owner_covers named List.mem_cons_self]
    exact and_iff_right kind
  · have keys : revokedKeys (scanKeys ps) payload = forwardAndReverse (scanKeys ps
        (aclGranteePrefix payload.grantee)) := by
      simp [revokedKeys, op, revocations_apart]
    rw [keys]
    apply shows_.picks_scanned
    intro ref named
    rw [revokes_grantee op, or_iff_right (granteePrefix_apart _ ref), grantee_covers]

theorem Shows.plan_change (planned : planValidated (get ps) (scanKeys ps) payload = .ok batch) :
    Shows (commit ps batch) (change ledger payload) := by
  rw [planValidated] at planned
  split_ifs at planned with isSet isAccept
  · exact shows_.set_change valid isSet planned
  · exact shows_.accept_change valid isAccept planned
  · cases planned
    rw [change, if_neg isSet, if_neg isAccept]
    exact shows_.remove (shows_.picks_revoked valid isSet isAccept)

end Changing

def admitted (cmd : RaftCommand) : Option ACLPayload :=
  if isACLSyntheticCommand cmd.key then
    (parseACLPayload cmd.value).filter fun payload => validateACLPayload payload = .ok ()
  else none

def applied (ps : PebbleStore) (cmd : RaftCommand) : PebbleStore := (applyACLCommand ps cmd).1

def grantAt (ps : PebbleStore) (ref : GrantRef) : Option Grant :=
  (get ps ref.forwardKey).bind (·.unmarshal Grant)

variable {cmd : RaftCommand}

theorem admitted_some {payload : ACLPayload} (taken : admitted cmd = some payload) :
    isACLSyntheticCommand cmd.key = true ∧ parseACLPayload cmd.value = some payload ∧
      validateACLPayload payload = .ok () := by
  rw [admitted] at taken
  split_ifs at taken with synthetic
  obtain ⟨parsed, valid⟩ := Option.filter_eq_some_iff.mp taken
  exact ⟨synthetic, parsed, of_decide_eq_true valid⟩

theorem planACL_admitted {payload : ACLPayload} (taken : admitted cmd = some payload)
    (get : Bytes → Option Value) (scan : Bytes → List Bytes) :
    planACL get scan cmd = planValidated get scan payload := by
  obtain ⟨synthetic, parsed, valid⟩ := admitted_some taken
  simp only [planACL, synthetic, parsed, valid, reject, orError, bind, Except.bind]
  rfl

/-- A command is refused and changes nothing, or it is carried out. -/
theorem applied_cases (ps : PebbleStore) (cmd : RaftCommand) :
    applied ps cmd = ps ∧ (applyACLCommand ps cmd).2 ≠ none ∨
      ∃ payload batch, admitted cmd = some payload ∧ validateACLPayload payload = .ok () ∧
        planValidated (get ps) (scanKeys ps) payload = .ok batch ∧
        applied ps cmd = commit ps batch ∧ (applyACLCommand ps cmd).2 = none := by
  cases planned : planACL (get ps) (scanKeys ps) cmd with
  | error fault =>
    left
    rw [applied, applyACLCommand, planned]
    exact ⟨rfl, Option.some_ne_none _⟩
  | ok batch =>
    right
    have outcome : applied ps cmd = commit ps batch ∧ (applyACLCommand ps cmd).2 = none := by
      rw [applied, applyACLCommand, planned]
      exact ⟨rfl, rfl⟩
    simp only [planACL, bind_ok, reject_ok, orError_ok, Bool.not_eq_false] at planned
    obtain ⟨-, synthetic, payload, parsed, ⟨⟩, valid, planned⟩ := planned
    refine ⟨payload, batch, ?_, valid, planned, outcome⟩
    rw [admitted, if_pos synthetic, parsed, Option.filter_some, if_pos (decide_eq_true valid)]

theorem revocation_ops {payload : ACLPayload} {ref : GrantRef} (revokes : Revokes payload ref) :
    payload.op ≠ aclOpSet ∧ payload.op ≠ aclOpAccept := by
  rcases revokes with ⟨op, -⟩ | ⟨op, -⟩ | ⟨op, -⟩ | ⟨op, -⟩ <;>
    · rw [op]
      decide

theorem revocation_applied {payload : ACLPayload} (taken : admitted cmd = some payload)
    (notSet : payload.op ≠ aclOpSet) (notAccept : payload.op ≠ aclOpAccept) (ps : PebbleStore) :
    applyACLCommand ps cmd =
      (commit ps ((revokedKeys (scanKeys ps) payload).map .delete), none) := by
  rw [applyACLCommand, planACL_admitted taken, planValidated, if_neg notSet, if_neg notAccept]
  rfl

theorem Shows.applied {ps : PebbleStore} {ledger : Ledger} (shows_ : Shows ps ledger)
    (cmd : RaftCommand) : ∃ after, Shows (Acl.applied ps cmd) after := by
  rcases applied_cases ps cmd with ⟨same, -⟩ | ⟨payload, batch, -, valid, planned, done, -⟩
  · rw [same]
    exact ⟨ledger, shows_⟩
  · rw [done]
    exact ⟨_, shows_.plan_change valid planned⟩

theorem run_shows (commands : List RaftCommand) :
    ∃ ledger, Shows (run applied ∅ commands) ledger := by
  induction commands using List.reverseRecOn with
  | nil => exact ⟨_, shows_empty⟩
  | append_singleton before cmd ih =>
    obtain ⟨ledger, shows_⟩ := ih
    rw [run_append]
    exact shows_.applied cmd

theorem Shows.grantAt {ps : PebbleStore} {ledger : Ledger} (shows_ : Shows ps ledger)
    {ref : GrantRef} (named : Named ref) : Acl.grantAt ps ref = ledger ref := by
  rw [Acl.grantAt, shows_.forward ref named]
  cases held : ledger ref with
  | none => rfl
  | some grant => exact shows_.unmarshal held

def since (grant : Grant) : Int64 :=
  if grant.updatedAt = 0 then grant.createdAt else grant.updatedAt

/-- The age since the last update, or since the creation of a grant without one, is
within the limit, as far as it fits in 64 bits. -/
def Young (grant : Grant) (time : Int64) : Prop :=
  -2 ^ 63 ≤ time.toInt - (since grant).toInt → time.toInt - (since grant).toInt < 2 ^ 63 →
    time.toInt - (since grant).toInt ≤ pendingGrantTTL.toInt

/-- The accept comes no later than the limit after the last update. -/
def Recent (grant : Grant) (time : Int64) : Prop :=
  time.toInt - grant.updatedAt.toInt ≤ pendingGrantTTL.toInt

/-- Since the last revocation of the grant it was set as accepted, or accepted
at a time that `within` allows for the record it then had. -/
def Justified (within : Grant → Int64 → Prop) (commands : List RaftCommand) (ref : GrantRef) :
    Prop :=
  ∃ before cmd after payload, commands = before ++ cmd :: after ∧
    admitted cmd = some payload ∧ (applyACLCommand (run applied ∅ before) cmd).2 = none ∧
    refOf payload = ref ∧
    (payload.op = aclOpSet ∧ payload.state = grantStateAccepted ∨
      payload.op = aclOpAccept ∧ ∃ grant, grantAt (run applied ∅ before) ref = some grant ∧
        grant.state = grantStatePending ∧ within grant payload.atTime) ∧
    ∀ later ∈ after, ∀ revocation, admitted later = some revocation → ¬ Revokes revocation ref

theorem Justified.extend {within : Grant → Int64 → Prop} {commands : List RaftCommand}
    {ref : GrantRef} (justified : Justified within commands ref) (cmd : RaftCommand)
    (kept : ∀ payload, admitted cmd = some payload → ¬ Revokes payload ref) :
    Justified within (commands ++ [cmd]) ref := by
  obtain ⟨before, event, after, payload, rfl, taken, done, named, reason, unrevoked⟩ := justified
  refine ⟨before, event, after ++ [cmd], payload, by simp, taken, done, named, reason, ?_⟩
  exact List.forall_mem_append.mpr ⟨unrevoked, List.forall_mem_singleton.mpr kept⟩

theorem acceptable_young {time : Int64} (acceptable : Acceptable grant time) :
    Young grant time := by
  have live := acceptable.2
  simp only [pendingGrantExpired, acceptable.1, ne_eq, not_true_eq_false, if_false,
    decide_eq_false_iff_not] at live
  intro low high
  have age : time - since grant ≤ pendingGrantTTL := Int64.not_lt.mp live
  rwa [Int64.le_iff_toInt_le, Int64.toInt_sub, Int.bmod_eq_of_le (by omega) (by omega)] at age

theorem setGrant_accepted {payload : ACLPayload} {old : Option Grant}
    (state : (setGrant payload old).state = grantStateAccepted) :
    payload.state = grantStateAccepted ∨
      ∃ grant, old = some grant ∧ grant.state = grantStateAccepted := by
  cases old with
  | none => exact Or.inl state
  | some grant =>
    simp only [setGrant] at state
    split_ifs at state with keeps
    · exact Or.inr ⟨grant, rfl, state⟩
    · exact Or.inl state

/-- One command: an accepted grant in the changed ledger was accepted before and
is not revoked, or the command itself is the reason. -/
theorem change_accepted {ledger : Ledger} {payload : ACLPayload} {ref : GrantRef}
    (held : change ledger payload ref = some grant) (state : grant.state = grantStateAccepted) :
    (∃ old, ledger ref = some old ∧ old.state = grantStateAccepted) ∧ ¬ Revokes payload ref ∨
      refOf payload = ref ∧ (payload.op = aclOpSet ∧ payload.state = grantStateAccepted ∨
        payload.op = aclOpAccept ∧ ∃ old, ledger ref = some old ∧
          old.state = grantStatePending ∧ Young old payload.atTime) := by
  rw [change] at held
  split_ifs at held with isSet isAccept
  · have kept : ¬ Revokes payload ref := fun revokes => (revocation_ops revokes).1 isSet
    by_cases same : ref = refOf payload
    · rw [same, Function.update_self] at held
      cases held
      rw [same]
      rcases setGrant_accepted state with asked | ⟨old, before, accepted⟩
      · exact Or.inr ⟨rfl, Or.inl ⟨isSet, asked⟩⟩
      · exact Or.inl ⟨⟨old, before, accepted⟩, same ▸ kept⟩
    · rw [Function.update_of_ne same] at held
      exact Or.inl ⟨⟨grant, held, state⟩, kept⟩
  · have kept : ¬ Revokes payload ref := fun revokes => (revocation_ops revokes).2 isAccept
    have unchanged : ledger ref = some grant →
        (∃ old, ledger ref = some old ∧ old.state = grantStateAccepted) ∧ ¬ Revokes payload ref :=
      fun before => ⟨⟨grant, before, state⟩, kept⟩
    cases before : ledger (refOf payload) with
    | none =>
      rw [before] at held
      exact Or.inl (unchanged held)
    | some old =>
      simp only [before] at held
      split_ifs at held with acceptable
      · by_cases same : ref = refOf payload
        · rw [same]
          exact Or.inr ⟨rfl, Or.inr ⟨isAccept, old, before, acceptable.1,
            acceptable_young acceptable⟩⟩
        · rw [Function.update_of_ne same] at held
          exact Or.inl (unchanged held)
      · exact Or.inl (unchanged held)
  · change (if Revokes payload ref then none else ledger ref) = some grant at held
    split_ifs at held with revokes
    exact Or.inl ⟨⟨grant, held, state⟩, revokes⟩

theorem accepted_justified (commands : List RaftCommand) (ledger : Ledger)
    (shows_ : Shows (run applied ∅ commands) ledger) (ref : GrantRef) (grant : Grant)
    (held : ledger ref = some grant) (state : grant.state = grantStateAccepted) :
    Justified Young commands ref := by
  induction commands using List.reverseRecOn generalizing ledger ref grant with
  | nil =>
    have stored := shows_.stored_forward held
    rw [run_nil, get_empty] at stored
    cases stored
  | append_singleton before cmd ih =>
    have named := shows_.named ref grant held
    obtain ⟨earlier, earlierShows⟩ := run_shows before
    have reads := shows_.grantAt named
    rw [run_append, run_cons, run_nil] at reads shows_
    rcases applied_cases (run applied ∅ before) cmd with
      ⟨same, refused⟩ | ⟨payload, batch, taken, valid, planned, done, fine⟩
    · -- a refused command is no revocation
      rw [same, earlierShows.grantAt named] at reads
      apply (ih earlier earlierShows ref grant (reads.trans held) state).extend
      intro payload taken revokes
      obtain ⟨notSet, notAccept⟩ := revocation_ops revokes
      rw [revocation_applied taken notSet notAccept] at refused
      exact refused rfl
    · rw [done, (earlierShows.plan_change valid planned).grantAt named] at reads
      rcases change_accepted (reads.trans held) state with
        ⟨⟨old, kept, accepted⟩, unrevoked⟩ | ⟨same, reason⟩
      · apply (ih earlier earlierShows ref old kept accepted).extend
        intro other taken'
        cases taken.symm.trans taken'
        exact unrevoked
      · refine ⟨before, cmd, [], payload, rfl, taken, fine, same, ?_, List.forall_mem_nil _⟩
        rw [earlierShows.grantAt named]
        exact reason

/-- In every state that grant commands lead to: the store holds the two keys of
named grants, always both; a revocation removes both keys of the grants it names
and leaves every other key of a grant; and an accepted grant was set as accepted
or was accepted in time after its last revocation. -/
theorem grants_consistent (commands : List RaftCommand) :
    (∀ key value, get (run applied ∅ commands) key = some value →
      ∃ ref, Named ref ∧ (key = ref.forwardKey ∨ key = ref.reverseKey)) ∧
    (∀ ref, Named ref → ((get (run applied ∅ commands) ref.forwardKey).isSome = true ↔
        (get (run applied ∅ commands) ref.reverseKey).isSome = true)) ∧
    (∀ cmd payload, admitted cmd = some payload → payload.op ≠ aclOpSet →
      payload.op ≠ aclOpAccept → ∀ ref, Named ref →
        get (applied (run applied ∅ commands) cmd) ref.forwardKey =
            (if Revokes payload ref then none
              else get (run applied ∅ commands) ref.forwardKey) ∧
          get (applied (run applied ∅ commands) cmd) ref.reverseKey =
            (if Revokes payload ref then none
              else get (run applied ∅ commands) ref.reverseKey)) ∧
    ∀ ref, Named ref → ∀ grant, grantAt (run applied ∅ commands) ref = some grant →
      grant.state = grantStateAccepted → Justified Young commands ref := by
  obtain ⟨ledger, shows_⟩ := run_shows commands
  refine ⟨shows_.only, ?_, ?_, ?_⟩
  · intro ref named
    rw [shows_.forward ref named, shows_.reverse ref named, Option.isSome_map, Option.isSome_map]
  · intro cmd payload taken notSet notAccept ref named
    have valid := (admitted_some taken).2.2
    have removed := shows_.remove (shows_.picks_revoked valid notSet notAccept)
    rw [applied, revocation_applied taken notSet notAccept, removed.forward ref named,
      removed.reverse ref named, shows_.forward ref named, shows_.reverse ref named]
    by_cases revokes : Revokes payload ref <;> simp [revokes]
  · intro ref named grant found state
    rw [shows_.grantAt named] at found
    exact accepted_justified commands ledger shows_ ref grant found state

def samplePayload (op state : Bytes) (time : Int64) : ACLPayload where
  op := op
  kind := aclKindCalendar
  owner := ascii "ann"
  resource := ascii "work"
  grantee := ascii "bob"
  level := grantLevelRead
  rights := []
  state := state
  grantedBy := ascii "ann"
  atTime := time
  keepState := false

def sampleCommand (op state : Bytes) (time : Int64) : RaftCommand where
  op := .put
  key := aclPrefix ++ op
  value := .json (.acl (samplePayload op state time))

def sampleRef : GrantRef := ⟨aclKindCalendar, ascii "ann", ascii "work", ascii "bob"⟩

theorem sampleRef_named : Named sampleRef := by
  constructor
  · exact List.mem_cons_self
  · decide
  · decide
  · decide

/-- Set as accepted. -/
theorem grants_consistent_set :
    Justified Young [sampleCommand aclOpSet grantStateAccepted 5] sampleRef :=
  (grants_consistent [sampleCommand aclOpSet grantStateAccepted 5]).2.2.2 sampleRef sampleRef_named
    ⟨grantLevelRead, [], grantStateAccepted, ascii "ann", 5, 5⟩ (by decide +kernel) rfl

/-- Commands that only set a grant as pending, and then an accept that is not
recent, give no reason. -/
theorem stale_unjustified (first : List RaftCommand) (last : RaftCommand) (ref : GrantRef)
    (quiet : ∀ cmd ∈ first, ∀ payload, admitted cmd = some payload →
      payload.op = aclOpSet ∧ payload.state = grantStatePending)
    (accepts : ∀ payload, admitted last = some payload → payload.op = aclOpAccept)
    (stale : ∀ payload grant, admitted last = some payload →
      grantAt (run applied ∅ first) ref = some grant → ¬ Recent grant payload.atTime) :
    ¬ Justified Recent (first ++ [last]) ref := by
  rintro ⟨before, cmd, after, payload, split, taken, -, -, reason, -⟩
  have apart : aclOpSet ≠ aclOpAccept ∧ grantStatePending ≠ grantStateAccepted := by
    decide
  rcases List.eq_nil_or_concat after with rfl | ⟨middle, final, rfl⟩
  · obtain ⟨rfl, same⟩ := List.append_inj' split rfl
    cases List.cons_eq_cons.mp same with
    | intro same _ =>
      subst same
      have op := accepts payload taken
      rcases reason with ⟨isSet, -⟩ | ⟨-, grant, found, -, recent⟩
      · exact apart.1 (isSet.symm.trans op)
      · exact stale payload grant taken found recent
  · have inside : cmd ∈ first := by
      rw [List.concat_eq_append, ← List.cons_append, ← List.append_assoc] at split
      rw [(List.append_inj' split rfl).1]
      simp
    obtain ⟨op, state⟩ := quiet cmd inside payload taken
    rcases reason with ⟨-, accepted⟩ | ⟨isAccept, -⟩
    · exact apart.2 (state.symm.trans accepted)
    · exact apart.1 (op.symm.trans isAccept)

theorem admitted_sample {op state : Bytes} {time : Int64} {payload : ACLPayload}
    (taken : admitted (sampleCommand op state time) = some payload) :
    payload = samplePayload op state time := by
  obtain ⟨-, parsed, -⟩ := admitted_some taken
  exact (Option.some.inj parsed).symm

theorem shares_unjustified (times : List Int64) (time : Int64) (grant : Grant)
    (shared : grantAt (run applied ∅ (times.map (sampleCommand aclOpSet grantStatePending)))
      sampleRef = some grant) (stale : ¬ Recent grant time) :
    ¬ Justified Recent (times.map (sampleCommand aclOpSet grantStatePending) ++
      [sampleCommand aclOpAccept [] time]) sampleRef := by
  apply stale_unjustified
  · intro cmd member payload taken
    obtain ⟨_, _, rfl⟩ := List.mem_map.mp member
    rw [admitted_sample taken]
    exact ⟨rfl, rfl⟩
  · intro payload taken
    rw [admitted_sample taken]
    rfl
  · intro payload other taken found
    rw [admitted_sample taken]
    cases shared.symm.trans found
    exact stale

/-- A grant shared at 1 and again at time 0 is accepted one second after the
limit from its last update: the age is counted from its creation. And one shared
at -1 is accepted at the greatest time: the age overflows. -/
theorem accepted_past_limit :
    grantAt (run applied ∅ [sampleCommand aclOpSet grantStatePending 1,
        sampleCommand aclOpSet grantStatePending 0,
        sampleCommand aclOpAccept [] 2592001]) sampleRef =
      some ⟨grantLevelRead, [], grantStateAccepted, ascii "ann", 1, 2592001⟩ ∧
    ¬ Justified Recent [sampleCommand aclOpSet grantStatePending 1,
        sampleCommand aclOpSet grantStatePending 0,
        sampleCommand aclOpAccept [] 2592001] sampleRef ∧
    grantAt (run applied ∅ [sampleCommand aclOpSet grantStatePending (-1),
        sampleCommand aclOpAccept [] 9223372036854775807]) sampleRef =
      some ⟨grantLevelRead, [], grantStateAccepted, ascii "ann", -1, 9223372036854775807⟩ ∧
    ¬ Justified Recent [sampleCommand aclOpSet grantStatePending (-1),
        sampleCommand aclOpAccept [] 9223372036854775807] sampleRef := by
  refine ⟨by decide +kernel, ?_, by decide +kernel, ?_⟩
  · exact shares_unjustified [1, 0] 2592001
      ⟨grantLevelRead, [], grantStatePending, ascii "ann", 1, 0⟩ (by decide +kernel)
      (by rw [Recent]; decide +kernel)
  · exact shares_unjustified [-1] 9223372036854775807
      ⟨grantLevelRead, [], grantStatePending, ascii "ann", -1, -1⟩ (by decide +kernel)
      (by rw [Recent]; decide)

end Bongo.Acl
