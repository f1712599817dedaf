import Bongo.Profiles

/-!
Web sessions of one account. No list of revoked sessions is kept: a session carries
the epoch of the profile it was issued for, and it is refused while the epoch of the
stored profile is another one. That ends a session for good only if the profile never
comes back to an epoch it has had before.
-/

namespace Bongo.Profiles

open ByteKeys Histories Literals Runes Sections

structure LiveSessionState where
  found : Bool
  missing : Bool
  disabled : Bool
  isAdmin : Bool
  epoch : Bytes
  deriving DecidableEq

inductive Stored where
  | absent
  | unreadable
  | profile (profile : UserProfile)

def sessionStateFromProfile (platform : Platform) : Stored → LiveSessionState
  | .absent => ⟨false, true, false, false, []⟩
  | .unreadable => ⟨false, false, false, false, []⟩
  | .profile profile =>
    ⟨true, false, profile.disabled, profile.isAdmin, sessionEpoch platform profile⟩

/-- What the handlers behind `requireAuth` see of a request that it lets through. -/
structure Access where
  userID : Bytes
  email : Bytes
  isAdmin : Bool
  unavailable : Bool
  deriving DecidableEq

/-- `none` sends the client to the login page. -/
def requireAuth (data : SessionData) (now : Int) (state : LiveSessionState) : Option Access :=
  if data.userID = [] ∨ now > data.exp then none
  else if state.missing then none
  else if state.found then
    if state.disabled ∨ (data.epoch ≠ [] ∧ state.epoch ≠ [] ∧ data.epoch ≠ state.epoch) then none
    else some ⟨data.userID, data.email, state.isAdmin, false⟩
  -- The store did not answer: the session is kept, without the rights of an admin.
  else some ⟨data.userID, data.email, false, true⟩

structure LoginForm where
  /-- The typed address after `store.NormaliseAddress`. -/
  address : Bytes
  password : Bytes
  remember : Bool
  now : Int
  deriving DecidableEq

inductive LoginResult where
  | refused
  | pending (data : PendingData)
  | session (data : SessionData)
  deriving DecidableEq

def day : Int := 24 * 3600

def createSessionCookie (userID email : Bytes) (remember isAdmin : Bool) (now : Int)
    (epoch : Bytes) : SessionData :=
  ⟨userID, email, now + (if remember then 30 * day else day), isAdmin, epoch⟩

def login (platform : Platform) (userID : Bytes) (form : LoginForm) (profile : UserProfile) :
    LoginResult :=
  if ¬ platform.compareHash profile.passwordHash form.password then .refused
  else if profile.disabled ∨ profile.kind = resourceKind then .refused
  else
    let canonical := if profile.email = [] then form.address else profile.email
    let epoch := sessionEpoch platform profile
    if profile.totpEnabled then
      .pending ⟨userID, canonical, form.remember, profile.isAdmin, form.now + 300, epoch⟩
    else
      .session (createSessionCookie userID canonical form.remember profile.isAdmin form.now epoch)

/-- The session a served request hands out, for the profile it has written. A change of
credentials renews the session of the device it came from; `session` is that session. -/
def sessionFor (platform : Platform) (userID : Bytes) (request : Request)
    (session : Option SessionData) (profile : UserProfile) : Option SessionData :=
  match request with
  | .twoFactorVerify pending _ now =>
    some (createSessionCookie pending.userID
      (if profile.email = [] then pending.email else profile.email) pending.remember
      pending.isAdmin now (sessionEpoch platform profile))
  | .confirmTOTP _ | .disableTOTP _ | .changePassword _ =>
    (session.filter fun data => data.userID = userID).map fun data =>
      { data with epoch := sessionEpoch platform profile }
  | _ => none

structure Account where
  profile : UserProfile
  /-- The profiles that have been stored, the present one among them. -/
  past : List UserProfile
  issued : List SessionData

inductive AccountEvent where
  | login (form : LoginForm)
  | serve (request : Request) (session : Option SessionData) (outcome : Outcome)

def opened (profile : UserProfile) : Account := ⟨profile, [profile], []⟩

def advance (platform : Platform) (userID : Bytes) (account : Account) :
    AccountEvent → Account
  | .login form =>
    match Profiles.login platform userID form account.profile with
    | .session data => { account with issued := account.issued ++ [data] }
    | _ => account
  | .serve request session outcome =>
    let entry := ⟨request, account.profile, outcome⟩
    let new := settle (handle platform) account.profile entry
    { profile := new
      past := new :: account.past
      issued := account.issued ++
        if Succeeds (handle platform) entry then
          (sessionFor platform userID request session new).toList
        else [] }

structure Sizes where
  hash : Nat
  secret : Nat

def Sized (sizes : Sizes) (profile : UserProfile) : Prop :=
  profile.passwordHash.length = sizes.hash ∧
    (profile.totpSecret = [] ∨ profile.totpSecret.length = sizes.secret)

/-- Hashes and secrets are of their length and have not been used before. -/
def FreshRequest (sizes : Sizes) (past : List UserProfile) : Request → Prop
  | .confirmTOTP form =>
    match form.pending.bind decodeBase32 with
    | none => True
    | some secret => secret.length = sizes.secret ∧ ∀ old ∈ past, old.totpSecret ≠ secret
  | .changePassword form =>
    match form.hash with
    | none => True
    | some hash => hash.length = sizes.hash ∧ ∀ old ∈ past, old.passwordHash ≠ hash
  | .resetPassword _ hash => hash.length = sizes.hash ∧ ∀ old ∈ past, old.passwordHash ≠ hash
  | _ => True

def Bare (profile : UserProfile) : Prop := profile.totpSecret = [] ∧ profile.totpEnabled = false

instance (profile : UserProfile) : Decidable (Bare profile) :=
  inferInstanceAs (Decidable (_ ∧ _))

/-- A second factor is not removed under a password and a session generation under which
the account has been without one, and the counter of generations is not exhausted. -/
def MovesOn (platform : Platform) (account : Account) : Request → Prop
  | .disableTOTP form =>
    reauthenticate platform form account.profile ≠ none → ¬ Bare account.profile →
      ∀ old ∈ account.past, Bare old → old.passwordHash = account.profile.passwordHash →
        old.sessionGeneration ≠ account.profile.sessionGeneration
  | .logout _ => account.profile.sessionGeneration + 1 ≠ 0
  | _ => True

def Fresh (sizes : Sizes) (account : Account) : AccountEvent → Prop
  | .login _ => True
  | .serve request _ _ => FreshRequest sizes account.past request

def Forward (platform : Platform) (account : Account) : AccountEvent → Prop
  | .login _ => True
  | .serve request _ _ => MovesOn platform account request

instance (sizes : Sizes) (profile : UserProfile) : Decidable (Sized sizes profile) :=
  inferInstanceAs (Decidable (_ ∧ (_ ∨ _)))

instance (sizes : Sizes) (past : List UserProfile) (request : Request) :
    Decidable (FreshRequest sizes past request) :=
  match request with
  | .confirmTOTP form =>
    match found : form.pending.bind decodeBase32 with
    | none => isTrue (by simp [FreshRequest, found])
    | some secret =>
      decidable_of_iff (secret.length = sizes.secret ∧ ∀ old ∈ past, old.totpSecret ≠ secret)
        (by simp [FreshRequest, found])
  | .changePassword form =>
    match found : form.hash with
    | none => isTrue (by simp [FreshRequest, found])
    | some hash =>
      decidable_of_iff (hash.length = sizes.hash ∧ ∀ old ∈ past, old.passwordHash ≠ hash)
        (by simp [FreshRequest, found])
  | .resetPassword _ hash =>
    inferInstanceAs (Decidable (hash.length = sizes.hash ∧ ∀ old ∈ past, old.passwordHash ≠ hash))
  | .twoFactorVerify _ _ _ | .disableTOTP _ | .requireAppPasswordsOn _ _
  | .requireAppPasswordsOff _ | .createWith _ _ _ | .logout _ | .updateUser _ _
  | .toggleDisabled _ | .updateProfileFields _ _ => isTrue trivial

instance (platform : Platform) (account : Account) (request : Request) :
    Decidable (MovesOn platform account request) :=
  match request with
  | .disableTOTP form =>
    inferInstanceAs (Decidable (reauthenticate platform form account.profile ≠ none →
      ¬ Bare account.profile → ∀ old ∈ account.past, Bare old →
        old.passwordHash = account.profile.passwordHash →
        old.sessionGeneration ≠ account.profile.sessionGeneration))
  | .logout _ => inferInstanceAs (Decidable (account.profile.sessionGeneration + 1 ≠ 0))
  | .twoFactorVerify _ _ _ | .confirmTOTP _ | .changePassword _ | .requireAppPasswordsOn _ _
  | .requireAppPasswordsOff _ | .createWith _ _ _ | .updateUser _ _ | .toggleDisabled _
  | .resetPassword _ _ | .updateProfileFields _ _ => isTrue trivial

instance (sizes : Sizes) (account : Account) (event : AccountEvent) :
    Decidable (Fresh sizes account event) :=
  match event with
  | .login _ => isTrue trivial
  | .serve request _ _ => inferInstanceAs (Decidable (FreshRequest sizes account.past request))

instance (platform : Platform) (account : Account) (event : AccountEvent) :
    Decidable (Forward platform account event) :=
  match event with
  | .login _ => isTrue trivial
  | .serve request _ _ => inferInstanceAs (Decidable (MovesOn platform account request))

/-! The input of the epoch determines the credentials. -/
section Inputs

structure Key where
  passwordHash : Bytes
  totpSecret : Bytes
  totpEnabled : Bool
  generation : UInt64
  deriving DecidableEq

def key (profile : UserProfile) : Key :=
  ⟨profile.passwordHash, profile.totpSecret, profile.totpEnabled, profile.sessionGeneration⟩

def inputTail (enabled : Bool) (generation : UInt64) : Bytes :=
  (if enabled then 1 else 0) ::
    if generation = 0 then [] else ascii "gen" ++ bigEndian 8 generation.toNat

theorem inputTail_length (enabled : Bool) (generation : UInt64) :
    (inputTail enabled generation).length = 1 ∨ (inputTail enabled generation).length = 12 := by
  by_cases zero : generation = 0
  · left
    rw [inputTail, if_pos zero, List.length_singleton]
  · right
    rw [inputTail, if_neg zero, List.length_cons, List.length_append, bigEndian_length]
    rfl

theorem generation_of_bigEndian {left right : UInt64}
    (same : bigEndian 8 left.toNat = bigEndian 8 right.toNat) : left = right := by
  have values := congrArg readBigEndian same
  rw [readBigEndian_bigEndian 8 _ left.toNat_lt, readBigEndian_bigEndian 8 _ right.toNat_lt]
    at values
  exact UInt64.toNat_inj.mp values

theorem inputTail_inj {enabled other : Bool} {generation later : UInt64}
    (same : inputTail enabled generation = inputTail other later) :
    enabled = other ∧ generation = later := by
  obtain ⟨flags, rest⟩ := List.cons.inj same
  refine ⟨by cases enabled <;> cases other <;> simp_all, ?_⟩
  by_cases left : generation = 0 <;> by_cases right : later = 0
  · rw [left, right]
  · rw [if_pos left, if_neg right] at rest
    cases rest
  · rw [if_neg left, if_pos right] at rest
    cases rest
  · rw [if_neg left, if_neg right] at rest
    exact generation_of_bigEndian (List.append_cancel_left rest)

variable {platform : Platform} {sizes : Sizes} {left right : UserProfile}

/-- With secrets of eleven bytes the eleven bytes of a generation could be taken for one. -/
theorem key_of_input (odd : sizes.secret ≠ 11) (first : Sized sizes left)
    (second : Sized sizes right)
    (same : epochInput left.passwordHash left.totpSecret left.totpEnabled left.sessionGeneration =
      epochInput right.passwordHash right.totpSecret right.totpEnabled right.sessionGeneration) :
    key left = key right := by
  obtain ⟨hashes, rest⟩ := List.append_inj same (first.1.trans second.1.symm)
  have lengths : left.totpSecret.length = right.totpSecret.length := by
    have total := congrArg List.length rest
    rw [List.length_append, List.length_append] at total
    change _ + (inputTail left.totpEnabled left.sessionGeneration).length =
      _ + (inputTail right.totpEnabled right.sessionGeneration).length at total
    have leftTail := inputTail_length left.totpEnabled left.sessionGeneration
    have rightTail := inputTail_length right.totpEnabled right.sessionGeneration
    rcases first.2 with none | some <;> rcases second.2 with absent | present
    · rw [none, absent]
    · rw [none, List.length_nil] at total ⊢
      omega
    · rw [absent, List.length_nil] at total ⊢
      omega
    · rw [some, present]
  obtain ⟨secrets, tails⟩ := List.append_inj rest lengths
  obtain ⟨flags, generations⟩ := inputTail_inj tails
  rw [key, key, hashes, secrets, flags, generations]

theorem sessionEpoch_eq_iff (injective : Function.Injective platform.epochHash)
    (odd : sizes.secret ≠ 11) (first : Sized sizes left) (second : Sized sizes right) :
    sessionEpoch platform left = sessionEpoch platform right ↔ key left = key right := by
  constructor
  · intro same
    exact key_of_input odd first second (injective same)
  · intro same
    obtain ⟨hashes, secrets, flags, generations⟩ := Key.mk.inj same
    rw [sessionEpoch, sessionEpoch, hashes, secrets, flags, generations]

end Inputs

section Runs

variable {platform : Platform} {userID : Bytes} {sizes : Sizes} {account : Account}

structure Kept (platform : Platform) (sizes : Sizes) (account : Account) : Prop where
  current : account.profile ∈ account.past
  sized : ∀ old ∈ account.past, Sized sizes old
  /-- Under one password the generation only grows. -/
  grown : ∀ old ∈ account.past, old.passwordHash = account.profile.passwordHash →
    old.sessionGeneration.toNat ≤ account.profile.sessionGeneration.toNat
  issued : ∀ data ∈ account.issued, ∃ old ∈ account.past, data.epoch = sessionEpoch platform old

/-- The requests after which no session that was issued before is good. -/
def EndsSessions (profile : UserProfile) : Request → Prop
  | .confirmTOTP _ | .changePassword _ | .resetPassword _ _ | .logout _ => True
  | .disableTOTP _ => ¬ Bare profile
  | _ => False

theorem afterFactor_key (factor : Option Factor) (profile : UserProfile) :
    key (afterFactor factor profile) = key profile := by
  cases factor with
  | none => rfl
  | some factor => cases factor <;> rfl

theorem spend_key (factor : Factor) (profile : UserProfile) :
    key (factor.spend profile) = key profile := by
  cases factor <;> rfl

/-- What a request that is written does to the credentials: they are new if it ends the
sessions, and as they were if it does not. -/
structure Turn (sizes : Sizes) (account : Account) (request : Request) (new : UserProfile) :
    Prop where
  sized : Sized sizes new
  grown : ∀ old ∈ account.past, old.passwordHash = new.passwordHash →
    old.sessionGeneration.toNat ≤ new.sessionGeneration.toNat
  ends : EndsSessions account.profile request → ∀ old ∈ account.past, key old ≠ key new
  keeps : ¬ EndsSessions account.profile request → key new = key account.profile

variable {new : UserProfile} {request : Request}

theorem toNat_succ_generation {generation : UInt64} (room : generation + 1 ≠ 0) :
    (generation + 1).toNat = generation.toNat + 1 := by
  have nonzero : (generation + 1).toNat ≠ 0 := fun zero => room (UInt64.toNat_inj.mp zero)
  have bound := generation.toNat_lt
  have sum : (generation + 1).toNat = (generation.toNat + 1) % 2 ^ 64 := UInt64.toNat_add _ _
  omega

theorem settle_cases (platform : Platform) (request : Request) (profile : UserProfile)
    (outcome : Outcome) :
    settle (handle platform) profile ⟨request, profile, outcome⟩ = profile ∨
      handle platform request profile =
        .write (settle (handle platform) profile ⟨request, profile, outcome⟩) := by
  cases outcome <;> cases served : handle platform request profile <;>
    simp [settle, served]

variable {data : SessionData} {profile : UserProfile}

theorem sessionFor_epoch {session : Option SessionData}
    (made : sessionFor platform userID request session profile = some data) :
    data.epoch = sessionEpoch platform profile := by
  unfold sessionFor at made
  split at made
  · cases made
    rfl
  all_goals first
    | cases made
    | obtain ⟨old, -, rfl⟩ := Option.map_eq_some_iff.mp made
      rfl

theorem login_epoch {form : LoginForm} (made : login platform userID form profile = .session data) :
    data.epoch = sessionEpoch platform profile := by
  unfold login at made
  split at made
  · cases made
  split at made
  · cases made
  dsimp only at made
  split at made
  · cases made
  · cases made
    rfl

variable (kept : Kept platform sizes account)
include kept

theorem Turn.of_key (same : key new = key account.profile)
    (quiet : ¬ EndsSessions account.profile request) : Turn sizes account request new := by
  obtain ⟨hash, secret, -, generation⟩ := Key.mk.inj same
  refine ⟨?_, ?_, fun ends => (quiet ends).elim, fun _ => same⟩
  · rw [Sized, hash, secret]
    exact kept.sized account.profile kept.current
  · rw [hash, generation]
    exact kept.grown

/-- A hash that was never used starts a new count of generations. -/
theorem Turn.of_hash {hash : Bytes} (own : new.passwordHash = hash)
    (secret : new.totpSecret = account.profile.totpSecret)
    (fresh : hash.length = sizes.hash ∧ ∀ old ∈ account.past, old.passwordHash ≠ hash)
    (ends : EndsSessions account.profile request) : Turn sizes account request new := by
  have before := kept.sized account.profile kept.current
  refine ⟨⟨by rw [own, fresh.1], by rw [secret]; exact before.2⟩, ?_, ?_,
    fun quiet => (quiet ends).elim⟩
  · intro old member same
    exact (fresh.2 old member (same.trans own)).elim
  · intro _ old member same
    exact fresh.2 old member ((Key.mk.inj same).1.trans own)

theorem turn_disable {form : Reauth} (hash : new.passwordHash = account.profile.passwordHash)
    (generation : new.sessionGeneration = account.profile.sessionGeneration) (bare : Bare new)
    (passed : reauthenticate platform form account.profile ≠ none)
    (forward : MovesOn platform account (.disableTOTP form)) :
    Turn sizes account (.disableTOTP form) new := by
  have before := kept.sized account.profile kept.current
  refine ⟨⟨by rw [hash]; exact before.1, Or.inl bare.1⟩, ?_, ?_, ?_⟩
  · rw [hash, generation]
    exact kept.grown
  · intro ends old member same
    obtain ⟨hashes, secrets, flags, generations⟩ := Key.mk.inj same
    have without : Bare old := ⟨secrets.trans bare.1, flags.trans bare.2⟩
    exact forward passed ends old member without (hashes.trans hash) (generations.trans generation)
  · intro quiet
    have already : Bare account.profile := not_not.mp quiet
    rw [key, key, hash, generation, bare.1, bare.2, already.1, already.2]

theorem turn_of_writes (fresh : FreshRequest sizes account.past request)
    (forward : MovesOn platform account request)
    (served : handle platform request account.profile = .write new) :
    Turn sizes account request new := by
  have writes := handle_writes served
  cases writes with
  | verify found => exact Turn.of_key kept (spend_key _ _) id
  | @confirm form profile secret secretBytes setupStep codes pending valid off decoded made =>
    rw [FreshRequest, pending, Option.bind_some, decoded] at fresh
    have before := kept.sized account.profile kept.current
    refine ⟨⟨before.1, Or.inr fresh.1⟩, kept.grown, ?_, fun quiet => (quiet trivial).elim⟩
    intro _ old member same
    exact fresh.2 old member (Key.mk.inj same).2.1
  | @disable form profile =>
    have passed : reauthenticate platform form account.profile ≠ none := by
      intro refused
      change disableTOTP platform form account.profile = _ at served
      rw [disableTOTP, refused] at served
      split at served <;> cases served
    obtain ⟨hash, -, -, generation⟩ :=
      Key.mk.inj (afterFactor_key (spent platform (.disableTOTP form) account.profile)
        account.profile)
    exact turn_disable kept hash generation ⟨rfl, rfl⟩ passed forward
  | @change form profile hash made =>
    rw [FreshRequest, made] at fresh
    obtain ⟨-, secret, -, -⟩ :=
      Key.mk.inj (afterFactor_key (spent platform (.changePassword form) account.profile)
        account.profile)
    exact Turn.of_hash kept rfl secret fresh trivial
  | switchOn => exact Turn.of_key kept rfl id
  | @switchOff form profile =>
    exact Turn.of_key kept (afterFactor_key (spent platform (.requireAppPasswordsOff form)
      account.profile) account.profile) id
  | create enabled => exact Turn.of_key kept (afterFactor_key _ _) id
  | logout =>
    have larger := toNat_succ_generation forward
    refine ⟨kept.sized account.profile kept.current, ?_, ?_, fun quiet => (quiet trivial).elim⟩
    · intro old member same
      have older := kept.grown old member same
      dsimp only
      omega
    · intro _ old member same
      obtain ⟨hashes, -, -, generations⟩ := Key.mk.inj same
      have older := kept.grown old member hashes
      rw [generations] at older
      dsimp only at older
      omega
  | update | toggle => exact Turn.of_key kept rfl id
  | reset => exact Turn.of_hash kept rfl rfl fresh trivial
  | fields => exact Turn.of_key kept rfl id

/-- The account after a request, from what the request did to the credentials. -/
theorem Kept.serve {more : List SessionData} (sized : Sized sizes new)
    (grown : ∀ old ∈ account.past, old.passwordHash = new.passwordHash →
      old.sessionGeneration.toNat ≤ new.sessionGeneration.toNat)
    (issued : ∀ data ∈ more, data.epoch = sessionEpoch platform new) :
    Kept platform sizes ⟨new, new :: account.past, account.issued ++ more⟩ where
  current := List.mem_cons_self
  sized := List.forall_mem_cons.mpr ⟨sized, kept.sized⟩
  grown := List.forall_mem_cons.mpr ⟨fun _ => Nat.le_refl _, grown⟩
  issued := List.forall_mem_append.mpr
    ⟨fun data before => (kept.issued data before).imp fun _ =>
      And.imp_left (List.mem_cons_of_mem _),
      fun data added => ⟨new, List.mem_cons_self, issued data added⟩⟩

variable {event : AccountEvent} (fresh : Fresh sizes account event)
  (forward : Forward platform account event)
include fresh forward

theorem kept_advance :
    Kept platform sizes (advance platform userID account event) := by
  cases event with
  | login form =>
    rw [advance]
    split
    · rename_i data made
      exact { kept with
        issued := List.forall_mem_append.mpr ⟨kept.issued,
          List.forall_mem_singleton.mpr ⟨account.profile, kept.current, login_epoch made⟩⟩ }
    · exact kept
  | serve request session outcome =>
    rw [advance]
    have sessions : ∀ after, ∀ data ∈ (if Succeeds (handle platform)
          ⟨request, account.profile, outcome⟩ then
        (sessionFor platform userID request session after).toList else []),
        data.epoch = sessionEpoch platform after := by
      intro after data member
      split at member
      · exact sessionFor_epoch (Option.mem_toList.mp member)
      · cases member
    rcases settle_cases platform request account.profile outcome with same | served
    · refine kept.serve ?_ ?_ (sessions _)
      · rw [same]
        exact kept.sized account.profile kept.current
      · rw [same]
        exact kept.grown
    · have turn := turn_of_writes kept fresh forward served
      exact kept.serve turn.sized turn.grown (sessions _)

/-- An epoch that is no longer the one of the account does not come back with one event. -/
theorem stale_advance (injective : Function.Injective platform.epochHash)
    (odd : sizes.secret ≠ 11) {old : UserProfile} (stored : old ∈ account.past)
    (stale : sessionEpoch platform old ≠ sessionEpoch platform account.profile) :
    old ∈ (advance platform userID account event).past ∧ sessionEpoch platform old ≠
      sessionEpoch platform (advance platform userID account event).profile := by
  cases event with
  | login form =>
    rw [advance]
    split <;> exact ⟨stored, stale⟩
  | serve request session outcome =>
    refine ⟨List.mem_cons_of_mem _ stored, ?_⟩
    change _ ≠ sessionEpoch platform (settle (handle platform) account.profile
      ⟨request, account.profile, outcome⟩)
    rcases settle_cases platform request account.profile outcome with same | served
    · rw [same]
      exact stale
    have turn := turn_of_writes kept fresh forward served
    have sized := kept.sized old stored
    rw [Ne, sessionEpoch_eq_iff injective odd sized turn.sized]
    rw [Ne, sessionEpoch_eq_iff injective odd sized (kept.sized _ kept.current)] at stale
    by_cases ends : EndsSessions account.profile request
    · exact turn.ends ends old stored
    · rw [turn.keeps ends]
      exact stale

omit kept fresh forward

structure Stale (platform : Platform) (sizes : Sizes) (epoch : Bytes) (account : Account) : Prop
    where
  kept : Kept platform sizes account
  stale : ∃ old ∈ account.past, epoch = sessionEpoch platform old ∧
    epoch ≠ sessionEpoch platform account.profile

theorem requireAuth_stale (nonempty : ∀ input, platform.epochHash input ≠ []) {other : UserProfile}
    (own : data.epoch = sessionEpoch platform other)
    (stale : data.epoch ≠ sessionEpoch platform profile) (now : Int) :
    requireAuth data now (sessionStateFromProfile platform (.profile profile)) = none := by
  have carried : data.epoch ≠ [] := by
    rw [own]
    exact nonempty _
  have live : sessionEpoch platform profile ≠ [] := nonempty _
  simp [requireAuth, sessionStateFromProfile, carried, live, stale]

theorem kept_opened (sized : Sized sizes profile) :
    Kept platform sizes (opened profile) where
  current := List.mem_cons_self
  sized := List.forall_mem_singleton.mpr sized
  grown := List.forall_mem_singleton.mpr fun _ => Nat.le_refl _
  issued := List.forall_mem_nil _

/-- From a state in which its epoch is stale, a session is refused in every later one. -/
theorem refused_from (injective : Function.Injective platform.epochHash)
    (nonempty : ∀ input, platform.epochHash input ≠ []) (odd : sizes.secret ≠ 11)
    (stale : Stale platform sizes data.epoch account) {events : List AccountEvent}
    (fresh : Along (advance platform userID) (Fresh sizes) account events)
    (forward : Along (advance platform userID) (Forward platform) account events)
    (reached : Account) (passed : Passes (advance platform userID) account events reached)
    (now : Int) :
    requireAuth data now (sessionStateFromProfile platform (.profile reached.profile)) = none := by
  have always : Stale platform sizes data.epoch reached := by
    refine passes_invariant ?_ stale (along_and fresh forward) passed
    rintro state event ⟨kept, old, stored, own, different⟩ ⟨new, ahead⟩
    rw [own] at different
    obtain ⟨still, apart⟩ := stale_advance kept new ahead injective odd stored different
    exact ⟨kept_advance kept new ahead, old, still, own, own ▸ apart⟩
  obtain ⟨old, -, own, different⟩ := always.stale
  exact requireAuth_stale nonempty own different now

end Runs

section Revocation

variable (platform : Platform) (userID : Bytes)

/-- A session that has been refused for its epoch is refused from then on, and so is every
session that was issued before a change of the password, of the second factor, or a logout. -/
theorem session_stays_revoked (injective : Function.Injective platform.epochHash)
    (nonempty : ∀ input, platform.epochHash input ≠ []) (sizes : Sizes) (odd : sizes.secret ≠ 11)
    (profile : UserProfile) (sized : Sized sizes profile) (before after : List AccountEvent)
    (fresh : Along (advance platform userID) (Fresh sizes) (opened profile) (before ++ after))
    (forward : Along (advance platform userID) (Forward platform) (opened profile)
      (before ++ after)) (data : SessionData)
    (issued : data ∈ (run (advance platform userID) (opened profile) before).issued) :
    (data.epoch ≠ sessionEpoch platform
        (run (advance platform userID) (opened profile) before).profile →
      ∀ reached, Passes (advance platform userID)
          (run (advance platform userID) (opened profile) before) after reached →
        ∀ now, requireAuth data now
          (sessionStateFromProfile platform (.profile reached.profile)) = none) ∧
    (∀ request session outcome rest new, after = .serve request session outcome :: rest →
      outcome ≠ .failed →
      handle platform request (run (advance platform userID) (opened profile) before).profile =
        .write new →
      EndsSessions (run (advance platform userID) (opened profile) before).profile request →
      ∀ reached, Passes (advance platform userID) (advance platform userID
          (run (advance platform userID) (opened profile) before)
          (.serve request session outcome)) rest reached →
        ∀ now, requireAuth data now
          (sessionStateFromProfile platform (.profile reached.profile)) = none) := by
  obtain ⟨freshBefore, freshAfter⟩ := (along_append _ _ _ _ _).mp fresh
  obtain ⟨forwardBefore, forwardAfter⟩ := (along_append _ _ _ _ _).mp forward
  have kept : Kept platform sizes (run (advance platform userID) (opened profile) before) :=
    run_invariant (fun _ event kept both => kept_advance kept both.1 both.2)
      (kept_opened sized) (along_and freshBefore forwardBefore)
  obtain ⟨old, stored, own⟩ := kept.issued data issued
  constructor
  · intro refused
    exact refused_from injective nonempty odd ⟨kept, old, stored, own, refused⟩ freshAfter
      forwardAfter
  rintro request session outcome rest new rfl landed served ends
  have turn := turn_of_writes kept freshAfter.1 forwardAfter.1 served
  have stored' : settle (handle platform)
      (run (advance platform userID) (opened profile) before).profile
      ⟨request, (run (advance platform userID) (opened profile) before).profile, outcome⟩ =
      new := by
    cases outcome with
    | failed => exact (landed rfl).elim
    | stored | unanswered => simp [settle, served]
  -- The credentials are new, so the epoch of no earlier profile is that of this one.
  have apart : data.epoch ≠ sessionEpoch platform new := by
    rw [own, Ne, sessionEpoch_eq_iff injective odd (kept.sized old stored) turn.sized]
    exact turn.ends ends old stored
  refine refused_from injective nonempty odd ⟨kept_advance kept freshAfter.1 forwardAfter.1,
    old, List.mem_cons_of_mem _ stored, own, ?_⟩ freshAfter.2 forwardAfter.2
  change data.epoch ≠ sessionEpoch platform (settle (handle platform) _ _)
  rw [stored']
  exact apart

end Revocation

def sampleLogin (password : String) : AccountEvent :=
  .login ⟨ascii "bob@example.org", ascii password, false, 0⟩

def sampleSession : SessionData where
  userID := ascii "bob"
  email := ascii "bob@example.org"
  exp := day
  isAdmin := false
  epoch := sessionEpoch samplePlatform sampleProfile

def sampleServe (request : Request) : AccountEvent := .serve request none .stored

theorem epochHash_injective : Function.Injective samplePlatform.epochHash :=
  fun _ _ same => (List.cons.inj same).2

theorem epochHash_nonempty (input : Bytes) : samplePlatform.epochHash input ≠ [] :=
  List.cons_ne_nil _ _

/-- An authenticator is set up and removed again: the session from before is refused in
between and good once more in the end. A profile that cannot be read refuses nothing. -/
theorem removal_restores_session :
    Function.Injective samplePlatform.epochHash ∧
    (∀ input, samplePlatform.epochHash input ≠ []) ∧
    Along (advance samplePlatform (ascii "bob")) (Fresh ⟨14, 1⟩) (opened sampleProfile)
      [sampleLogin "first password", sampleServe (sampleSetup "AE" 100),
        sampleServe (sampleRemoval "first password" 101)] ∧
    sampleSession ∈ (run (advance samplePlatform (ascii "bob")) (opened sampleProfile)
      [sampleLogin "first password", sampleServe (sampleSetup "AE" 100)]).issued ∧
    requireAuth sampleSession 3000 (sessionStateFromProfile samplePlatform (.profile
      (run (advance samplePlatform (ascii "bob")) (opened sampleProfile)
        [sampleLogin "first password", sampleServe (sampleSetup "AE" 100)]).profile)) = none ∧
    requireAuth sampleSession 3060 (sessionStateFromProfile samplePlatform (.profile
      (run (advance samplePlatform (ascii "bob")) (opened sampleProfile)
        [sampleLogin "first password", sampleServe (sampleSetup "AE" 100),
          sampleServe (sampleRemoval "first password" 101)]).profile)) ≠ none ∧
    requireAuth sampleSession 3060 (sessionStateFromProfile samplePlatform .unreadable) ≠ none :=
  ⟨epochHash_injective, epochHash_nonempty, by decide, by decide,
    by decide, by decide, by decide⟩

def sampleChange : Request :=
  .changePassword ⟨⟨false, ascii "first password", [], 0⟩, ascii "other password",
    ascii "other password", some (ascii "other password")⟩

def sampleRest : List AccountEvent :=
  [sampleServe (sampleSetup "AE" 100), sampleServe (.logout (some { sampleSession with
      epoch := samplePlatform.epochHash (epochInput (ascii "other password") [1] true 1) })),
    sampleServe (sampleRemoval "other password" 101)]

/-- A login, a new password, and then an authenticator that is set up, a logout and the
removal of the authenticator: the session of the login is refused at the end. -/
theorem session_stays_revoked_sample :
    requireAuth sampleSession 0 (sessionStateFromProfile samplePlatform (.profile
      (run (advance samplePlatform (ascii "bob")) (advance samplePlatform (ascii "bob")
        (run (advance samplePlatform (ascii "bob")) (opened sampleProfile)
          [sampleLogin "first password"]) (sampleServe sampleChange)) sampleRest).profile)) =
      none := by
  have served : handle samplePlatform sampleChange (run (advance samplePlatform (ascii "bob"))
      (opened sampleProfile) [sampleLogin "first password"]).profile =
      .write { sampleProfile with
        passwordHash := ascii "other password"
        sessionGeneration := 1 } := by decide
  exact (session_stays_revoked samplePlatform (ascii "bob") epochHash_injective
    epochHash_nonempty ⟨14, 1⟩ (by decide) sampleProfile (by decide)
    [sampleLogin "first password"] (sampleServe sampleChange :: sampleRest) (by decide)
    (by decide) sampleSession (by decide)).2 sampleChange none .stored sampleRest _
    rfl (by decide) served trivial _ ⟨sampleRest, [], (List.append_nil _).symm, rfl⟩ 0

end Bongo.Profiles
