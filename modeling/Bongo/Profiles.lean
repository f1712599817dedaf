import Bongo.Literals
import Bongo.Runes
import Bongo.Sections

/-!
The profile of an account and the web handlers that read it, decide and write it
back: the second step of a login, the security settings, logout and the
administrator's edits. Each handler runs under the lock of the user, so it is a
function of the request and of the profile it reads there.

Password hashing, the codes of an authenticator and the digest behind a session
epoch are parameters. A request carries the form, the answer of the clock, what
its signed cookies hold, and the answers of the services it asks on the way.
-/

namespace Bongo.Profiles

set_option maxRecDepth 100000

open ByteKeys Literals Runes Sections

structure UserProfile where
  email : Bytes
  displayName : Bytes
  passwordHash : Bytes
  totpSecret : Bytes
  quotaBytes : Int
  isAdmin : Bool
  disabled : Bool
  recoveryCodes : List Bytes
  totpEnabled : Bool
  sessionGeneration : UInt64
  totpLastStep : Int
  kind : Bytes
  capacity : Int
  requireAppPasswords : Bool
  deriving DecidableEq

structure Platform extends CaseTable where
  /-- The first eight bytes of the SHA-256 digest in hexadecimal. -/
  epochHash : Bytes → Bytes
  /-- `bcrypt.CompareHashAndPassword` without an error. -/
  compareHash : Bytes → Bytes → Bool
  /-- `totp.ValidateCustom` at the time of a step, without skew and without an error. -/
  validateCode : Bytes → Int → Bytes → Bool

def epochInput (passwordHash totpSecret : Bytes) (totpEnabled : Bool) (generation : UInt64) :
    Bytes :=
  passwordHash ++ (totpSecret ++ ((if totpEnabled then 1 else 0) ::
    if generation = 0 then [] else ascii "gen" ++ bigEndian 8 generation.toNat))

def sessionEpoch (platform : Platform) (profile : UserProfile) : Bytes :=
  platform.epochHash (epochInput profile.passwordHash profile.totpSecret profile.totpEnabled
    profile.sessionGeneration)

section Factors

variable (platform : Platform)

def totpPeriod : Int := 30

def validateTOTPStep (secret code : Bytes) (now lastStep : Int) : Option Int :=
  let cur := now.tdiv totpPeriod
  [cur - 1, cur, cur + 1].find? fun step =>
    lastStep < step && platform.validateCode secret step code

def validateRecoveryCode (hashedCodes : List Bytes) (code : Bytes) : Option Nat :=
  hashedCodes.findIdx? fun hash => platform.compareHash hash code

inductive Factor where
  | code (step : Int)
  | recovery (position : Nat)
  deriving DecidableEq

/-- The factor a code stands for: one of the authenticator that is newer than the last
one used, or else a recovery code. -/
def factorOf (profile : UserProfile) (code : Bytes) (now : Int) : Option Factor :=
  match validateTOTPStep platform (encodeBase32 profile.totpSecret) code now
      profile.totpLastStep with
  | some step => some (.code step)
  | none => (validateRecoveryCode platform profile.recoveryCodes code).map .recovery

def Factor.spend (profile : UserProfile) : Factor → UserProfile
  | .code step => { profile with totpLastStep := step }
  | .recovery position =>
    { profile with recoveryCodes := profile.recoveryCodes.eraseIdx position }

def consumeSecondFactor (profile : UserProfile) (code : Bytes) (now : Int) : Option UserProfile :=
  (factorOf platform profile code now).map fun factor => factor.spend profile

end Factors

structure SessionData where
  userID : Bytes
  email : Bytes
  exp : Int
  isAdmin : Bool
  epoch : Bytes
  deriving DecidableEq

structure PendingData where
  userID : Bytes
  email : Bytes
  remember : Bool
  isAdmin : Bool
  exp : Int
  epoch : Bytes
  deriving DecidableEq

/-- What a re-authentication reads: whether the address of the client is throttled,
the fields of the form and the clock. -/
structure Reauth where
  limited : Bool
  password : Bytes
  totpCode : Bytes
  now : Int
  deriving DecidableEq

structure SetupForm where
  /-- The secret in the signed setup cookie, if the cookie is good. -/
  pending : Option Bytes
  code : Bytes
  now : Int
  /-- The hashes of the new recovery codes, if they could be made. -/
  recoveryCodes : Option (List Bytes)
  deriving DecidableEq

structure PasswordForm extends Reauth where
  newPassword : Bytes
  confirmPassword : Bytes
  /-- The hash of the new password, if it could be made. -/
  hash : Option Bytes
  deriving DecidableEq

/-- The administrator: a global one, or one of some domains. `authorized` are the
domains the edited user administers, if they could be resolved. -/
structure AdminScope where
  isGlobal : Bool
  domains : List Bytes
  authorized : Option (List Bytes)
  deriving DecidableEq

structure UserForm where
  displayName : Bytes
  quota : Bytes
  capacity : Bytes
  isAdmin : Bool
  deriving DecidableEq

inductive Request where
  | twoFactorVerify (pending : PendingData) (code : Bytes) (now : Int)
  | confirmTOTP (form : SetupForm)
  | disableTOTP (form : Reauth)
  | changePassword (form : PasswordForm)
  /-- `held` is the enrolment hold, `listed` the number of app passwords. -/
  | requireAppPasswordsOn (held : Bool) (listed : Option Nat)
  | requireAppPasswordsOff (form : Reauth)
  /-- `minted` says whether the credential or the device link was made. -/
  | createWith (held : Bool) (form : Reauth) (minted : Bool)
  | logout (session : Option SessionData)
  | updateUser (scope : AdminScope) (form : UserForm)
  | toggleDisabled (scope : AdminScope)
  | resetPassword (scope : AdminScope) (hash : Bytes)
  | updateProfileFields (form : UserForm) (disabled : Bool)
  deriving DecidableEq

/-! The handlers, from the profile they read under the lock. -/
section Handlers

variable (platform : Platform)

def resourceKind : Bytes := ascii "resource"

def maxResourceCapacity : Int := 100000

/-- The password is compared with the profile that was read under the lock; a
two-factor account needs a code as well, and the profile comes back with it spent. -/
def reauthenticate (form : Reauth) (profile : UserProfile) : Option UserProfile :=
  if form.limited then none
  else if profile.disabled ∨ ¬ platform.compareHash profile.passwordHash form.password then none
  else if profile.totpEnabled then
    consumeSecondFactor platform profile form.totpCode form.now
  else some profile

def twoFactorVerify (pending : PendingData) (code : Bytes) (now : Int) (profile : UserProfile) :
    Effect UserProfile :=
  if now > pending.exp then .refuse
  else if pending.epoch ≠ [] ∧ pending.epoch ≠ sessionEpoch platform profile then .refuse
  else
    match consumeSecondFactor platform profile code now with
    | none => .refuse
    | some spent => .write spent

def confirmTOTP (form : SetupForm) (profile : UserProfile) : Effect UserProfile :=
  match form.pending with
  | none => .refuse
  | some secret =>
    match validateTOTPStep platform secret form.code form.now 0 with
    | none => .refuse
    | some setupStep =>
      if profile.totpEnabled then .refuse
      else
        match decodeBase32 secret, form.recoveryCodes with
        | some secretBytes, some hashedCodes =>
          .write { profile with
            totpSecret := secretBytes
            totpEnabled := true
            totpLastStep := setupStep
            recoveryCodes := hashedCodes
            requireAppPasswords := false }
        | _, _ => .refuse

def disableTOTP (form : Reauth) (profile : UserProfile) : Effect UserProfile :=
  if form.password = [] then .refuse
  else
    match reauthenticate platform form profile with
    | none => .refuse
    | some profile =>
      .write { profile with
        totpSecret := []
        totpEnabled := false
        recoveryCodes := []
        requireAppPasswords := false }

def changePassword (form : PasswordForm) (profile : UserProfile) : Effect UserProfile :=
  if form.password = [] ∨ form.newPassword = [] ∨ form.confirmPassword = [] then .refuse
  else if form.newPassword ≠ form.confirmPassword then .refuse
  else if form.newPassword.length < 8 then .refuse
  else if form.password = form.newPassword then .refuse
  else
    match form.hash, reauthenticate platform form.toReauth profile with
    | some hash, some profile =>
      .write { profile with
        passwordHash := hash
        sessionGeneration := profile.sessionGeneration + 1 }
    | _, _ => .refuse

def requireAppPasswordsOn (held : Bool) (listed : Option Nat) (profile : UserProfile) :
    Effect UserProfile :=
  if held ∨ ¬ profile.totpEnabled then .refuse
  else
    match listed with
    | none | some 0 => .refuse
    | some _ =>
      if profile.requireAppPasswords then .keep
      else .write { profile with requireAppPasswords := true }

def requireAppPasswordsOff (form : Reauth) (profile : UserProfile) : Effect UserProfile :=
  match reauthenticate platform form profile with
  | none => .refuse
  | some profile => .write { profile with requireAppPasswords := false }

/-- Only a two-factor account has anything to record: without one, the profile is
the one that was read. -/
def createWith (held : Bool) (form : Reauth) (minted : Bool) (profile : UserProfile) :
    Effect UserProfile :=
  if held then .refuse
  else
    match reauthenticate platform form profile with
    | none => .refuse
    | some profile =>
      if ¬ minted then .refuse
      else if profile.totpEnabled then .write profile
      else .keep

/-- A stale cookie ends nothing. The answer is a redirect whatever happens. -/
def revokeSession (session : Option SessionData) (profile : UserProfile) : Effect UserProfile :=
  match session with
  | none => .keep
  | some data =>
    if data.epoch = [] ∨ data.epoch ≠ sessionEpoch platform profile then .keep
    else .write { profile with sessionGeneration := profile.sessionGeneration + 1 }

def domainFromEmail (email : Bytes) : Bytes :=
  match cut 64 email.reverse with
  | some (back, _) => back.reverse
  | none => ascii "localhost"

def AdminScope.hasDomain (scope : AdminScope) (domain : Bytes) : Bool :=
  scope.isGlobal || scope.domains.contains (platform.lowerText domain)

def AdminScope.manages (scope : AdminScope) (profile : UserProfile) : Bool :=
  scope.hasDomain platform (domainFromEmail profile.email) &&
    (scope.isGlobal || !profile.isAdmin &&
      match scope.authorized with
      | none => false
      | some domains => domains.all fun domain => scope.hasDomain platform domain)

def withQuota (quota : Bytes) (profile : UserProfile) : UserProfile :=
  { profile with quotaBytes := (parseInt quota).getD profile.quotaBytes }

def updateUser (scope : AdminScope) (form : UserForm) (profile : UserProfile) :
    Effect UserProfile :=
  if ¬ scope.manages platform profile then .refuse
  else
    let named := { profile with displayName := form.displayName }
    if profile.kind = resourceKind then
      if form.capacity = [] then .write (withQuota form.quota named)
      else
        match parseInt form.capacity with
        | none => .refuse
        | some capacity =>
          if capacity < 0 ∨ capacity > maxResourceCapacity then .refuse
          else .write (withQuota form.quota { named with capacity := capacity })
    else if scope.isGlobal then .write (withQuota form.quota { named with isAdmin := form.isAdmin })
    else .write (withQuota form.quota named)

def toggleDisabled (scope : AdminScope) (profile : UserProfile) : Effect UserProfile :=
  if ¬ scope.manages platform profile then .refuse
  else .write { profile with disabled := !profile.disabled }

def resetPassword (scope : AdminScope) (hash : Bytes) (profile : UserProfile) :
    Effect UserProfile :=
  if ¬ scope.manages platform profile then .refuse
  else if profile.kind = resourceKind then .refuse
  else .write { profile with
    passwordHash := hash
    sessionGeneration := profile.sessionGeneration + 1 }

def updateProfileFields (form : UserForm) (disabled : Bool) (profile : UserProfile) :
    Effect UserProfile :=
  .write (withQuota form.quota { profile with
    isAdmin := form.isAdmin
    disabled := disabled
    displayName := if form.displayName = [] then profile.displayName else form.displayName })

def handle : Request → UserProfile → Effect UserProfile
  | .twoFactorVerify pending code now => twoFactorVerify platform pending code now
  | .confirmTOTP form => confirmTOTP platform form
  | .disableTOTP form => disableTOTP platform form
  | .changePassword form => changePassword platform form
  | .requireAppPasswordsOn held listed => requireAppPasswordsOn held listed
  | .requireAppPasswordsOff form => requireAppPasswordsOff platform form
  | .createWith held form minted => createWith platform held form minted
  | .logout session => revokeSession platform session
  | .updateUser scope form => updateUser platform scope form
  | .toggleDisabled scope => toggleDisabled platform scope
  | .resetPassword scope hash => resetPassword platform scope hash
  | .updateProfileFields form disabled => updateProfileFields form disabled

end Handlers

section Writes

variable {platform : Platform} {profile new : UserProfile}

def spent (platform : Platform) (request : Request) (profile : UserProfile) : Option Factor :=
  match request with
  | .twoFactorVerify _ code now => factorOf platform profile code now
  | .disableTOTP form | .requireAppPasswordsOff form | .createWith _ form _ =>
    if profile.totpEnabled then factorOf platform profile form.totpCode form.now else none
  | .changePassword form =>
    if profile.totpEnabled then factorOf platform profile form.totpCode form.now else none
  | _ => none

def afterFactor (factor : Option Factor) (profile : UserProfile) : UserProfile :=
  (factor.map fun factor => factor.spend profile).getD profile

theorem reauthenticate_some {form : Reauth}
    (passed : reauthenticate platform form profile = some new) :
    new = afterFactor (if profile.totpEnabled then
      factorOf platform profile form.totpCode form.now else none) profile ∧
      (profile.totpEnabled = true → factorOf platform profile form.totpCode form.now ≠ none) := by
  unfold reauthenticate at passed
  split at passed
  · cases passed
  split at passed
  · cases passed
  split at passed
  · rename_i enabled
    unfold consumeSecondFactor at passed
    cases found : factorOf platform profile form.totpCode form.now with
    | none => rw [found] at passed; cases passed
    | some factor =>
      rw [found] at passed
      rw [if_pos enabled]
      exact ⟨(Option.some.inj passed).symm, nofun⟩
  · rename_i enabled
    rw [if_neg enabled]
    exact ⟨(Option.some.inj passed).symm, fun on => (enabled on).elim⟩

/-- The whole of what a served request writes: the change that is its own, made to the
profile with the factor spent. -/
inductive Writes (platform : Platform) : Request → UserProfile → UserProfile → Prop where
  | verify {pending code now profile factor} :
      factorOf platform profile code now = some factor →
      Writes platform (.twoFactorVerify pending code now) profile (factor.spend profile)
  | confirm {form profile secret secretBytes setupStep codes} :
      form.pending = some secret → validateTOTPStep platform secret form.code form.now 0 =
        some setupStep → profile.totpEnabled = false → decodeBase32 secret = some secretBytes →
      form.recoveryCodes = some codes →
      Writes platform (.confirmTOTP form) profile { profile with
        totpSecret := secretBytes
        totpEnabled := true
        totpLastStep := setupStep
        recoveryCodes := codes
        requireAppPasswords := false }
  | disable {form profile} :
      Writes platform (.disableTOTP form) profile
        { afterFactor (spent platform (.disableTOTP form) profile) profile with
          totpSecret := []
          totpEnabled := false
          recoveryCodes := []
          requireAppPasswords := false }
  | change {form profile hash} : form.hash = some hash →
      Writes platform (.changePassword form) profile
        { afterFactor (spent platform (.changePassword form) profile) profile with
          passwordHash := hash
          sessionGeneration := profile.sessionGeneration + 1 }
  | switchOn {held listed profile} :
      Writes platform (.requireAppPasswordsOn held listed) profile
        { profile with requireAppPasswords := true }
  | switchOff {form profile} :
      Writes platform (.requireAppPasswordsOff form) profile
        { afterFactor (spent platform (.requireAppPasswordsOff form) profile) profile with
          requireAppPasswords := false }
  | create {held form minted profile} : profile.totpEnabled = true →
      Writes platform (.createWith held form minted) profile
        (afterFactor (spent platform (.createWith held form minted) profile) profile)
  | logout {session profile} :
      Writes platform (.logout session) profile
        { profile with sessionGeneration := profile.sessionGeneration + 1 }
  | update {scope form profile name quota capacity isAdmin} :
      Writes platform (.updateUser scope form) profile { profile with
        displayName := name
        quotaBytes := quota
        capacity := capacity
        isAdmin := isAdmin }
  | toggle {scope profile} :
      Writes platform (.toggleDisabled scope) profile { profile with disabled := !profile.disabled }
  | reset {scope hash profile} :
      Writes platform (.resetPassword scope hash) profile { profile with
        passwordHash := hash
        sessionGeneration := profile.sessionGeneration + 1 }
  | fields {form disabled profile name quota isAdmin} :
      Writes platform (.updateProfileFields form disabled) profile { profile with
        displayName := name
        quotaBytes := quota
        isAdmin := isAdmin
        disabled := disabled }

theorem afterFactor_generation (factor : Option Factor) (profile : UserProfile) :
    (afterFactor factor profile).sessionGeneration = profile.sessionGeneration := by
  cases factor with
  | none => rfl
  | some factor => cases factor <;> rfl

theorem afterFactor_enabled (factor : Option Factor) (profile : UserProfile) :
    (afterFactor factor profile).totpEnabled = profile.totpEnabled := by
  cases factor with
  | none => rfl
  | some factor => cases factor <;> rfl

/-- A re-authenticating handler that writes has passed the re-authentication. -/
theorem reauthenticated {form : Reauth} {make : UserProfile → Effect UserProfile}
    (served : (match reauthenticate platform form profile with
      | none => Effect.refuse
      | some profile => make profile) = .write new) :
    make (afterFactor (if profile.totpEnabled then
      factorOf platform profile form.totpCode form.now else none) profile) = .write new := by
  cases passed : reauthenticate platform form profile with
  | none => rw [passed] at served; cases served
  | some other =>
    rw [passed] at served
    rw [← (reauthenticate_some passed).1]
    exact served

theorem updateUser_writes {scope : AdminScope} {form : UserForm}
    (served : updateUser platform scope form profile = .write new) :
    Writes platform (.updateUser scope form) profile new := by
  unfold updateUser withQuota at served
  repeat' split at served
  all_goals cases served
  all_goals exact .update

theorem confirmTOTP_writes {form : SetupForm}
    (served : confirmTOTP platform form profile = .write new) :
    Writes platform (.confirmTOTP form) profile new := by
  unfold confirmTOTP at served
  split at served
  · cases served
  rename_i secret pending
  split at served
  · cases served
  rename_i setupStep valid
  split at served
  · cases served
  rename_i off
  split at served
  · rename_i secretBytes codes decoded made
    cases served
    exact .confirm pending valid (Bool.eq_false_iff.mpr off) decoded made
  · cases served

theorem changePassword_writes {form : PasswordForm}
    (served : changePassword platform form profile = .write new) :
    Writes platform (.changePassword form) profile new := by
  unfold changePassword at served
  -- The four refusals of the form come first.
  iterate 4
    split at served
    · cases served
  split at served
  · rename_i hash other made passed
    cases served
    obtain ⟨rfl, -⟩ := reauthenticate_some passed
    rw [afterFactor_generation]
    exact .change made
  · cases served

theorem handle_writes {request : Request} (served : handle platform request profile = .write new) :
    Writes platform request profile new := by
  cases request with
  | twoFactorVerify pending code now =>
    rw [handle, twoFactorVerify] at served
    unfold consumeSecondFactor at served
    split at served
    · cases served
    split at served
    · cases served
    · cases found : factorOf platform profile code now with
      | none => rw [found] at served; cases served
      | some factor => rw [found] at served; cases served; exact .verify found
  | confirmTOTP form => exact confirmTOTP_writes served
  | disableTOTP form =>
    rw [handle, disableTOTP] at served
    split at served
    · cases served
    · cases reauthenticated served
      exact .disable
  | changePassword form => exact changePassword_writes served
  | requireAppPasswordsOn held listed =>
    rw [handle, requireAppPasswordsOn.eq_def] at served
    repeat' split at served
    all_goals cases served
    exact .switchOn
  | requireAppPasswordsOff form =>
    cases reauthenticated served
    exact .switchOff
  | createWith held form minted =>
    rw [handle, createWith] at served
    split at served
    · cases served
    have written := reauthenticated served
    split at written
    · cases written
    by_cases enabled : profile.totpEnabled = true
    · rw [if_pos ((afterFactor_enabled _ profile).trans enabled)] at written
      cases written
      exact .create enabled
    · rw [if_neg fun on => enabled ((afterFactor_enabled _ profile).symm.trans on)] at written
      cases written
  | logout session =>
    rw [handle, revokeSession.eq_def] at served
    repeat' split at served
    all_goals cases served
    exact .logout
  | updateUser scope form => exact updateUser_writes served
  | toggleDisabled scope =>
    rw [handle, toggleDisabled] at served
    split at served <;> cases served
    exact .toggle
  | resetPassword scope hash =>
    rw [handle, resetPassword] at served
    repeat' split at served
    all_goals cases served
    exact .reset
  | updateProfileFields form disabled =>
    rw [handle, updateProfileFields] at served
    cases served
    exact .fields

end Writes

def plainTable : CaseTable := asciiFolds.toCaseTable

/-- A digest without collisions, hashes that are their password, and codes that show
their step. -/
def samplePlatform : Platform where
  toCaseTable := plainTable
  epochHash input := 48 :: input
  compareHash hash password := hash = password
  validateCode _ step code := code = decimal 8 step.toNat

def sampleProfile : UserProfile where
  email := ascii "bob@example.org"
  displayName := ascii "Bob"
  passwordHash := ascii "first password"
  totpSecret := []
  quotaBytes := 0
  isAdmin := false
  disabled := false
  recoveryCodes := []
  totpEnabled := false
  sessionGeneration := 0
  totpLastStep := 0
  kind := []
  capacity := 0
  requireAppPasswords := false

/-- The setup of an authenticator: the code of `step` for the secret whose text is
`pending`. -/
def sampleSetup (pending : String) (step : Nat) : Request :=
  .confirmTOTP ⟨some (ascii pending), decimal 8 step, 30 * step, some [ascii "rescue"]⟩

def sampleRemoval (password : String) (step : Nat) : Request :=
  .disableTOTP ⟨false, ascii password, decimal 8 step, 30 * step⟩

end Bongo.Profiles
