import Bongo.Profiles

/-!
Second factors under concurrent requests. Every handler reads and writes the profile
inside the lock of its user, so the requests are served one after another; what is
spent by one of them is gone for the next, and what one of them has changed stays
until another changes the same field.
-/

namespace Bongo.Profiles

open ByteKeys Histories Literals Sections

abbrev Served := Entry UserProfile Request

section Uses

variable (platform : Platform)

/-- The factor a request spends, with the secret it belongs to. The confirmation of a
setup spends a code of the secret that it enrols. -/
def use (entry : Served) : Option (Bytes × Factor) :=
  match entry.request with
  | .confirmTOTP form =>
    form.pending.bind fun text =>
      (decodeBase32 text).bind fun secret =>
        (validateTOTPStep platform text form.code form.now 0).map fun step =>
          (secret, .code step)
  | request => (spent platform request entry.read).map fun factor => (entry.read.totpSecret, factor)

def stepOf (secret : Bytes) (entry : Served) : Option Int :=
  if Succeeds (handle platform) entry then
    match use platform entry with
    | some (own, .code step) => if own = secret then some step else none
    | _ => none
  else none

def recoveryOf (entry : Served) : Option Bytes :=
  if Succeeds (handle platform) entry then
    match use platform entry with
    | some (_, .recovery position) => entry.read.recoveryCodes[position]?
    | _ => none
  else none

/-- The steps of a secret that successful requests have consumed, in their order. -/
def consumedSteps (secret : Bytes) (log : List Served) : List Int :=
  log.filterMap (stepOf platform secret)

def consumedCodes (log : List Served) : List Bytes := log.filterMap (recoveryOf platform)

def enrolment (entry : Served) : Option (Bytes × List Bytes) :=
  match entry.outcome, entry.request, handle platform entry.request entry.read with
  | .failed, _, _ => none
  | _, .confirmTOTP _, .write new => some (new.totpSecret, new.recoveryCodes)
  | _, _, _ => none

def storedCodes (profile : UserProfile) (log : List Served) : List Bytes :=
  profile.recoveryCodes ++ log.flatMap fun entry =>
    ((enrolment platform entry).map Prod.snd).getD []

def enrolled (profile : UserProfile) (log : List Served) : List Bytes :=
  profile.totpSecret :: log.filterMap fun entry => (enrolment platform entry).map Prod.fst

end Uses

inductive Field where
  | email
  | displayName
  | passwordHash
  | totpSecret
  | quotaBytes
  | isAdmin
  | disabled
  | recoveryCodes
  | totpEnabled
  | sessionGeneration
  | totpLastStep
  | kind
  | capacity
  | requireAppPasswords
  deriving DecidableEq

def Field.Same (left right : UserProfile) : Field → Prop
  | .email => left.email = right.email
  | .displayName => left.displayName = right.displayName
  | .passwordHash => left.passwordHash = right.passwordHash
  | .totpSecret => left.totpSecret = right.totpSecret
  | .quotaBytes => left.quotaBytes = right.quotaBytes
  | .isAdmin => left.isAdmin = right.isAdmin
  | .disabled => left.disabled = right.disabled
  | .recoveryCodes => left.recoveryCodes = right.recoveryCodes
  | .totpEnabled => left.totpEnabled = right.totpEnabled
  | .sessionGeneration => left.sessionGeneration = right.sessionGeneration
  | .totpLastStep => left.totpLastStep = right.totpLastStep
  | .kind => left.kind = right.kind
  | .capacity => left.capacity = right.capacity
  | .requireAppPasswords => left.requireAppPasswords = right.requireAppPasswords

def factorFields : List Field := [.totpLastStep, .recoveryCodes]

def changes : Request → List Field
  | .twoFactorVerify _ _ _ | .createWith _ _ _ => factorFields
  | .confirmTOTP _ | .disableTOTP _ =>
    [.totpSecret, .totpEnabled, .requireAppPasswords] ++ factorFields
  | .changePassword _ => [.passwordHash, .sessionGeneration] ++ factorFields
  | .requireAppPasswordsOn _ _ => [.requireAppPasswords]
  | .requireAppPasswordsOff _ => .requireAppPasswords :: factorFields
  | .logout _ => [.sessionGeneration]
  | .updateUser _ _ => [.displayName, .quotaBytes, .capacity, .isAdmin]
  | .toggleDisabled _ => [.disabled]
  | .resetPassword _ _ => [.passwordHash, .sessionGeneration]
  | .updateProfileFields _ _ => [.displayName, .quotaBytes, .isAdmin, .disabled]

theorem Field.Same.refl (profile : UserProfile) (field : Field) : field.Same profile profile := by
  cases field <;> rfl

variable {field : Field}

theorem Field.Same.trans {first second third : UserProfile} (front : field.Same first second)
    (back : field.Same second third) : field.Same first third := by
  cases field <;> exact Eq.trans front back

theorem afterFactor_same (field : Field) (factor : Option Factor) (profile : UserProfile)
    (other : field ∉ factorFields) : field.Same profile (afterFactor factor profile) := by
  cases factor with
  | none => exact Field.Same.refl profile field
  | some factor =>
    cases factor <;> cases field <;>
      first | rfl | exact (other (by decide)).elim

variable {request : Request}

/-- A handler writes the fields that are its own and copies the others. -/
theorem writes_same {platform : Platform} {profile new : UserProfile}
    (writes : Writes platform request profile new) (other : field ∉ changes request) :
    field.Same profile new := by
  have factor := fun used => afterFactor_same field used profile
  cases writes with
  | verify found => exact factor (some _) other
  | create enabled => exact factor _ other
  | disable | change | switchOff =>
    cases field <;>
      first | exact factor _ (by decide) | exact (other (by simp [changes, factorFields])).elim
  | confirm | switchOn | logout | update | toggle | reset | fields =>
    cases field <;> first | rfl | exact (other (by simp [changes, factorFields])).elim

variable {secret : Bytes}

section Steps

variable {platform : Platform} {profile new : UserProfile} {entry : Served}

variable {step : Int}

theorem validateTOTPStep_later {code : Bytes} {now lastStep : Int}
    (valid : validateTOTPStep platform secret code now lastStep = some step) : lastStep < step := by
  have passed := List.find?_some valid
  simp only [Bool.and_eq_true, decide_eq_true_eq] at passed
  exact passed.1

theorem factorOf_step {code : Bytes} {now : Int}
    (found : factorOf platform profile code now = some (.code step)) :
    profile.totpLastStep < step := by
  unfold factorOf at found
  split at found
  · rename_i valid
    cases found
    exact validateTOTPStep_later valid
  · obtain ⟨position, -, same⟩ := Option.map_eq_some_iff.mp found
    cases same

theorem spent_step (found : spent platform request profile = some (.code step)) :
    profile.totpLastStep < step := by
  unfold spent at found
  split at found
  · exact factorOf_step found
  all_goals first
    | (split at found
       · exact factorOf_step found
       · cases found)
    | cases found

/-- A request that is answered without a write has spent nothing. -/
theorem use_of_keep (kept : handle platform entry.request entry.read = .keep) :
    use platform entry = none := by
  obtain ⟨request, read, outcome⟩ := entry
  cases request with
  | createWith held form minted =>
    change createWith platform held form minted read = .keep at kept
    unfold createWith at kept
    split at kept
    · cases kept
    split at kept
    · cases kept
    rename_i other passed
    have enabled : read.totpEnabled = false := by
      rw [(reauthenticate_some passed).1, afterFactor_enabled] at kept
      split at kept
      · cases kept
      split at kept
      · cases kept
      · rename_i off
        exact Bool.eq_false_iff.mpr off
    simp [use, spent, enabled]
  | requireAppPasswordsOn | logout | updateUser | toggleDisabled | resetPassword
  | updateProfileFields => rfl
  | twoFactorVerify | confirmTOTP | disableTOTP | changePassword | requireAppPasswordsOff =>
    simp only [handle, twoFactorVerify, confirmTOTP, disableTOTP, changePassword,
      requireAppPasswordsOff] at kept
    repeat' split at kept
    all_goals cases kept

theorem use_of_other {platform : Platform} {entry : Served}
    (other : ∀ form, entry.request ≠ .confirmTOTP form) :
    use platform entry = (spent platform entry.request entry.read).map fun factor =>
      (entry.read.totpSecret, factor) := by
  unfold use
  split
  · rename_i form same
    exact (other form same).elim
  · rfl

theorem writes_factors (writes : Writes platform request profile new)
    (other : ∀ form, request ≠ .confirmTOTP form) :
    (new.totpSecret = profile.totpSecret ∨ new.totpSecret = []) ∧
      new.totpLastStep = (afterFactor (spent platform request profile) profile).totpLastStep ∧
      (new.recoveryCodes = (afterFactor (spent platform request profile) profile).recoveryCodes ∨
        new.recoveryCodes = []) := by
  have secret : ∀ factor, (afterFactor factor profile).totpSecret = profile.totpSecret :=
    fun factor => (afterFactor_same .totpSecret factor profile (by decide) :
      profile.totpSecret = _).symm
  cases writes with
  | @verify pending code now profile factor found =>
    have same : spent platform (.twoFactorVerify pending code now) profile = some factor := found
    rw [same]
    exact ⟨Or.inl (secret (some factor)), rfl, Or.inl rfl⟩
  | confirm => exact (other _ rfl).elim
  | disable => exact ⟨Or.inr rfl, rfl, Or.inr rfl⟩
  | change | switchOff | create => exact ⟨Or.inl (secret _), rfl, Or.inl rfl⟩
  | switchOn | logout | update | toggle | reset | fields => exact ⟨Or.inl rfl, rfl, Or.inl rfl⟩

theorem afterFactor_step (request : Request) (profile : UserProfile) :
    profile.totpLastStep ≤ (afterFactor (spent platform request profile) profile).totpLastStep := by
  cases found : spent platform request profile with
  | none => exact le_refl _
  | some factor =>
    cases factor with
    | code step => exact (spent_step found).le
    | recovery position => exact le_refl _

theorem count_eraseIdx (codes : List Bytes) (position : Nat) (code : Bytes) :
    (codes.eraseIdx position).count code + codes[position]?.toList.count code =
      codes.count code := by
  by_cases inside : position < codes.length
  · have same := (List.getElem_cons_eraseIdx_perm inside).count_eq code
    rw [List.getElem?_eq_getElem inside, Option.toList_some, ← same, List.count_cons,
      List.count_cons, List.count_nil]
    omega
  · rw [List.eraseIdx_of_length_le (not_lt.mp inside), List.getElem?_eq_none (not_lt.mp inside)]
    rfl

/-- The code that a request has spent is one fewer in the profile. -/
theorem recoveryOf_count (landed : handle platform entry.request entry.read = .write new)
    (other : ∀ form, entry.request ≠ .confirmTOTP form) (code : Bytes) :
    new.recoveryCodes.count code + (recoveryOf platform entry).toList.count code ≤
      entry.read.recoveryCodes.count code := by
  obtain ⟨-, -, codes⟩ := writes_factors (handle_writes landed) other
  have factor : (afterFactor (spent platform entry.request entry.read)
        entry.read).recoveryCodes.count code + (recoveryOf platform entry).toList.count code ≤
      entry.read.recoveryCodes.count code := by
    unfold recoveryOf
    rw [use_of_other other]
    cases found : spent platform entry.request entry.read with
    | none => split <;> exact le_refl _
    | some factor =>
      cases factor with
      | code step => split <;> exact le_refl _
      | recovery position =>
        have whole := count_eraseIdx entry.read.recoveryCodes position code
        split
        · exact whole.le
        · exact (Nat.le_add_right _ _).trans whole.le
  rcases codes with same | none
  · rw [same]
    exact factor
  · rw [none, List.count_nil]
    omega

end Steps

section Logs

variable {platform : Platform} {value : UserProfile} {log : List Served} {entry : Served}

/-- What the log has consumed of one secret, against the profile it has left. -/
structure Ordered (platform : Platform) (value : UserProfile) (secret : Bytes)
    (log : List Served) (current : UserProfile) : Prop where
  increasing : (consumedSteps platform secret log).Pairwise (· < ·)
  bounded : current.totpSecret = secret →
    ∀ step ∈ consumedSteps platform secret log, step ≤ current.totpLastStep
  known : consumedSteps platform secret log ≠ [] → secret ∈ enrolled platform value log
  own : current.totpSecret = [] ∨ current.totpSecret ∈ enrolled platform value log

def NewSecret (platform : Platform) (value : UserProfile) (log : List Served) (entry : Served) :
    Prop :=
  ∀ pair ∈ enrolment platform entry, pair.1 ≠ [] → pair.1 ∉ enrolled platform value log

theorem enrolled_append (value : UserProfile) (log : List Served) (entry : Served) :
    enrolled platform value (log ++ [entry]) =
      enrolled platform value log ++ ((enrolment platform entry).map Prod.fst).toList := by
  rw [enrolled, enrolled, List.filterMap_append, List.cons_append]
  cases found : enrolment platform entry <;> simp [found]

variable (platform) in
theorem consumedSteps_append (secret : Bytes) (log : List Served) (entry : Served) :
    consumedSteps platform secret (log ++ [entry]) =
      consumedSteps platform secret log ++ (stepOf platform secret entry).toList := by
  rw [consumedSteps, consumedSteps, List.filterMap_append]
  cases found : stepOf platform secret entry <;> simp [found]

theorem consumedCodes_append (log : List Served) (entry : Served) :
    consumedCodes platform (log ++ [entry]) =
      consumedCodes platform log ++ (recoveryOf platform entry).toList := by
  rw [consumedCodes, consumedCodes, List.filterMap_append]
  cases found : recoveryOf platform entry <;> simp [found]

theorem storedCodes_append (value : UserProfile) (log : List Served) (entry : Served) :
    storedCodes platform value (log ++ [entry]) =
      storedCodes platform value log ++ ((enrolment platform entry).map Prod.snd).getD [] := by
  rw [storedCodes, storedCodes, List.flatMap_append, List.append_assoc]
  simp

/-- A request that leaves no trace: it is refused, or answered without a write, or its
write has failed. -/
structure Silent (platform : Platform) (entry : Served) : Prop where
  kept : ∀ current, settle (handle platform) current entry = current
  steps : ∀ secret, stepOf platform secret entry = none
  codes : recoveryOf platform entry = none
  enrols : enrolment platform entry = none

theorem silent_of_idle (kept : ∀ current, settle (handle platform) current entry = current)
    (enrols : enrolment platform entry = none)
    (idle : ¬ Succeeds (handle platform) entry ∨ use platform entry = none) :
    Silent platform entry := by
  rcases idle with failed | unused
  · exact ⟨kept, fun secret => by rw [stepOf, if_neg failed], by rw [recoveryOf, if_neg failed],
      enrols⟩
  · exact ⟨kept, fun secret => by simp [stepOf, unused], by simp [recoveryOf, unused], enrols⟩

theorem silent_or_landed (platform : Platform) (entry : Served) : Silent platform entry ∨
    entry.outcome ≠ .failed ∧ ∃ new, handle platform entry.request entry.read = .write new := by
  cases served : handle platform entry.request entry.read with
  | refuse | keep =>
    refine Or.inl (silent_of_idle (fun current => ?_) ?_ ?_)
    · cases outcome : entry.outcome <;> simp [settle, served, outcome]
    · cases outcome : entry.outcome <;> simp [enrolment, served, outcome]
    · first | exact Or.inr (use_of_keep served) | exact Or.inl (by simp [Succeeds, served])
  | write new =>
    by_cases outcome : entry.outcome = .failed
    · exact Or.inl (silent_of_idle (fun current => by simp [settle, outcome])
        (by simp [enrolment, outcome]) (Or.inl (by simp [Succeeds, served, outcome])))
    · exact Or.inr ⟨outcome, new, rfl⟩

variable {current : UserProfile}

theorem settle_landed {new : UserProfile} (landed : entry.outcome ≠ .failed)
    (served : handle platform entry.request entry.read = .write new) :
    settle (handle platform) current entry = new := by
  cases outcome : entry.outcome with
  | failed => exact (landed outcome).elim
  | stored | unanswered => simp [settle, served, outcome]

variable (platform) in
theorem settle_same (profile : UserProfile) {entry : Served} (current : entry.read = profile)
    (other : entry.outcome ≠ .failed → field ∉ changes entry.request) :
    field.Same profile (settle (handle platform) profile entry) := by
  subst current
  rcases silent_or_landed platform entry with silent | ⟨landed, new, served⟩
  · rw [silent.kept]
    exact Field.Same.refl _ field
  · rw [settle_landed landed served]
    exact writes_same (handle_writes served) (other landed)

/-- A field stays as it is while nothing that is stored is a change of it. -/
theorem run_same (profile : UserProfile) (log : List Served)
    (serial : Serial (handle platform) profile log)
    (others : ∀ entry ∈ log, entry.outcome ≠ .failed → field ∉ changes entry.request) :
    field.Same profile (run (settle (handle platform)) profile log) := by
  induction log generalizing profile with
  | nil => exact Field.Same.refl profile field
  | cons entry rest ih =>
    have first := settle_same platform profile serial.1 (others entry List.mem_cons_self)
    have later := ih _ serial.2 fun other member =>
      others other (List.mem_cons_of_mem entry member)
    exact first.trans later

theorem enrolment_other (other : ∀ form, entry.request ≠ .confirmTOTP form) :
    enrolment platform entry = none := by
  unfold enrolment
  split
  · rfl
  · exact (other _ (by assumption)).elim
  · rfl

variable {form : SetupForm}

theorem enrolment_confirm {new : UserProfile} (confirm : entry.request = .confirmTOTP form)
    (landed : entry.outcome ≠ .failed)
    (served : handle platform entry.request entry.read = .write new) :
    enrolment platform entry = some (new.totpSecret, new.recoveryCodes) := by
  unfold enrolment
  rw [served, confirm]
  cases outcome : entry.outcome with
  | failed => exact (landed outcome).elim
  | stored | unanswered => rfl

/-- A confirmation spends the code it was made with, and records its step. -/
theorem use_confirm {new : UserProfile} (confirm : entry.request = .confirmTOTP form)
    (served : handle platform entry.request entry.read = .write new) :
    use platform entry = some (new.totpSecret, .code new.totpLastStep) := by
  rw [confirm] at served
  have writes := handle_writes served
  unfold use
  rw [confirm]
  cases writes with
  | confirm pending valid off decoded made =>
    simp [pending, decoded, valid]

variable (ordered : Ordered platform value secret log current)
include ordered

theorem Ordered.silent (silent : Silent platform entry) :
    Ordered platform value secret (log ++ [entry])
      (settle (handle platform) current entry) := by
  have steps : consumedSteps platform secret (log ++ [entry]) =
      consumedSteps platform secret log := by
    rw [consumedSteps_append, silent.steps, Option.toList_none, List.append_nil]
  have secrets : enrolled platform value (log ++ [entry]) = enrolled platform value log := by
    rw [enrolled_append, silent.enrols, Option.map_none, Option.toList_none, List.append_nil]
  rw [silent.kept]
  exact ⟨steps ▸ ordered.increasing, steps ▸ ordered.bounded,
    by rw [steps, secrets]; exact ordered.known, by rw [secrets]; exact ordered.own⟩

variable (present : secret ≠ [])
include present

/-- A request that spends a code of the enrolled secret: the step is newer than all before. -/
theorem Ordered.spend {new : UserProfile} (read : entry.read = current)
    (landed : entry.outcome ≠ .failed)
    (served : handle platform entry.request entry.read = .write new)
    (other : ∀ form, entry.request ≠ .confirmTOTP form) :
    Ordered platform value secret (log ++ [entry])
      (settle (handle platform) current entry) := by
  obtain ⟨kept, latest, -⟩ := writes_factors (handle_writes served) other
  have secrets : enrolled platform value (log ++ [entry]) = enrolled platform value log := by
    rw [enrolled_append, enrolment_other other, Option.map_none, Option.toList_none,
      List.append_nil]
  have later : current.totpLastStep ≤ new.totpLastStep := by
    rw [latest, read]
    exact afterFactor_step entry.request current
  have own : new.totpSecret = [] ∨ new.totpSecret ∈ enrolled platform value log := by
    rcases kept with same | none
    · rw [same, read]
      exact ordered.own
    · exact Or.inl none
  have still : new.totpSecret = secret → current.totpSecret = secret := by
    intro same
    rcases kept with unchanged | none
    · rw [← read, ← unchanged, same]
    · exact (present (same.symm.trans none)).elim
  rw [settle_landed landed served]
  cases found : stepOf platform secret entry with
  | none =>
    have steps : consumedSteps platform secret (log ++ [entry]) =
        consumedSteps platform secret log := by
      rw [consumedSteps_append, found, Option.toList_none, List.append_nil]
    refine ⟨steps ▸ ordered.increasing, ?_, by rw [steps, secrets]; exact ordered.known,
      secrets ▸ own⟩
    intro same step member
    rw [steps] at member
    exact (ordered.bounded (still same) step member).trans later
  | some step =>
    have steps : consumedSteps platform secret (log ++ [entry]) =
        consumedSteps platform secret log ++ [step] := by
      rw [consumedSteps_append, found, Option.toList_some]
    -- The step is one of the secret in the profile, and later than the recorded one.
    have used : spent platform entry.request current = some (.code step) ∧
        current.totpSecret = secret := by
      unfold stepOf at found
      rw [use_of_other other, read] at found
      split at found
      · cases factor : spent platform entry.request current with
        | none => rw [factor] at found; cases found
        | some factor' =>
          rw [factor] at found
          cases factor' with
          | code other =>
            simp only [Option.map_some] at found
            split at found
            · rename_i same
              cases found
              exact ⟨rfl, same⟩
            · cases found
          | recovery position => cases found
      · cases found
    have newer := spent_step used.1
    have recorded : new.totpLastStep = step := by
      rw [latest, read, used.1]
      rfl
    refine ⟨?_, ?_, ?_, secrets ▸ own⟩
    · rw [steps, List.pairwise_append]
      refine ⟨ordered.increasing, List.pairwise_singleton _ _, ?_⟩
      intro earlier before last member
      obtain rfl := List.mem_singleton.mp member
      exact lt_of_le_of_lt (ordered.bounded used.2 earlier before) newer
    · intro _ earlier member
      rw [steps] at member
      rw [recorded]
      rcases List.mem_append.mp member with before | last
      · exact (ordered.bounded used.2 earlier before).trans newer.le
      · exact (List.mem_singleton.mp last).le
    · intro _
      rw [secrets]
      rcases ordered.own with none | known
      · exact (present (used.2.symm.trans none)).elim
      · exact used.2 ▸ known

/-- A confirmation of a secret that is new: no step of it has been consumed before. -/
theorem Ordered.confirm {new : UserProfile} (landed : entry.outcome ≠ .failed)
    (served : handle platform entry.request entry.read = .write new)
    (confirm : entry.request = .confirmTOTP form) (fresh : NewSecret platform value log entry) :
    Ordered platform value secret (log ++ [entry])
      (settle (handle platform) current entry) := by
  have enrols := enrolment_confirm confirm landed served
  have secrets : enrolled platform value (log ++ [entry]) =
      enrolled platform value log ++ [new.totpSecret] := by
    rw [enrolled_append, enrols]
    rfl
  have mine : new.totpSecret ∈ enrolled platform value (log ++ [entry]) := by
    rw [secrets]
    exact List.mem_append_right _ List.mem_cons_self
  have steps := consumedSteps_append platform secret log entry
  rw [settle_landed landed served]
  by_cases same : new.totpSecret = secret
  · have unused : consumedSteps platform secret log = [] := by
      by_contra before
      exact fresh _ enrols (same ▸ present) (same.symm ▸ ordered.known before)
    have only : ∀ step ∈ consumedSteps platform secret (log ++ [entry]),
        step = new.totpLastStep := by
      intro step member
      rw [steps, unused, List.nil_append, stepOf, use_confirm confirm served] at member
      split at member
      · simp only [same, if_true, Option.toList_some, List.mem_singleton] at member
        exact member
      · cases member
    refine ⟨?_, fun _ step member => (only step member).le, fun _ => same ▸ mine, Or.inr mine⟩
    rw [steps, unused, List.nil_append]
    cases stepOf platform secret entry with
    | none => exact List.Pairwise.nil
    | some step => exact List.pairwise_singleton _ step
  · have none : stepOf platform secret entry = none := by
      unfold stepOf
      rw [use_confirm confirm served]
      split
      · exact if_neg same
      · rfl
    rw [none, Option.toList_none, List.append_nil] at steps
    refine ⟨steps ▸ ordered.increasing, fun own => (same own).elim, ?_, Or.inr mine⟩
    rw [steps, secrets]
    exact fun used => List.mem_append_left _ (ordered.known used)

theorem Ordered.append (read : entry.read = current) (fresh : NewSecret platform value log entry) :
    Ordered platform value secret (log ++ [entry])
      (settle (handle platform) current entry) := by
  rcases silent_or_landed platform entry with silent | ⟨landed, new, served⟩
  · exact ordered.silent silent
  by_cases confirm : ∃ form, entry.request = .confirmTOTP form
  · obtain ⟨form, same⟩ := confirm
    exact ordered.confirm present landed served same fresh
  · exact ordered.spend present read landed served fun form same => confirm ⟨form, same⟩

omit ordered present

/-- Of each recovery code, those left and those consumed are no more than were stored. -/
theorem codes_append {code : Bytes}
    (before : current.recoveryCodes.count code + (consumedCodes platform log).count code ≤
      (storedCodes platform value log).count code) (read : entry.read = current) :
    (settle (handle platform) current entry).recoveryCodes.count code +
        (consumedCodes platform (log ++ [entry])).count code ≤
      (storedCodes platform value (log ++ [entry])).count code := by
  rw [consumedCodes_append, storedCodes_append, List.count_append, List.count_append]
  rcases silent_or_landed platform entry with silent | ⟨landed, new, served⟩
  · rw [silent.kept, silent.codes, silent.enrols]
    exact before
  rw [settle_landed landed served]
  by_cases confirm : ∃ form, entry.request = .confirmTOTP form
  · obtain ⟨form, same⟩ := confirm
    have unused : recoveryOf platform entry = none := by
      unfold recoveryOf
      rw [use_confirm same served]
      split <;> rfl
    rw [unused, enrolment_confirm same landed served]
    simp only [Option.toList_none, List.count_nil, Option.map_some, Option.getD_some]
    omega
  · have other : ∀ form, entry.request ≠ .confirmTOTP form := fun form same => confirm ⟨form, same⟩
    have fewer := recoveryOf_count served other code
    rw [enrolment_other other]
    rw [read] at fewer
    omega

/-- Every confirmation that was stored was of a secret that had not been enrolled. -/
def NewSecrets (platform : Platform) (value : UserProfile) (log : List Served) : Prop :=
  ∀ front entry rest, log = front ++ entry :: rest → NewSecret platform value front entry

theorem NewSecrets.front {front rest : List Served}
    (fresh : NewSecrets platform value (front ++ rest)) : NewSecrets platform value front := by
  intro before entry after split
  exact fresh before entry (after ++ rest) (by rw [split, List.append_assoc, List.cons_append])

theorem ordered_log (present : secret ≠ []) (log : List Served)
    (serial : Serial (handle platform) value log) (fresh : NewSecrets platform value log) :
    Ordered platform value secret log (run (settle (handle platform)) value log) := by
  induction log using List.reverseRecOn with
  | nil =>
    refine ⟨List.Pairwise.nil, ?_, fun used => (used rfl).elim, Or.inr List.mem_cons_self⟩
    intro _ step member
    cases member
  | append_singleton front entry ih =>
    obtain ⟨before, read, -⟩ := (along_append _ _ _ _ _).mp serial
    rw [run_append]
    exact (ih before fresh.front).append present read (fresh front entry [] rfl)

theorem codes_log (code : Bytes) (log : List Served)
    (serial : Serial (handle platform) value log) :
    (run (settle (handle platform)) value log).recoveryCodes.count code +
        (consumedCodes platform log).count code ≤ (storedCodes platform value log).count code := by
  induction log using List.reverseRecOn with
  | nil => simp [consumedCodes, storedCodes]
  | append_singleton front entry ih =>
    obtain ⟨before, read, -⟩ := (along_append _ _ _ _ _).mp serial
    rw [run_append]
    exact codes_append (ih before) read

/-- What a request has written stays, field by field, until another one changes it. -/
theorem change_kept {front rest : List Served} {new : UserProfile}
    (serial : Serial (handle platform) value (front ++ entry :: rest))
    (landed : entry.outcome ≠ .failed)
    (served : handle platform entry.request entry.read = .write new)
    (others : ∀ later ∈ rest, later.outcome ≠ .failed → field ∉ changes later.request) :
    field.Same new (run (settle (handle platform)) value (front ++ entry :: rest)) := by
  obtain ⟨-, -, after⟩ := (along_append _ _ _ _ _).mp serial
  rw [run_append, run_cons]
  rw [settle_landed landed served] at after ⊢
  exact run_same new rest after others

end Logs

section Interleavings

variable {Thread : Type} [DecidableEq Thread] (platform : Platform) (value : UserProfile)

/-- A setup is confirmed only for a secret that this account has not had. -/
def ConfirmsNew (sys : System Thread UserProfile Request) : Event Thread Request → Prop
  | .finish thread outcome =>
    match sys.phase thread with
    | .reading request read => NewSecret platform value sys.log ⟨request, read, outcome⟩
    | _ => True
  | _ => True

instance (log : List Served) (entry : Served) : Decidable (NewSecret platform value log entry) :=
  match found : enrolment platform entry with
  | none => isTrue (by simp [NewSecret, found])
  | some pair =>
    decidable_of_iff (pair.1 ≠ [] → pair.1 ∉ enrolled platform value log)
      (by simp [NewSecret, found])

instance (sys : System Thread UserProfile Request) (event : Event Thread Request) :
    Decidable (ConfirmsNew platform value sys event) :=
  match event with
  | .finish thread outcome =>
    match phase : sys.phase thread with
    | .reading request read =>
      decidable_of_iff (NewSecret platform value sys.log ⟨request, read, outcome⟩)
        (by simp [ConfirmsNew, phase])
    | .idle | .waiting _ | .inside _ | .leaving => isTrue (by simp [ConfirmsNew, phase])
  | .begin _ _ | .enter _ | .read _ _ | .leave _ => isTrue trivial

variable {platform value}

theorem newSecrets_append {log : List Served} {entry : Served}
    (before : NewSecrets platform value log) (fresh : NewSecret platform value log entry) :
    NewSecrets platform value (log ++ [entry]) := by
  intro front other rest split
  rcases rest.eq_nil_or_concat with rfl | ⟨more, last, rfl⟩
  · obtain ⟨rfl, same⟩ := List.append_inj' split rfl
    cases same
    exact fresh
  · rw [List.concat_eq_append, ← List.cons_append, ← List.append_assoc] at split
    exact before front other more (List.append_inj' split rfl).1

theorem newSecrets_step (sys : System Thread UserProfile Request) (event : Event Thread Request)
    (before : NewSecrets platform value sys.log) (fresh : ConfirmsNew platform value sys event) :
    NewSecrets platform value (step (handle platform) sys event).log := by
  cases event with
  | finish thread outcome =>
    rw [step]
    rw [ConfirmsNew] at fresh
    cases phase : sys.phase thread with
    | reading request read =>
      rw [phase] at fresh
      exact newSecrets_append before fresh
    | idle | waiting | inside | leaving => exact before
  | begin | enter | read | leave =>
    rw [step]
    split <;> exact before

/-- In any interleaving in which no secret is enrolled twice: the steps consumed of a secret
increase, no recovery code is consumed more often than it was stored, and what a successful
request has changed stays until a later one changes the same field. -/
theorem second_factor_spent_once (platform : Platform) (value : UserProfile)
    (events : List (Event Thread Request))
    (confirms : Along (step (handle platform)) (ConfirmsNew platform value) (start value) events)
    (sys : System Thread UserProfile Request)
    (reached : sys = run (step (handle platform)) (start value) events) :
    (∀ secret, secret ≠ [] → (consumedSteps platform secret sys.log).Pairwise (· < ·)) ∧
    (∀ code, (consumedCodes platform sys.log).count code ≤
      (storedCodes platform value sys.log).count code) ∧
    (∀ front entry rest new, sys.log = front ++ entry :: rest → Succeeds (handle platform) entry →
      handle platform entry.request entry.read = .write new →
      ∀ field, (∀ later ∈ rest, later.outcome ≠ .failed → field ∉ changes later.request) →
        field.Same new sys.stored) := by
  have kept := serialised (handle platform) value events
  have fresh : NewSecrets platform value
      (run (step (handle platform)) (start value : System Thread UserProfile Request) events).log :=
    run_invariant newSecrets_step (by intro front entry rest split; simp [start] at split) confirms
  subst reached
  refine ⟨?_, ?_, ?_⟩
  · intro secret present
    exact (ordered_log present _ kept.serial fresh).increasing
  · intro code
    exact (Nat.le_add_left _ _).trans (codes_log code _ kept.serial)
  intro front entry rest new split succeeds served field others
  have landed : entry.outcome ≠ .failed := by
    rw [Succeeds, served] at succeeds
    rw [succeeds]
    decide
  have serial := kept.serial
  rw [kept.stored]
  rw [split] at serial ⊢
  exact change_kept serial landed served others

end Interleavings

def sampleTurn (request : Request) : List (Event Nat Request) :=
  [.begin 0 request, .enter 0, .read 0 true, .finish 0 .stored, .leave 0]

/-- The setup cookie is good for ten minutes, and nothing marks its secret as used. -/
def sampleReplay : Request :=
  .confirmTOTP ⟨some (ascii "AE"), decimal 8 100, 3030, some [ascii "second rescue"]⟩

/-- An authenticator is set up, removed with its next code, and set up again with the
cookie and the code of the first time: the steps 100, 101 and 100 of one secret are
consumed by three successful requests. -/
theorem setup_replayed : consumedSteps samplePlatform [1]
    (run (step (handle samplePlatform)) (start sampleProfile)
      (List.flatten [sampleTurn (sampleSetup "AE" 100),
        sampleTurn (sampleRemoval "first password" 101), sampleTurn sampleReplay])).log =
      [100, 101, 100] ∧ ¬ List.Pairwise (· < ·) ([100, 101, 100] : List Int) := by
  decide

/-- Two threads submit one code at the same time: it is consumed once. -/
def sampleRace : List (Event Nat Request) :=
  List.flatten [sampleTurn (sampleSetup "AE" 100),
    [.begin 0 (sampleRemoval "first password" 101), .begin 1 (sampleRemoval "first password" 101),
      .enter 1, .enter 0, .read 1 true, .finish 0 .stored, .finish 1 .stored, .leave 1, .enter 0,
      .read 0 true, .finish 0 .stored, .leave 0]]

theorem second_factor_spent_once_race :
    (consumedSteps samplePlatform [1]
      (run (step (handle samplePlatform)) (start sampleProfile) sampleRace).log).Pairwise
        (· < ·) :=
  (second_factor_spent_once samplePlatform sampleProfile sampleRace (by decide) _ rfl).1
    [1] (by decide)

end Bongo.Profiles
