import Bongo.DeliverForwards
import Bongo.SrsRoundTrip

/-!
What becomes of a message in the deliver stage: when every recipient keeps a
copy, in a mailbox or with the outbound queue, and every forward address is
queued once.
-/

namespace Bongo.Deliver

open ByteKeys Queue

variable {user : UserID} {rcpt : Bytes}

section Loop

variable (p : DeliverProcessor) (env : QueueEnvelope) (mail : Mail)

/-- The stage resolves the recipient to the user. Reserved addresses have no
user. -/
def Resolves (rcpt : Bytes) (user : UserID) : Prop :=
  isHostedSRS p rcpt = false ∧ isHostedNoRelay p rcpt = false ∧ p.resolver rcpt = some user

instance (rcpt : Bytes) (user : UserID) : Decidable (Resolves p rcpt user) :=
  inferInstanceAs (Decidable (_ ∧ _))

def ask (gate : ForwardGate) (rcpt : Bytes) : ForwardGate :=
  if isHostedSRS p rcpt || isHostedNoRelay p rcpt then gate
  else
    match p.resolver rcpt with
    | none => gate
    | some user => (accountForward p env mail gate user).2

/-- The gate's decisions on an envelope. They depend on no delivery. -/
def plan : ForwardGate := env.recipients.foldl (ask p env mail) (vetRuleRequests p env mail)

theorem ask_resolved (gate : ForwardGate) (resolves : Resolves p rcpt user) :
    ask p env mail gate rcpt = (accountForward p env mail gate user).2 := by
  rw [ask, resolves.1, resolves.2.1, resolves.2.2]
  rfl

theorem plan_sound : GateSound p env (plan p env mail) := by
  refine List.foldlRecOn _ _ (vetRuleRequests_sound p env mail) fun gate sound rcpt _ => ?_
  rw [ask]
  split
  next => exact sound
  next =>
    cases p.resolver rcpt with
    | none => exact sound
    | some user => exact accountForward_sound p env mail gate sound user

/-! What the gate is asked, and what it lets through. -/

def accountQuestion (rcpt : Bytes) : Option ApprovedForward :=
  if isHostedSRS p rcpt || isHostedNoRelay p rcpt then none
  else (p.resolver rcpt).bind fun user => (forwardingPrefs p user).map fun prefs =>
    ⟨user, p.trimSpace prefs.forwardAddress⟩

/-- The forwards that rules ask for, and then the account forward of each recipient's
user. -/
def questions : List ApprovedForward :=
  (env.forwardRequests.filter fun request => request.userID.text ≠ []).map
      (fun request => ⟨request.userID, p.trimSpace request.target⟩) ++
    env.recipients.filterMap (accountQuestion p)

def Alike (a b : ApprovedForward) : Prop :=
  a.userID = b.userID ∧ p.toLower a.target = p.toLower b.target

instance (a b : ApprovedForward) : Decidable (Alike p a b) :=
  inferInstanceAs (Decidable (_ ∧ _))

def note (kept : List ApprovedForward) (a : ApprovedForward) : List ApprovedForward :=
  if ∃ b ∈ kept, Alike p b a then kept else kept ++ [a]

/-- Of questions that are alike, the first. -/
def firsts (asked : List ApprovedForward) : List ApprovedForward := asked.foldl (note p) []

def limiterAllows (calls : Nat) (user : UserID) : Bool :=
  match p.fwdLimiter with
  | none => true
  | some allow => allow calls user

/-- What is not refused and what the limiter allows, which is asked about the rest only. -/
def passing (calls : Nat) : List ApprovedForward → List ApprovedForward
  | [] => []
  | a :: rest =>
    if refusal p env mail a.userID a.target ≠ none then passing calls rest
    else if limiterAllows p calls a.userID then a :: passing (calls + 1) rest
    else passing (calls + 1) rest

def letThrough : List ApprovedForward := passing p env mail 0 (firsts p (questions p env))

def settle (gate : ForwardGate) (a : ApprovedForward) : ForwardGate :=
  match gate.decided.lookup (forwardKey p a.userID a.target) with
  | some _ => gate
  | none =>
    let answer := deny p env mail gate.calls a.userID a.target
    match answer.1 with
    | some _ =>
      { gate with
        calls := answer.2
        decided := (forwardKey p a.userID a.target, false) :: gate.decided }
    | none =>
      { calls := answer.2
        decided := (forwardKey p a.userID a.target, true) :: gate.decided
        approved := gate.approved ++ [a] }

theorem permit_settle (gate : ForwardGate) (user : UserID) (target : Bytes) :
    (permit p env mail gate user target).2 = settle p env mail gate ⟨user, p.trimSpace target⟩ := by
  simp only [permit, settle]
  cases gate.decided.lookup (forwardKey p user (p.trimSpace target)) with
  | some decision => rfl
  | none =>
    dsimp only
    cases (deny p env mail gate.calls user (p.trimSpace target)).1 with
    | some _ | none => rfl

theorem plan_settles :
    plan p env mail = (questions p env).foldl (settle p env mail) ⟨0, [], []⟩ := by
  have rules : vetRuleRequests p env mail =
      ((env.forwardRequests.filter fun request => request.userID.text ≠ []).map
        fun request => (⟨request.userID, p.trimSpace request.target⟩ : ApprovedForward)).foldl
          (settle p env mail) ⟨0, [], []⟩ := by
    rw [List.foldl_map, List.foldl_filter, vetRuleRequests]
    congr 1
    funext gate request
    by_cases nobody : request.userID.text = []
    · simp [nobody]
    · simp [nobody, permit_settle]
  rw [questions, List.foldl_append, ← rules, List.foldl_filterMap, plan]
  congr 1
  funext gate rcpt
  rw [ask, accountQuestion]
  split
  next => rfl
  next =>
    cases p.resolver rcpt with
    | none => rfl
    | some user =>
      simp only [accountForward, Option.bind_some]
      cases forwardingPrefs p user with
      | none => rfl
      | some prefs => exact permit_settle p env mail gate user _

theorem passing_append (calls : Nat) (kept more : List ApprovedForward) :
    passing p env mail calls (kept ++ more) = passing p env mail calls kept ++
      passing p env mail
        (calls + kept.countP fun a => refusal p env mail a.userID a.target = none) more := by
  induction kept generalizing calls with
  | nil => rfl
  | cons a rest ih =>
    simp only [List.cons_append, passing, List.countP_cons]
    by_cases refused : refusal p env mail a.userID a.target = none
    · simp only [refused, ne_eq, not_true_eq_false, if_false, decide_true, if_true, ih]
      split
      all_goals simp [Nat.add_assoc, Nat.add_comm 1]
    · simp [refused, ih]

/-- The gate after the questions whose firsts are `kept`. -/
structure Settled (kept : List ApprovedForward) (gate : ForwardGate) : Prop where
  known : ∀ a : ApprovedForward, gate.decided.lookup (forwardKey p a.userID a.target) = none ↔
    ¬ ∃ b ∈ kept, Alike p b a
  calls : p.fwdLimiter ≠ none →
    gate.calls = kept.countP fun a => refusal p env mail a.userID a.target = none
  approved : gate.approved = passing p env mail 0 kept

variable {p env mail} in
theorem Settled.decides {kept : List ApprovedForward} {gate : ForwardGate}
    (settled : Settled p env mail kept gate) (a : ApprovedForward) (decision : Bool)
    (other : ApprovedForward) :
    ((forwardKey p a.userID a.target, decision) :: gate.decided).lookup
        (forwardKey p other.userID other.target) = none ↔
      ¬ ∃ b ∈ kept ++ [a], Alike p b other := by
  have key : forwardKey p other.userID other.target = forwardKey p a.userID a.target ↔
      Alike p a other := by
    rw [eq_comm]
    exact forwardKey_inj p a.userID other.userID a.target other.target
  rw [List.lookup_cons]
  simp only [List.mem_append, List.mem_singleton, or_and_right, exists_or, exists_eq_left, not_or]
  split
  next same => simp [key.mp (beq_iff_eq.mp same)]
  next different =>
    have apart : ¬ Alike p a other := fun alike => by
      rw [key.mpr alike, beq_self_eq_true] at different
      cases different
    simp [settled.known other, apart]

variable {p env mail} in
theorem Settled.settle {kept : List ApprovedForward} {gate : ForwardGate}
    (settled : Settled p env mail kept gate) (a : ApprovedForward) :
    Settled p env mail (note p kept a) (settle p env mail gate a) := by
  simp only [Deliver.settle, note]
  cases found : gate.decided.lookup (forwardKey p a.userID a.target) with
  | some decision =>
    have repeated : ∃ b ∈ kept, Alike p b a := by
      by_contra fresh
      rw [(settled.known a).mpr fresh] at found
      cases found
    rw [if_pos repeated]
    exact settled
  | none =>
    -- a new question: refused, allowed without a limiter, or left to the limiter's answer
    rw [if_neg ((settled.known a).mp found)]
    have grown := passing_append p env mail 0 kept [a]
    simp only [Nat.zero_add, passing] at grown
    cases refused : refusal p env mail a.userID a.target with
    | some denial =>
      simp only [deny, refused]
      refine ⟨settled.decides a false, fun limited => ?_, ?_⟩
      · simp [settled.calls limited, refused]
      · simp [grown, refused, settled.approved]
    | none =>
      simp only [refused, ne_eq, not_true_eq_false, if_false] at grown
      cases limiter : p.fwdLimiter with
      | none =>
        simp only [deny, refused, limiter]
        refine ⟨settled.decides a true, fun limited => absurd limiter limited, ?_⟩
        simp [grown, limiterAllows, limiter, settled.approved]
      | some allow =>
        have counted := settled.calls (by simp [limiter])
        simp only [limiterAllows, limiter, ← counted] at grown
        cases allowed : allow gate.calls a.userID with
        | true =>
          simp only [deny, refused, limiter, allowed, if_true]
          refine ⟨settled.decides a true, fun _ => ?_, ?_⟩
          · simp [counted, refused]
          · simp [grown, allowed, settled.approved]
        | false =>
          simp only [deny, refused, limiter, allowed]
          refine ⟨settled.decides a false, fun _ => ?_, ?_⟩
          · simp [counted, refused]
          · simp [grown, allowed, settled.approved]

theorem plan_approved : (plan p env mail).approved = letThrough p env mail := by
  rw [plan_settles]
  suffices settled : ∀ (asked kept : List ApprovedForward) (gate : ForwardGate),
      Settled p env mail kept gate →
      Settled p env mail (asked.foldl (note p) kept) (asked.foldl (settle p env mail) gate) from
    (settled (questions p env) [] _ ⟨by simp, fun _ => rfl, rfl⟩).approved
  intro asked
  induction asked with
  | nil => exact fun _ _ settled => settled
  | cons a rest ih => exact fun kept gate settled => ih _ _ (settled.settle a)

theorem relaySRSBounce_frame (state : Progress) (rcpt : Bytes) :
    (relaySRSBounce p env mail state rcpt).gate = state.gate ∧
      (relaySRSBounce p env mail state rcpt).stored = state.stored ∧
      (relaySRSBounce p env mail state rcpt).fates = state.fates := by
  rw [relaySRSBounce]
  split
  next => exact ⟨rfl, rfl, rfl⟩
  next =>
    cases p.codec.reverse p.today (bare p rcpt) with
    | none => exact ⟨rfl, rfl, rfl⟩
    | some orig =>
      simp only
      split_ifs
      all_goals exact ⟨rfl, rfl, rfl⟩

variable {state next : Progress}

theorem deliverMail_some {mailboxes : List Bytes}
    (written : deliverMail p user state mailboxes = some next) :
    next.gate = state.gate ∧ next.fates = state.fates ∧
      next.stored = state.stored ++ mailboxes.map (user, ·) := by
  induction mailboxes generalizing state with
  | nil =>
    rw [deliverMail] at written
    cases written
    exact ⟨rfl, rfl, by simp⟩
  | cons mailbox rest ih =>
    rw [deliverMail] at written
    split at written
    next =>
      have later := ih written
      refine ⟨later.1, later.2.1, ?_⟩
      rw [later.2.2]
      simp
    next => cases written

inductive Fated (state : Progress) (user : UserID) : Fate → Prop
  | forwarded : Relies p state.gate user → Fated state user .forwarded
  | answered : Free p state.gate user → Fated state user .answered
  | delivered : Free p state.gate user →
      (env.discardNormal = false → ∃ mailbox, (user, mailbox) ∈ state.stored) →
      Fated state user .delivered

/-- The loop's invariant after the recipients `done`. Whoever has a stored copy
does not rely on a forward. -/
structure Kept (done : List Bytes) (state : Progress) : Prop where
  gate : state.gate = done.foldl (ask p env mail) (vetRuleRequests p env mail)
  count : state.fates.length = done.length
  free : ∀ copy ∈ state.stored, Free p state.gate copy.1
  met : ∀ pair ∈ done.zip state.fates, ∀ user, Resolves p pair.1 user →
    Fated p env state user pair.2

variable {p env} in
theorem Fated.grow {before after : Progress} {fate : Fate} (fated : Fated p env before user fate)
    (growth : Grows before.gate after.gate) (more : ∀ copy ∈ before.stored, copy ∈ after.stored) :
    Fated p env after user fate := by
  cases fated with
  | forwarded relies => exact .forwarded (relies.grow growth)
  | answered free => exact .answered (free.grow growth)
  | delivered free stored =>
    refine .delivered (free.grow growth) fun normal => ?_
    obtain ⟨mailbox, copy⟩ := stored normal
    exact ⟨mailbox, more _ copy⟩

variable {done : List Bytes}

variable {p env mail} in
theorem Kept.extend (kept : Kept p env mail done state) (fate : Fate)
    (asked : next.gate = ask p env mail state.gate rcpt) (growth : Grows state.gate next.gate)
    (fates : next.fates = state.fates ++ [fate]) (more : ∀ copy ∈ state.stored, copy ∈ next.stored)
    (new : ∀ copy ∈ next.stored, copy ∈ state.stored ∨ Free p next.gate copy.1)
    (here : ∀ user, Resolves p rcpt user → Fated p env next user fate) :
    Kept p env mail (done ++ [rcpt]) next := by
  constructor
  · rw [asked, kept.gate, List.foldl_append]
    rfl
  · rw [fates, List.length_append, List.length_append, kept.count]
    rfl
  · intro copy stored
    rcases new copy stored with earlier | free
    · exact (kept.free copy earlier).grow growth
    · exact free
  · intro pair member user resolves
    rw [fates, List.zip_append kept.count.symm, List.mem_append] at member
    rcases member with earlier | last
    · exact (kept.met pair earlier user resolves).grow growth more
    · cases List.mem_singleton.mp last
      exact here user resolves

theorem deliverUser_kept (kept : Kept p env mail done state) (resolves : Resolves p rcpt user)
    (stepped : deliverUser p env mail state rcpt user = .ok next) :
    Kept p env mail (done ++ [rcpt]) next := by
  have only : ∀ other, Resolves p rcpt other → other = user := by
    intro other also
    exact Option.some.inj (also.2.2.symm.trans resolves.2.2)
  have asked := (ask_resolved p env mail state.gate resolves).symm
  have growth := accountForward_grows p env mail state.gate user
  simp only [deliverUser] at stepped
  rcases accountForward_cases p env mail state.gate user with ⟨skips, relies⟩ | ⟨stays, free⟩
  · rw [if_pos skips] at stepped
    cases stepped
    refine kept.extend .forwarded asked growth rfl (fun _ stored => stored)
      (fun _ stored => .inl stored) ?_
    intro other also
    rw [only other also]
    exact .forwarded relies
  · rw [if_neg (by simp [stays])] at stepped
    split at stepped
    next =>
      cases stepped
      refine kept.extend .answered asked growth rfl (fun _ stored => stored)
        (fun _ stored => .inl stored) ?_
      intro other also
      rw [only other also]
      exact .answered free
    next =>
      split at stepped
      next => cases stepped
      next written =>
        cases stepped
        obtain ⟨gate, fates, stored⟩ := deliverMail_some p written
        apply kept.extend .delivered
        · exact gate.trans asked
        · rw [Progress.meet, gate]
          exact growth
        · rw [Progress.meet, fates]
        · intro copy earlier
          rw [Progress.meet, stored]
          exact List.mem_append_left _ earlier
        · intro copy member
          rw [Progress.meet, stored] at member
          rcases List.mem_append.mp member with earlier | new
          · exact .inl earlier
          · obtain ⟨mailbox, _, rfl⟩ := List.mem_map.mp new
            rw [Progress.meet, gate]
            exact .inr free
        · intro other also
          rw [only other also]
          refine .delivered (by rw [Progress.meet, gate]; exact free) ?_
          intro normal
          refine ⟨targetMailbox env mail, ?_⟩
          rw [Progress.meet, stored, destinations, normal]
          simp

theorem deliverTo_kept (kept : Kept p env mail done state)
    (stepped : deliverTo p env mail state rcpt = .ok next) :
    Kept p env mail (done ++ [rcpt]) next := by
  -- a recipient without a user changes neither the gate nor what is stored
  have idle : ∀ (same : Progress) (fate : Fate), same.gate = state.gate →
      same.stored = state.stored → same.fates = state.fates →
      ask p env mail state.gate rcpt = state.gate → (∀ user, ¬ Resolves p rcpt user) →
      Kept p env mail (done ++ [rcpt]) (same.meet fate) := by
    intro same fate gate stored fates unasked nobody
    apply kept.extend fate
    · exact gate.trans unasked.symm
    · intro key decision known
      rw [Progress.meet, gate]
      exact known
    · rw [Progress.meet, fates]
    · intro copy earlier
      rw [Progress.meet, stored]
      exact earlier
    · intro copy member
      rw [Progress.meet, stored] at member
      exact .inl member
    · exact fun user resolves => absurd resolves (nobody user)
  rw [deliverTo] at stepped
  split at stepped
  next hosted =>
    cases stepped
    obtain ⟨gate, stored, fates⟩ := relaySRSBounce_frame p env mail state rcpt
    refine idle _ _ gate stored fates (by rw [ask, hosted]; rfl) ?_
    rintro user ⟨notHosted, _⟩
    rw [hosted] at notHosted
    cases notHosted
  next notSRS =>
    split at stepped
    next sink =>
      cases stepped
      refine idle _ _ rfl rfl rfl (by rw [ask, sink, Bool.or_true]; rfl) ?_
      rintro user ⟨_, notSink, _⟩
      rw [sink] at notSink
      cases notSink
    next notSink =>
      cases found : p.resolver rcpt with
      | none =>
        simp only [found] at stepped
        cases stepped
        refine idle _ _ rfl rfl rfl (by rw [ask, found]; simp) ?_
        rintro user ⟨_, _, resolved⟩
        rw [found] at resolved
        cases resolved
      | some user =>
        simp only [found] at stepped
        exact deliverUser_kept p env mail kept
          ⟨Bool.eq_false_iff.mpr notSRS, Bool.eq_false_iff.mpr notSink, found⟩ stepped

theorem deliverAll_kept (rest done : List Bytes) (state final : Progress)
    (kept : Kept p env mail done state)
    (ran : rest.foldlM (deliverTo p env mail) state = .ok final) :
    Kept p env mail (done ++ rest) final := by
  induction rest generalizing done state with
  | nil =>
    cases ran
    rw [List.append_nil]
    exact kept
  | cons rcpt rest ih =>
    rw [List.foldlM_cons, Records.bind_ok] at ran
    obtain ⟨next, stepped, ran⟩ := ran
    have later := ih (done ++ [rcpt]) next (deliverTo_kept p env mail kept stepped) ran
    rw [List.append_assoc] at later
    exact later

theorem start_kept : Kept p env mail [] (start p env mail) :=
  ⟨rfl, rfl, by simp [start], by simp⟩

end Loop

section Survival

variable (p : DeliverProcessor) (env : QueueEnvelope) (mail : Mail)

def ForwardTaken (outcome : Outcome) (user : UserID) : Prop :=
  ∃ prefs, forwardingPrefs p user = some prefs ∧
    ∃ message ∈ outcome.forwards, p.accepts message = true ∧ ∃ target ∈ message.recipients,
        p.toLower target = p.toLower (p.trimSpace prefs.forwardAddress)

def Survives (outcome : Outcome) (user : UserID) : Prop :=
  (∃ mailbox, (user, mailbox) ∈ outcome.stored) ∨ ForwardTaken p outcome user

/-- Unless a delete rule won, every recipient with a user that no resource
answered has a surviving copy. -/
def CopiesSurvive (outcome : Outcome) : Prop :=
  env.discardNormal = false → ∀ (place : Nat) (rcpt : Bytes) (user : UserID),
    env.recipients[place]? = some rcpt → Resolves p rcpt user →
      outcome.fates[place]? ≠ some .answered → Survives p outcome user

/-- Every address that is forwarded to, by whomever and case aside, is handed to
the queue once. -/
def QueuedOnce (outcome : Outcome) : Prop :=
  ∀ a ∈ outcome.approved, (outcome.forwards.flatMap (·.recipients)).countP
    (fun target => p.toLower target == p.toLower a.target) = 1

/-- `spelled`: forwards that are let through to one address spell it alike.
`taken`: the queue takes the message that carries the address of a recipient who
keeps no copy. -/
structure Safe : Prop where
  spelled : ∀ a ∈ letThrough p env mail, ∀ b ∈ letThrough p env mail,
    p.toLower a.target = p.toLower b.target → a.target = b.target
  taken : env.discardNormal = false →
    ∀ rcpt ∈ env.recipients, ∀ user prefs, Resolves p rcpt user →
      forwardingPrefs p user = some prefs → prefs.forwardKeepCopy = false →
      ∀ a ∈ letThrough p env mail, a.userID = user →
        p.toLower a.target = p.toLower (p.trimSpace prefs.forwardAddress) →
        ∀ message ∈ enqueueForwards p env mail (letThrough p env mail),
          a.target ∈ message.recipients → p.accepts message = true

theorem countP_eq_one_iff {A : Type} (test : A → Bool) {items : List A} (single : items.Nodup)
    {item : A} (member : item ∈ items) (holds : test item = true) :
    items.countP test = 1 ↔ ∀ other ∈ items, test other = true → other = item := by
  rw [List.countP_eq_length_filter]
  have here : item ∈ items.filter test := List.mem_filter.mpr ⟨member, holds⟩
  constructor
  · intro one other listed passes
    obtain ⟨only, same⟩ := List.length_eq_one_iff.mp one
    have also : other ∈ items.filter test := List.mem_filter.mpr ⟨listed, passes⟩
    rw [same, List.mem_singleton] at here also
    rw [also, here]
  · intro unique
    have within : items.filter test ⊆ [item] := by
      intro other kept
      obtain ⟨listed, passes⟩ := List.mem_filter.mp kept
      exact List.mem_singleton.mpr (unique other listed passes)
    have most := (List.subperm_of_subset (single.filter test) within).length_le
    have least := List.length_pos_of_mem here
    rw [List.length_singleton] at most
    omega

variable {p env mail} in
theorem Carries.unique {targets : List Bytes} {messages : List OutboundMessage}
    (carries : Carries targets messages) {target : Bytes} {left right : OutboundMessage}
    (leftMember : left ∈ messages) (rightMember : right ∈ messages)
    (leftHas : target ∈ left.recipients) (rightHas : target ∈ right.recipients) :
    left = right := by
  by_contra different
  have apart := (List.nodup_flatMap.mp carries.single).2
  have symmetric : Std.Symm (Function.onFun List.Disjoint fun message : OutboundMessage =>
      message.recipients) := ⟨fun _ _ disjoint => List.Disjoint.symm disjoint⟩
  exact apart.forall leftMember rightMember different leftHas rightHas

/-- Addresses are queued once exactly when they are spelled alike. -/
theorem queuedOnce_iff {outcome : Outcome}
    (carries : Carries (outcome.approved.map (·.target)) outcome.forwards) :
    QueuedOnce p outcome ↔ ∀ a ∈ outcome.approved, ∀ b ∈ outcome.approved,
        p.toLower a.target = p.toLower b.target → a.target = b.target := by
  have counts := fun (a : ApprovedForward) (member : a ∈ outcome.approved) =>
    countP_eq_one_iff (fun target => p.toLower target == p.toLower a.target) carries.single
      ((carries.exact a.target).mpr (List.mem_map_of_mem member)) (beq_self_eq_true _)
  constructor
  · intro once a first b second same
    refine (counts b second).mp (once b second) a.target ?_ (beq_iff_eq.mpr same)
    exact (carries.exact _).mpr (List.mem_map_of_mem first)
  intro alike a member
  rw [counts a member]
  intro target queued same
  obtain ⟨b, other, rfl⟩ := List.mem_map.mp ((carries.exact target).mp queued)
  exact alike b other a member (beq_iff_eq.mp same)

/-- The result of a run on an envelope that is not delivered yet. -/
theorem process_ok {outcome : Outcome} (returned : process p env mail = .ok outcome)
    (undelivered : env.delivered = false) :
    ∃ final, Kept p env mail env.recipients final ∧
      outcome = ⟨final.fates, final.stored, final.bounces, letThrough p env mail,
        enqueueForwards p env mail (letThrough p env mail)⟩ := by
  rw [process, undelivered] at returned
  cases expired : mail.expired with
  | true =>
    rw [expired] at returned
    cases returned
  | false =>
    rw [expired] at returned
    obtain ⟨final, ran, made⟩ := (Records.bind_ok _ _ _).mp returned
    have kept := deliverAll_kept p env mail env.recipients [] _ final (start_kept p env mail) ran
    rw [List.nil_append] at kept
    refine ⟨final, kept, ?_⟩
    rw [← plan_approved, plan, ← kept.gate]
    exact (Except.ok.inj made).symm

variable {p env mail} in
theorem Kept.fate {final : Progress} (kept : Kept p env mail env.recipients final) {place : Nat}
    (listed : env.recipients[place]? = some rcpt) (resolves : Resolves p rcpt user) :
    ∃ fate, final.fates[place]? = some fate ∧ Fated p env final user fate := by
  have bound : place < final.fates.length := by
    rw [kept.count]
    exact (List.getElem?_eq_some_iff.mp listed).1
  refine ⟨final.fates[place], List.getElem?_eq_getElem bound, ?_⟩
  apply kept.met (rcpt, final.fates[place]) _ user resolves
  apply List.mem_of_getElem?
  exact List.getElem?_zip_eq_some.mpr ⟨listed, List.getElem?_eq_getElem bound⟩

/-- A run on an envelope that is not delivered yet keeps every copy and queues every
address once if and only if it is safe. (One that is delivered is passed over; its copies
are those of the run that marked it.) -/
theorem copies_survive_iff_safe {outcome : Outcome} (undelivered : env.delivered = false)
    (returned : process p env mail = .ok outcome) :
    CopiesSurvive p env outcome ∧ QueuedOnce p outcome ↔ Safe p env mail := by
  obtain ⟨final, kept, rfl⟩ := process_ok p env mail returned undelivered
  have sound := plan_sound p env mail
  have gate : final.gate = plan p env mail := kept.gate
  have agrees := fun user target => sound.agrees user target
  have fit := sound.fit
  rw [plan_approved] at agrees fit
  have carries := enqueueForwards_carries p env mail _ fit
  rw [queuedOnce_iff p carries]
  constructor
  · rintro ⟨survive, alike⟩
    refine ⟨alike, ?_⟩
    intro normal rcpt member user prefs resolves set leaves a passes owner same message
      sent carried
    -- the user relies on the forward, so no copy of theirs is stored
    have relies : Relies p final.gate user := by
      refine ⟨prefs, set, leaves, ?_⟩
      rw [gate]
      exact (agrees user _).mpr ⟨a, passes, owner, same⟩
    obtain ⟨place, listed⟩ := List.mem_iff_getElem?.mp member
    obtain ⟨fate, met, fated⟩ := kept.fate listed resolves
    have unanswered : final.fates[place]? ≠ some .answered := by
      intro answered
      cases met.symm.trans answered
      cases fated with
      | answered free => exact free.not_relies relies
    rcases survive normal place rcpt user listed resolves unanswered with stored | forwarded
    · obtain ⟨mailbox, copy⟩ := stored
      exact absurd relies (kept.free _ copy).not_relies
    obtain ⟨others, found, other, sentToo, accepted, target, listedToo, like⟩ := forwarded
    cases set.symm.trans found
    obtain ⟨b, passesToo, rfl⟩ := List.mem_map.mp
      ((carries.exact target).mp (List.mem_flatMap.mpr ⟨other, sentToo, listedToo⟩))
    have spelling := alike b passesToo a passes (like.trans same.symm)
    rw [spelling] at listedToo
    rw [carries.unique sent sentToo carried listedToo]
    exact accepted
  · intro safe
    refine ⟨?_, safe.spelled⟩
    intro normal place rcpt user listed resolves unanswered
    obtain ⟨fate, met, fated⟩ := kept.fate listed resolves
    cases fated with
    | answered => exact absurd met unanswered
    | delivered _ stored => exact .inl (stored normal)
    | forwarded relies =>
      obtain ⟨prefs, set, leaves, decided⟩ := relies
      rw [gate] at decided
      obtain ⟨a, passes, owner, same⟩ := (agrees user _).mp decided
      obtain ⟨message, sent, carried⟩ := List.mem_flatMap.mp
        ((carries.exact a.target).mpr (List.mem_map_of_mem passes))
      have accepted := safe.taken normal rcpt (List.mem_of_getElem? listed) user prefs resolves
        set leaves a passes owner same message sent carried
      exact .inr ⟨prefs, set, message, sent, accepted, a.target, carried, same⟩

/-! A server for `a.example`. Its two users forward without keeping a copy, to
spellings of one verified address outside. -/

def alice : UserID := ⟨ascii "u1", by decide⟩

def bob : UserID := ⟨ascii "u2", by decide⟩

def aliceAddress : Bytes := ascii "alice@a.example"

def bobAddress : Bytes := ascii "bob@a.example"

def sampleProcessor (enqueue : OutboundMessage → Bool) (outside : Bytes) : DeliverProcessor where
  codec := Srs.sampleCodec
  equalFold := equalFold
  resolver address :=
    if address = aliceAddress then some alice
    else if address = bobAddress then some bob
    else none
  prefs := some fun user =>
    ⟨if user = alice then ascii "home@b.example" else outside, false⟩
  hostedDomain := some (· == ascii "a.example")
  queuer := some enqueue
  fwdTargets := some fun _ _ => some true
  fwdLimiter := none
  strictFromAddress _ := none
  authorizer := none
  authorRL := none
  userDomains := some fun _ => some (ascii "a.example")
  srs := false
  today := 0
  srsAddrLimiter := none
  srsGlobalLimiter := none
  booking _ _ := ⟨[], [], []⟩
  resourceBookings := none
  applier _ _ _ := true
  forwardIDs made := [made.toUInt8]
  bounceIDs made := [made.toUInt8]

def sampleEnvelope (recipients : List Bytes) : QueueEnvelope where
  sender := ascii "carol@c.example"
  recipients := recipients
  blobHash := ascii "h1"
  targetMailbox := []
  copyMailboxes := []
  discardNormal := false
  forwardRequests := []
  stages := []
  spfResult := ascii "none"
  authUserId := []
  delivered := false

def sampleMail : Mail := ⟨ascii "Subject: x\r\n\r\nhello\r\n", false, false⟩

def sampleForward (user : UserID) (made : Nat) (target : Bytes) : OutboundMessage :=
  outbound (sampleEnvelope []) [made.toUInt8] user.text
    (ascii "bongo-bounce-sink@a.example") [target] .forward false

def forwardedOutcome : Outcome where
  fates := [.forwarded, .forwarded]
  stored := []
  bounces := []
  approved := [⟨alice, ascii "home@b.example"⟩, ⟨bob, ascii "home@b.example"⟩]
  forwards := [sampleForward alice 0 (ascii "home@b.example")]

theorem copies_survive_iff_safe_forwarded :
    process (sampleProcessor (fun _ => true) (ascii "home@b.example"))
        (sampleEnvelope [aliceAddress, bobAddress]) sampleMail = .ok forwardedOutcome ∧
      CopiesSurvive (sampleProcessor (fun _ => true) (ascii "home@b.example"))
        (sampleEnvelope [aliceAddress, bobAddress]) forwardedOutcome := by
  have returned : process (sampleProcessor (fun _ => true) (ascii "home@b.example"))
      (sampleEnvelope [aliceAddress, bobAddress]) sampleMail = .ok forwardedOutcome := by
    decide
  refine ⟨returned, ((copies_survive_iff_safe _ _ _ rfl returned).mpr ⟨by decide, ?_⟩).1⟩
  intros
  rfl

def lostOutcome : Outcome where
  fates := [.forwarded]
  stored := []
  bounces := []
  approved := [⟨alice, ascii "home@b.example"⟩]
  forwards := [sampleForward alice 0 (ascii "home@b.example")]

def doubledOutcome : Outcome where
  fates := [.forwarded, .forwarded]
  stored := []
  bounces := []
  approved := [⟨alice, ascii "home@b.example"⟩, ⟨bob, ascii "Home@b.example"⟩]
  forwards := [sampleForward alice 0 (ascii "home@b.example"),
    sampleForward bob 1 (ascii "Home@b.example")]

/-- The queue refuses the only forward and the stage reports success: nothing of
the mail is left. And with a queue that takes everything, one address in two
spellings is queued twice. -/
theorem refused_forward_loses_mail :
    (process (sampleProcessor (fun _ => false) (ascii "home@b.example"))
        (sampleEnvelope [aliceAddress]) sampleMail = .ok lostOutcome ∧
      ¬ CopiesSurvive (sampleProcessor (fun _ => false) (ascii "home@b.example"))
        (sampleEnvelope [aliceAddress]) lostOutcome) ∧
    (process (sampleProcessor (fun _ => true) (ascii "Home@b.example"))
        (sampleEnvelope [aliceAddress, bobAddress]) sampleMail = .ok doubledOutcome ∧
      ¬ QueuedOnce (sampleProcessor (fun _ => true) (ascii "Home@b.example"))
        doubledOutcome) := by
  refine ⟨⟨by decide, ?_⟩, by decide, ?_⟩
  · intro survive
    rcases survive rfl 0 aliceAddress alice rfl (by decide) (by decide) with
      ⟨mailbox, copy⟩ | ⟨prefs, _, message, _, accepted, _⟩
    · cases copy
    · cases accepted
  · intro once
    have two := once ⟨alice, ascii "home@b.example"⟩ (by decide)
    exact absurd two (by decide)

end Survival

end Bongo.Deliver
