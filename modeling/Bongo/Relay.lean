import Bongo.Records

/-!
The outbound relay. A message is offered to the mail hosts of each recipient
domain in turn, and the first host whose whole transaction goes through ends the
domain. Remote hosts answer as they like; beside what the relay returns, an
outcome records what the hosts did: whose copy a positive answer to the end of
the data took over, and who was refused for good.
-/

namespace Bongo.Relay

open ByteKeys Records

inductive Reply where
  | ok
  | temporary
  | permanent
  | drop
  deriving DecidableEq

inductive StartTLS where
  | completed
  | refused
  | failed
  deriving DecidableEq

/-- How one connection answers. The certificate checks are part of `startTLS`,
and a connection lost while the message is written is a drop at its end. -/
structure Responder where
  dials : Bool
  probe : Option Bool
  startTLS : StartTLS
  hello : Bool
  offersAuth : Bool
  auth : Reply
  mail : Reply
  rcpt : Nat → Reply
  data : Reply
  endOfData : Reply
  quit : Reply
  offersDSN : Bool

structure TLSPolicy where
  requireTLS : Bool
  mxAuthorized : Bool
  deriving DecidableEq

structure Config where
  hasCreds : Bool
  allowInsecure : Bool
  deriving DecidableEq

inductive HostError where
  | connecting
  | ehlo
  | policySTARTTLSFailed
  | startTLS
  | policyRequiresTLS
  | authGuard
  | authUnsupported
  | auth (reply : Reply)
  | mailFrom (reply : Reply)
  | rcptTo (rcpt : Bytes) (reply : Reply)
  | data (reply : Reply)
  | closingData (reply : Reply)
  | quitAfterFailures (reply : Reply)
  | quit (reply : Reply)
  | notAuthorized (host domain : Bytes)
  deriving DecidableEq

def shouldSendAuth (tlsCompleted hasCreds allowInsecure : Bool) : Except HostError Bool :=
  if hasCreds = false then .ok false
  else if tlsCompleted ∨ allowInsecure then .ok true
  else .error .authGuard

/-- The STARTTLS exchange; the answer says whether TLS was completed. -/
def secure (pol : TLSPolicy) (remote : Responder) (offered : Bool) : Except HostError Bool :=
  if offered then
    match remote.startTLS with
    | .completed => .ok true
    | .refused => if pol.requireTLS then .error .policySTARTTLSFailed else .ok false
    | .failed => if pol.requireTLS then .error .policySTARTTLSFailed else .error .startTLS
  else if pol.requireTLS then .error .policyRequiresTLS
  else .ok false

/-- Everything before MAIL. -/
def greet (cfg : Config) (pol : TLSPolicy) (remote : Responder) : Except HostError Unit := do
  reject .connecting (remote.dials = false)
  let offered ← orError .ehlo remote.probe
  let tlsCompleted ← secure pol remote offered
  reject .ehlo (remote.hello = false)
  let send ← shouldSendAuth tlsCompleted cfg.hasCreds cfg.allowInsecure
  if send then
    reject .authUnsupported (remote.offersAuth = false)
    reject (.auth remote.auth) (remote.auth ≠ .ok)

/-- The recipients offered so far; `stopped` is the answer that ended the
transaction. -/
structure Offered where
  permanentFails : List Bytes
  accepted : List Bytes
  stopped : Option (Bytes × Reply)
  deriving DecidableEq

def offer (rcpt : Nat → Reply) : Nat → List Bytes → Offered
  | _, [] => ⟨[], [], none⟩
  | place, recipient :: rest =>
    match rcpt place with
    | .ok =>
      let later := offer rcpt (place + 1) rest
      { later with accepted := recipient :: later.accepted }
    | .permanent =>
      let later := offer rcpt (place + 1) rest
      { later with permanentFails := recipient :: later.permanentFails }
    | reply => ⟨[], [], some (recipient, reply)⟩

/-- `taken` are the recipients whose copy the host took over. -/
structure Sent where
  permanentFails : List Bytes
  relayedNoDSN : List Bytes
  err : Option HostError
  taken : List Bytes
  deriving DecidableEq

/-- `env` tells which recipients asked for a success report, if the message has
DSN parameters at all. -/
def sendToHostOpts (cfg : Config) (env : Option (Bytes → Bool)) (pol : TLSPolicy)
    (remote : Responder) (recipients : List Bytes) : Sent :=
  match greet cfg pol remote with
  | .error error => ⟨[], [], some error, []⟩
  | .ok _ =>
    if remote.mail ≠ .ok then ⟨[], [], some (.mailFrom remote.mail), []⟩
    else
      let offered := offer remote.rcpt 0 recipients
      match offered.stopped with
      | some (rcpt, reply) => ⟨offered.permanentFails, [], some (.rcptTo rcpt reply), []⟩
      | none =>
        if offered.permanentFails.length = recipients.length then
          if remote.quit ≠ .ok then
            ⟨offered.permanentFails, [], some (.quitAfterFailures remote.quit), []⟩
          else ⟨offered.permanentFails, [], none, []⟩
        else if remote.data ≠ .ok then
          ⟨offered.permanentFails, [], some (.data remote.data), []⟩
        else if remote.endOfData ≠ .ok then
          ⟨offered.permanentFails, [], some (.closingData remote.endOfData), []⟩
        else if remote.quit ≠ .ok then
          ⟨offered.permanentFails, [], some (.quit remote.quit), offered.accepted⟩
        else
          let relayed := match env with
            | some wantsSuccess =>
              if remote.offersDSN then [] else offered.accepted.filter wantsSuccess
            | none => []
          ⟨offered.permanentFails, relayed, none, offered.accepted⟩

section Domains

/-- A mail host as one delivery meets it. Each entry of a lookup is tried at
most once. -/
structure Host where
  name : Bytes
  policy : TLSPolicy
  remote : Responder

inductive DeliveryError where
  | mxLookup (domain : Bytes)
  | allHostsFailed (domain : Bytes) (last : HostError)
  deriving DecidableEq

variable (cfg : Config) (env : Option (Bytes → Bool))

structure Tried where
  permanentFails : List Bytes
  relayed : List Bytes
  lastErr : Option HostError
  taken : List (List Bytes)
  deriving DecidableEq

def tryHosts (domain : Bytes) (domainRcpts : List Bytes) : Option HostError → List Host → Tried
  | lastErr, [] => ⟨[], [], lastErr, []⟩
  | _, host :: rest =>
    if host.policy.mxAuthorized = false then
      tryHosts domain domainRcpts (some (.notAuthorized host.name domain)) rest
    else
      let sent := sendToHostOpts cfg env host.policy host.remote domainRcpts
      match sent.err with
      | none => ⟨sent.permanentFails, sent.relayedNoDSN, none, [sent.taken]⟩
      | some error =>
        let later := tryHosts domain domainRcpts (some error) rest
        { later with
          permanentFails := sent.permanentFails ++ later.permanentFails
          taken := sent.taken :: later.taken }

/-- `refused` and `taken` record what happened, `permanentFails` and `relayed`
what is returned. -/
structure Outcome where
  permanentFails : List Bytes
  relayed : List Bytes
  err : Option DeliveryError
  refused : List Bytes
  taken : List (List Bytes)
  deriving DecidableEq

/-- `strings.SplitN(rcpt, "@", 2)`, with the domain in lower case. -/
def domainOf (toLower : Bytes → Bytes) (rcpt : Bytes) : Option Bytes :=
  (cut 64 rcpt).map fun parts => toLower parts.2

def byDomain (toLower : Bytes → Bytes) (recipients : List Bytes) (domain : Bytes) : List Bytes :=
  recipients.filter fun rcpt => domainOf toLower rcpt = some domain

/-- An order in which the domains of the recipients can come: that of a map. -/
structure Iteration (toLower : Bytes → Bytes) (recipients : List Bytes) where
  order : List Bytes
  nodup : order.Nodup
  exact : ∀ domain, domain ∈ order ↔ ∃ rcpt ∈ recipients, domainOf toLower rcpt = some domain

def Iteration.eachOnce (toLower : Bytes → Bytes) (recipients : List Bytes) :
    Iteration toLower recipients where
  order := (recipients.filterMap (domainOf toLower)).dedup
  nodup := List.nodup_dedup _
  exact domain := by rw [List.mem_dedup, List.mem_filterMap]

def deliverDomains (lookup : Bytes → Option (List Host)) (group : Bytes → List Bytes) :
    Outcome → List Bytes → Outcome
  | sofar, [] => sofar
  | sofar, domain :: rest =>
    match lookup domain with
    | none => { sofar with permanentFails := [], relayed := [], err := some (.mxLookup domain) }
    | some hosts =>
      let tried := tryHosts cfg env domain (group domain) none hosts
      let next : Outcome := {
        permanentFails := sofar.permanentFails ++ tried.permanentFails
        relayed := sofar.relayed ++ tried.relayed
        err := none
        refused := sofar.refused ++ tried.permanentFails
        taken := sofar.taken ++ tried.taken }
      match tried.lastErr with
      | some error => { next with relayed := [], err := some (.allHostsFailed domain error) }
      | none => deliverDomains lookup group next rest

def Outcome.start : Outcome := ⟨[], [], none, [], []⟩

/-- `toLower` is `strings.ToLower`; what it does to text outside ASCII is left
open. `lookup` answers for every domain once. -/
def deliverViaMX (toLower : Bytes → Bytes) (lookup : Bytes → Option (List Host))
    (recipients : List Bytes) (iteration : Iteration toLower recipients) : Outcome :=
  deliverDomains cfg env lookup (byDomain toLower recipients) Outcome.start iteration.order

end Domains

section Offers

variable (rcpt : Nat → Reply)

/-- `count` answers from `start` on let the transaction go on. -/
def HeardFrom (start count : Nat) : Prop :=
  ∀ place < count, rcpt (start + place) = .ok ∨ rcpt (start + place) = .permanent

theorem heardFrom_succ (start count : Nat) :
    HeardFrom rcpt start (count + 1) ↔
      (rcpt start = .ok ∨ rcpt start = .permanent) ∧ HeardFrom rcpt (start + 1) count := by
  constructor
  · intro heard
    refine ⟨heard 0 (Nat.succ_pos count), fun place below => ?_⟩
    have next := heard (place + 1) (Nat.succ_lt_succ below)
    rwa [show start + (place + 1) = start + 1 + place by omega] at next
  · rintro ⟨first, later⟩ place below
    cases place with
    | zero => exact first
    | succ place =>
      have next := later place (Nat.lt_of_succ_lt_succ below)
      rwa [show start + 1 + place = start + (place + 1) by omega] at next

/-- Some recipient from `start` on was answered so, and all before it were heard. -/
def AnsweredFrom (answer : Reply) (start : Nat) (rcpts : List Bytes) (recipient : Bytes) : Prop :=
  ∃ place, rcpts[place]? = some recipient ∧ rcpt (start + place) = answer ∧
    HeardFrom rcpt start place

theorem answeredFrom_cons (answer : Reply) (start : Nat) (first : Bytes) (rest : List Bytes)
    (recipient : Bytes) :
    AnsweredFrom rcpt answer start (first :: rest) recipient ↔
      (first = recipient ∧ rcpt start = answer) ∨ ((rcpt start = .ok ∨ rcpt start = .permanent) ∧
          AnsweredFrom rcpt answer (start + 1) rest recipient) := by
  constructor
  · rintro ⟨place, found, answered, heard⟩
    cases place with
    | zero => exact .inl ⟨Option.some.inj found, answered⟩
    | succ place =>
      have both := (heardFrom_succ rcpt start place).mp heard
      rw [show start + (place + 1) = start + 1 + place by omega] at answered
      exact .inr ⟨both.1, place, found, answered, both.2⟩
  · rintro (⟨rfl, answered⟩ | ⟨heard, place, found, answered, later⟩)
    · exact ⟨0, rfl, answered, fun place below => absurd below (Nat.not_lt_zero place)⟩
    · refine ⟨place + 1, found, ?_, (heardFrom_succ rcpt start place).mpr ⟨heard, later⟩⟩
      rwa [show start + (place + 1) = start + 1 + place by omega]

theorem mem_offer (start : Nat) (rcpts : List Bytes) (recipient : Bytes) :
    (recipient ∈ (offer rcpt start rcpts).permanentFails ↔
      AnsweredFrom rcpt .permanent start rcpts recipient) ∧
    (recipient ∈ (offer rcpt start rcpts).accepted ↔
      AnsweredFrom rcpt .ok start rcpts recipient) := by
  induction rcpts generalizing start with
  | nil => simp [offer, AnsweredFrom]
  | cons first rest ih =>
    rw [answeredFrom_cons, answeredFrom_cons, ← (ih _).1, ← (ih _).2]
    cases answer : rcpt start <;> simp [offer, answer, eq_comm]

theorem stopped_none (start : Nat) (rcpts : List Bytes) :
    (offer rcpt start rcpts).stopped = none ↔ HeardFrom rcpt start rcpts.length := by
  induction rcpts generalizing start with
  | nil => simp [offer, HeardFrom]
  | cons first rest ih =>
    rw [List.length_cons, heardFrom_succ, ← ih]
    cases answer : rcpt start <;> simp [offer, answer]

/-- Without a stop every recipient is on one side or the other. -/
theorem offer_perm (start : Nat) (rcpts : List Bytes)
    (heard : HeardFrom rcpt start rcpts.length) :
    ((offer rcpt start rcpts).permanentFails ++ (offer rcpt start rcpts).accepted).Perm rcpts := by
  induction rcpts generalizing start with
  | nil => exact .refl _
  | cons first rest ih =>
    have both := (heardFrom_succ rcpt start rest.length).mp heard
    have later := ih (start + 1) both.2
    rcases both.1 with answer | answer
    · simp only [offer, answer]
      exact List.perm_middle.trans (later.cons first)
    · simp only [offer, answer]
      exact later.cons first

end Offers

section Answers

variable (cfg : Config) (env : Option (Bytes → Bool)) (rcpts : List Bytes) (host : Host)

def Reached : Prop :=
  host.policy.mxAuthorized = true ∧ greet cfg host.policy host.remote = .ok () ∧
    host.remote.mail = .ok

def Refuses (rcpt : Bytes) : Prop :=
  Reached cfg host ∧ AnsweredFrom host.remote.rcpt .permanent 0 rcpts rcpt

def Accepts (rcpt : Bytes) : Prop :=
  Reached cfg host ∧ HeardFrom host.remote.rcpt 0 rcpts.length ∧
    AnsweredFrom host.remote.rcpt .ok 0 rcpts rcpt ∧
    host.remote.data = .ok ∧ host.remote.endOfData = .ok

def Completes : Prop :=
  Reached cfg host ∧ HeardFrom host.remote.rcpt 0 rcpts.length ∧ host.remote.quit = .ok ∧
    ((∃ rcpt, AnsweredFrom host.remote.rcpt .ok 0 rcpts rcpt) →
      host.remote.data = .ok ∧ host.remote.endOfData = .ok)

def hostSend : Sent := sendToHostOpts cfg env host.policy host.remote rcpts

variable {host}

theorem hostSend_unreached (authorized : host.policy.mxAuthorized = true)
    (unreached : ¬ Reached cfg host) :
    ∃ error, hostSend cfg env rcpts host = ⟨[], [], some error, []⟩ := by
  simp only [Reached, authorized, true_and, not_and] at unreached
  rw [hostSend, sendToHostOpts]
  cases greeted : greet cfg host.policy host.remote with
  | error error => exact ⟨error, rfl⟩
  | ok done => exact ⟨_, if_pos (unreached greeted)⟩

theorem hostSend_stopped (reached : Reached cfg host)
    (unheard : ¬ HeardFrom host.remote.rcpt 0 rcpts.length) :
    ∃ error, hostSend cfg env rcpts host =
      ⟨(offer host.remote.rcpt 0 rcpts).permanentFails, [], some error, []⟩ := by
  obtain ⟨authorized, greeted, mailed⟩ := reached
  rw [← stopped_none] at unheard
  obtain ⟨⟨rcpt, reply⟩, stopped⟩ := Option.ne_none_iff_exists'.mp unheard
  refine ⟨.rcptTo rcpt reply, ?_⟩
  simp [hostSend, sendToHostOpts, greeted, mailed, stopped]

theorem hostSend_heard (reached : Reached cfg host)
    (heard : HeardFrom host.remote.rcpt 0 rcpts.length) :
    (hostSend cfg env rcpts host).permanentFails = (offer host.remote.rcpt 0 rcpts).permanentFails ∧
      (hostSend cfg env rcpts host).taken = (if host.remote.data = .ok ∧ host.remote.endOfData = .ok
          then (offer host.remote.rcpt 0 rcpts).accepted else []) ∧
      ((hostSend cfg env rcpts host).err = none ↔ host.remote.quit = .ok ∧
        ((offer host.remote.rcpt 0 rcpts).accepted ≠ [] →
          host.remote.data = .ok ∧ host.remote.endOfData = .ok)) := by
  obtain ⟨authorized, greeted, mailed⟩ := reached
  have stopped := (stopped_none host.remote.rcpt 0 rcpts).mpr heard
  have total := (offer_perm host.remote.rcpt 0 rcpts heard).length_eq
  rw [List.length_append] at total
  simp only [hostSend, sendToHostOpts, greeted, mailed, stopped]
  by_cases all : (offer host.remote.rcpt 0 rcpts).permanentFails.length = rcpts.length
  · have none_left : (offer host.remote.rcpt 0 rcpts).accepted = [] := by
      apply List.eq_nil_of_length_eq_zero
      omega
    by_cases quit : host.remote.quit = .ok <;> simp [all, none_left, quit]
  · have some_left : (offer host.remote.rcpt 0 rcpts).accepted ≠ [] := by
      intro empty
      rw [empty, List.length_nil] at total
      omega
    by_cases data : host.remote.data = .ok <;> by_cases ended : host.remote.endOfData = .ok <;>
      by_cases quit : host.remote.quit = .ok <;> simp [all, some_left, data, ended, quit]

section

variable (authorized : host.policy.mxAuthorized = true)
include authorized

theorem mem_hostSend_fails (rcpt : Bytes) :
    rcpt ∈ (hostSend cfg env rcpts host).permanentFails ↔ Refuses cfg rcpts host rcpt := by
  by_cases reached : Reached cfg host
  · have refuses : Refuses cfg rcpts host rcpt ↔
        rcpt ∈ (offer host.remote.rcpt 0 rcpts).permanentFails := by
      rw [(mem_offer ..).1, Refuses, and_iff_right reached]
    rw [refuses]
    by_cases heard : HeardFrom host.remote.rcpt 0 rcpts.length
    · rw [(hostSend_heard cfg env rcpts reached heard).1]
    · obtain ⟨error, sent⟩ := hostSend_stopped cfg env rcpts reached heard
      rw [sent]
  · obtain ⟨error, sent⟩ := hostSend_unreached cfg env rcpts authorized reached
    rw [sent]
    simp [Refuses, reached]

theorem mem_hostSend_taken (rcpt : Bytes) :
    rcpt ∈ (hostSend cfg env rcpts host).taken ↔ Accepts cfg rcpts host rcpt := by
  by_cases reached : Reached cfg host
  · by_cases heard : HeardFrom host.remote.rcpt 0 rcpts.length
    · rw [(hostSend_heard cfg env rcpts reached heard).2.1, Accepts, ← (mem_offer ..).2]
      by_cases done : host.remote.data = .ok ∧ host.remote.endOfData = .ok
      · simp [done, reached, heard]
      · simp [done]
    · obtain ⟨error, sent⟩ := hostSend_stopped cfg env rcpts reached heard
      simp [sent, Accepts, heard]
  · obtain ⟨error, sent⟩ := hostSend_unreached cfg env rcpts authorized reached
    simp [sent, Accepts, reached]

theorem hostSend_err :
    (hostSend cfg env rcpts host).err = none ↔ Completes cfg rcpts host := by
  by_cases reached : Reached cfg host
  · by_cases heard : HeardFrom host.remote.rcpt 0 rcpts.length
    · have someone : (offer host.remote.rcpt 0 rcpts).accepted ≠ [] ↔
          ∃ rcpt, AnsweredFrom host.remote.rcpt .ok 0 rcpts rcpt := by
        simp only [← (mem_offer ..).2]
        constructor
        · exact List.exists_mem_of_ne_nil _
        · rintro ⟨rcpt, member⟩
          exact List.ne_nil_of_mem member
      rw [(hostSend_heard cfg env rcpts reached heard).2.2, someone, Completes,
        and_iff_right reached, and_iff_right heard]
    · obtain ⟨error, sent⟩ := hostSend_stopped cfg env rcpts reached heard
      simp [sent, Completes, heard]
  · obtain ⟨error, sent⟩ := hostSend_unreached cfg env rcpts authorized reached
    simp [sent, Completes, reached]

end

/-- A host that completes has refused or taken over every copy it was offered. -/
theorem hostSend_perm (completes : Completes cfg rcpts host) :
    ((hostSend cfg env rcpts host).permanentFails ++
      (hostSend cfg env rcpts host).taken).Perm rcpts := by
  obtain ⟨reached, heard, -, done⟩ := completes
  obtain ⟨fails, taken, -⟩ := hostSend_heard cfg env rcpts reached heard
  have whole := offer_perm host.remote.rcpt 0 rcpts heard
  rw [fails, taken]
  by_cases someone : (offer host.remote.rcpt 0 rcpts).accepted = []
  · rw [someone, ite_self]
    rwa [someone] at whole
  · obtain ⟨rcpt, member⟩ := List.exists_mem_of_ne_nil _ someone
    rw [if_pos (done ⟨rcpt, (mem_offer _ 0 rcpts rcpt).2.mp member⟩)]
    exact whole

end Answers

section Hosts

variable (cfg : Config) (env : Option (Bytes → Bool)) (rcpts : List Bytes)

def hostFails (host : Host) : List Bytes :=
  if host.policy.mxAuthorized then (hostSend cfg env rcpts host).permanentFails else []

theorem mem_hostFails (host : Host) (rcpt : Bytes) :
    rcpt ∈ hostFails cfg env rcpts host ↔ Refuses cfg rcpts host rcpt := by
  by_cases authorized : host.policy.mxAuthorized = true
  · rw [hostFails, if_pos authorized]
    exact mem_hostSend_fails cfg env rcpts authorized rcpt
  · simp [hostFails, authorized, Refuses, Reached]

/-- The hosts that were tried: up to the first that completes, or all. -/
inductive Trail : List Host → List Host → Prop
  | whole {hosts : List Host} (none_completes : ∀ host ∈ hosts, ¬ Completes cfg rcpts host) :
      Trail hosts hosts
  | ended (before : List Host) {after : List Host} {host : Host}
      (none_before : ∀ earlier ∈ before, ¬ Completes cfg rcpts earlier)
      (completes : Completes cfg rcpts host) :
      Trail (before ++ host :: after) (before ++ [host])

variable {cfg rcpts}

theorem Trail.cons {host : Host} {hosts trail : List Host}
    (incomplete : ¬ Completes cfg rcpts host) (rest : Trail cfg rcpts hosts trail) :
    Trail cfg rcpts (host :: hosts) (host :: trail) := by
  cases rest with
  | whole none_completes =>
    exact .whole (List.forall_mem_cons.mpr ⟨incomplete, none_completes⟩)
  | ended before none_before completes =>
    exact Trail.ended (host :: before) (List.forall_mem_cons.mpr ⟨incomplete, none_before⟩)
      completes

variable (cfg rcpts)

section Loop

variable (domain : Bytes) (lastErr : Option HostError) (host : Host) (rest : List Host)

theorem tryHosts_skip (skipped : ¬ host.policy.mxAuthorized = true) :
    tryHosts cfg env domain rcpts lastErr (host :: rest) =
      tryHosts cfg env domain rcpts (some (.notAuthorized host.name domain)) rest := by
  rw [tryHosts, if_pos (by simpa using skipped)]

theorem tryHosts_done (authorized : host.policy.mxAuthorized = true)
    (done : (hostSend cfg env rcpts host).err = none) :
    tryHosts cfg env domain rcpts lastErr (host :: rest) =
      ⟨(hostSend cfg env rcpts host).permanentFails,
        (hostSend cfg env rcpts host).relayedNoDSN, none,
        [(hostSend cfg env rcpts host).taken]⟩ := by
  rw [hostSend] at done
  simp [tryHosts, authorized, done, hostSend]

theorem tryHosts_next (authorized : host.policy.mxAuthorized = true) (error : HostError)
    (failed : (hostSend cfg env rcpts host).err = some error) :
    tryHosts cfg env domain rcpts lastErr (host :: rest) =
      { tryHosts cfg env domain rcpts (some error) rest with
        permanentFails := (hostSend cfg env rcpts host).permanentFails ++
          (tryHosts cfg env domain rcpts (some error) rest).permanentFails
        taken := (hostSend cfg env rcpts host).taken ::
          (tryHosts cfg env domain rcpts (some error) rest).taken } := by
  rw [hostSend] at failed
  simp [tryHosts, authorized, failed, hostSend]

end Loop

/-- Induction on the hosts: what the tried hosts refused and took over, and
whether an error is left. -/
theorem tryHosts_trail (domain : Bytes) (lastErr : Option HostError) (hosts : List Host) :
    ∃ trail, Trail cfg rcpts hosts trail ∧
      (tryHosts cfg env domain rcpts lastErr hosts).permanentFails =
        trail.flatMap (hostFails cfg env rcpts) ∧
      (∀ rcpt, (∃ taken ∈ (tryHosts cfg env domain rcpts lastErr hosts).taken, rcpt ∈ taken) ↔
        ∃ host ∈ trail, Accepts cfg rcpts host rcpt) ∧
      ((tryHosts cfg env domain rcpts lastErr hosts).lastErr = none ↔
        (∃ host ∈ hosts, Completes cfg rcpts host) ∨ hosts = [] ∧ lastErr = none) := by
  induction hosts generalizing lastErr with
  | nil =>
    refine ⟨[], .whole (List.forall_mem_nil _), rfl, ?_, ?_⟩
    · simp [tryHosts]
    · simp [tryHosts]
  | cons host rest ih =>
    by_cases authorized : host.policy.mxAuthorized = true
    · have completed := hostSend_err cfg env rcpts authorized
      have taken := mem_hostSend_taken cfg env rcpts authorized
      have fails : hostFails cfg env rcpts host = (hostSend cfg env rcpts host).permanentFails :=
        if_pos authorized
      cases sent : (hostSend cfg env rcpts host).err with
      | none =>
        have completes := completed.mp sent
        have trail : Trail cfg rcpts (host :: rest) [host] :=
          Trail.ended [] (List.forall_mem_nil _) completes
        rw [tryHosts_done cfg env rcpts domain lastErr host rest authorized sent]
        refine ⟨[host], trail, ?_, ?_, ?_⟩
        · simp [fails]
        · simp [taken]
        · simp [completes]
      | some error =>
        have incomplete : ¬ Completes cfg rcpts host := fun completes => by
          rw [completed.mpr completes] at sent
          cases sent
        rw [tryHosts_next cfg env rcpts domain lastErr host rest authorized error sent]
        obtain ⟨trail, tried, refused, accepted, left⟩ := ih (some error)
        refine ⟨host :: trail, tried.cons incomplete, ?_, ?_, ?_⟩
        · simp [fails, refused]
        · simp [taken, accepted]
        · simp [left, incomplete]
    · have incomplete : ¬ Completes cfg rcpts host := fun completes =>
        authorized completes.1.1
      rw [tryHosts_skip cfg env rcpts domain lastErr host rest authorized]
      obtain ⟨trail, tried, refused, accepted, left⟩ :=
        ih (some (.notAuthorized host.name domain))
      refine ⟨host :: trail, tried.cons incomplete, ?_, ?_, ?_⟩
      · simp [hostFails, authorized, refused]
      · simp [accepted, Accepts, Reached, authorized]
      · simp [left, incomplete]

end Hosts

section Deliveries

variable (cfg : Config) (env : Option (Bytes → Bool)) (lookup : Bytes → Option (List Host))
  (group : Bytes → List Bytes)

/-- The domain ends the delivery: its hosts are not found, or none completes. -/
def DomainFails (domain : Bytes) : Prop :=
  lookup domain = none ∨ ∃ hosts, lookup domain = some hosts ∧ hosts ≠ [] ∧
    ∀ host ∈ hosts, ¬ Completes cfg (group domain) host

def domainTried (domain : Bytes) : Tried :=
  match lookup domain with
  | none => ⟨[], [], none, []⟩
  | some hosts => tryHosts cfg env domain (group domain) none hosts

theorem domain_left {domain : Bytes} {hosts : List Host} (found : lookup domain = some hosts) :
    (tryHosts cfg env domain (group domain) none hosts).lastErr = none ↔
      ¬ DomainFails cfg lookup group domain := by
  obtain ⟨trail, -, -, -, left⟩ := tryHosts_trail cfg env (group domain) domain none hosts
  rw [left]
  constructor
  · rintro (⟨host, member, completes⟩ | ⟨empty, -⟩) (missing | ⟨others, same, nonempty, none⟩)
    · cases found.symm.trans missing
    · cases found.symm.trans same
      exact none host member completes
    · cases found.symm.trans missing
    · cases found.symm.trans same
      exact nonempty empty
  · intro passes
    by_cases empty : hosts = []
    · exact .inr ⟨empty, rfl⟩
    left
    by_contra none
    refine passes (.inr ⟨hosts, found, empty, fun host member completes => ?_⟩)
    exact none ⟨host, member, completes⟩

/-- How a delivery ends, in terms of the domains it got to. -/
inductive Ends (sofar : Outcome) : List Bytes → Outcome → Prop
  | done {order : List Bytes} {out : Outcome}
      (passed : ∀ domain ∈ order, ¬ DomainFails cfg lookup group domain)
      (noError : out.err = none)
      (fails : out.permanentFails = sofar.permanentFails ++
        order.flatMap fun domain => (domainTried cfg env lookup group domain).permanentFails)
      (taken : out.taken = sofar.taken ++
        order.flatMap fun domain => (domainTried cfg env lookup group domain).taken) :
      Ends sofar order out
  | failed (before : List Bytes) {after : List Bytes} {domain : Bytes} {out : Outcome}
      (passed : ∀ earlier ∈ before, ¬ DomainFails cfg lookup group earlier)
      (fails : DomainFails cfg lookup group domain) (error : out.err ≠ none)
      (refused : out.refused = sofar.refused ++ (before ++ [domain]).flatMap
        fun domain => (domainTried cfg env lookup group domain).permanentFails)
      (taken : out.taken = sofar.taken ++ (before ++ [domain]).flatMap
        fun domain => (domainTried cfg env lookup group domain).taken)
      (returned : out.permanentFails = if lookup domain = none then [] else out.refused) :
      Ends sofar (before ++ domain :: after) out

/-- The outcome after a domain that does not fail. -/
def domainDone (sofar : Outcome) (domain : Bytes) : Outcome where
  permanentFails := sofar.permanentFails ++ (domainTried cfg env lookup group domain).permanentFails
  relayed := sofar.relayed ++ (domainTried cfg env lookup group domain).relayed
  err := none
  refused := sofar.refused ++ (domainTried cfg env lookup group domain).permanentFails
  taken := sofar.taken ++ (domainTried cfg env lookup group domain).taken

variable {cfg env lookup group}

theorem Ends.cons {sofar out : Outcome} {domain : Bytes} {rest : List Bytes}
    (passes : ¬ DomainFails cfg lookup group domain)
    (ends : Ends cfg env lookup group (domainDone cfg env lookup group sofar domain) rest out) :
    Ends cfg env lookup group sofar (domain :: rest) out := by
  cases ends with
  | done passed noError fails taken =>
    refine .done ?_ noError ?_ ?_
    · exact List.forall_mem_cons.mpr ⟨passes, passed⟩
    · rw [fails, List.flatMap_cons, ← List.append_assoc]
      rfl
    · rw [taken, List.flatMap_cons, ← List.append_assoc]
      rfl
  | failed before passed fails error refused taken returned =>
    rename_i after last
    refine .failed (domain :: before) ?_ fails error ?_ ?_ returned
    · exact List.forall_mem_cons.mpr ⟨passes, passed⟩
    · rw [refused, List.cons_append, List.flatMap_cons, ← List.append_assoc]
      rfl
    · rw [taken, List.cons_append, List.flatMap_cons, ← List.append_assoc]
      rfl

variable (cfg env lookup group)

theorem deliverDomains_ends (sofar : Outcome) (noError : sofar.err = none)
    (kept : sofar.refused = sofar.permanentFails) (order : List Bytes) :
    Ends cfg env lookup group sofar order (deliverDomains cfg env lookup group sofar order) := by
  induction order generalizing sofar with
  | nil =>
    refine .done (List.forall_mem_nil _) noError ?_ ?_
    · simp [deliverDomains]
    · simp [deliverDomains]
  | cons domain rest ih =>
    have first : ∀ earlier ∈ ([] : List Bytes), ¬ DomainFails cfg lookup group earlier :=
      List.forall_mem_nil _
    cases found : lookup domain with
    | none =>
      have tried : domainTried cfg env lookup group domain = ⟨[], [], none, []⟩ := by
        rw [domainTried, found]
      refine .failed [] first (.inl found) ?_ ?_ ?_ ?_
      all_goals simp [deliverDomains, found, tried]
    | some hosts =>
      have tried : tryHosts cfg env domain (group domain) none hosts =
          domainTried cfg env lookup group domain := by
        rw [domainTried, found]
      have left := domain_left cfg env lookup group found
      rw [tried] at left
      rw [deliverDomains, found]
      simp only [tried]
      cases last : (domainTried cfg env lookup group domain).lastErr with
      | some error =>
        have fails : DomainFails cfg lookup group domain := by
          by_contra passes
          rw [left.mpr passes] at last
          cases last
        refine .failed [] first fails ?_ ?_ ?_ ?_
        all_goals simp [found, kept]
      | none => exact (ih (domainDone cfg env lookup group sofar domain) rfl
          (congrArg (· ++ _) kept)).cons (left.mp last)

end Deliveries

end Bongo.Relay
