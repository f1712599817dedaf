import Bongo.Relay

/-!
What the relay says to the hosts it connects to, and to whom it gives the
configured credentials. Whether a connection goes to the smarthost or to a host
that a recipient's DNS names is settled before the connection is made; the code
that decides on AUTH no longer knows.
-/

namespace Bongo.Relay

open ByteKeys Records

section Commands

inductive Command where
  | auth (username password : Bytes)
  | mail
  | rcpt (recipient : Bytes)
  | data
  | quit
  deriving DecidableEq

/-- The relay section of the configuration; without one the relay behaves as with
an empty one. -/
structure SMTPRelay where
  enabled : Bool
  host : Bytes
  username : Bytes
  password : Bytes
  allowInsecureAuth : Bool
  deriving DecidableEq

def SMTPRelay.config (cfg : SMTPRelay) : Config := ⟨cfg.username ≠ [], cfg.allowInsecureAuth⟩

/-- Up to the final EHLO; the answer says whether TLS was completed. -/
def approach (pol : TLSPolicy) (remote : Responder) : Except HostError Bool := do
  reject .connecting (remote.dials = false)
  let offered ← orError .ehlo remote.probe
  let tlsCompleted ← secure pol remote offered
  reject .ehlo (remote.hello = false)
  return tlsCompleted

def authenticate (cfg : SMTPRelay) (remote : Responder) (tlsCompleted : Bool) :
    List Command × Except HostError Unit :=
  match shouldSendAuth tlsCompleted cfg.config.hasCreds cfg.config.allowInsecure with
  | .error error => ([], .error error)
  | .ok false => ([], .ok ())
  | .ok true =>
    if remote.offersAuth = false then ([], .error .authUnsupported)
    else
      ([.auth cfg.username cfg.password],
        if remote.auth ≠ .ok then .error (.auth remote.auth) else .ok ())

def rcptCommands (rcpt : Nat → Reply) : Nat → List Bytes → List Command
  | _, [] => []
  | place, recipient :: rest =>
    .rcpt recipient ::
      match rcpt place with
      | .ok => rcptCommands rcpt (place + 1) rest
      | .permanent => rcptCommands rcpt (place + 1) rest
      | _ => []

/-- What follows the recipients: nothing once one of them stopped the transaction, and
DATA only if one of them was taken. -/
def closing (remote : Responder) (recipients : List Bytes) : List Command :=
  let offered := offer remote.rcpt 0 recipients
  if offered.stopped.isSome then []
  else if offered.permanentFails.length = recipients.length then [.quit]
  else if remote.data ≠ .ok ∨ remote.endOfData ≠ .ok then [.data]
  else [.data, .quit]

def transact (remote : Responder) (recipients : List Bytes) : List Command :=
  .mail :: if remote.mail ≠ .ok then []
    else rcptCommands remote.rcpt 0 recipients ++ closing remote recipients

structure Connection where
  addr : Bytes
  tls : Bool
  commands : List Command
  deriving DecidableEq

/-- One connection: what was said over it, and what `sendToHostOpts` returns. -/
def converse (cfg : SMTPRelay) (env : Option (Bytes → Bool)) (addr : Bytes) (pol : TLSPolicy)
    (remote : Responder) (recipients : List Bytes) : Connection × Sent :=
  match approach pol remote with
  | .error error => (⟨addr, false, []⟩, ⟨[], [], some error, []⟩)
  | .ok tlsCompleted =>
    let greeted := authenticate cfg remote tlsCompleted
    match greeted.2 with
    | .error error => (⟨addr, tlsCompleted, greeted.1⟩, ⟨[], [], some error, []⟩)
    | .ok _ =>
      (⟨addr, tlsCompleted, greeted.1 ++ transact remote recipients⟩,
        sendToHostOpts cfg.config env pol remote recipients)

variable (cfg : SMTPRelay) (env : Option (Bytes → Bool)) (addr : Bytes) (pol : TLSPolicy)
  (remote : Responder) (recipients : List Bytes)

theorem greet_split : greet cfg.config pol remote =
    match approach pol remote with
    | .error error => .error error
    | .ok tlsCompleted => (authenticate cfg remote tlsCompleted).2 := by
  simp only [greet, approach, bind, Except.bind, pure, Except.pure]
  cases reject HostError.connecting (remote.dials = false) with
  | error error => rfl
  | ok dialled =>
    cases orError HostError.ehlo remote.probe with
    | error error => rfl
    | ok offered =>
      dsimp only
      cases secure pol remote offered with
      | error error => rfl
      | ok tlsCompleted =>
        cases reject HostError.ehlo (remote.hello = false) with
        | error error => rfl
        | ok greeted =>
          simp only [authenticate]
          cases shouldSendAuth tlsCompleted cfg.config.hasCreds
              cfg.config.allowInsecure with
          | error error => rfl
          | ok send =>
            cases send with
            | false => rfl
            | true =>
              simp only [reject]
              split_ifs <;> rfl

/-- The transcript belongs to the transaction of the relay. -/
theorem converse_sent : (converse cfg env addr pol remote recipients).2 =
    sendToHostOpts cfg.config env pol remote recipients := by
  have split := greet_split cfg pol remote
  unfold converse
  cases approached : approach pol remote with
  | error error =>
    simp only [approached] at split
    simp [sendToHostOpts, split]
  | ok tlsCompleted =>
    simp only [approached] at split
    cases said : (authenticate cfg remote tlsCompleted).2 with
    | error error =>
      simp only [said] at split ⊢
      simp [sendToHostOpts, split]
    | ok done => simp only [said]

theorem auth_not_mem_rcptCommands (rcpt : Nat → Reply) (place : Nat) (username password : Bytes) :
    Command.auth username password ∉ rcptCommands rcpt place recipients := by
  induction recipients generalizing place with
  | nil => exact List.not_mem_nil
  | cons recipient rest ih =>
    intro said
    rcases List.mem_cons.mp said with same | later
    · cases same
    cases answer : rcpt place with
    | ok | permanent => exact ih (place + 1) (by simpa only [answer] using later)
    | temporary | drop => simp only [answer, List.not_mem_nil] at later

theorem auth_not_mem_transact (username password : Bytes) :
    Command.auth username password ∉ transact remote recipients := by
  simp only [transact, closing]
  split_ifs
  all_goals simp [auth_not_mem_rcptCommands]

theorem authenticate_anonymous (nobody : cfg.username = []) (tlsCompleted : Bool) :
    authenticate cfg remote tlsCompleted = ([], .ok ()) := by
  simp [authenticate, shouldSendAuth, SMTPRelay.config, nobody]

/-- With credentials the connection ends silently, or AUTH is said where the guard
allows it. -/
theorem authenticate_named (named : cfg.username ≠ []) (tlsCompleted : Bool) :
    (∃ error, authenticate cfg remote tlsCompleted = ([], .error error)) ∨
      (tlsCompleted = true ∨ cfg.allowInsecureAuth = true) ∧
        ∃ result, authenticate cfg remote tlsCompleted =
          ([.auth cfg.username cfg.password], result) := by
  have creds : cfg.config.hasCreds = true := by simp [SMTPRelay.config, named]
  by_cases allowed : tlsCompleted = true ∨ cfg.config.allowInsecure = true
  · have sends : shouldSendAuth tlsCompleted cfg.config.hasCreds cfg.config.allowInsecure =
        .ok true := by simp [shouldSendAuth, creds, allowed]
    simp only [authenticate, sends]
    split
    · exact .inl ⟨_, rfl⟩
    · exact .inr ⟨allowed, _, rfl⟩
  · have guarded : shouldSendAuth tlsCompleted cfg.config.hasCreds cfg.config.allowInsecure =
        .error .authGuard := by simp [shouldSendAuth, creds, allowed]
    simp only [authenticate, guarded]
    exact .inl ⟨_, rfl⟩

/-- AUTH is said before MAIL or not at all, and only where the guard allows it. -/
theorem converse_auth {username password : Bytes}
    (said : .auth username password ∈ (converse cfg env addr pol remote recipients).1.commands) :
    cfg.username ≠ [] ∧ ((converse cfg env addr pol remote recipients).1.tls = true ∨
      cfg.allowInsecureAuth = true) := by
  have unsaid := auth_not_mem_transact remote recipients username password
  unfold converse at said ⊢
  cases approached : approach pol remote with
  | error error => simp only [approached, List.not_mem_nil] at said
  | ok tlsCompleted =>
    simp only [approached] at said ⊢
    by_cases nobody : cfg.username = []
    · simp only [authenticate_anonymous cfg remote nobody] at said
      exact absurd said unsaid
    rcases authenticate_named cfg remote nobody tlsCompleted with
      ⟨error, ends⟩ | ⟨allowed, result, sends⟩
    · simp only [ends, List.not_mem_nil] at said
    refine ⟨nobody, ?_⟩
    cases result with
    | error error | ok done => simpa only [sends] using allowed

end Commands

def dialed (cfg : SMTPRelay) (env : Option (Bytes → Bool)) (domainRcpts : List Bytes) :
    List Host → List Connection
  | [] => []
  | host :: rest =>
    if host.policy.mxAuthorized = false then dialed cfg env domainRcpts rest
    else
      let done := converse cfg env host.name host.policy host.remote domainRcpts
      done.1 ::
        match done.2.err with
        | none => []
        | some _ => dialed cfg env domainRcpts rest

def dialedDomains (cfg : SMTPRelay) (env : Option (Bytes → Bool))
    (lookup : Bytes → Option (List Host)) (group : Bytes → List Bytes) :
    List Bytes → List Connection
  | [] => []
  | domain :: rest =>
    match lookup domain with
    | none => []
    | some hosts =>
      dialed cfg env (group domain) hosts ++
        match (tryHosts cfg.config env domain (group domain) none hosts).lastErr with
        | none => dialedDomains cfg env lookup group rest
        | some _ => []

structure World (toLower : Bytes → Bytes) (recipients : List Bytes) where
  smarthost : Responder
  lookup : Bytes → Option (List Host)
  iteration : Iteration toLower recipients

inductive Answer where
  | viaRelay (sent : Sent)
  | viaMX (out : Outcome)
  deriving DecidableEq

def SMTPRelay.usesSmarthost (cfg : SMTPRelay) : Bool := cfg.enabled && cfg.host ≠ []

/-- Without the TLS policies, which are for hosts named by DNS. -/
def deliverViaRelay (cfg : SMTPRelay) (env : Option (Bytes → Bool)) (smarthost : Responder)
    (recipients : List Bytes) : Connection × Sent :=
  converse cfg env cfg.host ⟨false, true⟩ smarthost recipients

def deliver (cfg : SMTPRelay) (env : Option (Bytes → Bool)) {toLower : Bytes → Bytes}
    {recipients : List Bytes} (world : World toLower recipients) : Answer × List Connection :=
  if cfg.usesSmarthost then
    let done := deliverViaRelay cfg env world.smarthost recipients
    (.viaRelay done.2, [done.1])
  else
    (.viaMX (deliverViaMX cfg.config env toLower world.lookup recipients world.iteration),
      dialedDomains cfg env world.lookup (byDomain toLower recipients) world.iteration.order)

def SMTPRelay.anonymous (cfg : SMTPRelay) : SMTPRelay := { cfg with username := [], password := [] }

section Credentials

variable (cfg : SMTPRelay) (env : Option (Bytes → Bool))

def Host.Greets (host : Host) : Prop :=
  host.policy.mxAuthorized = true ∧ ∃ tlsCompleted, approach host.policy host.remote =
    .ok tlsCompleted

/-- A domain whose hosts all break off fails and ends the delivery, so the first
domain with any hosts decides whether a host is greeted. -/
def MeetsHost (lookup : Bytes → Option (List Host)) : List Bytes → Prop
  | [] => False
  | domain :: rest =>
    match lookup domain with
    | none => False
    | some [] => MeetsHost lookup rest
    | some hosts => ∃ host ∈ hosts, host.Greets

theorem mem_dialed {rcpts : List Bytes} {hosts : List Host} {connection : Connection}
    (made : connection ∈ dialed cfg env rcpts hosts) :
    ∃ host ∈ hosts, connection = (converse cfg env host.name host.policy host.remote rcpts).1 := by
  induction hosts with
  | nil => cases made
  | cons host rest ih =>
    have later : connection ∈ dialed cfg env rcpts rest → ∃ any ∈ host :: rest, connection =
        (converse cfg env any.name any.policy any.remote rcpts).1 := by
      intro inRest
      obtain ⟨any, member, same⟩ := ih inRest
      exact ⟨any, List.mem_cons_of_mem host member, same⟩
    simp only [dialed] at made
    split at made
    · exact later made
    rcases List.mem_cons.mp made with same | after
    · exact ⟨host, List.mem_cons_self, same⟩
    · split at after
      · cases after
      · exact later after

theorem mem_dialedDomains {lookup : Bytes → Option (List Host)} {group : Bytes → List Bytes}
    {order : List Bytes} {connection : Connection}
    (made : connection ∈ dialedDomains cfg env lookup group order) :
    ∃ (host : Host) (rcpts : List Bytes), connection =
      (converse cfg env host.name host.policy host.remote rcpts).1 := by
  induction order with
  | nil => cases made
  | cons domain rest ih =>
    simp only [dialedDomains] at made
    split at made
    · cases made
    rcases List.mem_append.mp made with here | after
    · obtain ⟨host, _, same⟩ := mem_dialed cfg env here
      exact ⟨host, _, same⟩
    · split at after
      · exact ih after
      · cases after

section

variable (nobody : cfg.username = [])
include nobody

theorem config_anonymous : cfg.config = cfg.anonymous.config := by
  simp [SMTPRelay.config, SMTPRelay.anonymous, nobody]

/-- Without a user name the password is never looked at. -/
theorem converse_anonymous (addr : Bytes) (pol : TLSPolicy) (remote : Responder)
    (recipients : List Bytes) :
    converse cfg env addr pol remote recipients =
      converse cfg.anonymous env addr pol remote recipients := by
  unfold converse
  cases approach pol remote with
  | error error => rfl
  | ok tlsCompleted =>
    simp [authenticate_anonymous cfg remote nobody, authenticate_anonymous cfg.anonymous remote rfl,
      config_anonymous cfg nobody]

theorem dialed_anonymous (rcpts : List Bytes) (hosts : List Host) :
    dialed cfg env rcpts hosts = dialed cfg.anonymous env rcpts hosts := by
  induction hosts with
  | nil => rfl
  | cons host rest ih =>
    simp [dialed, ih, converse_anonymous cfg env nobody]

theorem dialedDomains_anonymous (lookup : Bytes → Option (List Host)) (group : Bytes → List Bytes)
    (order : List Bytes) :
    dialedDomains cfg env lookup group order =
      dialedDomains cfg.anonymous env lookup group order := by
  induction order with
  | nil => rfl
  | cons domain rest ih =>
    simp [dialedDomains, ih, dialed_anonymous cfg env nobody, config_anonymous cfg nobody]

end

/-- Hosts that break off early are met alike with and without credentials. -/
theorem dialed_silent (other : SMTPRelay) (domain : Bytes) (rcpts : List Bytes)
    (lastErr : Option HostError) (hosts : List Host) (closed : ∀ host ∈ hosts, ¬ host.Greets) :
    dialed cfg env rcpts hosts = dialed other env rcpts hosts ∧
      tryHosts cfg.config env domain rcpts lastErr hosts =
        tryHosts other.config env domain rcpts lastErr hosts ∧
      (hosts ≠ [] ∨ lastErr ≠ none →
        (tryHosts cfg.config env domain rcpts lastErr hosts).lastErr ≠ none) := by
  induction hosts generalizing lastErr with
  | nil =>
    refine ⟨rfl, rfl, fun failed => ?_⟩
    rcases failed with impossible | failed
    · exact absurd rfl impossible
    · exact failed
  | cons host rest ih =>
    have closedRest := fun later member => closed later (List.mem_cons_of_mem host member)
    by_cases authorized : host.policy.mxAuthorized = false
    · obtain ⟨sameDialed, sameTried, fails⟩ :=
        ih (some (.notAuthorized host.name domain)) closedRest
      simp only [dialed, tryHosts, if_pos authorized]
      exact ⟨sameDialed, sameTried, fun _ => fails (.inr (by simp))⟩
    · cases approached : approach host.policy host.remote with
      | ok tlsCompleted =>
        exact absurd ⟨by simpa using authorized, tlsCompleted, approached⟩
          (closed host List.mem_cons_self)
      | error error =>
        have ends : ∀ any : SMTPRelay, converse any env host.name host.policy host.remote rcpts =
              (⟨host.name, false, []⟩, ⟨[], [], some error, []⟩) := by
          intro any
          simp [converse, approached]
        have sent : ∀ any : SMTPRelay, sendToHostOpts any.config env host.policy host.remote rcpts =
              ⟨[], [], some error, []⟩ := by
          intro any
          rw [← converse_sent any env host.name, ends any]
        obtain ⟨sameDialed, sameTried, fails⟩ := ih (some error) closedRest
        simp only [dialed, tryHosts, if_neg authorized, ends, sent, sameDialed, sameTried, true_and]
        intro _
        rw [← sameTried]
        exact fails (.inr (by simp))

/-- At the first host that is greeted the two deliveries part. -/
theorem dialed_part (named : cfg.username ≠ []) (rcpts : List Bytes) {hosts : List Host}
    (meets : ∃ host ∈ hosts, host.Greets) :
    ∃ shared mine theirs later others, mine ≠ theirs ∧
      dialed cfg env rcpts hosts = shared ++ mine :: later ∧
      dialed cfg.anonymous env rcpts hosts = shared ++ theirs :: others := by
  induction hosts with
  | nil =>
    obtain ⟨host, member, _⟩ := meets
    cases member
  | cons host rest ih =>
    have later : ¬ host.Greets → ∃ other ∈ rest, other.Greets := by
      intro stranger
      obtain ⟨other, member, greets⟩ := meets
      rcases List.mem_cons.mp member with rfl | inRest
      · exact absurd greets stranger
      · exact ⟨other, inRest, greets⟩
    by_cases authorized : host.policy.mxAuthorized = false
    · simp only [dialed, if_pos authorized]
      refine ih (later fun greets => ?_)
      rw [greets.1] at authorized
      cases authorized
    · simp only [dialed, if_neg authorized]
      cases approached : approach host.policy host.remote with
      | error error =>
        have closed : ¬ host.Greets := by
          rintro ⟨_, _, ok⟩
          rw [approached] at ok
          cases ok
        obtain ⟨shared, mine, theirs, after, others, different, left, right⟩ := ih (later closed)
        refine ⟨⟨host.name, false, []⟩ :: shared, mine, theirs, after, others, different, ?_, ?_⟩
        · simp [converse, approached, left]
        · simp [converse, approached, right]
      | ok tlsCompleted =>
        -- Without credentials the first command is MAIL; with them it never is.
        refine ⟨[], _, _, _, _, ?_, rfl, rfl⟩
        intro same
        have heads := congrArg (fun connection : Connection => connection.commands.head?) same
        have anonymously := authenticate_anonymous cfg.anonymous host.remote rfl tlsCompleted
        simp only [converse, approached, anonymously, transact, List.nil_append,
          List.head?_cons] at heads
        rcases authenticate_named cfg host.remote named tlsCompleted with
          ⟨error, ends⟩ | ⟨_, result, sends⟩
        · simp only [ends, List.head?_nil, reduceCtorEq] at heads
        cases result with
        | error _ | ok _ =>
          simp only [sends, List.cons_append, List.head?_cons, Option.some.injEq,
            reduceCtorEq] at heads

variable {lookup : Bytes → Option (List Host)} {group : Bytes → List Bytes} {order : List Bytes}

theorem domains_silent (other : SMTPRelay) (closed : ¬ MeetsHost lookup order) (sofar : Outcome) :
    dialedDomains cfg env lookup group order = dialedDomains other env lookup group order ∧
      deliverDomains cfg.config env lookup group sofar order =
        deliverDomains other.config env lookup group sofar order := by
  induction order generalizing sofar with
  | nil => exact ⟨rfl, rfl⟩
  | cons domain rest ih =>
    cases found : lookup domain with
    | none => simp [dialedDomains, deliverDomains, found]
    | some hosts =>
      cases hosts with
      | nil =>
        have closedRest : ¬ MeetsHost lookup rest := by
          simpa only [MeetsHost, found] using closed
        simp only [dialedDomains, deliverDomains, found]
        exact ⟨(ih closedRest sofar).1, (ih closedRest _).2⟩
      | cons host hosts =>
        have closedHosts : ∀ any ∈ host :: hosts, ¬ any.Greets := by
          intro any member greets
          apply closed
          simp only [MeetsHost, found]
          exact ⟨any, member, greets⟩
        obtain ⟨sameDialed, sameTried, fails⟩ :=
          dialed_silent cfg env other domain (group domain) none (host :: hosts) closedHosts
        obtain ⟨error, failed⟩ := Option.ne_none_iff_exists'.mp (fails (.inl (by simp)))
        have failedToo := failed
        rw [sameTried] at failedToo
        simp [dialedDomains, deliverDomains, found, sameDialed, sameTried, failedToo]

theorem domains_part (named : cfg.username ≠ []) (meets : MeetsHost lookup order) :
    dialedDomains cfg env lookup group order ≠
      dialedDomains cfg.anonymous env lookup group order := by
  induction order with
  | nil => exact absurd meets id
  | cons domain rest ih =>
    cases found : lookup domain with
    | none =>
      simp only [MeetsHost, found] at meets
    | some hosts =>
      cases hosts with
      | nil =>
        simp only [MeetsHost, found] at meets
        simp only [dialedDomains, found]
        exact ih meets
      | cons host hosts =>
        simp only [MeetsHost, found] at meets
        obtain ⟨shared, mine, theirs, later, others, different, left, right⟩ :=
          dialed_part cfg env named (group domain) meets
        simp only [dialedDomains, found, left, right, List.append_assoc]
        intro same
        exact different (List.cons.inj (List.append_cancel_left same)).1

/-- The credentials go to the enabled smarthost only, over TLS or where the operator
allows it without; a delivery to mail hosts is the one made without credentials. -/
structure Discreet {toLower : Bytes → Bytes} {recipients : List Bytes}
    (world : World toLower recipients) : Prop where
  auth : ∀ connection ∈ (deliver cfg env world).2, ∀ username password,
    .auth username password ∈ connection.commands →
      cfg.enabled = true ∧ cfg.host ≠ [] ∧ connection.addr = cfg.host ∧
        (connection.tls = true ∨ cfg.allowInsecureAuth = true)
  mx : cfg.usesSmarthost = false → deliver cfg env world = deliver cfg.anonymous env world

variable {cfg env} {toLower : Bytes → Bytes} {recipients : List Bytes}
  {world : World toLower recipients}

/-- A delivery to mail hosts that is the anonymous one gives nothing away. -/
theorem discreet_of_same (direct : cfg.usesSmarthost = false)
    (same : deliver cfg env world = deliver cfg.anonymous env world) : Discreet cfg env world where
  auth connection made username password said := by
    rw [same, deliver] at made
    have stillDirect : cfg.anonymous.usesSmarthost = false := direct
    rw [stillDirect] at made
    obtain ⟨host, rcpts, rfl⟩ := mem_dialedDomains cfg.anonymous env made
    exact absurd rfl (converse_auth cfg.anonymous env _ _ _ _ said).1
  mx _ := same

theorem discreet_smarthost (uses : cfg.usesSmarthost = true) : Discreet cfg env world where
  auth connection made username password said := by
    rw [deliver, if_pos uses] at made
    rw [List.mem_singleton.mp made] at said ⊢
    have enabled : cfg.enabled = true ∧ cfg.host ≠ [] := by
      simpa [SMTPRelay.usesSmarthost] using uses
    have addressed : (deliverViaRelay cfg env world.smarthost recipients).1.addr = cfg.host := by
      unfold deliverViaRelay converse
      split
      · rfl
      dsimp only
      split <;> rfl
    exact ⟨enabled.1, enabled.2, addressed, (converse_auth cfg env _ _ _ _ said).2⟩
  mx direct := by
    rw [uses] at direct
    cases direct

end Credentials

/-- The credentials are kept exactly where a smarthost is in use, no user name is
set, or no mail host of the first domain that has any is greeted. -/
theorem discreet_iff (cfg : SMTPRelay) (env : Option (Bytes → Bool)) {toLower : Bytes → Bytes}
    {recipients : List Bytes} (world : World toLower recipients) :
    Discreet cfg env world ↔ (cfg.enabled = true ∧ cfg.host ≠ []) ∨ cfg.username = [] ∨
      ¬ MeetsHost world.lookup world.iteration.order := by
  have uses : cfg.usesSmarthost = true ↔ cfg.enabled = true ∧ cfg.host ≠ [] := by
    simp [SMTPRelay.usesSmarthost]
  constructor
  · intro discreet
    by_contra exposed
    simp only [not_or, not_not] at exposed
    obtain ⟨noSmarthost, named, meets⟩ := exposed
    have direct : cfg.usesSmarthost = false := by
      rw [← Bool.not_eq_true, uses]
      exact noSmarthost
    have stillDirect : cfg.anonymous.usesSmarthost = false := direct
    have same := congrArg Prod.snd (discreet.mx direct)
    simp only [deliver, direct, stillDirect] at same
    exact domains_part cfg env named meets same
  · rintro (smarthost | kept)
    · exact discreet_smarthost (uses.mpr smarthost)
    cases direct : cfg.usesSmarthost with
    | true => exact discreet_smarthost direct
    | false =>
      apply discreet_of_same direct
      have stillDirect : cfg.anonymous.usesSmarthost = false := direct
      simp only [deliver, direct, stillDirect, Bool.false_eq_true, if_false, deliverViaMX]
      rcases kept with nobody | silent
      · rw [dialedDomains_anonymous cfg env nobody, config_anonymous cfg nobody]
      · rw [(domains_silent cfg env cfg.anonymous silent .start).1,
          (domains_silent cfg env cfg.anonymous silent .start).2]

def politeHost : Responder where
  dials := true
  probe := some true
  startTLS := .completed
  hello := true
  offersAuth := true
  auth := .ok
  mail := .ok
  rcpt _ := .ok
  data := .ok
  endOfData := .ok
  quit := .ok
  offersDSN := true

def sampleRcpts : List Bytes := [ascii "bob@b.example"]

def sampleWorld : World id sampleRcpts where
  smarthost := politeHost
  lookup _ := some [⟨ascii "mx.b.example", ⟨false, true⟩, politeHost⟩]
  iteration := Iteration.eachOnce id sampleRcpts

def switchedOff : SMTPRelay :=
  ⟨false, ascii "smart.example:587", ascii "bongo", ascii "secret", false⟩

/-- With the smarthost switched off, its user name and password go to the host that
the recipient's DNS names. -/
theorem credentials_sent_to_mail_host :
    (deliver switchedOff none sampleWorld).2 =
        [⟨ascii "mx.b.example", true, [.auth (ascii "bongo") (ascii "secret"), .mail,
          .rcpt (ascii "bob@b.example"), .data, .quit]⟩] ∧
      ¬ Discreet switchedOff none sampleWorld := by
  have log : (deliver switchedOff none sampleWorld).2 =
      [⟨ascii "mx.b.example", true, [.auth (ascii "bongo") (ascii "secret"), .mail,
        .rcpt (ascii "bob@b.example"), .data, .quit]⟩] := by decide
  refine ⟨log, fun discreet => ?_⟩
  have sent := discreet.auth _ (by rw [log]; exact List.mem_cons_self) (ascii "bongo")
    (ascii "secret") List.mem_cons_self
  have enabled : switchedOff.enabled = true := sent.1
  cases enabled

end Bongo.Relay
