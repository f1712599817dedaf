import Bongo.Queue
import Bongo.Srs
import Bongo.ByteSearch

/-!
The deliver stage of the inbound pipeline. Each recipient is resolved to a user,
whose copy is stored, answered as a booking, or left to a forward; the forwards
are decided by one gate and queued after the last recipient.

What the stage asks of its surroundings may be answered in any way: the `n`-th
call of a limiter, of the booking answerer and of the store has an answer of its
own, and the queue may refuse any message. Resolution, preferences and verified
targets do not change while one message is processed. Beside the result, the
outcome records what was stored and what was handed to the queue.
-/

namespace Bongo.Deliver

open ByteKeys Queue Srs

section Surroundings

/-- User IDs are UUIDs; what matters is that none contains a `|`. -/
structure UserID where
  text : Bytes
  plain : (124 : UInt8) ∉ text
  deriving DecidableEq

structure UserPreferences where
  forwardAddress : Bytes
  forwardKeepCopy : Bool
  deriving DecidableEq

structure ForwardRequest where
  userID : UserID
  target : Bytes
  deriving DecidableEq

structure StageResult where
  stage : Bytes
  action : Bytes
  deriving DecidableEq

structure QueueEnvelope where
  sender : Bytes
  recipients : List Bytes
  blobHash : Bytes
  targetMailbox : Bytes
  copyMailboxes : List Bytes
  discardNormal : Bool
  forwardRequests : List ForwardRequest
  stages : List StageResult
  spfResult : Bytes
  authUserId : Bytes
  delivered : Bool
  deriving DecidableEq

/-- The message read for the envelope. `tagged` says that its spam score reaches
the tag threshold, and `expired` that its time budget is spent before the first
write. -/
structure Mail where
  raw : Bytes
  tagged : Bool
  expired : Bool
  deriving DecidableEq

/-- A calendar part and its verified sender, empty if there is none. -/
structure Booking where
  part : Bytes
  method : Bytes
  sender : Bytes
  deriving DecidableEq

/-- `codec` also gives `strings.ToLower` and `strings.TrimSpace`, and is used
for rewriting only where `srs` is set. A lookup that fails answers `none`. -/
structure DeliverProcessor where
  codec : Codec
  equalFold : Bytes → Bytes → Bool
  resolver : Bytes → Option UserID
  prefs : Option (UserID → UserPreferences)
  hostedDomain : Option (Bytes → Bool)
  queuer : Option (OutboundMessage → Bool)
  fwdTargets : Option (UserID → Bytes → Option Bool)
  fwdLimiter : Option (Nat → UserID → Bool)
  strictFromAddress : Bytes → Option Bytes
  authorizer : Option (Bytes → Bytes → Option Bool)
  authorRL : Option (Nat → Bytes → Bool)
  userDomains : Option (UserID → Option Bytes)
  srs : Bool
  today : Nat
  srsAddrLimiter : Option (Nat → Bytes → Bool)
  srsGlobalLimiter : Option (Nat → Bytes → Bool)
  booking : QueueEnvelope → Bytes → Booking
  resourceBookings : Option (Nat → UserID → Booking → Bool)
  applier : Nat → UserID → Bytes → Bool
  forwardIDs : Nat → Bytes
  bounceIDs : Nat → Bytes

variable (p : DeliverProcessor) (env : QueueEnvelope) (mail : Mail)

def DeliverProcessor.toLower (text : Bytes) : Bytes := p.codec.table.lowerText text

def DeliverProcessor.trimSpace (text : Bytes) : Bytes := p.codec.trimSpace text

def DeliverProcessor.accepts (message : OutboundMessage) : Bool :=
  match p.queuer with
  | none => false
  | some enqueue => enqueue message

end Surroundings

section Addresses

variable (p : DeliverProcessor) (env : QueueEnvelope)

def splitLast (address : Bytes) : Option (Bytes × Bytes) :=
  (cut 64 address.reverse).map fun (domain, name) => (name.reverse, domain.reverse)

def noRelayLocal : Bytes := ascii "bongo-bounce-sink"

def bare (rcpt : Bytes) : Bytes :=
  trimSuffix (trimPrefix (p.trimSpace rcpt) (ascii "<")) (ascii ">")

def hostedLocal (form : Bytes → Bool) (rcpt : Bytes) : Bool :=
  match p.hostedDomain, splitLast (bare p rcpt) with
  | some hosted, some (name, domain) => name ≠ [] && form name && hosted (p.toLower domain)
  | _, _ => false

def isHostedSRS (rcpt : Bytes) : Bool := hostedLocal p p.codec.isSRS rcpt

def isHostedNoRelay (rcpt : Bytes) : Bool :=
  hostedLocal p (fun name => p.equalFold name noRelayLocal) rcpt

def isHostedAddress (address : Bytes) : Bool :=
  match p.hostedDomain, splitLast address with
  | some hosted, some (_, domain) => hosted (p.toLower domain) && (p.resolver address).isSome
  | _, _ => false

/-- The address resolves to a user whom the message reaches anyway. -/
def selfForward (recipients : List Bytes) (address : Bytes) : Bool :=
  match p.resolver address with
  | none => false
  | some user => (recipients.filterMap p.resolver).contains user

def forwardTargetsFrom (recipients : List Bytes) : List Bytes → List Bytes → List Bytes
  | _, [] => []
  | seen, address :: rest =>
    if address = [] ∨ address ∈ seen then forwardTargetsFrom recipients seen rest
    else if selfForward p recipients address then
      forwardTargetsFrom recipients (address :: seen) rest
    else address :: forwardTargetsFrom recipients (address :: seen) rest

def forwardTargets (addresses recipients : List Bytes) : List Bytes :=
  forwardTargetsFrom p recipients [] addresses

def senderAuthenticated : Bool := p.equalFold env.spfResult (ascii "pass") || env.authUserId ≠ []

/-- The hosted domain that the user's forwards leave from, empty if unknown. -/
def forwardingDomain (user : UserID) : Bytes :=
  match p.userDomains, p.hostedDomain with
  | some domains, some hosted =>
    match domains user with
    | none => []
    | some domain =>
      let domain := p.toLower (p.trimSpace domain)
      if domain ≠ [] ∧ hosted domain then domain else []
  | _, _ => []

end Addresses

section ForwardGate

variable (p : DeliverProcessor) (env : QueueEnvelope) (mail : Mail)

def forwardedAsSpam : Bool :=
  mail.tagged ||
    [ascii "junk", ascii "quarantine"].contains (p.toLower env.targetMailbox) ||
    env.stages.any fun st =>
      st.stage == ascii "antispam" && (st.action == ascii "tag" || st.action == ascii "quarantine")
        ||
        st.action == ascii "quarantine"

/-- `bytes.TrimRight(line, "\r")`. -/
def trimReturns (line : Bytes) : Bytes := (line.reverse.dropWhile (· == 13)).reverse

/-- The lines of the header block: a line of nothing but carriage returns ends
it. -/
def headerLines (raw : Bytes) : List Bytes :=
  (raw.splitOn 10).takeWhile fun line => trimReturns line ≠ []

def isReceived (line : Bytes) : Bool :=
  if line.head? = some 32 ∨ line.head? = some 9 then false
  else
    match cut 58 (trimReturns line) with
    | none => false
    | some (name, _) =>
      name ≠ [] && p.equalFold (p.trimSpace name) (ascii "Received")

def countReceivedHeaders (raw : Bytes) : Nat := (headerLines raw).countP (isReceived p)

def maxForwardHops : Nat := 25

inductive Denial where
  | spam
  | emptyTarget
  | noOutboundQueue
  | hopLimitExceeded
  | recipientOfThisMessage
  | verificationNotConfigured
  | lookupFailed
  | notVerified
  | rateLimitExceeded
  deriving DecidableEq

structure ApprovedForward where
  userID : UserID
  target : Bytes
  deriving DecidableEq

/-- `calls` counts what the limiter was asked. -/
structure ForwardGate where
  calls : Nat
  decided : List (Bytes × Bool)
  approved : List ApprovedForward
  deriving DecidableEq

/-- Targets that are not delivered here must have been verified by the user. -/
def unverified (user : UserID) (target : Bytes) : Option Denial :=
  if isHostedAddress p target then none
  else
    match p.fwdTargets with
    | none => some .verificationNotConfigured
    | some allowed =>
      match allowed user target with
      | none => some .lookupFailed
      | some false => some .notVerified
      | some true => none

def refusal (user : UserID) (target : Bytes) : Option Denial :=
  if forwardedAsSpam p env mail then some .spam
  else if target = [] then some .emptyTarget
  else if p.queuer.isNone then some .noOutboundQueue
  else if maxForwardHops < countReceivedHeaders p mail.raw then some .hopLimitExceeded
  else if forwardTargets p [target] env.recipients = [] then some .recipientOfThisMessage
  else unverified p user target

/-- Why the forward must not be sent, and the limiter's calls after it. -/
def deny (calls : Nat) (user : UserID) (target : Bytes) : Option Denial × Nat :=
  match refusal p env mail user target with
  | some denial => (some denial, calls)
  | none =>
    match p.fwdLimiter with
    | none => (none, calls)
    | some allow => (if allow calls user then none else some .rateLimitExceeded, calls + 1)

def forwardKey (user : UserID) (target : Bytes) : Bytes := user.text ++ 124 :: p.toLower target

def permit (gate : ForwardGate) (user : UserID) (target : Bytes) : Bool × ForwardGate :=
  let target := p.trimSpace target
  let key := forwardKey p user target
  match gate.decided.lookup key with
  | some decision => (decision, gate)
  | none =>
    let answer := deny p env mail gate.calls user target
    match answer.1 with
    | some _ =>
      (false, { gate with calls := answer.2, decided := (key, false) :: gate.decided })
    | none =>
      (true,
        { calls := answer.2
          decided := (key, true) :: gate.decided
          approved := gate.approved ++ [⟨user, target⟩] })

/-- The gate after the forwards that rules asked for. A request without a user
is dropped. -/
def vetRuleRequests : ForwardGate :=
  env.forwardRequests.foldl
    (fun gate request =>
      if request.userID.text = [] then gate
      else (permit p env mail gate request.userID request.target).2)
    ⟨0, [], []⟩

def forwardingPrefs (user : UserID) : Option UserPreferences :=
  match p.prefs with
  | none => none
  | some prefs => if (prefs user).forwardAddress ≠ [] then some (prefs user) else none

/-- Account-level forwarding: whether the local copy is skipped. -/
def accountForward (gate : ForwardGate) (user : UserID) : Bool × ForwardGate :=
  match forwardingPrefs p user with
  | none => (false, gate)
  | some prefs =>
    let answer := permit p env mail gate user prefs.forwardAddress
    (answer.1 && !prefs.forwardKeepCopy, answer.2)

end ForwardGate

section Forwards

variable (p : DeliverProcessor) (env : QueueEnvelope) (mail : Mail)

structure ForwardGroup where
  sender : Bytes
  senderID : Bytes
  targets : List Bytes
  deriving DecidableEq

def outbound (id senderID sender : Bytes) (recipients : List Bytes) (origin : OutboundOrigin)
    (authenticated : Bool) : OutboundMessage where
  id := id
  senderId := senderID
  senderEmail := sender
  recipients := recipients
  blobHash := env.blobHash
  attemptCount := 0
  createdAt := 0
  nextRetryAt := 0
  status := .unspecified
  statusReason := []
  failedRecipients := []
  messageGuid := []
  layout := []
  attachments := []
  origin := origin
  senderAuthenticated := authenticated
  dsnRet := []
  dsnEnvid := []
  recipientDsn := []
  delayReportSent := false

def hasSender : Bool := p.trimSpace env.sender ≠ []

def srsRewrite (origin : OutboundOrigin) : Bool :=
  p.srs && origin == .forward && hasSender p env && senderAuthenticated p env

def noRelay (origin : OutboundOrigin) : Bool :=
  origin == .forward && hasSender p env && !senderAuthenticated p env

def groupKey (origin : OutboundOrigin) (user : UserID) : Bytes :=
  if srsRewrite p env origin then forwardingDomain p user
  else if noRelay p env origin then user.text
  else []

def newGroup (origin : OutboundOrigin) (user : UserID) : ForwardGroup :=
  let domain := forwardingDomain p user
  if noRelay p env origin then
    ⟨if domain = [] then [] else noRelayLocal ++ 64 :: domain, user.text, []⟩
  else if srsRewrite p env origin && domain ≠ [] then
    ⟨(p.codec.forward p.today env.sender domain).getD env.sender, [], []⟩
  else ⟨env.sender, [], []⟩

def join (key : Bytes) (fresh : ForwardGroup) (target : Bytes) :
    List (Bytes × ForwardGroup) → List (Bytes × ForwardGroup)
  | [] => [(key, { fresh with targets := [target] })]
  | (other, group) :: rest =>
    if other = key then (other, { group with targets := group.targets ++ [target] }) :: rest
    else (other, group) :: join key fresh target rest

/-- The groups, in the order of their first target; `queued` are the targets
placed already. -/
def groupsFrom (origin : OutboundOrigin) :
    List Bytes → List (Bytes × ForwardGroup) → List ApprovedForward → List (Bytes × ForwardGroup)
  | _, groups, [] => groups
  | queued, groups, a :: rest =>
    if a.target ∈ queued then groupsFrom origin queued groups rest
    else
      groupsFrom origin (a.target :: queued)
        (join (groupKey p env origin a.userID) (newGroup p env origin a.userID) a.target groups)
        rest

/-- One message for each group with a target left; `made` counts the messages
built before. -/
def messagesFrom (origin : OutboundOrigin) :
    Nat → List (Bytes × ForwardGroup) → List OutboundMessage
  | _, [] => []
  | made, (_, group) :: rest =>
    let targets := forwardTargets p group.targets env.recipients
    if targets = [] then messagesFrom origin made rest
    else
      outbound env (p.forwardIDs made) group.senderID group.sender targets origin
          (senderAuthenticated p env) ::
        messagesFrom origin (made + 1) rest

/-- The messages handed to the queue. An error of the queue is only logged, so
what follows does not depend on its answers. -/
def enqueueGroups (made : Nat) (approved : List ApprovedForward) (origin : OutboundOrigin) :
    List OutboundMessage :=
  messagesFrom p env origin made (groupsFrom p env origin [] [] approved)

def forwardOrigin : OutboundOrigin :=
  match p.authorizer, p.strictFromAddress mail.raw with
  | some canSendAs, some address =>
    if env.authUserId ≠ [] ∧ canSendAs env.authUserId (p.toLower address) = some true then
      .fromLocal
    else .forward
  | _, _ => .forward

/-- Whether the target stays LOCAL: decided once for each spelling, hosted
targets for nothing and others for a slot of the author's budget. -/
def stay (allow : Nat → Bytes → Bool) (calls : Nat) (stays : List (Bytes × Bool))
    (target : Bytes) : Bool × Nat × List (Bytes × Bool) :=
  match stays.lookup target with
  | some kept => (kept, calls, stays)
  | none =>
    if isHostedAddress p target then (true, calls, (target, true) :: stays)
    else
      let kept := allow calls env.authUserId
      (kept, calls + 1, (target, kept) :: stays)

def chargeFrom (allow : Nat → Bytes → Bool) (kept : List Bytes) :
    Nat → List (Bytes × Bool) → List ApprovedForward → List ApprovedForward × List ApprovedForward
  | _, _, [] => ([], [])
  | calls, stays, a :: rest =>
    if a.target ∈ kept then
      let answer := stay p env allow calls stays a.target
      let later := chargeFrom allow kept answer.2.1 answer.2.2 rest
      if answer.1 then (a :: later.1, later.2) else (later.1, a :: later.2)
    else chargeFrom allow kept calls stays rest

/-- The forwards that stay LOCAL and those that the author's budget refused. -/
def chargeAuthor (allow : Nat → Bytes → Bool) (approved : List ApprovedForward) :
    List ApprovedForward × List ApprovedForward :=
  chargeFrom p env allow (forwardTargets p (approved.map (·.target)) env.recipients) 0 [] approved

def enqueueForwards (approved : List ApprovedForward) : List OutboundMessage :=
  if approved = [] ∨ p.queuer.isNone then []
  else
    let origin := forwardOrigin p env mail
    match p.authorRL with
    | some allow =>
      if origin = .fromLocal then
        let charged := chargeAuthor p env allow approved
        let signed := enqueueGroups p env 0 charged.1 .fromLocal
        signed ++ enqueueGroups p env signed.length charged.2 .forward
      else enqueueGroups p env 0 approved origin
    | none => enqueueGroups p env 0 approved origin

end Forwards

section Recipients

variable (p : DeliverProcessor) (env : QueueEnvelope) (mail : Mail)

inductive Fate where
  | reversed
  | dropped
  | unknown
  | forwarded
  | answered
  | delivered
  deriving DecidableEq

/-- `answers` counts the calls of the booking answerer, `writes` those of the
store, and the other two those of the limiters on reversed bounces. -/
structure Progress where
  gate : ForwardGate
  reversed : List Bytes
  bounces : List OutboundMessage
  addrCalls : Nat
  globalCalls : Nat
  answers : Nat
  writes : Nat
  stored : List (UserID × Bytes)
  fates : List Fate
  deriving DecidableEq

inductive DeliverError where
  | abandoned
  | applyDelivery (rcpt : Bytes)
  deriving DecidableEq

def allowed (limiter : Option (Nat → Bytes → Bool)) (calls : Nat) (key : Bytes) : Bool × Nat :=
  match limiter with
  | none => (true, calls)
  | some allow => (allow calls key, calls + 1)

/-- A bounce to an address of the scheme, relayed to the original sender. -/
def relaySRSBounce (state : Progress) (rcpt : Bytes) : Progress :=
  if !p.srs || hasSender p env || forwardedAsSpam p env mail || p.queuer.isNone ||
      decide (maxForwardHops < countReceivedHeaders p mail.raw) then state
  else
    match p.codec.reverse p.today (bare p rcpt) with
    | none => state
    | some orig =>
      if orig ∈ state.reversed then state
      else
        let address := allowed p.srsAddrLimiter state.addrCalls (ascii "srs:" ++ p.toLower orig)
        let state :=
          { state with reversed := orig :: state.reversed, addrCalls := address.2 }
        if !address.1 then state
        else
          let node := allowed p.srsGlobalLimiter state.globalCalls (ascii "srs:global")
          let state := { state with globalCalls := node.2 }
          if !node.1 then state
          else
            { state with
              bounces := state.bounces ++
                [outbound env (p.bounceIDs state.bounces.length) [] [] [orig] .forward false] }

def targetMailbox : Bytes :=
  if env.targetMailbox ≠ [] then env.targetMailbox
  else if mail.tagged then ascii "Junk"
  else ascii "INBOX"

/-- The mailboxes that get a copy of their own, none of them twice. -/
def copyMailboxesFrom (target : Bytes) : List Bytes → List Bytes → List Bytes
  | copies, [] => copies
  | copies, mailbox :: rest =>
    if mailbox = [] ∨ (!env.discardNormal && p.equalFold mailbox target) = true ∨
        copies.any (p.equalFold · mailbox) then copyMailboxesFrom target copies rest
    else copyMailboxesFrom target (copies ++ [mailbox]) rest

def destinations (target : Bytes) : List Bytes :=
  (if env.discardNormal then [] else [target]) ++
    copyMailboxesFrom p env target [] env.copyMailboxes

/-- `store.DeliverMail` for each mailbox, up to the first error. -/
def deliverMail (user : UserID) : Progress → List Bytes → Option Progress
  | state, [] => some state
  | state, mailbox :: rest =>
    if p.applier state.writes user mailbox then
      deliverMail user
        { state with
          writes := state.writes + 1, stored := state.stored ++ [(user, mailbox)] } rest
    else none

def answerBooking (answers : Nat) (user : UserID) (target : Bytes) : Bool × Nat :=
  match p.resourceBookings with
  | none => (false, answers)
  | some answer =>
    let booking := p.booking env mail.raw
    if env.discardNormal || p.equalFold target (ascii "Junk") || booking.sender = [] then
      (false, answers)
    else (answer answers user booking, answers + 1)

def Progress.meet (state : Progress) (fate : Fate) : Progress :=
  { state with fates := state.fates ++ [fate] }

/-- A recipient that is no reserved address. -/
def deliverUser (state : Progress) (rcpt : Bytes) (user : UserID) :
    Except DeliverError Progress :=
  let forward := accountForward p env mail state.gate user
  let state := { state with gate := forward.2 }
  if forward.1 then .ok (state.meet .forwarded)
  else
    let booking := answerBooking p env mail state.answers user (targetMailbox env mail)
    let state := { state with answers := booking.2 }
    if booking.1 then .ok (state.meet .answered)
    else
      match deliverMail p user state (destinations p env (targetMailbox env mail)) with
      | none => .error (.applyDelivery rcpt)
      | some state => .ok (state.meet .delivered)

def deliverTo (state : Progress) (rcpt : Bytes) : Except DeliverError Progress :=
  if isHostedSRS p rcpt then .ok ((relaySRSBounce p env mail state rcpt).meet .reversed)
  else if isHostedNoRelay p rcpt then .ok (state.meet .dropped)
  else
    match p.resolver rcpt with
    | none => .ok (state.meet .unknown)
    | some user => deliverUser p env mail state rcpt user

/-- What a run of the stage leaves behind; `forwards` are the forward messages
handed to the queue, accepted or not. -/
structure Outcome where
  fates : List Fate
  stored : List (UserID × Bytes)
  bounces : List OutboundMessage
  approved : List ApprovedForward
  forwards : List OutboundMessage
  deriving DecidableEq

def start : Progress := ⟨vetRuleRequests p env mail, [], [], 0, 0, 0, 0, [], []⟩

def process : Except DeliverError Outcome := do
  if env.delivered then return ⟨[], [], [], [], []⟩
  if mail.expired then throw .abandoned
  let final ← env.recipients.foldlM (deliverTo p env mail) (start p env mail)
  return ⟨final.fates, final.stored, final.bounces, final.gate.approved,
    enqueueForwards p env mail final.gate.approved⟩

end Recipients

end Bongo.Deliver
