import Bongo.Deliver
import Bongo.Histories
import Bongo.Literals

/-!
One SMTP connection. The library parses the commands and calls the session; the
session keeps the state of the transaction in its own fields from MAIL to Reset.
A submission listener offers AUTH, an inbound listener does not.

Everything the session asks while it serves a call (accounts, send-as policy,
resolver, limits, queues) answers through `Services`, anew for each call; a
component that is not configured is `none`. The header parser of the standard
library and the case table are parameters.
-/

namespace Bongo.Smtp

open ByteKeys Runes Proto Queue Srs

open Deliver (splitLast noRelayLocal)

/-! Replies. -/

structure SMTPError where
  code : Nat
  enhancedCode : Nat × Nat × Nat
  message : Bytes
  deriving DecidableEq

def smtpError (code : Nat) (enhancedCode : Nat × Nat × Nat) (message : String) : SMTPError :=
  ⟨code, enhancedCode, ascii message⟩

abbrev Refusal := Option SMTPError

def refuseIf (cond : Bool) (error : SMTPError) : Refusal := if cond then some error else none

@[simp] theorem refuseIf_none {cond : Bool} {error : SMTPError} :
    refuseIf cond error = none ↔ cond = false := by
  cases cond <;> simp [refuseIf]

def temporaryError : SMTPError :=
  smtpError 451 (4, 3, 0) "Temporary local error, please try again later"

def mailboxUnavailable : SMTPError := smtpError 550 (5, 1, 1) "Mailbox unavailable"

def policyUnavailable : SMTPError :=
  smtpError 451 (4, 3, 0) "Sender policy temporarily unavailable"

def malformedFrom (message : String) : SMTPError := smtpError 550 (5, 6, 0) message

/-! Parameters of MAIL and RCPT. -/

structure MailOptions where
  size : Int
  envelopeID : Bytes
  ret : Bytes

inductive DSNNotify where
  | success
  | failure
  | delayed
  | never
  deriving DecidableEq

def DSNNotify.bit : DSNNotify → UInt32
  | .success => 1
  | .failure => 2
  | .delayed => 4
  | .never => 8

structure RcptOptions where
  notify : List DSNNotify
  originalRecipient : Bytes
  originalRecipientType : Bytes

structure RcptDSN where
  notify : UInt32 := 0
  orcptType : Bytes := []
  orcpt : Bytes := []
  deriving DecidableEq

def maxDSNEnvelopeIDLen : Nat := 100

def maxDSNOriginalRcpt : Nat := 500

def hasControlChar (text : Bytes) : Bool :=
  (runesFrom 0 text).any fun rune => rune < 0x20 || rune == 0x7F || (0x80 ≤ rune && rune < 0xA0)

def rcptDSNFrom (table : CaseTable) : Option RcptOptions → Except SMTPError RcptDSN
  | none => .ok {}
  | some opts =>
    let notify := opts.notify.foldl (fun bits value => bits ||| value.bit) 0
    if opts.originalRecipient ≠ [] then
      if opts.originalRecipient.length > maxDSNOriginalRcpt ||
          hasControlChar opts.originalRecipient then
        .error (smtpError 501 (5, 5, 4) "Malformed ORCPT parameter value")
      else .ok ⟨notify, table.lowerText opts.originalRecipientType, opts.originalRecipient⟩
    else .ok { notify := notify }

/-! The send-as rule. -/

structure AddressRecord where
  userId : Bytes
  canSend : Bool
  verified : Bool

inductive ProfileRead where
  | missing
  | failed
  /-- The profile was read and decoded; its e-mail address. -/
  | found (email : Bytes)

structure SendAsPolicy where
  /-- `none` on edge and agent nodes; a lookup that fails answers `none`. -/
  addresses : Option (Bytes → Option (Option AddressRecord))
  pebble : Option (Bytes → ProfileRead)

def normaliseAddress (table : CaseTable) (addr : Bytes) : Bytes :=
  table.lowerText (trimSpace addr)

/-- `none` is a failed lookup. -/
def canSendAs (table : CaseTable) (addresses : Option (Bytes → Option (Option AddressRecord)))
    (userID primaryEmail addr : Bytes) : Option Bool :=
  let addr := normaliseAddress table addr
  if addr = [] then some false
  else if primaryEmail ≠ [] ∧ addr = normaliseAddress table primaryEmail then some true
  else match addresses with
    | none => some false
    | some get => (get addr).map fun record =>
      record.any fun record => record.userId = userID && record.canSend && record.verified

def SendAsPolicy.canSendAs (table : CaseTable) (policy : SendAsPolicy) (userID addr : Bytes) :
    Option Bool :=
  match policy.pebble with
  | none => none
  | some get =>
    if userID = [] then none
    else match get userID with
      | .missing => some false
      | .failed => none
      | .found email => Smtp.canSendAs table policy.addresses userID (trimSpace email) addr

/-! What the session reaches. -/

structure AccountState where
  missing : Bool
  disabled : Bool
  appPasswordRevoked : Bool
  epoch : Bytes

def AccountState.live (state : AccountState) (epoch : Bytes) : Bool :=
  !state.missing && !state.disabled && !state.appPasswordRevoked && state.epoch = epoch

inductive AuthFault where
  | badCredentials
  | backend

/-- Of the profile the password was checked against: whether it is disabled and its
protocol epoch. -/
structure Profile where
  disabled : Bool
  epoch : Bytes

inductive Resolution where
  | user (userID : Bytes)
  | unavailable
  | unknown

structure RecipientLimit where
  remaining : Bytes → Int
  allowN : Bytes → Nat → Bool

/-- An error of the DATA phase: a deliberate reply, or anything else. -/
inductive Fault where
  | reply (error : SMTPError)
  | other

structure InboundMeta where
  spfResult : Bytes
  sourceIP : Bytes
  trusted : Bool
  authUserID : Bytes
  dsnRet : Bytes
  dsnEnvID : Bytes
  dsnRcpts : List RcptDSN
  deriving DecidableEq

inductive Deliverer where
  | split (storeBlob : Bytes → Except Fault Bytes) (enqueueLocal : Option Fault)
  | spf (deliverWithSPF : Option Fault)
  | plain (deliver : Option Fault)

structure Services where
  authBlocked : Bool
  authenticate : Bytes → Bytes → Except AuthFault (Bytes × Option Profile × Bytes)
  accountState : Bytes → Bytes → Option AccountState
  storageLow : Bool
  senderPolicy : Option SendAsPolicy
  spfChecker : Option (Bytes → Bytes → Bytes)
  srs : Option Codec
  srsAllDomains : Bool
  today : Nat
  hostedDomain : Option (Bytes → Bool)
  resolver : Option (Bytes → Resolution)
  quotaChecker : Option (Bytes → Int → Option Bool)
  recipientRL : Option RecipientLimit
  inboundRL : Option (Bytes → Bool)
  outboundRL : Option (Bytes → Bool)
  trustedSource : Bytes → Bool
  hostname : Bytes
  now : Bytes
  deliverer : Deliverer
  relayQueue : Option (OutboundMessage → Option Fault)
  messageID : Bytes

/-- `net/mail`: the values of the From fields of a header, and the addresses of one. -/
structure HeaderParser where
  readMessage : Bytes → Option (List Bytes)
  parseAddressList : Bytes → Option (List Bytes)

/-! The session. -/

structure Session where
  submission : Bool
  remoteIP : Option Bytes
  sender : Bytes := []
  localRcpts : List Bytes := []
  externalRcpts : List Bytes := []
  authed : Bool := false
  userID : Bytes := []
  epoch : Bytes := []
  appPassword : Bytes := []
  spfResult : Bytes := []
  authFailures : Nat := 0
  declaredSize : Int := 0
  dsnRet : Bytes := []
  dsnEnvID : Bytes := []
  localDSN : List RcptDSN := []
  externalDSN : List RcptDSN := []

variable (table : FoldTable) (parser : HeaderParser) (services : Services) (session : Session)

def addLocal (target : Bytes) (dsn : RcptDSN) : Session :=
  { session with
    localRcpts := session.localRcpts ++ [target]
    localDSN := session.localDSN ++ [dsn] }

def addExternal (target : Bytes) (dsn : RcptDSN) : Session :=
  { session with
    externalRcpts := session.externalRcpts ++ [target]
    externalDSN := session.externalDSN ++ [dsn] }

def checkAccountLive : Refusal :=
  match services.accountState session.userID session.appPassword with
  | none => some temporaryError
  | some state =>
    refuseIf (!state.live session.epoch) (smtpError 535 (5, 7, 8) "Account no longer available")

def checkSendAs (addr : Bytes) : Refusal :=
  match services.senderPolicy with
  | none => some policyUnavailable
  | some policy =>
    match policy.canSendAs table.toCaseTable session.userID addr with
    | none => some policyUnavailable
    | some allowed => refuseIf (!allowed)
        (smtpError 553 (5, 7, 1) "Sender address not owned by authenticated user")

/-! AUTH. -/

def maxAuthFailures : Nat := 5

def authBadCredentials : SMTPError :=
  smtpError 535 (5, 7, 8) "Authentication credentials invalid"

def authTemporary : SMTPError := smtpError 454 (4, 7, 0) "Temporary authentication failure"

def authPlain (username password : Bytes) : Session × Refusal :=
  if session.authFailures ≥ maxAuthFailures || services.authBlocked then
    (session, some (smtpError 454 (4, 7, 0) "Too many authentication failures; try again later"))
  else
    let failed := { session with authFailures := session.authFailures + 1 }
    match services.authenticate username password with
    | .error .badCredentials => (failed, some authBadCredentials)
    | .error .backend => (failed, some authTemporary)
    | .ok (_, none, _) => (failed, some authBadCredentials)
    | .ok (userID, some profile, appPassword) =>
      if profile.disabled then (failed, some authBadCredentials)
      else
        ({ session with
            epoch := profile.epoch
            appPassword := appPassword
            authed := true
            userID := userID
            authFailures := 0 }, none)

/-- The mechanisms are offered on the submission service only. -/
def auth (username password : Bytes) : Session × Refusal :=
  if !session.submission then
    (session, some (smtpError 504 (5, 7, 4) "Unsupported authentication mechanism"))
  else authPlain services session username password

/-! MAIL. -/

def extractDomain (email : Bytes) : Bytes :=
  match cut 64 email with
  | none => []
  | some (_, domain) => table.lowerText domain

def mailRefusal (sender : Bytes) (opts : Option MailOptions) : Refusal :=
  (refuseIf (opts.any fun opts =>
      opts.envelopeID.length > maxDSNEnvelopeIDLen || hasControlChar opts.envelopeID)
    (smtpError 501 (5, 5, 4) "Malformed ENVID parameter value")).or <|
  (refuseIf (session.submission && !session.authed)
    (smtpError 530 (5, 7, 0) "Authentication required")).or <|
  (refuseIf services.storageLow (smtpError 452 (4, 3, 1) "Insufficient system storage")).or <|
  if session.submission && session.authed then
    (checkAccountLive services session).or (checkSendAs table services session sender)
  else none

def spfCheck (sender : Bytes) : Option Bytes :=
  match services.spfChecker, session.remoteIP with
  | some check, some remoteIP =>
    let domain := extractDomain table sender
    if domain = [] then none else some (check remoteIP domain)
  | _, _ => none

/-- What MAIL does to the session before any check. -/
def declared (opts : Option MailOptions) : Session :=
  { session with
    declaredSize := match opts with
      | some opts => if opts.size > 0 then opts.size else 0
      | none => 0
    dsnRet := []
    dsnEnvID := [] }

def mail (sender : Bytes) (opts : Option MailOptions) : Session × Refusal :=
  let session := declared session opts
  match mailRefusal table services session sender opts with
  | some error => (session, some error)
  | none =>
    ({ session with
        sender := sender
        dsnRet := (opts.map MailOptions.ret).getD []
        dsnEnvID := (opts.map MailOptions.envelopeID).getD []
        spfResult := (spfCheck table services session sender).getD session.spfResult }, none)

/-! RCPT. -/

inductive Verdict where
  | refused (error : SMTPError)
  | here
  | relay

def bare (rcpt : Bytes) : Bytes :=
  trimSuffix (trimPrefix (trimSpace rcpt) (ascii "<")) (ascii ">")

def hosted (domain : Bytes) : Bool :=
  services.hostedDomain.any fun hosts => hosts (table.lowerText domain)

/-- `none` when the address is not one of the scheme on a domain of ours. -/
def rcptSRS (target : Bytes) : Option Verdict :=
  match services.srs, splitLast (bare target) with
  | some codec, some (name, domain) =>
    if name = [] || !codec.isSRS name ||
        (!services.srsAllDomains && !hosted table services domain) then none
    else if session.sender = [] && (codec.reverse services.today (bare target)).isSome then
      some .here
    else some (.refused mailboxUnavailable)
  | _, _ => none

def rcptNoRelay (target : Bytes) : Option Verdict :=
  match splitLast (bare target) with
  | none => none
  | some (name, domain) =>
    if name = [] || !table.equalFold name noRelayLocal || !hosted table services domain then none
    else if session.sender = [] then some .here
    else some (.refused mailboxUnavailable)

def overQuota (userID : Bytes) : Bool :=
  match services.quotaChecker with
  | none => false
  | some check => check userID session.declaredSize == some true

/-- A local part that does not exist on a domain we host. -/
def unknownMailbox (target : Bytes) : Bool :=
  match splitLast (bare target) with
  | none => false
  | some (_, domain) => domain ≠ [] && hosted table services domain

def overBudget : Bool :=
  session.submission && session.userID ≠ [] &&
    services.recipientRL.any fun limit =>
      limit.remaining session.userID < (session.externalRcpts.length : Int) + 1

def resolved (target : Bytes) : Resolution → Verdict
  | .user userID =>
    if overQuota services session userID then
      .refused (smtpError 552 (5, 2, 2) "Mailbox quota exceeded")
    else .here
  | .unavailable => .refused mailboxUnavailable
  | .unknown =>
    if unknownMailbox table services target then .refused mailboxUnavailable
    else if !session.authed then .refused (smtpError 550 (5, 7, 1) "Relaying denied")
    else if overBudget services session then
      .refused (smtpError 452 (4, 5, 3) "Too many recipients, try again later")
    else .relay

def rcptVerdict (target : Bytes) : Verdict :=
  (rcptSRS table services session target).getD <|
    match services.resolver with
    | none => .here
    | some resolve =>
      (rcptNoRelay table services session target).getD
        (resolved table services session target (resolve target))

def liveRefusal : Refusal :=
  if session.submission && session.authed then checkAccountLive services session else none

def rcpt (target : Bytes) (opts : Option RcptOptions) : Session × Refusal :=
  match rcptDSNFrom table.toCaseTable opts, liveRefusal services session with
  | .error error, _ => (session, some error)
  | .ok _, some error => (session, some error)
  | .ok dsn, none =>
    match rcptVerdict table services session target with
    | .refused error => (session, some error)
    | .here => (addLocal session target dsn, none)
    | .relay => (addExternal session target dsn, none)

/-! DATA. -/

structure Stream where
  bytes : Bytes
  fault : Option Fault

def declaredSizeAllowance (declared : Int) : Int := declared + declared / 10 + 1024

/-- No byte beyond the declared size is handed out. -/
def declaredSizeReader (declared : Int) (stream : Stream) : Stream :=
  if 0 < declared ∧ declaredSizeAllowance declared < stream.bytes.length then
    ⟨stream.bytes.take (declaredSizeAllowance declared).toNat,
      some (.reply (smtpError 552 (5, 3, 4) "Message exceeds declared SIZE"))⟩
  else stream

/-- The lines up to and including the first blank one, `line` being what stands of
the current line, and whether there is a blank one. -/
def headerFrom : Bytes → Bytes → Bytes × Bool
  | _, [] => ([], false)
  | line, byte :: rest =>
    if byte = 10 then
      if line = [] ∨ line = [13] then ([byte], true)
      else ((headerFrom [] rest).map (byte :: ·) id)
    else (headerFrom (line ++ [byte]) rest).map (byte :: ·) id

def headerBlock (bytes : Bytes) : Bytes × Bool := headerFrom [] bytes

def maxSubmissionHeaderBytes : Nat := 262144

def fromAddresses (header : Bytes) : Except SMTPError (List Bytes) :=
  match parser.readMessage (header ++ [13, 10, 13, 10]) with
  | none => .error (malformedFrom "unparseable message header")
  | some [value] =>
    match parser.parseAddressList value with
    | none | some [] => .error (malformedFrom "From header is not a valid address list")
    | some addresses => .ok addresses
  | some _ => .error (malformedFrom "exactly one From header is required")

def fromRefused (error : SMTPError) : SMTPError :=
  if error.code = 553 then
    smtpError 550 (5, 7, 1) "From address not owned by authenticated user"
  else error

def dataFailure : Fault → SMTPError
  | .reply error => error
  | .other => temporaryError

def checkSubmissionHeaderFrom (stream : Stream) : Refusal :=
  let (header, blank) := headerBlock stream.bytes
  if header.length > maxSubmissionHeaderBytes then
    some (smtpError 552 (5, 3, 4) "Message header too large")
  else match blank, stream.fault with
    | false, some fault => some (dataFailure fault)
    | _, _ =>
      match fromAddresses parser header with
      | .error error => some error
      | .ok addresses =>
        (addresses.findSome? (checkSendAs table services session)).map fromRefused

/-- The checks of DATA in their order; `stream` is already limited to the declared size. -/
def dataRefusal (stream : Stream) : Refusal :=
  (refuseIf (session.localRcpts.length + session.externalRcpts.length == 0)
    (smtpError 554 (5, 5, 1) "No valid recipients")).or <|
  (liveRefusal services session).or <|
  (refuseIf (!session.submission && (session.remoteIP.any fun remoteIP =>
      services.inboundRL.any fun allow => !allow remoteIP))
    (smtpError 451 (4, 7, 0) "Rate limit exceeded, try again later")).or <|
  (refuseIf (session.submission && session.authed && session.userID ≠ [] &&
      session.externalRcpts ≠ [] && services.outboundRL.any fun allow => !allow session.userID)
    (smtpError 452 (4, 7, 0) "Outbound rate limit exceeded, slow down")).or <|
  (if session.submission && session.authed then
    checkSubmissionHeaderFrom table parser services session stream else none).or <|
  refuseIf (session.submission && session.authed && session.userID ≠ [] &&
      session.externalRcpts ≠ [] && services.recipientRL.any fun limit =>
        !limit.allowN session.userID session.externalRcpts.length)
    (smtpError 452 (4, 7, 0) "Outbound recipient limit exceeded, try again later")

def sanitizeHeaderValue (text : Bytes) : Bytes :=
  ((runesFrom 0 text).filter fun rune => !(rune < 0x20 || rune == 0x7F)).flatMap encodeRune

def buildReceivedHeader : Bytes :=
  let host := if services.hostname = [] then ascii "localhost" else services.hostname
  let source := match session.remoteIP with
    | none => ascii "unknown"
    | some remoteIP => ascii "[" ++ remoteIP ++ ascii "]"
  ascii "Received: from " ++ source ++ ascii " by " ++ sanitizeHeaderValue host ++
    ascii " with " ++ (if session.authed then ascii "ESMTPA" else ascii "SMTP") ++
    ascii "; " ++ services.now ++ [13, 10]

def receivedSPF (result sender : Bytes) : Bytes :=
  if result = [] then []
  else ascii "Received-SPF: " ++ sanitizeHeaderValue result ++ ascii " (bongo; domain=" ++
    sanitizeHeaderValue (extractDomain table sender) ++ ascii ")" ++ [13, 10]

def sourceIP : Bytes := session.remoteIP.getD []

def inboundMeta : InboundMeta where
  spfResult := session.spfResult
  sourceIP := sourceIP session
  trusted := session.authed || services.trustedSource (sourceIP session)
  authUserID := if session.authed then session.userID else []
  dsnRet := session.dsnRet
  dsnEnvID := session.dsnEnvID
  dsnRcpts := session.localDSN

def recipientDSN (target : Bytes) (dsn : RcptDSN) : Bytes :=
  encode (bytesField 1 target ++ (varintField 2 dsn.notify.toUInt64 ++
    (bytesField 3 dsn.orcptType ++ bytesField 4 dsn.orcpt)))

def outboundMessage (blobHash : Bytes) : OutboundMessage where
  id := services.messageID
  senderId := session.userID
  senderEmail := session.sender
  recipients := session.externalRcpts
  blobHash := blobHash
  attemptCount := 0
  createdAt := 0
  nextRetryAt := 0
  status := .unspecified
  statusReason := []
  failedRecipients := []
  messageGuid := []
  layout := []
  attachments := []
  origin := .fromLocal
  senderAuthenticated := false
  dsnRet := session.dsnRet
  dsnEnvid := session.dsnEnvID
  recipientDsn := ((session.externalRcpts.zip session.externalDSN).filter fun pair =>
    pair.2 ≠ {}).map fun pair => recipientDSN pair.1 pair.2
  delayReportSent := false

/-- What a call hands on, whether or not the receiver then fails: a message for local
recipients, or one for the relay queue. `lead` are the trace fields put in front. -/
inductive Handoff where
  | delivered (sender : Bytes) (recipients : List Bytes) (data : Option InboundMeta)
      (lead body : Bytes)
  | relayed (message : OutboundMessage) (lead body : Bytes)

def traceFields : Bytes :=
  buildReceivedHeader services session ++ receivedSPF table session.spfResult session.sender

def relayMessage (blobHash body : Bytes) : List Handoff × Refusal :=
  if session.externalRcpts = [] then ([], none)
  else match services.relayQueue with
    | none => ([], some (smtpError 451 (4, 3, 0) "Outbound relay temporarily unavailable"))
    | some enqueue =>
      let message := outboundMessage services session blobHash
      ([.relayed message (traceFields table services session) body],
        (enqueue message).map dataFailure)

/-- Split delivery stores the message once and serves the local recipients first. -/
def splitDelivery (storeBlob : Bytes → Except Fault Bytes) (enqueueLocal : Option Fault)
    (body : Bytes) : List Handoff × Refusal :=
  let lead := traceFields table services session
  match storeBlob (lead ++ body) with
  | .error fault => ([], some (dataFailure fault))
  | .ok blobHash =>
    if session.localRcpts = [] then relayMessage table services session blobHash body
    else
      let first := Handoff.delivered session.sender session.localRcpts
        (some (inboundMeta services session)) lead body
      match enqueueLocal with
      | some fault => ([first], some (dataFailure fault))
      | none =>
        let (rest, refusal) := relayMessage table services session blobHash body
        (first :: rest, refusal)

def deliverMessage (body : Bytes) : List Handoff × Refusal :=
  let lead := traceFields table services session
  match services.deliverer with
  | .split storeBlob enqueueLocal =>
    splitDelivery table services session storeBlob enqueueLocal body
  | .spf fault =>
    ([.delivered session.sender session.localRcpts (some (inboundMeta services session))
      lead body], fault.map dataFailure)
  | .plain fault =>
    ([.delivered session.sender session.localRcpts none lead body], fault.map dataFailure)

/-- A receiver that reads the message to its end also meets the fault of the stream. -/
def data (stream : Stream) : List Handoff × Refusal :=
  let stream := declaredSizeReader session.declaredSize stream
  match dataRefusal table parser services session stream, stream.fault with
  | some error, _ => ([], some error)
  | none, some fault => ([], some (dataFailure fault))
  | none, none => deliverMessage table services session stream.bytes

def reset : Session :=
  { session with
    sender := []
    declaredSize := 0
    localRcpts := []
    externalRcpts := []
    localDSN := []
    externalDSN := []
    dsnRet := []
    dsnEnvID := []
    spfResult := [] }

end Bongo.Smtp
