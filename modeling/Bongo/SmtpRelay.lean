import Bongo.SmtpSession

/-!
What the session hands on over a whole connection. The library calls AUTH, MAIL, RCPT,
DATA and Reset in an order it only partly guarantees; next to the session the model
keeps the transaction as the accepted calls make it, from an accepted MAIL on.

Whatever the calls, a message reaches the relay queue only for an authenticated and
live account with a sender and a From field it may use. That it is made of nothing but
its own transaction needs MAIL not to come twice before a Reset: MAIL clears the DSN
parameters of the transaction before it, but neither its recipients nor its SPF result.
-/

namespace Bongo.Smtp

open ByteKeys Runes Queue Histories

structure Transaction where
  /-- The user the session was authenticated as when MAIL was accepted. -/
  user : Option Bytes
  /-- Whether the send-as rule let that user use the sender. -/
  vouched : Bool
  sender : Bytes
  ret : Bytes
  envID : Bytes
  spf : Bytes
  recipients : List (Bytes × RcptDSN)

def Transaction.add (transaction : Transaction) (entry : Bytes × RcptDSN) : Transaction :=
  { transaction with recipients := transaction.recipients ++ [entry] }

structure Connection where
  session : Session
  current : Option Transaction := none
  /-- The recipients accepted since the last Reset. -/
  accepted : List (Bytes × RcptDSN) := []
  awaitsReset : Bool := false

inductive Call where
  | auth (username password : Bytes)
  | mail (sender : Bytes) (opts : Option MailOptions)
  | rcpt (target : Bytes) (opts : Option RcptOptions)
  | data (stream : Stream)
  | reset

def Call.isReset : Call → Bool
  | .reset => true
  | _ => false

structure Event where
  call : Call
  services : Services

variable (table : FoldTable) (parser : HeaderParser)

def maySendAs (services : Services) (userID addr : Bytes) : Bool :=
  services.senderPolicy.any fun policy =>
    policy.canSendAs table.toCaseTable userID addr == some true

def accountLive (services : Services) (session : Session) : Bool :=
  (services.accountState session.userID session.appPassword).any fun state =>
    state.live session.epoch

def opened (services : Services) (session : Session) (sender : Bytes)
    (opts : Option MailOptions) : Transaction where
  user := if session.authed then some session.userID else none
  vouched := maySendAs table services session.userID sender
  sender := sender
  ret := (opts.map MailOptions.ret).getD []
  envID := (opts.map MailOptions.envelopeID).getD []
  spf := (spfCheck table services session sender).getD []
  recipients := []

def requestedDSN (opts : Option RcptOptions) : RcptDSN :=
  match rcptDSNFrom table.toCaseTable opts with
  | .ok dsn => dsn
  | .error _ => {}

def mailStep (conn : Connection) (services : Services) (sender : Bytes)
    (opts : Option MailOptions) : Connection :=
  match mail table services conn.session sender opts with
  | (session, some _) => { conn with session := session }
  | (session, none) =>
    { conn with
      session := session
      current := some (opened table services conn.session sender opts) }

def rcptStep (conn : Connection) (services : Services) (target : Bytes)
    (opts : Option RcptOptions) : Connection :=
  match rcpt table services conn.session target opts with
  | (session, some _) => { conn with session := session }
  | (session, none) =>
    let entry := (target, requestedDSN table opts)
    { conn with
      session := session
      accepted := conn.accepted ++ [entry]
      current := conn.current.map (Transaction.add · entry) }

def step (conn : Connection) (event : Event) : Connection :=
  match event.call with
  | .auth username password =>
    { conn with session := (auth event.services conn.session username password).1 }
  | .mail sender opts => mailStep table conn event.services sender opts
  | .rcpt target opts => rcptStep table conn event.services target opts
  | .data _ => { conn with awaitsReset := true }
  | .reset => { session := reset conn.session }

def handed (conn : Connection) (event : Event) : List Handoff :=
  match event.call with
  | .data stream => (data table parser event.services conn.session stream).1
  | _ => []

def connect (submission : Bool) (remoteIP : Option Bytes) : Connection where
  session := { submission := submission, remoteIP := remoteIP }

/-! What the library guarantees, and what it does not. -/

/-- AUTH succeeds at most once, an accepted MAIL precedes RCPT, an accepted RCPT
precedes DATA, and DATA is followed by Reset. -/
def Library (conn : Connection) (event : Event) : Prop :=
  (conn.awaitsReset = true → event.call.isReset = true) ∧
    match event.call with
    | .auth _ _ => conn.session.authed = false
    | .rcpt _ _ => conn.current.isSome = true
    | .data _ => conn.accepted ≠ []
    | _ => True

instance (conn : Connection) : (event : Event) → Decidable (Library conn event)
  | ⟨.auth _ _, _⟩ => inferInstanceAs (Decidable ((_ → _) ∧ _ = _))
  | ⟨.mail _ _, _⟩ => inferInstanceAs (Decidable ((_ → _) ∧ True))
  | ⟨.rcpt _ _, _⟩ => inferInstanceAs (Decidable ((_ → _) ∧ _ = _))
  | ⟨.data _, _⟩ => inferInstanceAs (Decidable ((_ → _) ∧ ¬ _ = _))
  | ⟨.reset, _⟩ => inferInstanceAs (Decidable ((_ → _) ∧ True))

/-- MAIL is not issued while a transaction is open. -/
def MailOnce (conn : Connection) (event : Event) : Prop :=
  match event.call with
  | .mail _ _ => conn.current.isNone = true
  | _ => True

instance (conn : Connection) : (event : Event) → Decidable (MailOnce conn event)
  | ⟨.mail _ _, _⟩ => inferInstanceAs (Decidable (_ = _))
  | ⟨.auth _ _, _⟩ | ⟨.rcpt _ _, _⟩ | ⟨.data _, _⟩ | ⟨.reset, _⟩ => isTrue trivial

/-! What is asked of a message that is handed on. -/

structure Authorised (conn : Connection) (services : Services) (message : OutboundMessage)
    (body : Bytes) : Prop where
  authenticated : ∃ transaction, conn.current = some transaction ∧
    transaction.user = some message.senderId ∧ transaction.vouched = true ∧
    message.senderEmail = transaction.sender
  account : message.senderId = conn.session.userID
  live : accountLive services conn.session = true
  fromField : ∃ addresses, fromAddresses parser (headerBlock body).1 = .ok addresses ∧
    ∀ addr ∈ addresses, maySendAs table services message.senderId addr = true
  recipients : ∀ rcpt ∈ message.recipients, ∃ dsn, (rcpt, dsn) ∈ conn.accepted

/-- The hand-off is made of what its transaction brought and of nothing older. -/
def OwnData (services : Services) (session : Session) (transaction : Transaction) :
    Handoff → Prop
  | .delivered sender recipients data lead _ =>
    sender = transaction.sender ∧
    (∀ rcpt ∈ recipients, ∃ dsn, (rcpt, dsn) ∈ transaction.recipients) ∧
    lead = buildReceivedHeader services session ++
      receivedSPF table transaction.spf transaction.sender ∧
    ∀ envelope, data = some envelope → envelope.spfResult = transaction.spf ∧
      envelope.dsnRet = transaction.ret ∧ envelope.dsnEnvID = transaction.envID ∧
      ∀ pair ∈ recipients.zip envelope.dsnRcpts, pair ∈ transaction.recipients
  | .relayed message lead _ =>
    message.senderEmail = transaction.sender ∧
    (∀ rcpt ∈ message.recipients, ∃ dsn, (rcpt, dsn) ∈ transaction.recipients) ∧
    lead = buildReceivedHeader services session ++
      receivedSPF table transaction.spf transaction.sender ∧
    message.dsnRet = transaction.ret ∧ message.dsnEnvid = transaction.envID ∧
    ∀ record ∈ message.recipientDsn, ∃ pair ∈ transaction.recipients,
      record = recipientDSN pair.1 pair.2

def RelaysAuthorised (conn : Connection) (event : Event) : Prop :=
  ∀ message lead body, Handoff.relayed message lead body ∈ handed table parser conn event →
    Authorised table parser conn event.services message body

def HandsOwnData (conn : Connection) (event : Event) : Prop :=
  ∀ handoff ∈ handed table parser conn event, ∃ transaction, conn.current = some transaction ∧
      OwnData table event.services conn.session transaction handoff

variable {opts : Option MailOptions} {target sender body username password : Bytes}
  {handoff : Handoff}

section Calls

variable {table} {parser} {services : Services} {session : Session}

theorem checkSendAs_none {addr : Bytes} (passed : checkSendAs table services session addr = none) :
    maySendAs table services session.userID addr = true := by
  unfold checkSendAs at passed
  unfold maySendAs
  cases policy : services.senderPolicy with
  | none => simp [policy] at passed
  | some rule =>
    cases answer : rule.canSendAs table.toCaseTable session.userID addr with
    | none => simp [policy, answer] at passed
    | some allowed =>
      simp only [policy, answer, refuseIf_none, Bool.not_eq_false'] at passed
      simp [passed, answer]

theorem checkAccountLive_none (passed : checkAccountLive services session = none) :
    accountLive services session = true := by
  unfold checkAccountLive at passed
  unfold accountLive
  cases answer : services.accountState session.userID session.appPassword with
  | none => simp [answer] at passed
  | some state =>
    simp only [answer] at passed
    simpa using passed

/-- On a submission listener an accepted MAIL had an authenticated session and a
sender it may use. -/
theorem mailRefusal_none (accepted : mailRefusal table services session sender opts = none)
    (listener : session.submission = true) :
    session.authed = true ∧ maySendAs table services session.userID sender = true := by
  simp only [mailRefusal, Option.or_eq_none_iff, refuseIf_none, listener, Bool.true_and,
    Bool.not_eq_false'] at accepted
  obtain ⟨-, authed, -, checks⟩ := accepted
  rw [if_pos authed, Option.or_eq_none_iff] at checks
  exact ⟨authed, checkSendAs_none checks.2⟩

theorem auth_inbound (inbound : session.submission = false) :
    (auth services session username password).1 = session := by
  simp [auth, inbound]

theorem auth_session (services : Services) (session : Session) (username password : Bytes) :
    ∃ authed userID epoch appPassword failures, (auth services session username password).1 =
        { session with
          authed := authed
          userID := userID
          epoch := epoch
          appPassword := appPassword
          authFailures := failures } := by
  unfold auth authPlain
  repeat' split
  all_goals exact ⟨_, _, _, _, _, rfl⟩

theorem resolved_relay {answer : Resolution}
    (relayed : resolved table services session target answer = .relay) : session.authed = true := by
  cases answer with
  | user userID =>
    simp only [resolved] at relayed
    split at relayed <;> cases relayed
  | unavailable => cases relayed
  | unknown =>
    simp only [resolved] at relayed
    split at relayed
    · cases relayed
    · by_contra anonymous
      rw [Bool.not_eq_true] at anonymous
      simp [anonymous] at relayed

theorem rcptSRS_relay (target : Bytes) : rcptSRS table services session target ≠ some .relay := by
  unfold rcptSRS
  repeat' split
  all_goals simp

theorem rcptNoRelay_relay (target : Bytes) :
    rcptNoRelay table services session target ≠ some .relay := by
  unfold rcptNoRelay
  repeat' split
  all_goals simp

/-- Only an authenticated session gets a recipient accepted for relay. -/
theorem rcptVerdict_relay (relayed : rcptVerdict table services session target = .relay) :
    session.authed = true := by
  unfold rcptVerdict at relayed
  cases srs : rcptSRS table services session target with
  | some verdict =>
    rw [srs, Option.getD_some] at relayed
    exact absurd (relayed ▸ srs) (rcptSRS_relay target)
  | none =>
    rw [srs, Option.getD_none] at relayed
    split at relayed
    · cases relayed
    cases sink : rcptNoRelay table services session target with
    | some verdict =>
      rw [sink, Option.getD_some] at relayed
      exact absurd (relayed ▸ sink) (rcptNoRelay_relay target)
    | none =>
      rw [sink, Option.getD_none] at relayed
      exact resolved_relay relayed

variable {after : Session}

theorem rcpt_none {opts : Option RcptOptions}
    (accepted : rcpt table services session target opts = (after, none)) :
    after = addLocal session target (requestedDSN table opts) ∨
      session.authed = true ∧ after = addExternal session target (requestedDSN table opts) := by
  unfold rcpt at accepted
  split at accepted
  · cases accepted
  · cases accepted
  rename_i dsn given _
  have requested : requestedDSN table opts = dsn := by simp [requestedDSN, given]
  rw [requested]
  split at accepted
  · cases accepted
  · exact .inl (congrArg Prod.fst accepted).symm
  · rename_i verdict
    refine .inr ⟨?_, (congrArg Prod.fst accepted).symm⟩
    exact rcptVerdict_relay verdict

theorem rcpt_some {opts : Option RcptOptions} {error : SMTPError}
    (refused : rcpt table services session target opts = (after, some error)) :
    after = session := by
  unfold rcpt at refused
  repeat' split at refused
  all_goals cases refused
  all_goals rfl

theorem mail_none (accepted : mail table services session sender opts = (after, none)) :
    mailRefusal table services session sender opts = none ∧ after = { declared session opts with
        sender := sender
        dsnRet := (opts.map MailOptions.ret).getD []
        dsnEnvID := (opts.map MailOptions.envelopeID).getD []
        spfResult := (spfCheck table services session sender).getD session.spfResult } := by
  unfold mail at accepted
  -- The checks read none of the fields that MAIL clears first.
  have same : mailRefusal table services (declared session opts) sender opts =
    mailRefusal table services session sender opts := rfl
  simp only [same] at accepted
  split at accepted
  · cases accepted
  · rename_i passed
    exact ⟨passed, (congrArg Prod.fst accepted).symm⟩

theorem mail_some {error : SMTPError}
    (refused : mail table services session sender opts = (after, some error)) :
    after = declared session opts := by
  unfold mail at refused
  simp only at refused
  split at refused
  · exact (congrArg Prod.fst refused).symm
  · cases refused

def Assembled (table : FoldTable) (services : Services) (session : Session) (body : Bytes)
    (handoff : Handoff) : Prop :=
  (∃ envelope, (∀ found, envelope = some found → found = inboundMeta services session) ∧
    handoff = .delivered session.sender session.localRcpts envelope
      (traceFields table services session) body) ∨
  session.externalRcpts ≠ [] ∧ ∃ blobHash,
    handoff = .relayed (outboundMessage services session blobHash)
      (traceFields table services session) body

theorem relayMessage_mem {blobHash : Bytes}
    (member : handoff ∈ (relayMessage table services session blobHash body).1) :
    Assembled table services session body handoff := by
  unfold relayMessage at member
  split at member
  · cases member
  rename_i some
  split at member
  · cases member
  · exact .inr ⟨some, blobHash, List.mem_singleton.mp member⟩

theorem splitDelivery_mem {storeBlob : Bytes → Except Fault Bytes} {enqueueLocal : Option Fault}
    (member : handoff ∈ (splitDelivery table services session storeBlob enqueueLocal body).1) :
    Assembled table services session body handoff := by
  have delivered : Assembled table services session body
      (.delivered session.sender session.localRcpts (some (inboundMeta services session))
        (traceFields table services session) body) :=
    .inl ⟨_, fun found same => (Option.some.inj same).symm, rfl⟩
  unfold splitDelivery at member
  simp only at member
  split at member
  · cases member
  split at member
  · exact relayMessage_mem member
  split at member
  · rw [List.mem_singleton.mp member]
    exact delivered
  · rcases List.mem_cons.mp member with rfl | later
    · exact delivered
    · exact relayMessage_mem later

theorem deliverMessage_mem (member : handoff ∈ (deliverMessage table services session body).1) :
    Assembled table services session body handoff := by
  unfold deliverMessage at member
  split at member
  · exact splitDelivery_mem member
  · exact .inl ⟨_, fun found same => (Option.some.inj same).symm, List.mem_singleton.mp member⟩
  · exact .inl ⟨none, fun found same => (Option.some_ne_none found same.symm).elim,
      List.mem_singleton.mp member⟩

/-- DATA hands a message on only after all its checks. -/
theorem data_mem {stream : Stream}
    (member : handoff ∈ (data table parser services session stream).1) :
    dataRefusal table parser services session
        (declaredSizeReader session.declaredSize stream) = none ∧
      Assembled table services session
        (declaredSizeReader session.declaredSize stream).bytes handoff := by
  unfold data at member
  simp only at member
  split at member
  · cases member
  · cases member
  · rename_i passed _
    exact ⟨passed, deliverMessage_mem member⟩

theorem dataRefusal_none {stream : Stream}
    (passed : dataRefusal table parser services session stream = none)
    (listener : session.submission = true) (authed : session.authed = true) :
    accountLive services session = true ∧
      ∃ addresses, fromAddresses parser (headerBlock stream.bytes).1 = .ok addresses ∧
        ∀ addr ∈ addresses, maySendAs table services session.userID addr = true := by
  simp only [dataRefusal, Option.or_eq_none_iff, liveRefusal, listener, authed, Bool.and_self,
    if_true] at passed
  obtain ⟨-, live, -, -, header, -⟩ := passed
  refine ⟨checkAccountLive_none live, ?_⟩
  unfold checkSubmissionHeaderFrom at header
  simp only at header
  split at header
  · cases header
  split at header
  · cases header
  split at header
  · cases header
  rename_i addresses read
  refine ⟨addresses, read, fun addr member => checkSendAs_none ?_⟩
  rw [Option.map_eq_none_iff, List.findSome?_eq_none_iff] at header
  exact header addr member

end Calls

section Connections

variable {table} {conn : Connection} {services : Services} {event : Event}

/-- What every order of calls keeps. -/
structure Kept (conn : Connection) : Prop where
  listener : conn.session.authed = true → conn.session.submission = true
  relays : conn.session.externalRcpts ≠ [] → conn.session.authed = true ∧ conn.current.isSome = true
  accepted : ∀ rcpt ∈ conn.session.externalRcpts, ∃ dsn, (rcpt, dsn) ∈ conn.accepted
  sender : ∀ transaction, conn.current = some transaction → transaction.sender = conn.session.sender
  vouched : ∀ transaction, conn.current = some transaction → conn.session.submission = true →
    conn.session.authed = true ∧ transaction.user = some conn.session.userID ∧
      transaction.vouched = true

/-- Nothing is asked of a connection without a transaction and without recipients. -/
theorem kept_idle (listener : conn.session.authed = true → conn.session.submission = true)
    (closed : conn.current = none) (empty : conn.session.externalRcpts = []) : Kept conn where
  listener := listener
  relays := fun some => (some empty).elim
  accepted := by simp [empty]
  sender := fun _ current => by simp [closed] at current
  vouched := fun _ current => by simp [closed] at current

theorem Kept.auth (kept : Kept conn) (first : conn.session.authed = false) :
    Kept { conn with session := (auth services conn.session username password).1 } := by
  cases listener : conn.session.submission with
  | false =>
    rw [auth_inbound listener]
    exact kept
  | true =>
    -- Nothing is open yet: on this listener MAIL is for authenticated sessions.
    have anonymous := ne_true_of_eq_false first
    have closed : conn.current = none := Option.eq_none_iff_forall_ne_some.mpr
      fun transaction current => anonymous (kept.vouched transaction current listener).1
    have empty : conn.session.externalRcpts = [] :=
      not_not.mp fun some => anonymous (kept.relays some).1
    obtain ⟨authed, userID, epoch, appPassword, failures, after⟩ :=
      auth_session services conn.session username password
    rw [after]
    exact kept_idle (fun _ => listener) closed empty

theorem Kept.mail (kept : Kept conn) : Kept (mailStep table conn services sender opts) := by
  unfold mailStep
  split
  · rename_i after error refused
    rw [mail_some refused]
    exact { kept with }
  rename_i after accepted
  obtain ⟨passed, rfl⟩ := mail_none accepted
  exact { kept with
    relays := fun some => ⟨(kept.relays some).1, rfl⟩
    sender := by
      rintro _ ⟨⟩
      rfl
    vouched := by
      rintro _ ⟨⟩ listener
      have checks := mailRefusal_none passed listener
      exact ⟨checks.1, if_pos checks.1, checks.2⟩ }

theorem Kept.rcpt {opts : Option RcptOptions} (kept : Kept conn)
    (ongoing : conn.current.isSome = true) : Kept (rcptStep table conn services target opts) := by
  unfold rcptStep
  split
  · rename_i after error refused
    rw [rcpt_some refused]
    exact kept
  rename_i after accepted
  obtain ⟨transaction, current⟩ := Option.isSome_iff_exists.mp ongoing
  simp only [current]
  have earlier : ∀ rcpt ∈ conn.session.externalRcpts,
      ∃ dsn, (rcpt, dsn) ∈ conn.accepted ++ [(target, requestedDSN table opts)] := by
    intro rcpt member
    obtain ⟨dsn, listed⟩ := kept.accepted rcpt member
    exact ⟨dsn, List.mem_append_left _ listed⟩
  rcases rcpt_none accepted with rfl | ⟨authed, rfl⟩
  · exact { kept with
      relays := fun some => ⟨(kept.relays some).1, rfl⟩
      accepted := earlier
      sender := by rintro _ ⟨⟩; exact kept.sender transaction current
      vouched := by rintro _ ⟨⟩; exact kept.vouched transaction current }
  · exact { kept with
      relays := fun _ => ⟨authed, rfl⟩
      accepted := List.forall_mem_append.mpr ⟨earlier,
        List.forall_mem_singleton.mpr ⟨_, List.mem_append_right _ List.mem_cons_self⟩⟩
      sender := by rintro _ ⟨⟩; exact kept.sender transaction current
      vouched := by rintro _ ⟨⟩; exact kept.vouched transaction current }

theorem Kept.step (kept : Kept conn)
    (allowed : Library conn event) : Kept (step table conn event) := by
  obtain ⟨call, services⟩ := event
  cases call with
  | auth username password => exact kept.auth allowed.2
  | mail sender opts => exact kept.mail
  | rcpt target opts => exact kept.rcpt allowed.2
  | data stream => exact { kept with }
  | reset => exact kept_idle kept.listener rfl rfl

variable {parser}

theorem handed_mem (member : handoff ∈ handed table parser conn event) :
    ∃ stream : Stream, dataRefusal table parser event.services conn.session stream = none ∧
        Assembled table event.services conn.session stream.bytes handoff := by
  obtain ⟨call, services⟩ := event
  cases call with
  | data stream => exact ⟨_, data_mem member⟩
  | _ => cases member

theorem Kept.relaysAuthorised (kept : Kept conn) :
    RelaysAuthorised table parser conn event := by
  intro message lead body member
  obtain ⟨stream, passed, made⟩ := handed_mem member
  rcases made with ⟨envelope, -, other⟩ | ⟨some, blobHash, made⟩
  · cases other
  cases made
  obtain ⟨authed, ongoing⟩ := kept.relays some
  obtain ⟨transaction, current⟩ := Option.isSome_iff_exists.mp ongoing
  have listener := kept.listener authed
  obtain ⟨-, user, vouched⟩ := kept.vouched transaction current listener
  obtain ⟨live, addresses⟩ := dataRefusal_none passed listener authed
  exact {
    authenticated :=
      ⟨transaction, current, user, vouched, (kept.sender transaction current).symm⟩
    account := rfl
    live := live
    fromField := addresses
    recipients := kept.accepted }

/-- What is kept as long as MAIL does not come twice: the session holds the data of the
open transaction, and none while there is none. -/
structure Holds (conn : Connection) (transaction : Transaction) : Prop where
  spf : conn.session.spfResult = transaction.spf
  ret : conn.session.dsnRet = transaction.ret
  envID : conn.session.dsnEnvID = transaction.envID
  localPaired : conn.session.localDSN.length = conn.session.localRcpts.length
  externalPaired : conn.session.externalDSN.length = conn.session.externalRcpts.length
  locals : ∀ pair ∈ conn.session.localRcpts.zip conn.session.localDSN, pair ∈ transaction.recipients
  externals : ∀ pair ∈ conn.session.externalRcpts.zip conn.session.externalDSN,
    pair ∈ transaction.recipients

structure Blank (session : Session) : Prop where
  spf : session.spfResult = []
  localRcpts : session.localRcpts = []
  localDSN : session.localDSN = []
  externalRcpts : session.externalRcpts = []
  externalDSN : session.externalDSN = []

def Own (conn : Connection) : Prop :=
  match conn.current with
  | none => Blank conn.session
  | some transaction => Holds conn transaction

variable {dsn : RcptDSN}

theorem zip_append_mem {recipients : List Bytes} {dsns : List RcptDSN}
    {known : List (Bytes × RcptDSN)} (paired : recipients.length = dsns.length)
    (inside : ∀ pair ∈ recipients.zip dsns, pair ∈ known) :
    ∀ pair ∈ (recipients ++ [target]).zip (dsns ++ [dsn]), pair ∈ known ++ [(target, dsn)] := by
  intro pair member
  rw [List.zip_append paired] at member
  rcases List.mem_append.mp member with old | new
  · exact List.mem_append_left _ (inside pair old)
  · exact List.mem_append_right _ new

variable {transaction : Transaction}

theorem Holds.addLocal {accepted : List (Bytes × RcptDSN)} (holds : Holds conn transaction) :
    Holds { conn with
        session := addLocal conn.session target dsn
        accepted := accepted
        current := some (transaction.add (target, dsn)) }
      (transaction.add (target, dsn)) :=
  { holds with
    localPaired := by simp [Smtp.addLocal, holds.localPaired]
    locals := zip_append_mem holds.localPaired.symm holds.locals
    externals := fun pair member => List.mem_append_left _ (holds.externals pair member) }

theorem Holds.addExternal {accepted : List (Bytes × RcptDSN)} (holds : Holds conn transaction) :
    Holds { conn with
        session := addExternal conn.session target dsn
        accepted := accepted
        current := some (transaction.add (target, dsn)) }
      (transaction.add (target, dsn)) :=
  { holds with
    externalPaired := by simp [Smtp.addExternal, holds.externalPaired]
    locals := fun pair member => List.mem_append_left _ (holds.locals pair member)
    externals := zip_append_mem holds.externalPaired.symm holds.externals }

theorem Own.auth (own : Own conn) :
    Own { conn with session := (auth services conn.session username password).1 } := by
  obtain ⟨authed, userID, epoch, appPassword, failures, after⟩ :=
    auth_session services conn.session username password
  rw [after]
  unfold Own at own ⊢
  cases current : conn.current with
  | none | some transaction =>
    rw [current] at own
    exact { own with }

theorem Own.mail (own : Own conn) (closed : conn.current = none) :
    Own (mailStep table conn services sender opts) := by
  simp only [Own, closed] at own
  unfold mailStep
  split
  · rename_i after error refused
    rw [mail_some refused]
    simp only [closed]
    exact { own with }
  · rename_i after accepted
    obtain ⟨-, rfl⟩ := mail_none accepted
    exact {
      spf := by rw [own.spf]; rfl
      ret := rfl
      envID := rfl
      localPaired := by simp [declared, own.localDSN, own.localRcpts]
      externalPaired := by simp [declared, own.externalDSN, own.externalRcpts]
      locals := by simp [declared, own.localRcpts]
      externals := by simp [declared, own.externalRcpts] }

theorem Own.rcpt {opts : Option RcptOptions} (own : Own conn)
    (ongoing : conn.current.isSome = true) :
    Own (rcptStep table conn services target opts) := by
  unfold rcptStep
  split
  · rename_i after error refused
    rw [rcpt_some refused]
    exact own
  rename_i after accepted
  obtain ⟨transaction, current⟩ := Option.isSome_iff_exists.mp ongoing
  simp only [Own, current] at own
  simp only [current]
  rcases rcpt_none accepted with rfl | ⟨-, rfl⟩
  · exact own.addLocal
  · exact own.addExternal

theorem Own.step (own : Own conn)
    (allowed : Library conn event) (once : MailOnce conn event) : Own (step table conn event) := by
  obtain ⟨call, services⟩ := event
  cases call with
  | auth username password => exact own.auth
  | mail sender opts => exact own.mail (Option.isNone_iff_eq_none.mp once)
  | rcpt target opts => exact own.rcpt allowed.2
  | data stream =>
    unfold Own at own
    unfold Own Smtp.step
    cases current : conn.current with
    | none | some transaction =>
      rw [current] at own
      exact { own with }
  | reset => exact ⟨rfl, rfl, rfl, rfl, rfl⟩

/-- With its DSN parameters beside it, every recipient of the list is one of the
transaction. -/
theorem listed_of_paired {recipients : List Bytes} {dsns : List RcptDSN}
    {known : List (Bytes × RcptDSN)} (paired : dsns.length = recipients.length)
    (inside : ∀ pair ∈ recipients.zip dsns, pair ∈ known) :
    ∀ rcpt ∈ recipients, ∃ dsn, (rcpt, dsn) ∈ known := by
  intro rcpt member
  have listed : rcpt ∈ (recipients.zip dsns).map Prod.fst := by
    rw [List.map_fst_zip (Nat.le_of_eq paired.symm)]
    exact member
  obtain ⟨pair, found, rfl⟩ := List.mem_map.mp listed
  exact ⟨pair.2, inside pair found⟩

theorem Holds.ownData (holds : Holds conn transaction)
    (sender : transaction.sender = conn.session.sender)
    (made : Assembled table services conn.session body handoff) :
    OwnData table services conn.session transaction handoff := by
  have lead : traceFields table services conn.session = buildReceivedHeader services conn.session ++
        receivedSPF table transaction.spf transaction.sender := by
    rw [← holds.spf, sender]
    rfl
  rcases made with ⟨envelope, known, rfl⟩ | ⟨-, blobHash, rfl⟩
  · refine ⟨sender.symm, listed_of_paired holds.localPaired holds.locals, lead, ?_⟩
    intro found same
    rw [known found same]
    exact ⟨holds.spf, holds.ret, holds.envID, holds.locals⟩
  · refine ⟨sender.symm, listed_of_paired holds.externalPaired holds.externals, lead, holds.ret,
      holds.envID, ?_⟩
    intro record member
    obtain ⟨pair, kept, rfl⟩ := List.mem_map.mp member
    exact ⟨pair, holds.externals pair (List.mem_filter.mp kept).1, rfl⟩

theorem Own.handsOwnData (own : Own conn) (kept : Kept conn) :
    HandsOwnData table parser conn event := by
  intro handoff member
  obtain ⟨stream, passed, made⟩ := handed_mem member
  cases current : conn.current with
  | none =>
    -- Without a transaction there is no recipient, and DATA is refused.
    simp only [Own, current] at own
    simp [dataRefusal, own.localRcpts, own.externalRcpts] at passed
  | some transaction =>
    simp only [Own, current] at own
    exact ⟨transaction, rfl, own.ownData (kept.sender transaction current) made⟩

end Connections

/-- On either listener, whatever the lookups answer and in whatever order the library
calls: what goes to the relay queue is authorised. If moreover MAIL is not issued while
a transaction is open, everything handed on is made of its own transaction. -/
theorem relay_guarded (submission : Bool) (remoteIP : Option Bytes) (events : List Event)
    (library : Along (step table) Library (connect submission remoteIP) events) :
    Along (step table) (RelaysAuthorised table parser) (connect submission remoteIP) events ∧
      (Along (step table) MailOnce (connect submission remoteIP) events →
        Along (step table) (HandsOwnData table parser) (connect submission remoteIP) events) := by
  constructor
  · exact along_strengthen (fun _ _ kept allowed => kept.step allowed)
      (fun _ _ kept _ => kept.relaysAuthorised) (kept_idle nofun rfl rfl) library
  intro once
  have both := along_and library once
  have start : Kept (connect submission remoteIP) ∧ Own (connect submission remoteIP) :=
    ⟨kept_idle nofun rfl rfl, ⟨rfl, rfl, rfl, rfl, rfl⟩⟩
  have keeps : ∀ conn event, Kept conn ∧ Own conn → Library conn event ∧ MailOnce conn event →
      Kept (step table conn event) ∧ Own (step table conn event) :=
    fun _ _ held allowed => ⟨held.1.step allowed.1, held.2.step allowed.1 allowed.2⟩
  exact along_strengthen keeps (fun _ _ held _ => held.2.handsOwnData held.1) start both

def sampleServices : Services where
  authBlocked := false
  authenticate _ _ := .ok (ascii "u1", some ⟨false, [1]⟩, [])
  accountState _ _ := some ⟨false, false, false, [1]⟩
  storageLow := false
  senderPolicy := some
    { addresses := some fun _ => some (some ⟨ascii "u1", true, true⟩)
      pebble := some fun _ => .found (ascii "ann@home.test") }
  spfChecker := none
  srs := none
  srsAllDomains := false
  today := 0
  hostedDomain := none
  resolver := some fun _ => .unknown
  quotaChecker := none
  recipientRL := none
  inboundRL := none
  outboundRL := none
  trustedSource _ := false
  hostname := ascii "mx.home.test"
  now := ascii "Mon, 01 Jan 2024 00:00:00 +0000"
  deliverer := .split (fun _ => .ok (ascii "hash")) none
  relayQueue := some fun _ => none
  messageID := ascii "id"

def sampleParser : HeaderParser where
  readMessage header := some [(trimPrefix header (ascii "From: ")).takeWhile (· ≠ 13)]
  parseAddressList _ := some [ascii "ann@home.test"]

def sampleCalls (calls : List Call) : List Event := calls.map fun call => ⟨call, sampleServices⟩

def sampleMessage : Stream := ⟨ascii "From: ann@home.test\r\n\r\nhello", none⟩

def firstCalls : List Event := sampleCalls
  [.auth (ascii "ann") (ascii "secret"),
    .mail (ascii "ann@home.test") none, .rcpt (ascii "x@far.test") none]

/-- A second MAIL without a Reset, and a recipient of its own. -/
def nestedCalls : List Event :=
  firstCalls ++ sampleCalls [.mail (ascii "sales@home.test") none, .rcpt (ascii "y@far.test") none]

def dataEvent : Event := ⟨.data sampleMessage, sampleServices⟩

def relaysTo (rcpt : Bytes) : Handoff → Bool
  | .relayed message _ _ => message.recipients.contains rcpt
  | .delivered _ _ _ _ _ => false

/-- The recipient accepted under the first MAIL is relayed with the message of the second. -/
theorem nested_mail_keeps_recipient :
    Along (step asciiFolds) Library (connect true none) (nestedCalls ++ [dataEvent]) ∧
      ¬ Along (step asciiFolds) (HandsOwnData asciiFolds sampleParser) (connect true none)
        (nestedCalls ++ [dataEvent]) := by
  refine ⟨by decide, fun hands => ?_⟩
  have relayed : (handed asciiFolds sampleParser
      (run (step asciiFolds) (connect true none) nestedCalls) dataEvent).any
        (relaysTo (ascii "x@far.test")) = true := by
    decide
  have own : ((run (step asciiFolds) (connect true none) nestedCalls).current.map
      Transaction.recipients) = some [(ascii "y@far.test", {})] := by
    decide
  obtain ⟨handoff, member, reaches⟩ := List.any_eq_true.mp relayed
  obtain ⟨transaction, current, made⟩ := along_at nestedCalls [] dataEvent hands handoff member
  rw [current, Option.map_some, Option.some.injEq] at own
  cases handoff with
  | delivered sender recipients data lead body => cases reaches
  | relayed message lead body =>
    have listed : ascii "x@far.test" ∈ message.recipients := by simpa [relaysTo] using reaches
    obtain ⟨dsn, found⟩ := made.2.1 _ listed
    rw [own, List.mem_singleton, Prod.mk.injEq] at found
    exact absurd found.1 (by decide)

/-- Two messages with the Reset between them, the second from another address. -/
def separateCalls : List Event :=
  firstCalls ++ dataEvent :: sampleCalls [.reset, .mail (ascii "sales@home.test") none,
    .rcpt (ascii "y@far.test") none, .data sampleMessage]

theorem relay_guarded_separate :
    Along (step asciiFolds) Library (connect true none) separateCalls ∧
      (Along (step asciiFolds) (RelaysAuthorised asciiFolds sampleParser) (connect true none)
          separateCalls ∧
        Along (step asciiFolds) (HandsOwnData asciiFolds sampleParser) (connect true none)
          separateCalls) ∧
      (handed asciiFolds sampleParser (run (step asciiFolds) (connect true none) firstCalls)
        dataEvent).any (relaysTo (ascii "x@far.test")) = true := by
  have library : Along (step asciiFolds) Library (connect true none) separateCalls := by
    decide
  have once : Along (step asciiFolds) MailOnce (connect true none) separateCalls := by
    decide
  have guarded := relay_guarded asciiFolds sampleParser true none separateCalls library
  exact ⟨library, ⟨guarded.1, guarded.2 once⟩, by decide⟩

end Bongo.Smtp
