import Bongo.Histories
import Bongo.Queue
import Bongo.RelayAccounts

/-!
The queue worker. An attempt hands the message to the relay, drops the
recipients that failed for good, and ends in one queue write: the message is
taken out, rescheduled or bounced. Over the life of a message every recipient's
copy should be taken over by at most one remote host.
-/

namespace Bongo.Worker

open ByteKeys Proto Records Queue Relay Histories

section Reports

/-- `strings.ToLower` and `strings.TrimSpace`; what they do to text outside
ASCII is left open. -/
structure Strings where
  toLower : Bytes → Bytes
  trimSpace : Bytes → Bytes

structure RecipientDSN where
  address : Bytes
  notify : UInt32
  orcptType : Bytes
  orcpt : Bytes
  deriving DecidableEq

instance : Message RecipientDSN where
  strings := [1, 3, 4]
  fields data :=
    bytesField 1 data.address ++ (varintField 2 data.notify.toUInt64 ++
      (bytesField 3 data.orcptType ++ bytesField 4 data.orcpt))
  ofFields record :=
    { address := bytesAt 1 record
      notify := (varintAt 2 record).toUInt32
      orcptType := bytesAt 3 record
      orcpt := bytesAt 4 record }
  ofFields_fields data := by simp [bytesAt, varintAt]
  carried record := by simp

def notifySuccess : UInt32 := 1
def notifyFailure : UInt32 := 2
def notifyDelay : UInt32 := 4
def notifyNever : UInt32 := 8

def notifyWantsFailure (mask : UInt32) : Bool := mask = 0 || mask &&& notifyFailure ≠ 0

def notifyWantsDelay (mask : UInt32) : Bool := mask &&& notifyDelay ≠ 0

def notifyWantsSuccess (mask : UInt32) : Bool := mask &&& notifySuccess ≠ 0

variable (strs : Strings)

def folded (addr : Bytes) : Bytes := strs.toLower (strs.trimSpace addr)

def recipientDSNs (msg : OutboundMessage) : List RecipientDSN :=
  msg.recipientDsn.filterMap (Proto.unmarshal RecipientDSN)

/-- The first entry for the address counts. -/
def recipientNotify (msg : OutboundMessage) (addr : Bytes) : UInt32 :=
  match (recipientDSNs msg).find? fun entry => folded strs entry.address = folded strs addr with
  | some entry => entry.notify
  | none => 0

/-- In the envelope the last entry for the address counts. -/
def wantsSuccess (msg : OutboundMessage) (rcpt : Bytes) : Bool :=
  let entries := (recipientDSNs msg).filter fun entry =>
    folded strs entry.address ≠ [] ∧ folded strs entry.address = folded strs rcpt
  match entries.getLast? with
  | some entry => entry.notify &&& notifyNever = 0 && notifyWantsSuccess entry.notify
  | none => false

inductive Report where
  | failure (recipients : List Bytes) (reason : Bytes)
  | delayed (recipients : List Bytes) (reason : Bytes) (retryUntil : Int)
  | relayed (recipients : List Bytes)
  deriving DecidableEq

/-- Durations are in nanoseconds. -/
structure Settings where
  bouncer : Bool
  maxLifetime : Int
  maxRetryInterval : Int
  delayWarning : Int
  deriving DecidableEq

def mayReport (w : Settings) (msg : OutboundMessage) : Bool :=
  w.bouncer && strs.trimSpace msg.senderEmail ≠ [] &&
    !(msg.origin = .forward && !msg.senderAuthenticated)

def generateBounce (w : Settings) (msg : OutboundMessage) (recipients : List Bytes)
    (reason : Bytes) : List Report :=
  if mayReport strs w msg then
    let wanted := recipients.filter fun rcpt => notifyWantsFailure (recipientNotify strs msg rcpt)
    if wanted = [] then [] else [.failure wanted reason]
  else []

def second : Int := 1000000000

/-- Times are in nanoseconds since the epoch; `Unix` rounds down to seconds. -/
def unix (time : Int) : Int64 := Int64.ofInt (time / second)

def sinceCreation (msg : OutboundMessage) (now : Int) : Int := now - msg.createdAt.toInt * second

def delayReportRecipients (w : Settings) (msg : OutboundMessage) (now : Int) : List Bytes :=
  if w.bouncer = false ∨ msg.delayReportSent ∨ w.delayWarning ≤ 0 ∨
      sinceCreation msg now < w.delayWarning then []
  else
    let wanted := msg.recipients.filter fun rcpt =>
      notifyWantsDelay (recipientNotify strs msg rcpt)
    if mayReport strs w msg then wanted else []

end Reports

section Attempt

inductive Mark where
  | delivered
  | failed (msg : OutboundMessage) (nextRetryAt : Int64)
  | bounced (msg : OutboundMessage)
  deriving DecidableEq

def baseRetryDelay : Int := 60 * second

def retryDelay (attempt : Int32) (maxInterval : Int) : Int :=
  let clamped := min (max attempt.toInt 0) 20
  let delay := baseRetryDelay * 2 ^ clamped.toNat
  if maxInterval < delay then maxInterval else delay

variable (strs : Strings) (w : Settings)

def handlePermanentFailure (msg : OutboundMessage) (reason : Bytes) : Mark × List Report :=
  (.bounced msg, generateBounce strs w msg msg.recipients reason)

def handleFailure (now : Int) (msg : OutboundMessage) (reason : Bytes) : Mark × List Report :=
  let msg := if msg.createdAt = 0 then { msg with createdAt := unix now } else msg
  let next := now + retryDelay (msg.attemptCount + 1) w.maxRetryInterval
  let deadline := msg.createdAt.toInt * second + w.maxLifetime
  if deadline < next then (.bounced msg, generateBounce strs w msg msg.recipients reason)
  else
    let msg := { msg with statusReason := reason }
    let delayTo := delayReportRecipients strs w msg now
    if delayTo = [] then (.failed msg (unix next), [])
    else (.failed { msg with delayReportSent := true } (unix next),
      [.delayed delayTo reason deadline])

def pruneRecipients (all remove : List Bytes) : List Bytes :=
  if remove = [] then all
  else all.filter fun rcpt => folded strs rcpt ∉ remove.map (folded strs)

/-- The raw message as the blob store gives it; the texts are those of the
errors. Signing never fails an attempt. -/
inductive Body where
  | read
  | missing (reason : Bytes)
  | unreadable (reason : Bytes)
  deriving DecidableEq

/-- What an attempt meets: the clock, the blob store, the lookups, the hosts and
the order a map of domains is walked in. -/
structure Surroundings (strs : Strings) where
  now : Int
  body : Body
  lookup : Bytes → Option (List Host)
  iterate : (recipients : List Bytes) → Iteration strs.toLower recipients
  errorText : DeliveryError → Bytes

structure Processed where
  mark : Mark
  reports : List Report
  taken : List (List Bytes)
  deriving DecidableEq

variable (cfg : Config)

def deliverOutbound (around : Surroundings strs) (msg : OutboundMessage) : Outcome :=
  deliverViaMX cfg (some (wantsSuccess strs msg)) strs.toLower around.lookup msg.recipients
    (around.iterate msg.recipients)

def pruned (msg : OutboundMessage) (permanentFails : List Bytes) : OutboundMessage :=
  if permanentFails = [] then msg
  else { msg with
    failedRecipients := msg.failedRecipients ++ permanentFails
    recipients := pruneRecipients strs msg.recipients permanentFails }

def bounceReason (msg : OutboundMessage) : Bytes :=
  if msg.statusReason = [] then ascii "delivery permanently failed" else msg.statusReason

def processMessage (around : Surroundings strs) (msg : OutboundMessage) : Processed :=
  match around.body with
  | .missing reason =>
    let (mark, reports) := handlePermanentFailure strs w msg reason
    ⟨mark, reports, []⟩
  | .unreadable reason =>
    let (mark, reports) := handleFailure strs w around.now msg reason
    ⟨mark, reports, []⟩
  | .read =>
    let out := deliverOutbound strs cfg around msg
    let bounces := if out.permanentFails = [] then []
      else generateBounce strs w msg out.permanentFails (bounceReason msg)
    let left := pruned strs msg out.permanentFails
    match out.err with
    | some error =>
      if left.recipients = [] then ⟨.delivered, bounces, out.taken⟩
      else
        let reason := around.errorText error
        let (mark, reports) :=
          handleFailure strs w around.now { left with statusReason := reason } reason
        ⟨mark, bounces ++ reports, out.taken⟩
    | none =>
      let relayed := if out.relayed ≠ [] ∧ mayReport strs w left then [.relayed out.relayed]
        else []
      ⟨.delivered, bounces ++ relayed, out.taken⟩

end Attempt

section Copies

open RelayAccounts

def Once (taken : List (List Bytes)) : Prop := taken.Pairwise List.Disjoint

variable (cfg : Config) (env : Option (Bytes → Bool))

/-- A host that takes over copies also answers QUIT. -/
def QuitsClean (rcpts : List Bytes) (hosts : List Host) : Prop :=
  ∀ host ∈ hosts, ∀ rcpt, Accepts cfg rcpts host rcpt → host.remote.quit = .ok

variable {cfg}

theorem accepts_completes {rcpts : List Bytes} {host : Host} {rcpt : Bytes}
    (accepts : Accepts cfg rcpts host rcpt) (quits : host.remote.quit = .ok) :
    Completes cfg rcpts host := by
  obtain ⟨reached, heard, -, data, ended⟩ := accepts
  exact ⟨reached, heard, quits, fun _ => ⟨data, ended⟩⟩

/-- Induction on the hosts: one that does not complete has taken nothing over,
and the one that does is the last to be tried. -/
theorem tryHosts_once (domain : Bytes) (rcpts : List Bytes) (lastErr : Option HostError)
    {hosts : List Host} (clean : QuitsClean cfg rcpts hosts) :
    Once (tryHosts cfg env domain rcpts lastErr hosts).taken := by
  induction hosts generalizing lastErr with
  | nil => exact .nil
  | cons host rest ih =>
    have later := fun error => ih error fun other member => clean other (.tail _ member)
    by_cases authorized : host.policy.mxAuthorized = true
    · cases sent : (hostSend cfg env rcpts host).err with
      | none =>
        rw [tryHosts_done cfg env rcpts domain lastErr host rest authorized sent]
        exact List.pairwise_singleton _ _
      | some error =>
        have nothing : (hostSend cfg env rcpts host).taken = [] := by
          apply List.eq_nil_iff_forall_not_mem.mpr
          intro rcpt member
          have accepts := (mem_hostSend_taken cfg env rcpts authorized rcpt).mp member
          have completes := accepts_completes accepts (clean host List.mem_cons_self rcpt accepts)
          rw [(hostSend_err cfg env rcpts authorized).mpr completes] at sent
          cases sent
        rw [tryHosts_next cfg env rcpts domain lastErr host rest authorized error sent, nothing]
        exact .cons (fun other _ => List.disjoint_nil_left other) (later (some error))
    · rw [tryHosts_skip cfg env rcpts domain lastErr host rest authorized]
      exact later _

variable {lookup : Bytes → Option (List Host)} {toLower : Bytes → Bytes} {recipients : List Bytes}

theorem domains_once {visited : List Bytes} (nodup : visited.Nodup)
    (clean : ∀ domain ∈ visited, ∀ hosts, lookup domain = some hosts →
      QuitsClean cfg (byDomain toLower recipients domain) hosts) :
    Once (visited.flatMap fun domain =>
      (domainTried cfg env lookup (byDomain toLower recipients) domain).taken) := by
  rw [Once, List.pairwise_flatMap]
  constructor
  · intro domain member
    cases found : lookup domain with
    | none =>
      rw [domainTried, found]
      exact .nil
    | some hosts =>
      rw [domainTried, found]
      exact tryHosts_once env domain _ none (clean domain member hosts found)
  · -- a recipient belongs to one domain
    refine List.Pairwise.imp ?_ nodup
    intro left right different first inLeft second inRight rcpt here there
    have own := (met_own accepts_listed ((domain_met env left rcpt).2.mp ⟨_, inLeft, here⟩)).2
    have also := (met_own accepts_listed ((domain_met env right rcpt).2.mp ⟨_, inRight, there⟩)).2
    cases own.symm.trans also
    exact different rfl

end Copies

section Life

open RelayAccounts

variable (strs : Strings) (w : Settings) (cfg : Config)

structure Queued where
  record : Option OutboundMessage
  taken : List (List Bytes)
  deriving DecidableEq

def Mark.record : Mark → Option OutboundMessage
  | .failed msg nextRetryAt => some (failedOnce msg nextRetryAt)
  | _ => none

def attempt (queued : Queued) (around : Surroundings strs) : Queued :=
  match queued.record with
  | none => queued
  | some msg =>
    let done := processMessage strs w cfg around msg
    ⟨done.mark.record, queued.taken ++ done.taken⟩

/-- A host that takes over copies also answers QUIT, and once a domain's copies
were taken over no later domain ends the delivery. -/
def Settled (queued : Queued) (around : Surroundings strs) : Prop :=
  ∀ msg, queued.record = some msg → around.body = .read →
    (∀ domain ∈ (around.iterate msg.recipients).order, ∀ hosts, around.lookup domain = some hosts →
      QuitsClean cfg (byDomain strs.toLower msg.recipients domain) hosts) ∧
    ∀ before domain after, (around.iterate msg.recipients).order = before ++ domain :: after →
      (∀ earlier ∈ before,
        ¬ DomainFails cfg around.lookup (byDomain strs.toLower msg.recipients) earlier) →
      DomainFails cfg around.lookup (byDomain strs.toLower msg.recipients) domain →
      ∀ earlier ∈ before, ∀ rcpt,
        ¬ Met cfg around.lookup strs.toLower msg.recipients Accepts earlier rcpt

variable {strs w cfg} {queued : Queued} {around : Surroundings strs} {msg : OutboundMessage}

/-- A settled delivery hands a copy over once, and nothing if it reports an error. -/
theorem delivery_taken (pending : queued.record = some msg) (reads : around.body = .read)
    (settled : Settled strs cfg queued around) :
    Once (deliverOutbound strs cfg around msg).taken ∧
      ((deliverOutbound strs cfg around msg).err ≠ none →
        ∀ copies ∈ (deliverOutbound strs cfg around msg).taken, copies = []) := by
  obtain ⟨clean, first⟩ := settled msg pending reads
  have nodup := (around.iterate msg.recipients).nodup
  have ends := deliverDomains_ends cfg (some (wantsSuccess strs msg)) around.lookup
    (byDomain strs.toLower msg.recipients) .start rfl rfl (around.iterate msg.recipients).order
  rw [deliverOutbound, deliverViaMX]
  generalize (around.iterate msg.recipients).order = order at *
  generalize deliverDomains cfg _ around.lookup _ _ order = out at *
  cases ends with
  | done passed noError fails taken =>
    rw [taken]
    exact ⟨domains_once _ nodup clean, fun failed => absurd noError failed⟩
  | failed before passed fails error refused taken returned =>
    rename_i after domain
    have part : (before ++ [domain]).Sublist (before ++ domain :: after) := by simp
    rw [taken]
    refine ⟨domains_once _ (part.nodup nodup) fun other member => clean other
      (part.subset member), fun _ copies member => ?_⟩
    obtain ⟨visited, inVisited, copied⟩ := List.mem_flatMap.mp member
    apply List.eq_nil_iff_forall_not_mem.mpr
    intro rcpt inside
    have met := (domain_met _ visited rcpt).2.mp ⟨copies, copied, inside⟩
    rcases List.mem_append.mp inVisited with early | last
    · exact first before domain after rfl passed fails visited early rcpt met
    rw [List.mem_singleton] at last
    subst last
    -- a host of the failing domain that took copies over would have completed
    obtain ⟨hosts, trail, found, tried, host, inTrail, accepts⟩ := met
    have member := trail_subset tried inTrail
    have quits := clean visited (by simp) hosts found host member rcpt accepts
    rcases fails with missing | ⟨others, same, -, none_completes⟩
    · cases found.symm.trans missing
    · cases found.symm.trans same
      exact none_completes host member (accepts_completes accepts quits)

/-- While the message is pending nothing was handed over. -/
structure Untaken (queued : Queued) : Prop where
  once : Once queued.taken
  empty : queued.record ≠ none → ∀ copies ∈ queued.taken, copies = []

theorem once_append_empty {first second : List (List Bytes)} (empty : ∀ copies ∈ first, copies = [])
    (once : Once second) : Once (first ++ second) := by
  induction first with
  | nil => exact once
  | cons head rest ih =>
    have nothing := empty head List.mem_cons_self
    subst nothing
    exact .cons (fun other _ => List.disjoint_nil_left other)
      (ih fun copies member => empty copies (.tail _ member))

/-- What an attempt hands over, and that nothing was handed over if the message
stays pending. -/
theorem processMessage_taken (pending : queued.record = some msg)
    (settled : Settled strs cfg queued around) :
    Once (processMessage strs w cfg around msg).taken ∧
      ((processMessage strs w cfg around msg).mark.record ≠ none →
        ∀ copies ∈ (processMessage strs w cfg around msg).taken, copies = []) := by
  rw [processMessage]
  cases body : around.body with
  | missing reason | unreadable reason => exact ⟨.nil, fun _ => List.forall_mem_nil _⟩
  | read =>
    obtain ⟨once, empty⟩ := delivery_taken pending body settled
    cases outcome : (deliverOutbound strs cfg around msg).err with
    | none =>
      simp only [outcome]
      exact ⟨once, fun stays => absurd rfl stays⟩
    | some error =>
      have nothing := empty (by rw [outcome]; exact Option.some_ne_none error)
      simp only [outcome]
      split
      · exact ⟨once, fun _ => nothing⟩
      · exact ⟨once, fun _ => nothing⟩

theorem attempt_untaken (queued : Queued) (around : Surroundings strs) (untaken : Untaken queued)
    (settled : Settled strs cfg queued around) : Untaken (attempt strs w cfg queued around) := by
  cases pending : queued.record with
  | none =>
    rw [attempt, pending]
    exact untaken
  | some msg =>
    rw [attempt, pending]
    have empty := untaken.empty (by rw [pending]; exact Option.some_ne_none msg)
    obtain ⟨once, left⟩ := processMessage_taken (w := w) pending settled
    refine ⟨once_append_empty empty once, fun stays copies member => ?_⟩
    rcases List.mem_append.mp member with before | now
    · exact empty copies before
    · exact left stays copies now

theorem count_le_one {taken : List (List Bytes)} (once : Once taken) (rcpt : Bytes) :
    taken.countP (fun copies => rcpt ∈ copies) ≤ 1 := by
  induction once with
  | nil => exact Nat.zero_le 1
  | cons apart rest ih =>
    rename_i first later
    by_cases inside : rcpt ∈ first
    · have absent : later.countP (fun copies => rcpt ∈ copies) = 0 := by
        rw [List.countP_eq_zero]
        intro copies member
        simpa using fun there => apart copies member inside there
      simp [inside, absent]
    · simpa [inside] using ih

end Life

/-- However often a message is attempted, as long as the attempts settle every
recipient's copy is taken over in at most one transaction. -/
theorem recipient_accepted_once (strs : Strings) (w : Settings) (cfg : Config)
    (msg : OutboundMessage) (attempts : List (Surroundings strs))
    (settled : Along (attempt strs w cfg) (Settled strs cfg) ⟨some msg, []⟩ attempts) :
    ∀ reached, Passes (attempt strs w cfg) ⟨some msg, []⟩ attempts reached →
      ∀ rcpt, reached.taken.countP (fun copies => rcpt ∈ copies) ≤ 1 := by
  intro reached passed rcpt
  have start : Untaken ⟨some msg, []⟩ :=
    ⟨.nil, fun _ => List.forall_mem_nil _⟩
  have untaken := passes_invariant attempt_untaken start settled passed
  exact count_le_one untaken.once rcpt

def asciiStrings : Strings := ⟨lower, id⟩

def sampleSettings : Settings := ⟨false, 432000 * second, 3600 * second, 0⟩

def sampleAttempt (lookup : Bytes → Option (List Host)) : Surroundings asciiStrings where
  now := 100 * second
  body := .read
  lookup := lookup
  iterate := Iteration.eachOnce lower
  errorText _ := ascii "failed"

open RelayAccounts in
theorem settled_without_hosts (queued : Queued) :
    Settled asciiStrings ⟨false, false⟩ queued (sampleAttempt fun _ => none) := by
  intro msg pending reads
  constructor
  · intro domain member hosts found
    cases found
  · intro before domain after split passes fails earlier inBefore
    exact absurd (.inl rfl) (passes earlier inBefore)

open RelayAccounts in
theorem settled_with_polite_host (queued : Queued) :
    Settled asciiStrings ⟨false, false⟩ queued (sampleAttempt fun _ => some [politeHost]) := by
  intro msg pending reads
  constructor
  · rintro domain member hosts ⟨⟩ host inHosts rcpt accepts
    rw [List.mem_singleton] at inHosts
    subst inHosts
    rfl
  · intro before domain after split passes fails
    have completes : Completes ⟨false, false⟩
        (byDomain asciiStrings.toLower msg.recipients domain) politeHost := by
      refine ⟨⟨rfl, rfl, rfl⟩, fun place below => .inl rfl, rfl, fun _ => ⟨rfl, rfl⟩⟩
    rcases fails with missing | ⟨hosts, found, -, none_completes⟩
    · cases missing
    · cases found
      exact absurd completes (none_completes politeHost List.mem_cons_self)

theorem recipient_accepted_once_retried :
    let attempts := [sampleAttempt fun _ => none,
      sampleAttempt fun _ => some [RelayAccounts.politeHost]]
    let last := run (attempt asciiStrings sampleSettings ⟨false, false⟩) ⟨some sampleMessage, []⟩
      attempts
    last.taken = [[ascii "r@b.example"]] ∧
      last.taken.countP (fun copies => ascii "r@b.example" ∈ copies) ≤ 1 := by
  intro attempts last
  have settled : Along (attempt asciiStrings sampleSettings ⟨false, false⟩)
      (Settled asciiStrings ⟨false, false⟩) ⟨some sampleMessage, []⟩ attempts :=
    ⟨settled_without_hosts _, settled_with_polite_host _, trivial⟩
  constructor
  · decide
  · exact recipient_accepted_once asciiStrings sampleSettings ⟨false, false⟩ sampleMessage attempts
      settled last ⟨attempts, [], (List.append_nil attempts).symm, rfl⟩ _

/-- A host that takes the message over and drops the connection at QUIT. -/
def hastyHost : Host :=
  { RelayAccounts.politeHost with
    remote := { RelayAccounts.politeHost.remote with quit := .drop } }

def twoDomains : OutboundMessage :=
  { sampleMessage with recipients := [ascii "r@b.example", ascii "s@c.example"] }

/-- The copy of a domain that went through is sent again when a later domain
fails, and so is a copy whose host fails only at QUIT. -/
theorem accepted_copy_is_sent_again :
    let unreachable := sampleAttempt fun domain =>
      if domain = ascii "b.example" then some [RelayAccounts.politeHost] else none
    let hasty := sampleAttempt fun _ => some [hastyHost]
    let first := run (attempt asciiStrings sampleSettings ⟨false, false⟩) ⟨some twoDomains, []⟩
      [unreachable, unreachable]
    let second := run (attempt asciiStrings sampleSettings ⟨false, false⟩)
      ⟨some sampleMessage, []⟩ [hasty, hasty]
    first.taken.countP (fun copies => ascii "r@b.example" ∈ copies) = 2 ∧
      second.taken.countP (fun copies => ascii "r@b.example" ∈ copies) = 2 := by
  decide

end Bongo.Worker
