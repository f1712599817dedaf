import Bongo.Histories
import Bongo.Literals
import Bongo.Runes

/-!
Sending a web form. The handler spools one envelope for each local recipient, puts one
entry for the external recipients into the outbound queue and stores a Sent copy; after
each of these writes it records the step in the send log, and a retry of the same form
skips what is recorded. Every write may fail, the process may die at any of them, and the
worker takes entries from the queue meanwhile.

Submissions of one send ID are serialised by a lock, so one is handled at a time. Of
the request only what the steps depend on is kept: the form and its recipients. Which of
them are local is looked up anew by each submission. All that may refuse a submission
before its first write (form checks, quota, rate limits, blob store) is one answer.
-/

namespace Bongo.Compose

open ByteKeys Runes Histories Literals

structure Attachment where
  filename : Bytes
  data : Bytes

structure Form where
  /-- From, To, Cc, subject, body and the modes, as the fingerprint takes them. -/
  fields : List Bytes
  attachments : List Attachment
  /-- The bare addresses of To and Cc. -/
  recipients : List Bytes

structure Platform where
  table : CaseTable
  digest : Bytes → Bytes
  /-- Whether the node has an outbound queue. -/
  queueStore : Bool

section SendLog

variable (platform : Platform)

def framed (text : Bytes) : Bytes := bigEndian 8 text.length ++ text

def sendFingerprint (form : Form) : Bytes :=
  platform.digest (form.fields.flatMap framed ++ (framed (formatNat form.attachments.length) ++
    form.attachments.flatMap fun attachment =>
      framed attachment.filename ++ (framed (formatNat attachment.data.length) ++
        framed (platform.digest attachment.data))))

def sendLogLocalStep (rcpt : Bytes) : Bytes :=
  ascii "local/" ++ encodeHex ((platform.digest (platform.table.lowerText rcpt)).take 8)

def stepSent : Bytes := ascii "sent"

def stepExternal : Bytes := ascii "external"

abbrev SendLog := List (Bytes × Bytes)

/-- Whether a step is recorded; `none` when it is recorded for other content. -/
def done (log : SendLog) (fingerprint step : Bytes) : Option Bool :=
  match log.find? fun record => record.1 = step with
  | none => some false
  | some record => if record.2 = fingerprint then some true else none

def checkAll (log : SendLog) (fingerprint : Bytes) : Bool :=
  log.any fun record => record.2 ≠ fingerprint

def stepsDone (log : SendLog) (fingerprint : Bytes) : List Bytes → Option (List Bytes)
  | [] => some []
  | step :: rest =>
    match done log fingerprint step with
    | none => none
    | some true => (stepsDone log fingerprint rest).map (step :: ·)
    | some false => stepsDone log fingerprint rest

end SendLog

/-! One submission. -/

/-- Where a submission stands: before a write, or before a point that needs none. -/
inductive Point where
  | locals (rest : List Bytes)
  | markLocal (rcpt : Bytes) (rest : List Bytes)
  | external
  | markExternal
  | sent
  | markSent

structure Running where
  locals : List Bytes
  external : Bool
  /-- The steps known to be recorded. -/
  done : List Bytes
  point : Point

/-- How a write ends: it is done, it reports failure, or the process dies at it. A write
that is not reported done may have taken effect or not. -/
inductive Outcome where
  | done
  | failed (landed : Bool)
  | died (landed : Bool)

structure Report where
  locals : List Bytes
  external : Bool

/-- What the writes leave, and beside it what happened: the envelopes spooled, the
recipients whose submission died between the envelope and its record, how often an entry was
put into the queue and a copy into the Sent mailbox, and the reported successes. -/
structure Store where
  log : SendLog := []
  pending : Bool := false
  spooled : List Bytes := []
  lost : List Bytes := []
  queued : Nat := 0
  copies : Nat := 0
  reports : List Report := []

structure World where
  store : Store := {}
  running : Option Running := none

inductive Progress where
  | delivered
  | rescheduled
  | bounced

inductive Event where
  | submit (isLocal : Bytes → Bool) (admitted : Bool)
  | proceed (outcome : Outcome)
  | worker (progress : Progress)

section Send

variable (platform : Platform) (form : Form)

def Store.record (store : Store) (step : Bytes) : Store :=
  { store with log := (step, sendFingerprint platform form) :: store.log }

def Store.spool (store : Store) (rcpt : Bytes) : Store :=
  { store with spooled := rcpt :: store.spooled }

def Store.lose (store : Store) (rcpt : Bytes) : Store := { store with lost := rcpt :: store.lost }

def Store.enqueue (store : Store) : Store :=
  { store with pending := true, queued := store.queued + 1 }

def Store.deliver (store : Store) : Store := { store with copies := store.copies + 1 }

def Store.report (store : Store) (run : Running) : Store :=
  { store with reports := ⟨run.locals, run.external⟩ :: store.reports }

def begin (log : SendLog) (isLocal : Bytes → Bool) : Option Running :=
  let locals := form.recipients.filter isLocal
  let external := form.recipients.any fun rcpt => !isLocal rcpt
  let fingerprint := sendFingerprint platform form
  if checkAll log fingerprint then none
  else
    (stepsDone log fingerprint (stepSent :: ((if external then [stepExternal] else []) ++
        locals.map (sendLogLocalStep platform)))).map fun done =>
      { locals := locals, external := external, done := done, point := .locals locals }

/-- A replicated write: `next` once it is done, else the submission is over. -/
def replicated (outcome : Outcome) (before after : Store) (next : World) : World :=
  match outcome with
  | .done => next
  | .failed landed => { store := if landed then after else before }
  | .died landed => { store := if landed then after else before }

/-- The envelope of a local recipient: a failed spool write leaves nothing behind. -/
def spoolLocal (store : Store) (run : Running) (rcpt : Bytes) (rest : List Bytes) :
    Outcome → World
  | .done =>
    { store := store.spool rcpt, running := some { run with point := .markLocal rcpt rest } }
  | .failed _ => { store := store }
  | .died true => { store := (store.spool rcpt).lose rcpt }
  | .died false => { store := store }

def recordLocal (store : Store) (run : Running) (rcpt : Bytes) (rest : List Bytes) :
    Outcome → World
  | .done =>
    { store := store.record platform form (sendLogLocalStep platform rcpt)
      running := some { run with
        done := sendLogLocalStep platform rcpt :: run.done
        point := .locals rest } }
  | .failed landed =>
    { store := if landed then store.record platform form (sendLogLocalStep platform rcpt)
        else store }
  | .died landed =>
    { store := if landed then store.record platform form (sendLogLocalStep platform rcpt)
        else store.lose rcpt }

/-- The entry may be queued already by an attempt that died before recording it. -/
def queueExternal (store : Store) (run : Running) (outcome : Outcome) : World :=
  if run.external && !platform.queueStore then { store := store }
  else if !run.external || run.done.contains stepExternal then
    { store := store, running := some { run with point := .sent } }
  else if store.pending then { store := store, running := some { run with point := .markExternal } }
  else
    replicated outcome store store.enqueue
      { store := store.enqueue, running := some { run with point := .markExternal } }

def storeSent (store : Store) (run : Running) (outcome : Outcome) : World :=
  if run.done.contains stepSent then { store := store.report run }
  else if 0 < store.copies then { store := store, running := some { run with point := .markSent } }
  else
    replicated outcome store store.deliver
      { store := store.deliver, running := some { run with point := .markSent } }

def proceed (store : Store) (run : Running) (outcome : Outcome) : World :=
  match run.point with
  | .locals [] => { store := store, running := some { run with point := .external } }
  | .locals (rcpt :: rest) =>
    if run.done.contains (sendLogLocalStep platform rcpt) then
      { store := store, running := some { run with point := .locals rest } }
    else spoolLocal store run rcpt rest outcome
  | .markLocal rcpt rest => recordLocal platform form store run rcpt rest outcome
  | .external => queueExternal platform store run outcome
  | .markExternal =>
    replicated outcome store (store.record platform form stepExternal)
      { store := store.record platform form stepExternal
        running := some { run with point := .sent } }
  | .sent => storeSent store run outcome
  | .markSent =>
    replicated outcome store (store.record platform form stepSent)
      { store := (store.record platform form stepSent).report run }

def Progress.leaves : Progress → Bool
  | .delivered => true
  | .rescheduled => false
  | .bounced => true

/-- A submission that comes while one is running waits for it. -/
def step (world : World) : Event → World
  | .submit isLocal admitted =>
    match world.running with
    | some _ => world
    | none =>
      { world with
        running := if admitted then begin platform form world.store.log isLocal else none }
  | .proceed outcome =>
    match world.running with
    | none => world
    | some run => proceed platform form world.store run outcome
  | .worker progress =>
    if progress.leaves then { world with store := { world.store with pending := false } }
    else world

end Send

section Property

variable (platform : Platform) (form : Form)

def Same (left right : Bytes) : Bool :=
  platform.table.lowerText left = platform.table.lowerText right

/-- At most one queue entry and one Sent copy; an envelope more for a recipient only for
each time a submission died between its envelope and the record; and what a reported success says
is true. -/
structure Once (store : Store) : Prop where
  queued : store.queued ≤ 1
  sent : store.copies ≤ 1
  spooled : ∀ rcpt, store.spooled.countP (Same platform rcpt) ≤
    1 + store.lost.countP (Same platform rcpt)
  reported : ∀ report ∈ store.reports,
    (∀ rcpt ∈ report.locals, ∃ other ∈ store.spooled, Same platform rcpt other = true) ∧
      (report.external = true → 0 < store.queued) ∧ 0 < store.copies

/-- The steps of different local recipients differ: the digest is cut to eight bytes. -/
def StepsApart : Prop :=
  ∀ left ∈ form.recipients, ∀ right ∈ form.recipients,
    sendLogLocalStep platform left = sendLogLocalStep platform right →
      Same platform left right = true

def recorded (store : Store) (step : Bytes) : Bool := store.log.any fun record => record.1 = step

def Running.marksLocal (run : Running) : Bool :=
  match run.point with
  | .markLocal _ _ => true
  | _ => false

/-- The record of a local step does not fail without effect, and the entry does not leave
the queue before the external step is recorded. -/
def Clean (world : World) : Event → Prop
  | .proceed (.failed false) => (world.running.any Running.marksLocal) = false
  | .worker progress => progress.leaves = true → world.store.pending = true →
      recorded world.store stepExternal = true
  | _ => True

instance (world : World) : (event : Event) → Decidable (Clean world event)
  | .proceed (.failed false) => inferInstanceAs (Decidable (_ = _))
  | .worker _ => inferInstanceAs (Decidable (_ → _ → _))
  | .proceed (.failed true) | .proceed .done | .proceed (.died _) | .submit _ _ => isTrue trivial

end Property

section Invariant

variable (platform : Platform) (form : Form)

/-- What is recorded has been done, and what has been done once is not done again. -/
structure Facts (store : Store) : Prop where
  own : ∀ record ∈ store.log, record.2 = sendFingerprint platform form
  sent : store.copies ≤ 1
  queued : store.queued ≤ 1
  pendingBacked : store.pending = true → 0 < store.queued
  known : 0 < store.queued → store.pending = true ∨ recorded store stepExternal = true
  sentBacked : recorded store stepSent = true → 0 < store.copies
  externalBacked : recorded store stepExternal = true → 0 < store.queued
  localBacked : ∀ rcpt, recorded store (sendLogLocalStep platform rcpt) = true →
    ∃ other ∈ store.spooled, sendLogLocalStep platform rcpt = sendLogLocalStep platform other
  spooledFrom : ∀ rcpt ∈ store.spooled, rcpt ∈ form.recipients
  lostFrom : ∀ rcpt ∈ store.lost, rcpt ∈ form.recipients
  reported : ∀ report ∈ store.reports, (∀ rcpt ∈ report.locals, rcpt ∈ form.recipients ∧
      ∃ other ∈ store.spooled, sendLogLocalStep platform rcpt = sendLogLocalStep platform other) ∧
      (report.external = true → 0 < store.queued) ∧ 0 < store.copies

def ofStep (step : Bytes) (rcpt : Bytes) : Bool := sendLogLocalStep platform rcpt = step

/-- Every envelope of a step but one belongs to a submission that died before the record;
the one more is recorded, or about to be. -/
def Counted (store : Store) (marking : Option Bytes) : Prop :=
  ∀ step, store.spooled.countP (ofStep platform step) ≤ store.lost.countP (ofStep platform step) +
    if recorded store step = true ∨ marking = some step then 1 else 0

def Running.marking (run : Running) : Option Bytes :=
  match run.point with
  | .markLocal rcpt _ => some (sendLogLocalStep platform rcpt)
  | _ => none

/-- The local recipients still to come are `rest`. -/
def Covered (run : Running) (rest : List Bytes) : Prop :=
  ∀ rcpt ∈ run.locals, sendLogLocalStep platform rcpt ∈ run.done ∨ rcpt ∈ rest

def Fresh (store : Store) (run : Running) : Prop :=
  (∀ rcpt ∈ run.locals, recorded store (sendLogLocalStep platform rcpt) = true →
    sendLogLocalStep platform rcpt ∈ run.done) ∧
  (run.external = true → recorded store stepExternal = true → stepExternal ∈ run.done)

def Positioned (store : Store) (run : Running) : Prop :=
  match run.point with
  | .locals rest => (∀ rcpt ∈ rest, rcpt ∈ run.locals) ∧ Covered platform run rest ∧
      Fresh platform store run
  | .markLocal rcpt rest => (∀ other ∈ rcpt :: rest, other ∈ run.locals) ∧
      Covered platform run (rcpt :: rest) ∧ Fresh platform store run ∧ rcpt ∈ store.spooled
  | .external => Covered platform run [] ∧ Fresh platform store run
  | .markExternal => Covered platform run [] ∧ 0 < store.queued
  | .sent => Covered platform run [] ∧ (run.external = true → 0 < store.queued)
  | .markSent => Covered platform run [] ∧ (run.external = true → 0 < store.queued) ∧
      0 < store.copies

structure Inside (store : Store) (run : Running) : Prop where
  locals : ∀ rcpt ∈ run.locals, rcpt ∈ form.recipients
  done : ∀ step ∈ run.done, recorded store step = true
  position : Positioned platform store run

structure Kept (world : World) : Prop where
  facts : Facts platform form world.store
  counted : Counted platform world.store (world.running.bind (Running.marking platform))
  inside : ∀ run, world.running = some run → Inside platform form world.store run

variable {platform} {form}

theorem recorded_record (store : Store) (step other : Bytes) :
    recorded (store.record platform form step) other = true ↔
      step = other ∨ recorded store other = true := by
  simp [recorded, Store.record]

theorem local_ne {step : Bytes} (other : step.head? ≠ some 108) (rcpt : Bytes) :
    sendLogLocalStep platform rcpt ≠ step := by
  intro same
  have first : (sendLogLocalStep platform rcpt).head? = some 108 := rfl
  rw [same] at first
  exact other first

theorem local_ne_sent : ∀ rcpt, sendLogLocalStep platform rcpt ≠ stepSent := local_ne (by decide)

theorem local_ne_external : ∀ rcpt, sendLogLocalStep platform rcpt ≠ stepExternal :=
  local_ne (by decide)

variable {rcpt : Bytes}

section Writes

variable {store : Store} (facts : Facts platform form store)
include facts

theorem Facts.record {step : Bytes}
    (sent : step = stepSent → 0 < store.copies) (external : step = stepExternal → 0 < store.queued)
    (spooled : ∀ rcpt, step = sendLogLocalStep platform rcpt →
      ∃ other ∈ store.spooled, sendLogLocalStep platform rcpt = sendLogLocalStep platform other) :
    Facts platform form (store.record platform form step) :=
  { facts with
    own := List.forall_mem_cons.mpr ⟨rfl, facts.own⟩
    known := fun some => (facts.known some).imp_right fun old =>
      (recorded_record store step stepExternal).mpr (.inr old)
    sentBacked := fun held =>
      ((recorded_record store step stepSent).mp held).elim sent facts.sentBacked
    externalBacked := fun held =>
      ((recorded_record store step stepExternal).mp held).elim external facts.externalBacked
    localBacked := fun rcpt held =>
      ((recorded_record store step _).mp held).elim (spooled rcpt) (facts.localBacked rcpt) }

theorem Facts.recordLocal (member : rcpt ∈ store.spooled) :
    Facts platform form (store.record platform form (sendLogLocalStep platform rcpt)) :=
  facts.record (fun same => absurd same (local_ne_sent rcpt))
    (fun same => absurd same (local_ne_external rcpt))
    (fun _ same => ⟨rcpt, member, same.symm⟩)

theorem Facts.recordExternal (queued : 0 < store.queued) :
    Facts platform form (store.record platform form stepExternal) :=
  facts.record (fun same => absurd same (by decide)) (fun _ => queued)
    (fun rcpt same => absurd same.symm (local_ne_external rcpt))

theorem Facts.recordSent (stored : 0 < store.copies) :
    Facts platform form (store.record platform form stepSent) :=
  facts.record (fun _ => stored) (fun same => absurd same (by decide))
    (fun rcpt same => absurd same.symm (local_ne_sent rcpt))

theorem Facts.spool (known : rcpt ∈ form.recipients) : Facts platform form (store.spool rcpt) :=
  { facts with
    localBacked := fun other held => (facts.localBacked other held).imp fun _ found =>
      ⟨List.mem_cons_of_mem rcpt found.1, found.2⟩
    spooledFrom := List.forall_mem_cons.mpr ⟨known, facts.spooledFrom⟩
    reported := fun report member =>
      ⟨fun other listed => ((facts.reported report member).1 other listed).imp_right fun backed =>
        backed.imp fun _ found => ⟨List.mem_cons_of_mem rcpt found.1, found.2⟩,
        (facts.reported report member).2⟩ }

theorem Facts.lose (known : rcpt ∈ form.recipients) : Facts platform form (store.lose rcpt) :=
  { facts with lostFrom := List.forall_mem_cons.mpr ⟨known, facts.lostFrom⟩ }

theorem Facts.enqueue (absent : store.queued = 0) : Facts platform form store.enqueue :=
  { facts with
    queued := by simp [Store.enqueue, absent]
    pendingBacked := fun _ => Nat.succ_pos store.queued
    known := fun _ => .inl rfl
    externalBacked := fun _ => Nat.succ_pos store.queued
    reported := fun report member =>
      ⟨(facts.reported report member).1, fun _ => Nat.succ_pos store.queued,
        (facts.reported report member).2.2⟩ }

theorem Facts.deliver (absent : store.copies = 0) : Facts platform form store.deliver :=
  { facts with
    sent := by simp [Store.deliver, absent]
    sentBacked := fun _ => Nat.succ_pos store.copies
    reported := fun report member =>
      ⟨(facts.reported report member).1, (facts.reported report member).2.1,
        Nat.succ_pos store.copies⟩ }

/-- A success is reported when every step of the submission is done. -/
theorem Facts.report {run : Running} (inside : Inside platform form store run)
    (covered : Covered platform run [])
    (queued : run.external = true → 0 < store.queued) (stored : 0 < store.copies) :
    Facts platform form (store.report run) :=
  { facts with
    reported := List.forall_mem_cons.mpr ⟨⟨fun rcpt member => ⟨inside.locals rcpt member, by
      have held : sendLogLocalStep platform rcpt ∈ run.done :=
        (covered rcpt member).resolve_right List.not_mem_nil
      exact facts.localBacked rcpt (inside.done _ held)⟩, queued, stored⟩, facts.reported⟩ }

end Writes

/-! The envelopes of one step. -/

theorem Counted.settle {store : Store} {marking : Option Bytes} {step : Bytes}
    (counted : Counted platform store marking)
    (marks : ∀ other, marking = some other → other = step) :
    Counted platform (store.record platform form step) none := by
  intro other
  refine (counted other).trans (Nat.add_le_add_left ?_ _)
  by_cases held : recorded store other = true ∨ marking = some other
  · have now : recorded (store.record platform form step) other = true := by
      rw [recorded_record]
      exact held.elim .inr fun same => .inl (marks other same).symm
    simp [held, now]
  · simp [held]

theorem Counted.spool {store : Store} (counted : Counted platform store none)
    (unknown : recorded store (sendLogLocalStep platform rcpt) = false) :
    Counted platform (store.spool rcpt) (some (sendLogLocalStep platform rcpt)) := by
  intro step
  have before := counted step
  change (rcpt :: store.spooled).countP (ofStep platform step) ≤
    store.lost.countP (ofStep platform step) +
      if recorded store step = true ∨ some (sendLogLocalStep platform rcpt) = some step then 1
        else 0
  by_cases same : sendLogLocalStep platform rcpt = step
  · subst same
    simp only [unknown] at before
    simpa [List.countP_cons, ofStep] using before
  · simpa [List.countP_cons, ofStep, same] using before

theorem Counted.lose {store : Store}
    (counted : Counted platform store (some (sendLogLocalStep platform rcpt))) :
    Counted platform (store.lose rcpt) none := by
  intro step
  have before := counted step
  change store.spooled.countP (ofStep platform step) ≤
    (rcpt :: store.lost).countP (ofStep platform step) +
      if recorded store step = true ∨ none = some step then 1 else 0
  by_cases same : sendLogLocalStep platform rcpt = step
  · rw [List.countP_cons_of_pos (by simp [ofStep, same])]
    rw [if_pos (.inr (congrArg some same))] at before
    omega
  · simpa [List.countP_cons, ofStep, same] using before

/-! Each step of a submission keeps the invariant. -/

variable {store : Store} {run : Running} {outcome : Outcome}

theorem Kept.stop (facts : Facts platform form store)
    (counted : Counted platform store none) : Kept platform form { store := store } where
  facts := facts
  counted := counted
  inside := nofun

theorem Kept.goto (facts : Facts platform form store)
    (counted : Counted platform store (run.marking platform))
    (inside : Inside platform form store run) :
    Kept platform form { store := store, running := some run } where
  facts := facts
  counted := counted
  inside := fun _ running => by
    cases running
    exact inside

theorem Kept.replicated {before after : Store} {next : World}
    (old : Facts platform form before ∧ Counted platform before none)
    (new : Facts platform form after ∧ Counted platform after none)
    (last : Kept platform form next) :
    Kept platform form (replicated outcome before after next) := by
  cases outcome with
  | done => exact last
  | failed landed | died landed => cases landed with
    | true => exact Kept.stop new.1 new.2
    | false => exact Kept.stop old.1 old.2

section

variable (inside : Inside platform form store run)
include inside

theorem Inside.place {point : Point} (position : run.point = point) :
    Positioned platform store { run with point := point } := by
  subst position
  exact inside.position

theorem Inside.recorded_mono {step : Bytes} :
    ∀ other ∈ run.done, recorded (store.record platform form step) other = true :=
  fun other member => (recorded_record store step other).mpr (.inr (inside.done other member))

variable (facts : Facts platform form store)
include facts

theorem Kept.spoolLocal {rest : List Bytes} (counted : Counted platform store none)
    (position : run.point = .locals (rcpt :: rest))
    (unwritten : sendLogLocalStep platform rcpt ∉ run.done) :
    Kept platform form (spoolLocal store run rcpt rest outcome) := by
  obtain ⟨members, covered, fresh⟩ := inside.place position
  have listed := members rcpt List.mem_cons_self
  have unknown : recorded store (sendLogLocalStep platform rcpt) = false := by
    by_contra held
    exact unwritten (fresh.1 rcpt listed (by simpa using held))
  have known := inside.locals rcpt listed
  have spooled := facts.spool known
  have counts := counted.spool unknown
  cases outcome with
  | done =>
    exact Kept.goto spooled counts
      { locals := inside.locals
        done := inside.done
        position := ⟨members, covered, fresh, List.mem_cons_self⟩ }
  | failed landed => exact Kept.stop facts counted
  | died landed => cases landed with
    | true => exact Kept.stop (spooled.lose known) counts.lose
    | false => exact Kept.stop facts counted

theorem Kept.recordLocal {rest : List Bytes}
    (counted : Counted platform store (some (sendLogLocalStep platform rcpt)))
    (position : run.point = .markLocal rcpt rest)
    (clean : ∀ landed, outcome = .failed landed → landed = true) :
    Kept platform form (recordLocal platform form store run rcpt rest outcome) := by
  obtain ⟨members, covered, fresh, spooled⟩ := inside.place position
  have listed := members rcpt List.mem_cons_self
  have settled := facts.recordLocal spooled
  have counts : Counted platform
      (store.record platform form (sendLogLocalStep platform rcpt)) none :=
    counted.settle fun other same => (Option.some.inj same).symm
  cases outcome with
  | done =>
    refine Kept.goto settled counts
      { locals := inside.locals
        done := List.forall_mem_cons.mpr
          ⟨(recorded_record store _ _).mpr (.inl rfl), inside.recorded_mono⟩
        position :=
          ⟨fun other member => members other (List.mem_cons_of_mem rcpt member), ?_, ?_⟩ }
    · intro other member
      rcases covered other member with held | later
      · exact .inl (List.mem_cons_of_mem _ held)
      · rcases List.mem_cons.mp later with rfl | later
        · exact .inl List.mem_cons_self
        · exact .inr later
    · constructor
      · intro other member held
        rcases (recorded_record store _ _).mp held with same | old
        · exact List.mem_cons.mpr (.inl same.symm)
        · exact List.mem_cons_of_mem _ (fresh.1 other member old)
      · intro external held
        rcases (recorded_record store _ _).mp held with same | old
        · exact absurd same (local_ne_external rcpt)
        · exact List.mem_cons_of_mem _ (fresh.2 external old)
  | failed landed =>
    cases clean landed rfl
    exact Kept.stop settled counts
  | died landed => cases landed with
    | true => exact Kept.stop settled counts
    | false => exact Kept.stop (facts.lose (inside.locals rcpt listed)) counted.lose

theorem Kept.queueExternal (counted : Counted platform store none)
    (position : run.point = .external) :
    Kept platform form (queueExternal platform store run outcome) := by
  obtain ⟨covered, fresh⟩ := inside.place position
  unfold Compose.queueExternal
  split
  · exact Kept.stop facts counted
  split
  · rename_i skipped
    refine Kept.goto facts counted ⟨inside.locals, inside.done, covered, fun external => ?_⟩
    have held : stepExternal ∈ run.done := by
      rw [external] at skipped
      simpa using skipped
    exact facts.externalBacked (inside.done _ held)
  split
  · rename_i pending
    exact Kept.goto facts counted
      ⟨inside.locals, inside.done, covered, facts.pendingBacked pending⟩
  rename_i wanted missing
  -- Neither recorded nor pending, so no entry was ever queued.
  have absent : store.queued = 0 := by
    by_contra some
    rcases facts.known (Nat.pos_of_ne_zero some) with pending | held
    · exact missing pending
    refine wanted ?_
    by_cases external : run.external = true
    · simp [fresh.2 external held]
    · simp [external]
  exact Kept.replicated ⟨facts, counted⟩ ⟨facts.enqueue absent, counted⟩
    (Kept.goto (facts.enqueue absent) counted
      ⟨inside.locals, inside.done, covered, Nat.succ_pos store.queued⟩)

theorem Kept.storeSent (counted : Counted platform store none) (position : run.point = .sent) :
    Kept platform form (storeSent store run outcome) := by
  obtain ⟨covered, queued⟩ := inside.place position
  unfold Compose.storeSent
  split
  · rename_i held
    have stored := facts.sentBacked (inside.done _ (by simpa using held))
    exact Kept.stop (facts.report inside covered queued stored) counted
  split
  · rename_i stored
    exact Kept.goto facts counted ⟨inside.locals, inside.done, covered, queued, stored⟩
  rename_i missing
  have absent : store.copies = 0 := Nat.eq_zero_of_not_pos missing
  exact Kept.replicated ⟨facts, counted⟩ ⟨facts.deliver absent, counted⟩
    (Kept.goto (facts.deliver absent) counted
      ⟨inside.locals, inside.done, covered, queued, Nat.succ_pos store.copies⟩)

end

theorem Kept.proceed
    (kept : Kept platform form { store := store, running := some run })
    (clean : Clean { store := store, running := some run } (.proceed outcome)) :
    Kept platform form (proceed platform form store run outcome) := by
  have facts := kept.facts
  have counted := kept.counted
  have inside := kept.inside run rfl
  obtain ⟨locals, external, done, point⟩ := run
  cases point with
  | locals rest =>
    obtain ⟨members, covered, fresh⟩ := inside.position
    cases rest with
    | nil => exact Kept.goto facts counted ⟨inside.locals, inside.done, covered, fresh⟩
    | cons rcpt rest =>
      simp only [Compose.proceed]
      split
      case isFalse unknown =>
        exact Kept.spoolLocal inside facts counted rfl (by simpa using unknown)
      case isTrue held =>
      refine Kept.goto facts counted ⟨inside.locals, inside.done,
        fun other member => members other (List.mem_cons_of_mem rcpt member), ?_, fresh⟩
      intro other member
      rcases covered other member with held | later
      · exact .inl held
      · rcases List.mem_cons.mp later with rfl | later
        · exact .inl (by simpa using held)
        · exact .inr later
  | markLocal rcpt rest =>
    refine Kept.recordLocal inside facts counted rfl ?_
    rintro landed rfl
    cases landed with
    | true => rfl
    | false => cases clean
  | external => exact Kept.queueExternal inside facts counted rfl
  | markExternal =>
    obtain ⟨covered, queued⟩ := inside.position
    have settled := facts.recordExternal queued
    have counts : Counted platform (store.record platform form stepExternal) none :=
      counted.settle nofun
    exact Kept.replicated ⟨facts, counted⟩ ⟨settled, counts⟩ (Kept.goto settled counts
      ⟨inside.locals, inside.recorded_mono, covered, fun _ => queued⟩)
  | sent => exact Kept.storeSent inside facts counted rfl
  | markSent =>
    obtain ⟨covered, queued, stored⟩ := inside.position
    have settled := facts.recordSent stored
    have counts : Counted platform (store.record platform form stepSent) none :=
      counted.settle nofun
    have within : Inside platform form (store.record platform form stepSent)
        ⟨locals, external, done, .markSent⟩ :=
      ⟨inside.locals, inside.recorded_mono, covered, queued, stored⟩
    exact Kept.replicated ⟨facts, counted⟩ ⟨settled, counts⟩
      (Kept.stop (settled.report within covered queued stored) counts)

/-! The start of a submission, and the worker. -/

theorem done_own {log : SendLog} {fingerprint : Bytes}
    (own : ∀ record ∈ log, record.2 = fingerprint) (step : Bytes) :
    done log fingerprint step = some (log.any fun record => record.1 = step) := by
  unfold done
  cases found : log.find? fun record => record.1 = step with
  | none =>
    have missing : (log.any fun record => decide (record.1 = step)) = false := by
      rw [List.any_eq_false]
      exact List.find?_eq_none.mp found
    rw [missing]
  | some record =>
    have member := List.mem_of_find?_eq_some found
    have matched := List.find?_some found
    have held : (log.any fun record => decide (record.1 = step)) = true :=
      List.any_eq_true.mpr ⟨record, member, matched⟩
    simp [own record member, held]

theorem stepsDone_own {log : SendLog} {fingerprint : Bytes}
    (own : ∀ record ∈ log, record.2 = fingerprint) (steps : List Bytes) :
    stepsDone log fingerprint steps =
      some (steps.filter fun step => log.any fun record => record.1 = step) := by
  induction steps with
  | nil => rfl
  | cons step rest ih =>
    rw [stepsDone, done_own own, List.filter_cons]
    cases log.any fun record => decide (record.1 = step) with
    | true => simp [ih]
    | false => simpa using ih

theorem Inside.begin {isLocal : Bytes → Bool}
    (facts : Facts platform form store)
    (begun : begin platform form store.log isLocal = some run) :
    Inside platform form store run ∧ run.marking platform = none := by
  unfold Compose.begin at begun
  simp only [stepsDone_own facts.own] at begun
  split at begun
  · cases begun
  cases begun
  refine ⟨⟨?_, ?_, ?_⟩, rfl⟩
  · intro rcpt member
    exact (List.mem_filter.mp member).1
  · intro step member
    exact (List.mem_filter.mp member).2
  refine ⟨fun _ member => member, fun _ member => .inr member, ?_, ?_⟩
  · intro rcpt member held
    refine List.mem_filter.mpr ⟨?_, held⟩
    exact List.mem_cons_of_mem _ (List.mem_append_right _ (List.mem_map_of_mem member))
  intro external held
  have some : (form.recipients.any fun rcpt => !isLocal rcpt) = true := external
  refine List.mem_filter.mpr ⟨?_, held⟩
  rw [some, if_pos rfl]
  exact List.mem_cons_of_mem _ (List.mem_append_left _ List.mem_cons_self)

variable {world : World}

theorem Kept.submit {isLocal : Bytes → Bool} {admitted : Bool} (kept : Kept platform form world) :
    Kept platform form (step platform form world (.submit isLocal admitted)) := by
  obtain ⟨store, running⟩ := world
  cases running with
  | some run => exact kept
  | none =>
    have counted : Counted platform store none := kept.counted
    unfold step
    cases admitted with
    | false => exact Kept.stop kept.facts counted
    | true =>
      cases begun : begin platform form store.log isLocal with
      | none => simpa [begun] using Kept.stop kept.facts counted
      | some run =>
        obtain ⟨inside, marking⟩ := Inside.begin kept.facts begun
        rw [← marking] at counted
        simpa [begun] using Kept.goto kept.facts counted inside

theorem Inside.leave (inside : Inside platform form store run) :
    Inside platform form { store with pending := false } run where
  locals := inside.locals
  done := inside.done
  position := by
    have place := inside.position
    cases position : run.point <;> simp only [Positioned, position] at place ⊢ <;> exact place

theorem Kept.worker {progress : Progress} (kept : Kept platform form world)
    (clean : Clean world (.worker progress)) :
    Kept platform form (step platform form world (.worker progress)) := by
  simp only [Compose.step]
  split
  · rename_i leaves
    have facts := kept.facts
    exact {
      facts :=
        { facts with
          pendingBacked := nofun
          known := fun some => .inr ((facts.known some).elim (clean leaves) id) }
      counted := kept.counted
      inside := fun run running => (kept.inside run running).leave }
  · exact kept

theorem Kept.step {event : Event} (kept : Kept platform form world) (clean : Clean world event) :
    Kept platform form (step platform form world event) := by
  cases event with
  | submit isLocal admitted => exact kept.submit
  | worker progress => exact kept.worker clean
  | proceed outcome =>
    obtain ⟨store, running⟩ := world
    cases running with
    | none => exact kept
    | some run => exact kept.proceed clean

theorem kept_start : Kept platform form {} where
  facts :=
    { own := nofun
      sent := Nat.zero_le 1
      queued := Nat.zero_le 1
      pendingBacked := nofun
      known := fun some => absurd some (Nat.lt_irrefl 0)
      sentBacked := nofun
      externalBacked := nofun
      localBacked := nofun
      spooledFrom := nofun
      lostFrom := nofun
      reported := nofun }
  counted := fun _ => Nat.zero_le _
  inside := nofun

/-- Among the recipients of the form, the same step is the same address. -/
theorem countP_same {recipients : List Bytes} (apart : StepsApart platform form)
    (known : ∀ rcpt ∈ recipients, rcpt ∈ form.recipients) (listed : rcpt ∈ form.recipients) :
    recipients.countP (Same platform rcpt) =
      recipients.countP (ofStep platform (sendLogLocalStep platform rcpt)) := by
  refine List.countP_congr fun other member => ?_
  constructor
  · intro same
    have texts : platform.table.lowerText rcpt = platform.table.lowerText other := by
      simpa [Same] using same
    simp [ofStep, sendLogLocalStep, texts]
  · intro steps
    have same : sendLogLocalStep platform other = sendLogLocalStep platform rcpt := by
      simpa [ofStep] using steps
    exact apart rcpt listed other (known other member) same.symm

theorem Kept.once (kept : Kept platform form world) (apart : StepsApart platform form) :
    Once platform world.store where
  queued := kept.facts.queued
  sent := kept.facts.sent
  spooled := fun rcpt => by
    by_cases present : ∃ other ∈ world.store.spooled, Same platform rcpt other = true
    · obtain ⟨other, spooled, same⟩ := present
      -- The count is that of the step of the recipient as it was spooled.
      have alike : Same platform rcpt = Same platform other := by
        have texts : platform.table.lowerText rcpt = platform.table.lowerText other := by
          simpa [Same] using same
        funext third
        simp [Same, texts]
      have listed := kept.facts.spooledFrom other spooled
      rw [alike, countP_same apart kept.facts.spooledFrom listed,
        countP_same apart kept.facts.lostFrom listed]
      have counted := kept.counted (sendLogLocalStep platform other)
      split at counted <;> omega
    · have none : world.store.spooled.countP (Same platform rcpt) = 0 :=
        List.countP_eq_zero.mpr fun other member same => present ⟨other, member, same⟩
      omega
  reported := fun report member => by
    obtain ⟨locals, others⟩ := kept.facts.reported report member
    refine ⟨fun rcpt listed => ?_, others⟩
    obtain ⟨known, other, spooled, steps⟩ := locals rcpt listed
    exact ⟨other, spooled, apart rcpt known other (kept.facts.spooledFrom other spooled) steps⟩

end Invariant

/-- Whatever fails, dies or is taken from the queue, and whatever the lookups answer: as long
as no record of a local step fails without effect, and the entry stays in the queue
until the external step is recorded, every state of the history is as asked. -/
theorem send_once (platform : Platform) (form : Form) (apart : StepsApart platform form)
    (events : List Event) (clean : Along (step platform form) Clean {} events) (reached : World)
    (passed : Passes (step platform form) {} events reached) : Once platform reached.store :=
  (passes_invariant (fun _ _ kept allowed => Kept.step kept allowed) kept_start clean passed).once
    apart

def samplePlatform : Platform where
  table := asciiFolds.toCaseTable
  digest := id
  queueStore := true

def sampleForm : Form where
  fields := [ascii "ann@home.test", ascii "bob@home.test, x@far.test"]
  attachments := []
  recipients := [ascii "bob@home.test", ascii "x@far.test"]

def isBob (rcpt : Bytes) : Bool := rcpt = ascii "bob@home.test"

/-- The first submission spools and records the envelope of the local recipient, queues
the external entry and dies before it is recorded. -/
def diesAfterQueueing : List Event :=
  [.submit isBob true, .proceed .done, .proceed .done, .proceed .done, .proceed .done,
    .proceed (.died false)]

def retried : List Event :=
  [.submit isBob true, .proceed .done, .proceed .done, .proceed .done, .proceed .done,
    .proceed .done, .proceed .done]

/-- The worker delivers the entry before the retry looks for it, and the retry queues it
again. -/
theorem retry_queues_twice :
    ¬ Once samplePlatform
      (run (step samplePlatform sampleForm) {}
        (diesAfterQueueing ++ Event.worker .delivered :: retried)).store := by
  intro once
  have twice : (run (step samplePlatform sampleForm) {}
      (diesAfterQueueing ++ Event.worker .delivered :: retried)).store.queued = 2 := by
    decide
  have most := once.queued
  omega

def sampleHistory : List Event := diesAfterQueueing ++ (retried ++ [.worker .delivered])

/-- With the entry still there, the retry records it and completes. -/
theorem send_once_retry :
    Along (step samplePlatform sampleForm) Clean {} sampleHistory ∧
      Once samplePlatform (run (step samplePlatform sampleForm) {} sampleHistory).store ∧
      (run (step samplePlatform sampleForm) {} sampleHistory).store.reports.length = 1 := by
  have apart : StepsApart samplePlatform sampleForm := by
    intro left first right second
    simp only [sampleForm, List.mem_cons, List.not_mem_nil, or_false] at first second
    rcases first with rfl | rfl <;> rcases second with rfl | rfl <;> decide
  have clean : Along (step samplePlatform sampleForm) Clean {} sampleHistory := by
    decide
  exact ⟨clean, send_once samplePlatform sampleForm apart sampleHistory clean _
    ⟨sampleHistory, [], (List.append_nil _).symm, rfl⟩, by decide⟩

end Bongo.Compose
