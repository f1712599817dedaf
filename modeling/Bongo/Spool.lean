import Bongo.ByteKeys

/-!
The spool of the message pipeline. An envelope is a file that goes through five
directories by renames; a poller takes envelopes out of `incoming`, workers run
the stages on them, and after a crash whatever is left in `processing` goes back
to `incoming`. Every file operation is a step of its own and may fail.
-/

namespace Bongo.Spool

open ByteKeys

inductive Dir where
  | incoming
  | processing
  | deliver
  | quarantine
  | error
  deriving DecidableEq

/-- The content stands for the fields no file operation reads. -/
structure Envelope where
  id : Bytes
  flags : UInt32
  content : Bytes
  deriving DecidableEq

/-- The envelope files. Temporary files are no envelopes to any scan. -/
abbrev Files := Dir → Bytes → Option Envelope

/-- The rename that ends `WriteEnvelope`; the name comes from the envelope. -/
def Files.put (files : Files) (dir : Dir) (env : Envelope) : Files :=
  fun other id => if other = dir ∧ id = env.id then some env else files other id

def Files.moved (files : Files) (id : Bytes) (source target : Dir) (env : Envelope) : Files :=
  fun dir other =>
    if other = id then
      if dir = target then some env else if dir = source then none else files dir other
    else files dir other

/-- `None` where there is no such file. -/
def Files.rename (files : Files) (id : Bytes) (source target : Dir) : Option Files :=
  (files source id).map (files.moved id source target)

/-- A rename that may fail, and whether it went through. -/
def Files.move (files : Files) (ok : Bool) (id : Bytes) (source target : Dir) : Files × Bool :=
  match ok, files.rename id source target with
  | true, some renamed => (renamed, true)
  | _, _ => (files, false)

def msgFlagSpamChecked : UInt32 := 1
def msgFlagVirusChecked : UInt32 := 2
def msgFlagRulesChecked : UInt32 := 4
def msgFlagSpam : UInt32 := 8
def msgFlagVirus : UInt32 := 16
def msgFlagQuarantined : UInt32 := 32
def msgFlagDelivered : UInt32 := 64

def hasFlag (flags flag : UInt32) : Bool := flags &&& flag != 0

def setFlag (flags flag : UInt32) : UInt32 := flags ||| flag

def flagsForStage (name : Bytes) : UInt32 × UInt32 :=
  if name = ascii "antispam" then (msgFlagSpamChecked, msgFlagSpam)
  else if name = ascii "antivirus" then (msgFlagVirusChecked, msgFlagVirus)
  else if name = ascii "rules" then (msgFlagRulesChecked, 0)
  else if name = ascii "deliver" then (msgFlagDelivered, 0)
  else (0, 0)

inductive Verdict where
  | pass
  | tag
  | reject
  | quarantine
  deriving DecidableEq

/-- What a stage comes to. It may write to the envelope it is given: to its
content, and flags of its own (delivery does). -/
inductive Outcome where
  | err
  | done (verdict : Verdict) (sets : UInt32) (content : Bytes)
  deriving DecidableEq

def setOutcome (flags outcomeFlag : UInt32) : UInt32 :=
  if outcomeFlag ≠ 0 then setFlag flags outcomeFlag else flags

def judged (stage : Bytes) (env : Envelope) (verdict : Verdict) (sets : UInt32)
    (content : Bytes) : Envelope :=
  let flags := setOutcome (setFlag env.flags sets) (flagsForStage stage).1
  { env with
    content := content
    flags :=
      match verdict with
      | .pass => flags
      | .tag => setOutcome flags (flagsForStage stage).2
      | .reject | .quarantine =>
        setFlag (setOutcome flags (flagsForStage stage).2) msgFlagQuarantined }

/-- Every flag of the first is one of the second. -/
def Within (left right : UInt32) : Prop :=
  ∀ flag, hasFlag left flag = true → hasFlag right flag = true

theorem within_refl (flags : UInt32) : Within flags flags := fun _ has => has

theorem Within.trans {first second third : UInt32} (left : Within first second)
    (right : Within second third) : Within first third :=
  fun flag has => right flag (left flag has)

theorem within_setFlag (flags added : UInt32) : Within flags (setFlag flags added) := by
  intro flag has
  simp only [hasFlag, setFlag, bne_iff_ne, ne_eq] at has ⊢
  intro cleared
  apply has
  -- bit by bit: what is not in the larger set of flags is not in the smaller one
  apply UInt32.toBitVec_inj.mp
  ext i bound
  have bit := congrArg (fun flags => flags.toBitVec.getLsbD i) cleared
  simp [BitVec.getLsbD_eq_getElem bound] at bit ⊢
  grind

theorem within_setOutcome (flags added : UInt32) : Within flags (setOutcome flags added) := by
  unfold setOutcome
  split
  · exact within_setFlag flags added
  · exact within_refl flags

/-- A stage only ever adds flags. -/
theorem within_judged (stage : Bytes) (env : Envelope) (verdict : Verdict) (sets : UInt32)
    (content : Bytes) : Within env.flags (judged stage env verdict sets content).flags := by
  have checked := (within_setFlag env.flags sets).trans
    (within_setOutcome (setFlag env.flags sets) (flagsForStage stage).1)
  cases verdict with
  | pass => exact checked
  | tag => exact checked.trans (within_setOutcome _ _)
  | reject | quarantine => exact (checked.trans (within_setOutcome _ _)).trans (within_setFlag _ _)

inductive Worker where
  | idle
  | between (env : Envelope) (stages : List Bytes)
  | running (env : Envelope) (stage : Bytes) (stages : List Bytes)
  /-- The stage is done and the envelope is to be written. -/
  | saving (env : Envelope) (stages : List Bytes)
  | condemned (env : Envelope)
  | moving (env : Envelope) (target : Dir)
  deriving DecidableEq

inductive Task where
  | consider (readable : Bool)
  | finish (outcome : Outcome)
  | write (ok : Bool)
  | move (ok : Bool)
  deriving DecidableEq

abbrev Record := Bytes × UInt32

/-- One step of `processMessage`, with the flags it puts into the envelope's file. -/
def Worker.step (files : Files) : Worker → Task → Worker × Files × List Record
  | .between env [], .consider _ => (.moving env .deliver, files, [])
  | .between env (stage :: stages), .consider readable =>
    let checkedFlag := (flagsForStage stage).1
    if checkedFlag ≠ 0 ∧ hasFlag env.flags checkedFlag = true then
      (.between env stages, files, [])
    else if readable then (.running env stage stages, files, [])
    else (.moving env .error, files, [])
  | .running env _ _, .finish .err => (.moving env .error, files, [])
  | .running env stage stages, .finish (.done verdict sets content) =>
    let env := judged stage env verdict sets content
    match verdict with
    | .pass | .tag => (.saving env stages, files, [])
    | .reject | .quarantine => (.condemned env, files, [])
  | .saving env stages, .write true =>
    (.between env stages, files.put .processing env, [(env.id, env.flags)])
  | .saving env _, .write false => (.moving env .error, files, [])
  | .condemned env, .write true =>
    (.moving env .quarantine, files.put .processing env, [(env.id, env.flags)])
  -- a failure to write is only logged here
  | .condemned env, .write false => (.moving env .quarantine, files, [])
  | .moving env target, .move ok => (.idle, (files.move ok env.id .processing target).1, [])
  | worker, _ => (worker, files, [])

inductive Poller where
  | resting
  /-- `Dequeue` has listed `incoming` and is to rename its oldest file. -/
  | found (id : Bytes)
  | opened (id : Bytes)
  | holding (env : Envelope)
  | stopped
  deriving DecidableEq

inductive PollTask where
  | look (names : List Bytes)
  | rename (ok : Bool)
  | read (ok : Bool)
  | send
  | giveBack (ok : Bool)
  | stop
  deriving DecidableEq

/-- Startup moves the files of `processing` back before anything else runs; if one
cannot be moved, the start fails. -/
inductive Mode where
  | down
  | recovering (names : List Bytes)
  | up
  deriving DecidableEq

/-- The first name in byte order. -/
def oldest : List Bytes → Option Bytes
  | [] => none
  | name :: names =>
    match oldest names with
    | none => some name
    | some other => if name ≤ other then some name else some other

/-- The process and its files. Beside them stand the ids that were ever enqueued
and the flags that an envelope's file ever had. -/
structure State where
  files : Files
  mode : Mode
  cancelled : Bool
  poller : Poller
  work : List Envelope
  workers : List Worker
  enqueued : List Bytes
  seen : List Record

inductive Event where
  | enqueue (env : Envelope) (ok : Bool)
  | cancel
  | poll (task : PollTask)
  | take (worker : Nat)
  | work (worker : Nat) (task : Task)
  | crash (names : List Bytes)
  | recover (ok : Bool)
  deriving DecidableEq

/-- The poller's half of `Run`. It may look again after the cancellation, and a
full channel makes it wait. -/
def pollStep (depth : Nat) (s : State) : Poller → PollTask → State
  | .resting, .look names =>
    match oldest names with
    | none => s
    | some id => { s with poller := .found id }
  | .found id, .rename ok =>
    let moved := s.files.move ok id .incoming .processing
    { s with files := moved.1, poller := if moved.2 then .opened id else .resting }
  | .opened id, .read ok =>
    match ok, s.files .processing id with
    | true, some env => { s with poller := .holding env }
    | _, _ => { s with poller := .resting }
  | .holding env, .send =>
    if s.work.length < depth then { s with poller := .resting, work := s.work ++ [env] } else s
  | .holding env, .giveBack ok =>
    if s.cancelled then
      { s with files := (s.files.move ok env.id .processing .incoming).1, poller := .stopped }
    else s
  | .resting, .stop => if s.cancelled then { s with poller := .stopped } else s
  | _, _ => s

def received (stages : List Bytes) (cancelled : Bool) (env : Envelope) : Worker :=
  if cancelled then .moving env .incoming else .between env stages

def upStep (stages : List Bytes) (depth : Nat) (s : State) : Event → State
  | .enqueue env true =>
    { s with
      files := s.files.put .incoming env
      enqueued := env.id :: s.enqueued
      seen := (env.id, env.flags) :: s.seen }
  | .cancel => { s with cancelled := true }
  | .poll task => pollStep depth s s.poller task
  | .take worker =>
    match s.work, s.workers[worker]? with
    | env :: work, some .idle =>
      { s with
        work := work
        workers := s.workers.set worker (received stages s.cancelled env) }
    | _, _ => s
  | .work worker task =>
    match s.workers[worker]? with
    | none => s
    | some state =>
      let next := state.step s.files task
      { s with
        files := next.2.1
        workers := s.workers.set worker next.1
        seen := next.2.2 ++ s.seen }
  | _ => s

def step (stages : List Bytes) (depth workers : Nat) (s : State) (event : Event) : State :=
  match event, s.mode with
  | .crash names, _ =>
    { s with
      mode := .recovering names
      cancelled := false
      poller := .resting
      work := []
      workers := [] }
  | .recover _, .recovering [] =>
    { s with mode := .up, workers := List.replicate workers .idle }
  | .recover ok, .recovering (name :: names) =>
    let moved := s.files.move ok name .processing .incoming
    { s with files := moved.1, mode := if moved.2 then .recovering names else .down }
  | event, .up => upStep stages depth s event
  | _, _ => s

/-- The empty spool at its first start. -/
def start : State := ⟨fun _ _ => none, .recovering [], false, .resting, [], [], [], []⟩

end Bongo.Spool
