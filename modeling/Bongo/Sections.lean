import Bongo.Histories

/-!
Requests that read a shared value and write it back while they hold one lock.
Each thread waits for the lock, reads, decides on what it read, writes and
leaves; the steps of different threads come in any order. A write can fail, and
it can land although its caller is told that it failed. Whatever the order, the
value is the one that the logged requests leave when they are taken one after
another.
-/

namespace Bongo.Sections

open Histories

variable {Thread Value Request : Type}

inductive Effect (Value : Type) where
  | refuse
  | keep
  | write (value : Value)
  deriving DecidableEq

inductive Outcome where
  | stored
  | failed
  | unanswered
  deriving DecidableEq

inductive Phase (Value Request : Type) where
  | idle
  | waiting (request : Request)
  | inside (request : Request)
  | reading (request : Request) (value : Value)
  | leaving

structure Entry (Value Request : Type) where
  request : Request
  read : Value
  outcome : Outcome

structure System (Thread Value Request : Type) where
  stored : Value
  lock : Option Thread
  phase : Thread → Phase Value Request
  /-- The requests that have read the value and decided, in that order. -/
  log : List (Entry Value Request)

inductive Event (Thread Request : Type) where
  | begin (thread : Thread) (request : Request)
  | enter (thread : Thread)
  | read (thread : Thread) (readable : Bool)
  | finish (thread : Thread) (outcome : Outcome)
  | leave (thread : Thread)

def Phase.Holds : Phase Value Request → Prop
  | .idle | .waiting _ => False
  | .inside _ | .reading _ _ | .leaving => True

def start (value : Value) : System Thread Value Request :=
  ⟨value, none, fun _ => .idle, []⟩

/-- What the decision on `read` leaves of `value`. -/
def settle (act : Request → Value → Effect Value) (value : Value)
    (entry : Entry Value Request) : Value :=
  match entry.outcome, act entry.request entry.read with
  | .failed, _ => value
  | _, .write new => new
  | _, _ => value

/-- The answer of a request that is not an error. -/
def Succeeds (act : Request → Value → Effect Value) (entry : Entry Value Request) : Prop :=
  match act entry.request entry.read with
  | .refuse => False
  | .keep => True
  | .write _ => entry.outcome = .stored

instance (act : Request → Value → Effect Value) (entry : Entry Value Request) :
    Decidable (Succeeds act entry) :=
  match decided : act entry.request entry.read with
  | .refuse => isFalse (by simp [Succeeds, decided])
  | .keep => isTrue (by simp [Succeeds, decided])
  | .write _ => decidable_of_iff (entry.outcome = .stored) (by simp [Succeeds, decided])

variable [DecidableEq Thread]

def System.move (sys : System Thread Value Request) (thread : Thread)
    (phase : Phase Value Request) : System Thread Value Request :=
  { sys with phase := Function.update sys.phase thread phase }

def step (act : Request → Value → Effect Value) (sys : System Thread Value Request) :
    Event Thread Request → System Thread Value Request
  | .begin thread request =>
    match sys.phase thread with
    | .idle => sys.move thread (.waiting request)
    | _ => sys
  | .enter thread =>
    match sys.phase thread, sys.lock with
    | .waiting request, none => { sys.move thread (.inside request) with lock := some thread }
    | _, _ => sys
  | .read thread readable =>
    match sys.phase thread with
    | .inside request =>
      sys.move thread (if readable then .reading request sys.stored else .leaving)
    | _ => sys
  | .finish thread outcome =>
    match sys.phase thread with
    | .reading request value =>
      let entry := ⟨request, value, outcome⟩
      { sys.move thread .leaving with
        stored := settle act sys.stored entry
        log := sys.log ++ [entry] }
    | _ => sys
  | .leave thread =>
    match sys.phase thread with
    | .leaving => { sys.move thread .idle with lock := none }
    | _ => sys

/-- Every logged request has read what the ones before it left. -/
def Serial (act : Request → Value → Effect Value) (value : Value)
    (log : List (Entry Value Request)) : Prop :=
  Along (settle act) (fun current entry => entry.read = current) value log

structure Kept (act : Request → Value → Effect Value) (value : Value)
    (sys : System Thread Value Request) : Prop where
  holder : ∀ thread, (sys.phase thread).Holds → sys.lock = some thread
  current : ∀ thread request read, sys.phase thread = .reading request read → read = sys.stored
  stored : sys.stored = run (settle act) value sys.log
  serial : Serial act value sys.log

variable {act : Request → Value → Effect Value} {value : Value}
  {sys : System Thread Value Request}

omit [DecidableEq Thread] in
theorem kept_start (act : Request → Value → Effect Value) (value : Value) :
    Kept act value (start value : System Thread Value Request) where
  holder _ held := held.elim
  current _ _ _ same := by cases same
  stored := rfl
  serial := trivial

theorem Kept.move (kept : Kept act value sys) {thread : Thread} {phase : Phase Value Request}
    (lock : Option Thread)
    (held : phase.Holds → lock = some thread)
    (others : ∀ other, other ≠ thread → sys.lock = some other → lock = some other)
    (current : ∀ request read, phase = .reading request read → read = sys.stored) :
    Kept act value { sys.move thread phase with lock := lock } where
  holder other inside := by
    by_cases same : other = thread
    · subst same
      exact held (by simpa [System.move] using inside)
    · have before : (sys.phase other).Holds := by simpa [System.move, same] using inside
      exact others other same (kept.holder other before)
  current other request read found := by
    by_cases same : other = thread
    · subst same
      exact current request read (by simpa [System.move] using found)
    · exact kept.current other request read (by simpa [System.move, same] using found)
  stored := kept.stored
  serial := kept.serial

/-- The holder of the lock writes: nobody else has read the value it replaces. -/
theorem Kept.finish (kept : Kept act value sys) {thread : Thread} {request : Request}
    {read : Value} (found : sys.phase thread = .reading request read) (outcome : Outcome) :
    Kept act value { sys.move thread .leaving with
      stored := settle act sys.stored ⟨request, read, outcome⟩
      log := sys.log ++ [⟨request, read, outcome⟩] } := by
  have holds : ∀ other, (sys.phase other).Holds → other = thread := by
    intro other inside
    have mine := kept.holder thread (by rw [found]; trivial)
    exact Option.some.inj ((kept.holder other inside).symm.trans mine)
  refine ⟨?_, ?_, ?_, ?_⟩
  · intro other inside
    have same : other = thread := by
      by_contra different
      exact different (holds other (by simpa [System.move, different] using inside))
    subst same
    exact kept.holder other (by rw [found]; trivial)
  · intro other later seen same
    by_cases mine : other = thread
    · subst mine
      simp [System.move] at same
    · have before : sys.phase other = .reading later seen := by
        simpa [System.move, mine] using same
      exact (mine (holds other (by rw [before]; trivial))).elim
  · change settle act sys.stored _ = _
    rw [run_append, ← kept.stored]
    rfl
  · refine (along_append _ _ _ _ _).mpr ⟨kept.serial, ?_, trivial⟩
    rw [← kept.stored]
    exact kept.current thread request read found

theorem kept_step (kept : Kept act value sys) (event : Event Thread Request) :
    Kept act value (step act sys event) := by
  have same : ∀ {thread : Thread} {phase : Phase Value Request}, (sys.phase thread).Holds →
      (∀ request read, phase = .reading request read → read = sys.stored) →
      Kept act value (sys.move thread phase) := by
    intro thread phase inside current
    exact kept.move sys.lock (fun _ => kept.holder thread inside)
      (fun _ _ before => before) current
  cases event with
  | begin thread request =>
    rw [step]
    split
    · exact kept.move sys.lock (fun held => held.elim) (fun _ _ before => before)
        nofun
    · exact kept
  | enter thread =>
    rw [step]
    split
    · rename_i request waiting free
      exact kept.move (some thread) (fun _ => rfl)
        (fun other _ before => by rw [free] at before; cases before)
        nofun
    · exact kept
  | read thread readable =>
    rw [step]
    split
    · rename_i request inside
      refine same (by rw [inside]; trivial) ?_
      intro later read found
      cases readable with
      | false => cases found
      | true => cases found; rfl
    · exact kept
  | finish thread outcome =>
    rw [step]
    split
    · rename_i request read found
      exact kept.finish found outcome
    · exact kept
  | leave thread =>
    rw [step]
    split
    · rename_i leaving
      have mine := kept.holder thread (by rw [leaving]; trivial)
      refine kept.move none (fun held => held.elim) ?_ nofun
      intro other different held
      exact (different (Option.some.inj (held.symm.trans mine))).elim
    · exact kept

/-- Whatever the order of the steps, the requests of the log were served one
after another. -/
theorem serialised (act : Request → Value → Effect Value) (value : Value)
    (events : List (Event Thread Request)) :
    Kept act value (run (step act) (start value) events) := by
  have always : Along (step act) (fun _ _ => True) (start value) events :=
    along_of_forall (fun _ _ _ => trivial)
  have keeps : ∀ (sys : System Thread Value Request) event, Kept act value sys → True →
      Kept act value (step act sys event) := fun _ event kept _ => kept_step kept event
  exact run_invariant keeps (kept_start act value) always

end Bongo.Sections
