import Bongo.Clients
import Bongo.Fsm

/-!
The marks of the queue worker among the calls of an administrator. Each call
looks up the pending key of a message and later deletes that key or moves the
message away from it; the command that lands checks neither that the key is
still there nor where the message is by then. What the calls are meant to do is
said by a ledger that holds at most one place for each message.
-/

namespace Bongo.QueueClients

open ByteKeys KeyValue Queue Records Histories Clients
open Fsm (land)

/-- `RetryNow` reads the message before it looks up the key: `msg` is what it
has read, at this or an earlier moment. `FlushQueue` is a `RetryNow` for each id
it has listed. -/
inductive Call where
  | markDelivered (id : Bytes)
  | markFailed (msg : OutboundMessage) (nextRetryAt : Int64)
  | markBounced (msg : OutboundMessage)
  | delete (id : Bytes)
  | retryNow (id : Bytes) (msg : OutboundMessage) (now : Int64)
  | deleteBounced (id : Bytes)
  deriving DecidableEq

structure Pending where
  cmd : RaftCommand
  found : Option Bytes
  deriving DecidableEq

def lookedUp (ps : PebbleStore) (id : Bytes) (built : Except StoreError RaftCommand) :
    Option Pending :=
  built.toOption.map fun cmd => ⟨cmd, (findPendingKey ps id).toOption⟩

def issue (ps : PebbleStore) : Call → Option Pending
  | .markDelivered id => lookedUp ps id (markDelivered ps id)
  | .markFailed msg nextRetryAt => lookedUp ps msg.id (markFailed ps msg nextRetryAt)
  | .markBounced msg => lookedUp ps msg.id (markBounced ps msg)
  | .delete id => lookedUp ps id (Queue.delete ps id)
  | .retryNow id msg now => lookedUp ps id (retryRead ps id msg now)
  | .deleteBounced id => some ⟨deleteBounced id, none⟩

def deliver (ps : PebbleStore) (pending : Pending) : PebbleStore := land ps pending.cmd

/-- The calls a `FlushQueue` makes when nothing lands while it runs. -/
def flushCalls (ps : PebbleStore) (now : Int64) : List Call :=
  (flushQueue ps).filterMap fun id => (getMessage ps id).toOption.map (.retryNow id · now)

def Held (ps : PebbleStore) (id : Bytes) (place : Place) : Prop :=
  get ps (place.key id) ≠ none

instance (ps : PebbleStore) (id : Bytes) (place : Place) : Decidable (Held ps id place) :=
  inferInstanceAs (Decidable (get ps (place.key id) ≠ none))

def Single (ps : PebbleStore) : Prop :=
  ∀ id left right, Held ps id left → Held ps id right → left = right

def IsPending (ps : PebbleStore) (id : Bytes) : Prop :=
  ∃ nextRetryAt, Held ps id (.pending nextRetryAt)

def Call.message : Call → Bytes
  | .markDelivered id => id
  | .markFailed msg _ => msg.id
  | .markBounced msg => msg.id
  | .delete id => id
  | .retryNow _ msg _ => msg.id
  | .deleteBounced id => id

def Call.target : Call → Option Place
  | .markFailed _ nextRetryAt => some (.pending nextRetryAt)
  | .markBounced _ => some .bounced
  | .retryNow _ _ now => some (.pending now)
  | _ => none

def Call.Removes (call : Call) (id : Bytes) : Prop :=
  call = .markDelivered id ∨ call = .delete id

/-- After such a call the message is delivered, deleted or bounced. -/
def Call.Ends (call : Call) (id : Bytes) : Prop :=
  call.Removes id ∨ call.target = some .bounced ∧ call.message = id

/-- A move lands while the message is still under the key that was found. A
deletion may also land when the message is not pending any more. In both cases
the key that was found has to be the message's own. -/
def Safe (ps : PebbleStore) (call : Call) (pending : Pending) : Prop :=
  match call with
  | .deleteBounced _ => True
  | .markDelivered id | .delete id =>
    ∃ nextRetryAt, pending.found = some (pendingKey nextRetryAt id) ∧
      (Held ps id (.pending nextRetryAt) ∨ ¬ IsPending ps id)
  | .markFailed _ _ | .markBounced _ | .retryNow _ _ _ =>
    ∃ nextRetryAt, pending.found = some (pendingKey nextRetryAt call.message) ∧
      Held ps call.message (.pending nextRetryAt)

/-! The ledger: what the calls do to a message, each in one step. -/
section Ledger

abbrev Ledger := Bytes → Option Place

def Call.turn : Call → Option Place → Option Place
  | .markDelivered _, some (.pending _) => none
  | .delete _, some (.pending _) => none
  | .markFailed _ nextRetryAt, some (.pending _) => some (.pending nextRetryAt)
  | .retryNow _ _ now, some (.pending _) => some (.pending now)
  | .markBounced _, some (.pending _) => some .bounced
  | .deleteBounced _, some .bounced => none
  | _, place => place

def after (ledger : Ledger) (call : Call) : Ledger :=
  Function.update ledger call.message (call.turn (ledger call.message))

def Represents (ps : PebbleStore) (ledger : Ledger) : Prop :=
  ∀ id place, Held ps id place ↔ ledger id = some place

variable {ps : PebbleStore} {ledger : Ledger}

theorem Represents.single (represents : Represents ps ledger) : Single ps := by
  intro id left right first second
  have here := (represents id left).mp first
  have there := (represents id right).mp second
  exact Option.some.inj (here.symm.trans there)

theorem represents_of_single (single : Single ps) : ∃ ledger, Represents ps ledger := by
  have entry : ∀ id, ∃ listed : Option Place, ∀ place, Held ps id place ↔ listed = some place := by
    intro id
    by_cases somewhere : ∃ place, Held ps id place
    · obtain ⟨here, held⟩ := somewhere
      refine ⟨some here, fun place => ?_⟩
      constructor
      · intro other
        exact congrArg some (single id here place held other)
      · rintro ⟨⟩
        exact held
    · refine ⟨none, fun place => ?_⟩
      constructor
      · intro held
        exact absurd ⟨place, held⟩ somewhere
      · rintro ⟨⟩
  choose ledger agrees using entry
  exact ⟨ledger, agrees⟩

variable (represents : Represents ps ledger)
include represents

theorem Represents.pending_iff (id : Bytes) :
    IsPending ps id ↔ ∃ nextRetryAt, ledger id = some (.pending nextRetryAt) := by
  constructor
  · rintro ⟨nextRetryAt, held⟩
    exact ⟨nextRetryAt, (represents id _).mp held⟩
  · rintro ⟨nextRetryAt, listed⟩
    exact ⟨nextRetryAt, (represents id _).mpr listed⟩

/-- Deleting the key of a place the message is in, or is not in. -/
theorem Represents.remove (id : Bytes) (place : Place) :
    Represents (KeyValue.delete ps (place.key id))
      (Function.update ledger id (if ledger id = some place then none else ledger id)) := by
  intro other there
  have before := represents other there
  simp only [Held, get_delete, place_key_eq] at before ⊢
  by_cases same : id = other
  · subst same
    rw [Function.update_self]
    by_cases here : place = there
    · subst here
      by_cases listed : ledger id = some place <;> simp [listed]
    · by_cases listed : ledger id = some place
      · simp [before, listed]
      · simp [here, before, listed]
  · rw [Function.update_of_ne (Ne.symm same)]
    simp [same, before]

theorem Represents.move {id : Bytes} {source : Place} (listed : ledger id = some source)
    (target : Place) (data : Bytes) :
    Represents (commit ps (moveBatch ⟨source.key id, target.key id, data⟩))
      (Function.update ledger id (some target)) := by
  intro other there
  have before := represents other there
  have named : source.key id ≠ [] := by
    cases source <;> exact List.cons_ne_nil _ _
  simp only [Held, get_moveBatch, place_key_eq] at before ⊢
  by_cases same : id = other
  · subst same
    rw [Function.update_self]
    by_cases here : target = there
    · simp [here]
    have gone : source ≠ there → ledger id ≠ some there := by
      intro different same
      exact different (Option.some.inj (listed.symm.trans same))
    by_cases left : source = there
    · subst left
      simp [named]
    · simp [here, before, gone left]
  · rw [Function.update_of_ne (Ne.symm same)]
    simp [same, before]

end Ledger

/-! What the calls have under way and how it lands. -/
section Landing

inductive Issued : Call → Pending → Prop
  | remove {call : Call} {id : Bytes} (key : Bytes) (removes : call.Removes id) :
      Issued call ⟨⟨.delete, key, .empty⟩, some key⟩
  | move (call : Call) {target : Place} (key data : Bytes) (moves : call.target = some target) :
      Issued call ⟨⟨.put, queueMovePrefix ++ call.message,
        .json (.queueMove ⟨key, target.key call.message, data⟩)⟩, some key⟩
  | deleteBounced (id : Bytes) : Issued (.deleteBounced id) ⟨deleteBounced id, none⟩

theorem applyMove_ok {id oldKey newKey value : Bytes} {cmd : RaftCommand}
    (built : applyMove id oldKey newKey value = .ok cmd) :
    cmd = ⟨.put, queueMovePrefix ++ id, .json (.queueMove ⟨oldKey, newKey, value⟩)⟩ := by
  simp only [applyMove] at built
  split at built
  case h_1 command =>
    cases built
    simp only [buildQueueMoveCommand, bind_ok, pure, Except.pure, Except.ok.injEq] at command
    obtain ⟨-, -, -, -, rfl⟩ := command
    rfl
  case h_2 => cases built

theorem lookedUp_remove {ps : PebbleStore} {id : Bytes} {pending : Pending}
    (issued : lookedUp ps id (deleteFound ps id) = some pending) :
    ∃ key, pending = ⟨⟨.delete, key, .empty⟩, some key⟩ := by
  obtain ⟨cmd, built, rfl⟩ := Option.map_eq_some_iff.mp issued
  have command := toOption_some built
  simp only [deleteFound, bind_ok, pure, Except.pure, Except.ok.injEq] at command
  obtain ⟨key, found, rfl⟩ := command
  rw [found]
  exact ⟨key, rfl⟩

theorem lookedUp_move {ps : PebbleStore} {id message newKey : Bytes} {written : OutboundMessage}
    {pending : Pending}
    (issued : lookedUp ps id (do
      let oldKey ← findPendingKey ps id
      let data ← orError .marshalingMessage (Proto.marshal written)
      applyMove message oldKey newKey data) = some pending) :
    ∃ key data, pending = ⟨⟨.put, queueMovePrefix ++ message,
      .json (.queueMove ⟨key, newKey, data⟩)⟩, some key⟩ := by
  obtain ⟨cmd, built, rfl⟩ := Option.map_eq_some_iff.mp issued
  have command := toOption_some built
  simp only [bind_ok] at command
  obtain ⟨key, found, data, -, moved⟩ := command
  rw [applyMove_ok moved, found]
  exact ⟨key, data, rfl⟩

theorem issue_issued (ps : PebbleStore) (call : Call) (pending : Pending)
    (issued : issue ps call = some pending) : Issued call pending := by
  cases call with
  | markDelivered id =>
    obtain ⟨key, rfl⟩ := lookedUp_remove issued
    exact .remove key (.inl rfl)
  | delete id =>
    obtain ⟨key, rfl⟩ := lookedUp_remove issued
    exact .remove key (.inr rfl)
  | markFailed msg nextRetryAt =>
    obtain ⟨key, data, rfl⟩ := lookedUp_move issued
    exact .move (.markFailed msg nextRetryAt) key data rfl
  | markBounced msg =>
    obtain ⟨key, data, rfl⟩ := lookedUp_move issued
    exact .move (.markBounced msg) key data rfl
  | retryNow id msg now =>
    obtain ⟨key, data, rfl⟩ := lookedUp_move issued
    exact .move (.retryNow id msg now) key data rfl
  | deleteBounced id =>
    cases issued
    exact .deleteBounced id

theorem land_delete (ps : PebbleStore) (key : Bytes) :
    land ps ⟨.delete, key, .empty⟩ = KeyValue.delete ps key := by
  simp [land, Fsm.applyProto]

theorem land_move (ps : PebbleStore) (id : Bytes) (payload : QueueMovePayload)
    (named : payload.newKey ≠ []) :
    land ps ⟨.put, queueMovePrefix ++ id, .json (.queueMove payload)⟩ =
      commit ps (moveBatch payload) := by
  have mailbox : Mailbox.isMailboxSyntheticCommand (queueMovePrefix ++ id) = false := rfl
  have queue : isQueueSyntheticCommand (queueMovePrefix ++ id) = true := by
    simp [isQueueSyntheticCommand]
  have planned : planQueueMove ⟨.put, queueMovePrefix ++ id, .json (.queueMove payload)⟩ =
      .ok (moveBatch payload) := by
    simp [planQueueMove, queue, parseQueueMovePayload, orError, reject, named, bind, Except.bind,
      pure, Except.pure]
  simp [land, Fsm.applyProto, mailbox, queue, Fsm.relabel, applyQueueCommand, planned,
    commitSyncBatch]

variable {ps : PebbleStore} {ledger : Ledger} {call : Call} {pending : Pending}

/-- A deletion takes a pending message out and leaves any other alone. -/
theorem after_remove {id : Bytes} {nextRetryAt : Int64} (removes : call.Removes id)
    (own : ledger id = some (.pending nextRetryAt) ∨ ∀ other, ledger id ≠ some (.pending other)) :
    after ledger call = Function.update ledger id
      (if ledger id = some (.pending nextRetryAt) then none else ledger id) := by
  have turned : call.turn (ledger id) =
      if ledger id = some (.pending nextRetryAt) then none else ledger id := by
    rcases own with here | nowhere
    · rw [if_pos here, here]
      rcases removes with rfl | rfl <;> rfl
    rw [if_neg (nowhere nextRetryAt)]
    rcases removes with rfl | rfl <;> cases listed : ledger id with
    | none => rfl
    | some place =>
      cases place with
      | pending other => exact absurd listed (nowhere other)
      | bounced => rfl
  rcases removes with rfl | rfl <;> exact congrArg (Function.update ledger id) turned

theorem after_move {target : Place} {nextRetryAt : Int64} (moves : call.target = some target)
    (listed : ledger call.message = some (.pending nextRetryAt)) :
    after ledger call = Function.update ledger call.message (some target) := by
  rw [after, listed]
  cases call <;> cases moves <;> rfl

theorem safe_remove {id : Bytes} (removes : call.Removes id) (safe : Safe ps call pending) :
    ∃ nextRetryAt, pending.found = some (pendingKey nextRetryAt id) ∧
      (Held ps id (.pending nextRetryAt) ∨ ¬ IsPending ps id) := by
  rcases removes with rfl | rfl <;> exact safe

theorem safe_move {target : Place} (moves : call.target = some target)
    (safe : Safe ps call pending) :
    ∃ nextRetryAt, pending.found = some (pendingKey nextRetryAt call.message) ∧
      Held ps call.message (.pending nextRetryAt) := by
  cases call <;> cases moves <;> exact safe

/-- A safe landing does to the store what the call does to the ledger. -/
theorem represents_landed (represents : Represents ps ledger) (issued : Issued call pending)
    (safe : Safe ps call pending) : Represents (deliver ps pending) (after ledger call) := by
  cases issued with
  | remove key removes =>
    rename_i id
    obtain ⟨nextRetryAt, found, own⟩ := safe_remove removes safe
    cases found
    have listed : ledger id = some (.pending nextRetryAt) ∨
        ∀ other, ledger id ≠ some (.pending other) := by
      rcases own with here | nowhere
      · exact .inl ((represents id _).mp here)
      · right
        intro other there
        exact nowhere ((represents.pending_iff id).mpr ⟨other, there⟩)
    rw [after_remove removes listed, deliver, land_delete]
    exact represents.remove id (.pending nextRetryAt)
  | move _ key data moves =>
    rename_i target
    obtain ⟨nextRetryAt, found, here⟩ := safe_move moves safe
    cases found
    have listed := (represents call.message _).mp here
    have named : target.key call.message ≠ [] := by
      cases target <;> exact List.cons_ne_nil _ _
    rw [after_move moves listed, deliver, land_move ps _ _ named]
    exact represents.move listed target data
  | deleteBounced id =>
    have removed := represents.remove id .bounced
    have turned : (Call.deleteBounced id).turn (ledger id) =
        if ledger id = some .bounced then none else ledger id := by
      cases listed : ledger id with
      | none => rfl
      | some place => cases place <;> rfl
    rw [deliver, deleteBounced, land_delete, after]
    exact turned ▸ removed

end Landing

section Runs

variable (id : Bytes) (about : Option Place → Prop)

/-- The store represents a ledger, and its entry for `id` is as `about` says. -/
def Entered (ps : PebbleStore) : Prop := ∃ ledger, Represents ps ledger ∧ about (ledger id)

/-- The call, if it is about `id`, keeps what is said of the entry. -/
def Respects (call : Call) : Prop :=
  call.message = id → ∀ place, about place → about (call.turn place)

theorem entered_landed (ps : PebbleStore) (call : Call) (pending : Pending)
    (entered : Entered id about ps) (issued : Issued call pending)
    (now : Safe ps call pending ∧ Respects id about call) :
    Entered id about (deliver ps pending) := by
  obtain ⟨ledger, represents, entry⟩ := entered
  refine ⟨after ledger call, represents_landed represents issued now.1, ?_⟩
  rw [after]
  by_cases same : call.message = id
  · have turned := now.2 same _ entry
    rw [same, Function.update_self]
    exact turned
  · rw [Function.update_of_ne (Ne.symm same)]
    exact entry

def NotPending (place : Option Place) : Prop := ∀ nextRetryAt, place ≠ some (.pending nextRetryAt)

theorem turn_not_pending (call : Call) (place : Option Place) (not : NotPending place) :
    NotPending (call.turn place) := by
  cases place with
  | none =>
    intro nextRetryAt
    cases call <;> nofun
  | some here =>
    cases here with
    | pending nextRetryAt => exact absurd rfl (not nextRetryAt)
    | bounced =>
      intro nextRetryAt
      cases call <;> nofun

theorem turn_pending {call : Call} {nextRetryAt : Int64} (goes : ¬ call.Ends call.message) :
    ∃ next, call.turn (some (.pending nextRetryAt)) = some (.pending next) := by
  cases call with
  | markDelivered id => exact absurd (.inl (.inl rfl)) goes
  | delete id => exact absurd (.inl (.inr rfl)) goes
  | markBounced msg => exact absurd (.inr ⟨rfl, rfl⟩) goes
  | markFailed msg next => exact ⟨next, rfl⟩
  | retryNow id msg now => exact ⟨now, rfl⟩
  | deleteBounced id => exact ⟨nextRetryAt, rfl⟩

theorem turn_removes {call : Call} {id : Bytes} (removes : call.Removes id)
    (place : Option Place) : NotPending (call.turn place) := by
  cases place with
  | none => exact turn_not_pending call none nofun
  | some here =>
    cases here with
    | pending nextRetryAt => rcases removes with rfl | rfl <;> nofun
    | bounced => exact turn_not_pending call _ nofun

theorem entered_not_pending {id : Bytes} {ps : PebbleStore} :
    Entered id NotPending ps ↔ Single ps ∧ ¬ IsPending ps id := by
  constructor
  · rintro ⟨ledger, represents, entry⟩
    refine ⟨represents.single, fun pending => ?_⟩
    obtain ⟨nextRetryAt, listed⟩ := (represents.pending_iff id).mp pending
    exact entry nextRetryAt listed
  · rintro ⟨single, absent⟩
    obtain ⟨ledger, represents⟩ := represents_of_single single
    refine ⟨ledger, represents, fun nextRetryAt listed => ?_⟩
    exact absent ((represents.pending_iff id).mpr ⟨nextRetryAt, listed⟩)

def StillPending (place : Option Place) : Prop := ∃ nextRetryAt, place = some (.pending nextRetryAt)

theorem entered_pending {id : Bytes} {ps : PebbleStore} :
    Entered id StillPending ps ↔ Single ps ∧ IsPending ps id := by
  constructor
  · rintro ⟨ledger, represents, entry⟩
    exact ⟨represents.single, (represents.pending_iff id).mpr entry⟩
  · rintro ⟨single, pending⟩
    obtain ⟨ledger, represents⟩ := represents_of_single single
    exact ⟨ledger, represents, (represents.pending_iff id).mp pending⟩

/-- With nothing asked of an entry, every safe landing keeps the keys single. -/
theorem single_landed (ps : PebbleStore) (call : Call) (pending : Pending) (single : Single ps)
    (issued : Issued call pending) (safe : Safe ps call pending) :
    Single (deliver ps pending) := by
  obtain ⟨ledger, represents⟩ := represents_of_single single
  exact (represents_landed represents issued safe).single

theorem removed_landed (ps : PebbleStore) (call : Call) (pending : Pending) (single : Single ps)
    (issued : Issued call pending) (safe : Safe ps call pending) (id : Bytes)
    (removes : call.Removes id) : ¬ IsPending (deliver ps pending) id := by
  obtain ⟨ledger, represents⟩ := represents_of_single single
  have landed := represents_landed represents issued safe
  rw [landed.pending_iff id]
  rintro ⟨nextRetryAt, listed⟩
  have own : call.message = id := by rcases removes with rfl | rfl <;> rfl
  rw [after, own, Function.update_self] at listed
  exact turn_removes removes _ nextRetryAt listed

end Runs

/-- Along a safe run no message has two keys, a message that is marked delivered
or deleted is not pending from then on, and a message that was pending and has
not been delivered, deleted or bounced still is. -/
theorem message_has_one_place (start : PebbleStore) (single : Single start)
    (events : List (Event Call))
    (safe : Along (act issue deliver) (AtLanding Safe) ⟨start, []⟩ events) :
    (∀ reached, Passes (act issue deliver) ⟨start, []⟩ events reached → Single reached.store) ∧
    Along (act issue deliver) (AtLanding fun ps call pending =>
      ∀ id, call.Removes id → ¬ IsPending (deliver ps pending) id) ⟨start, []⟩ events ∧
    ∀ before rest id, events = before ++ rest →
      let here := run (act issue deliver) ⟨start, []⟩ before
      (¬ IsPending here.store id → ∀ reached, Passes (act issue deliver) here rest reached →
        ¬ IsPending reached.store id) ∧
      (IsPending start id →
        Along (act issue deliver) (AtLanding fun _ call _ => ¬ call.Ends id) ⟨start, []⟩ before →
        IsPending here.store id) := by
  have initial : Kept Single Issued (⟨start, []⟩ : System PebbleStore Call Pending) := by
    constructor
    · exact single
    · intro call pending member
      cases member
  have issues : ∀ ps call pending, Single ps → issue ps call = some pending →
      Issued call pending := fun ps call pending _ => issue_issued ps call pending
  have keeps := act_kept issue deliver issues single_landed
  refine ⟨?_, ?_, ?_⟩
  · intro reached passed
    exact (passes_invariant keeps initial safe passed).store
  · exact along_landings issue deliver issues single_landed removed_landed initial safe
  intro before rest id split here
  subst split
  obtain ⟨safeBefore, safeRest⟩ := (along_append _ _ _ before rest).mp safe
  have kept : Kept Single Issued here := run_invariant keeps initial safeBefore
  constructor
  · intro absent reached passed
    -- no call brings back a message that is not pending
    have gone : Kept (Entered id NotPending) Issued here :=
      ⟨entered_not_pending.mpr ⟨kept.store, absent⟩, kept.inflight⟩
    have stays := passes_invariant (act_kept issue deliver
      (fun ps call pending _ => issue_issued ps call pending)
      (fun ps call pending entered issued now => entered_landed id NotPending ps call pending
        entered issued ⟨now, fun _ => turn_not_pending call⟩)) gone safeRest passed
    exact (entered_not_pending.mp stays.store).2
  · intro present goes
    have there : Kept (Entered id StillPending) Issued
        (⟨start, []⟩ : System PebbleStore Call Pending) :=
      ⟨entered_pending.mpr ⟨single, present⟩, initial.inflight⟩
    have stays := run_invariant (act_kept issue deliver
      (fun ps call pending _ => issue_issued ps call pending)
      (fun ps call pending entered issued now => entered_landed id StillPending ps call pending
        entered issued ⟨now.1, ?_⟩)) there (along_landings_and safeBefore goes)
    · exact (entered_pending.mp stays.store).2
    · rintro rfl place ⟨nextRetryAt, rfl⟩
      exact turn_pending now.2

theorem Single.enqueue {ps : PebbleStore} (single : Single ps) (id : Bytes) (place : Place)
    (value : Value) (fresh : ∀ other, ¬ Held ps id other) :
    Single (set ps (place.key id) value) := by
  intro other left right first second
  simp only [Held, get_set, place_key_eq] at first second
  by_cases same : id = other
  · subst same
    have only : ∀ there, (if id = id ∧ place = there then some value
        else get ps (there.key id)) ≠ none → place = there := by
      intro there held
      by_contra different
      rw [if_neg fun both => different both.2] at held
      exact fresh there held
    exact (only left first).symm.trans (only right second)
  · simp only [same] at first second
    exact single other left right first second

def oneMessage : PebbleStore :=
  match enqueue sampleMessage 5 with
  | .ok cmd => land ∅ cmd
  | .error _ => ∅

theorem oneMessage_eq :
    oneMessage = set ∅ ((Place.pending 5).key (ascii "m1")) (.encoded sampleMessage) := by
  decide +kernel

theorem oneMessage_single : Single oneMessage := by
  have empty : Single ∅ := by
    intro id left right held
    exact absurd (get_empty _) held
  rw [oneMessage_eq]
  exact empty.enqueue _ _ _ fun other held => held (get_empty _)

def failThenRetry : List (Event Call) :=
  [.begin (.markFailed sampleMessage 10), .land 0,
    .begin (.retryNow (ascii "m1") (failedOnce sampleMessage 10) 7), .land 0,
    .begin (.delete (ascii "m1")), .land 0]

def sampleMove (old new : Int64) (msg : OutboundMessage) : RaftCommand where
  op := .put
  key := queueMovePrefix ++ ascii "m1"
  value := .json (.queueMove ⟨pendingKey old (ascii "m1"), pendingKey new (ascii "m1"),
    Proto.encode (Proto.Message.fields msg)⟩)

theorem message_has_one_place_fail_then_retry :
    Single oneMessage ∧ ∀ reached,
      Passes (act issue deliver) ⟨oneMessage, []⟩ failThenRetry reached → Single reached.store := by
  refine ⟨oneMessage_single,
    (message_has_one_place oneMessage oneMessage_single failThenRetry ?_).1⟩
  refine ⟨trivial, ?_, trivial, ?_, trivial, ?_, trivial⟩
  · refine atLanding_of_found (.markFailed sampleMessage 10)
      ⟨sampleMove 5 10 (failedOnce sampleMessage 10), some (pendingKey 5 (ascii "m1"))⟩
      (by decide +kernel) ?_
    exact ⟨5, rfl, by decide +kernel⟩
  · refine atLanding_of_found (.retryNow (ascii "m1") (failedOnce sampleMessage 10) 7)
      ⟨sampleMove 10 7 { failedOnce sampleMessage 10 with nextRetryAt := 7 },
        some (pendingKey 10 (ascii "m1"))⟩ (by decide +kernel) ?_
    exact ⟨10, rfl, by decide +kernel⟩
  · refine atLanding_of_found (.delete (ascii "m1"))
      ⟨⟨.delete, pendingKey 7 (ascii "m1"), .empty⟩, some (pendingKey 7 (ascii "m1"))⟩
      (by decide +kernel) ?_
    exact ⟨7, rfl, .inl (by decide +kernel)⟩

/-- A message whose failure is being written is deleted, and the late move puts
it back; and a flush that found the same key leaves the message under two. -/
theorem late_move_restores_message :
    let deleted := run (act issue deliver) ⟨oneMessage, []⟩
      [.begin (.markFailed sampleMessage 10), .begin (.delete (ascii "m1")), .land 1]
    let restored := act issue deliver deleted (.land 0)
    let doubled := run (act issue deliver) ⟨oneMessage, []⟩
      (.begin (.markFailed sampleMessage 10) :: (flushCalls oneMessage 7).map .begin ++
        [.land 0, .land 0])
    (scanKeys deleted.store pendingPrefix = [] ∧
      get restored.store (pendingKey 10 (ascii "m1")) ≠ none) ∧
    get doubled.store (pendingKey 10 (ascii "m1")) ≠ none ∧
      get doubled.store (pendingKey 7 (ascii "m1")) ≠ none := by
  decide +kernel

end Bongo.QueueClients
