import Bongo.MailboxStore
import Bongo.Scans

/-!
The collection of orphaned mail metadata for one user. A pass lists the user's
mailboxes, reads them one after another, then reads the metadata, and removes
what no mailbox referred to in this pass and the one before. Commands land in the
store between any two of these reads.
-/

namespace Bongo.MailSweep

open ByteKeys KeyValue MailboxKeys Mailbox MailboxSteps MailboxStore Proto Records Scans
open Fsm (land)

def firstOfName : List Bytes → List MailboxMeta → List MailboxMeta
  | _, [] => []
  | seen, mbMeta :: rest =>
    if mbMeta.name ∈ seen then firstOfName seen rest
    else mbMeta :: firstOfName (mbMeta.name :: seen) rest

def listMailboxes (ps : PebbleStore) (userID : Bytes) : List MailboxMeta :=
  firstOfName [] (((prefixScan ps (mailboxPrefix userID)).filter
    fun entry => hasSuffix entry.1 (ascii "/meta")).filterMap
      fun entry => entry.2.unmarshal MailboxMeta)

def mailMetaPrefix (userID : Bytes) : Bytes := mailMetaKey userID []

/-- The metadata that `referenced` leaves out and that is not too recent. Records
that cannot be read, and keys below a GUID, are passed over. -/
def orphanedMail (ps : PebbleStore) (userID : Bytes) (referenced : List Bytes) (cutoff : Int) :
    List Bytes :=
  (prefixScan ps (mailMetaPrefix userID)).filterMap fun entry =>
    let guid := trimPrefix entry.1 (mailMetaPrefix userID)
    if guid = [] ∨ guid.contains 47 ∨ guid ∈ referenced then none
    else
      match entry.2.unmarshal MailMeta with
      | none => none
      | some mailMeta => if mailMeta.receivedAt.toInt > cutoff then none else some guid

def guidsIn (ps : PebbleStore) (userID name : Bytes) : List Bytes :=
  (prefixScan ps (mailboxMsgPrefix userID name)).filterMap fun entry =>
    (entry.2.unmarshal MailboxMessage).map (·.mailGuid)

def Kept (ps : PebbleStore) (userID guid : Bytes) : Prop :=
  ∃ mbMeta ∈ listMailboxes ps userID, guid ∈ guidsIn ps userID mbMeta.name

instance (ps : PebbleStore) (userID guid : Bytes) : Decidable (Kept ps userID guid) :=
  inferInstanceAs (Decidable (∃ mbMeta ∈ listMailboxes ps userID, _))

section Passes

inductive Start where
  | notLeader
  | usersUnlisted
  | userAbsent
  | present
  deriving DecidableEq

inductive Phase where
  | idle (prev : List Bytes)
  | scanning (prev : List Bytes) (scan : Scan Bytes Bytes)
  | deleting (prev current orphans : List Bytes)
  deriving DecidableEq

inductive Turn where
  | start (outcome : Start)
  | read
  | fail
  | report (now : Int)
  | delete
  deriving DecidableEq

def turn (userID : Bytes) (minAge : Int) (ps : PebbleStore) :
    Phase → Turn → Phase × Option Bytes
  | .idle prev, .start .usersUnlisted => (.idle prev, none)
  | .idle _, .start .notLeader => (.idle [], none)
  | .idle _, .start .userAbsent => (.idle [], none)
  | .idle prev, .start .present =>
    (.scanning prev (.begin ((listMailboxes ps userID).map (·.name))), none)
  | .scanning prev ⟨name :: rest, found⟩, .read =>
    match listMailboxMessages ps userID name with
    | .error _ => (.idle [], none)
    | .ok msgs => (.scanning prev ⟨rest, found ++ msgs.map (·.mailGuid)⟩, none)
  | .scanning _ _, .fail => (.idle [], none)
  | .scanning prev ⟨[], found⟩, .report now =>
    (.deleting prev [] (orphanedMail ps userID found (now - minAge)), none)
  | .deleting prev current (guid :: orphans), .delete =>
    -- a first sighting waits for one more pass
    (.deleting prev (current ++ [guid]) orphans, if guid ∈ prev then some guid else none)
  | .deleting _ current [], .delete => (.idle current, none)
  | phase, _ => (phase, none)

/-- The store, the sweep and the removals it has asked for. For one message the
state also records whether some mailbox has referred to it at every moment since
the start of the pass whose sightings `prev` holds (`earlier`), since the start of
the pass under way (`latest`), and, beside each removal, since the start of the
first of the two passes that led to it. -/
structure State where
  store : PebbleStore
  phase : Phase
  proposed : List (Bytes × Bool)
  earlier : Bool
  latest : Bool

inductive Event where
  | command (cmd : RaftCommand)
  | turn (turn : Turn)
  /-- A removal that was asked for is applied, at once or later. -/
  | land (index : Nat)
  deriving DecidableEq

def removal (userID guid : Bytes) : RaftCommand :=
  ⟨.delete, mailMetaKey userID guid, .encoded (⟨[], 0, []⟩ : MailMeta)⟩

def watch : Phase → Phase → Bool × Bool → Bool × Bool
  | .idle _, .scanning _ _, (earlier, _) => (earlier, true)
  | .scanning _ _, .idle _, (_, latest) => (latest, latest)
  | .deleting _ _ _, .idle _, (_, latest) => (latest, latest)
  | _, _, watched => watched

variable (userID : Bytes) (minAge : Int) (guid : Bytes)

def advance (s : State) : Event → State
  | .command cmd => { s with store := land s.store cmd }
  | .turn turn =>
    let next := MailSweep.turn userID minAge s.store s.phase turn
    let watched := watch s.phase next.1 (s.earlier, s.latest)
    { s with
      phase := next.1
      proposed := s.proposed ++ next.2.toList.map fun removed => (removed, s.earlier)
      earlier := watched.1
      latest := watched.2 }
  | .land index =>
    match s.proposed[index]? with
    | none => s
    | some (removed, _) =>
      { s with
        store := land s.store (removal userID removed)
        proposed := s.proposed.eraseIdx index }

/-- A moment at which no mailbox refers to the message ends every record of it. -/
def observe (s : State) : State :=
  if Kept s.store userID guid then s
  else
    { s with
      proposed := s.proposed.map fun removal => (removal.1, false)
      earlier := false
      latest := false }

def step (s : State) (event : Event) : State := observe userID guid (advance userID minAge s event)

/-- The sweep does not remove the metadata of a message that some mailbox referred
to all the time. -/
def Spares (s : State) : Event → Prop
  | .land index => s.proposed[index]? ≠ some (guid, true)
  | _ => True

/-- No command takes the message, to which some mailbox still refers, past the scan
of a pass that is to confirm an earlier sighting of it. -/
def Orderly (s : State) : Event → Prop
  | .command cmd =>
    match s.phase with
    | .scanning prev scan =>
      guid ∈ prev → Kept (land s.store cmd) userID guid →
        ¬ Crosses (guidsIn s.store userID) (guidsIn (land s.store cmd) userID) scan guid
    | _ => True
  | _ => True

instance (s : State) : (event : Event) → Decidable (Spares guid s event)
  | .land index => inferInstanceAs (Decidable (s.proposed[index]? ≠ some (guid, true)))
  | .command _ | .turn _ => isTrue trivial

instance (s : State) : (event : Event) → Decidable (Orderly userID guid s event)
  | .command cmd =>
    match s with
    | ⟨store, .scanning prev scan, _, _, _⟩ =>
      inferInstanceAs (Decidable (guid ∈ prev → Kept (land store cmd) userID guid →
        ¬ Crosses (guidsIn store userID) (guidsIn (land store cmd) userID) scan guid))
    | ⟨_, .idle _, _, _, _⟩ | ⟨_, .deleting _ _ _, _, _, _⟩ => isTrue trivial
  | .land _ | .turn _ => isTrue trivial

end Passes

section Contents

variable {ps : PebbleStore} {userID guid : Bytes}

/-- A mailbox that can be read as a whole shows all it refers to. -/
theorem guidsIn_listed {name : Bytes} {msgs : List MailboxMessage}
    (listed : listMailboxMessages ps userID name = .ok msgs) :
    msgs.map (·.mailGuid) = guidsIn ps userID name := by
  rw [listMailboxMessages, orError_ok] at listed
  rw [(mapM_readable _ _ _ listed).1, List.map_filterMap, guidsIn]

theorem Kept.covers (kept : Kept ps userID guid) :
    Covers (guidsIn ps userID) (.begin ((listMailboxes ps userID).map (·.name))) guid := by
  obtain ⟨mbMeta, listed, refers⟩ := kept
  exact covers_begin.mpr ⟨mbMeta.name, List.mem_map_of_mem listed, refers⟩

theorem mem_guidsIn (name : Bytes) :
    guid ∈ guidsIn ps userID name ↔ ∃ key value msg, mailboxMsgPrefix userID name <+: key ∧
      get ps key = some value ∧ value.unmarshal MailboxMessage = some msg ∧
      msg.mailGuid = guid := by
  simp only [guidsIn, List.mem_filterMap, Prod.exists, mem_prefixScan, Option.map_eq_some_iff,
    and_assoc, exists_and_left]

theorem mem_guidsIn_removal {removed name : Bytes} (refers : guid ∈ guidsIn ps userID name) :
    guid ∈ guidsIn (land ps (removal userID removed)) userID name := by
  obtain ⟨key, value, msg, leads, stored, read, same⟩ := (mem_guidsIn name).mp refers
  refine (mem_guidsIn name).mpr ⟨key, value, msg, leads, ?_, read, same⟩
  have inside : mailboxPrefix userID <+: key := (List.prefix_append _ _).trans leads
  have apart : key ≠ mailMetaKey userID removed := by
    rintro rfl
    exact mailboxPrefix_mailMetaKey userID removed inside
  have plain : ¬ Fsm.marker <+: mailMetaKey userID removed := user_key_plain _
  rw [land, Fsm.applyProto_plain _ _ plain]
  simp only [removal]
  rw [get_delete, if_neg apart.symm, stored]

end Contents

/-! Why a confirming pass does not miss the message. -/
section Safety

variable {userID guid : Bytes} {minAge : Int} {s : State}

/-- What the phase owes to a message that has been referred to since the pass
began: the scan covers it, and it is not among the orphans. -/
def Confirms (userID guid : Bytes) (s : State) : Prop :=
  match s.phase with
  | .idle _ => True
  | .scanning prev scan =>
    (s.earlier = true → s.latest = true) ∧
      (guid ∈ prev → s.latest = true → Covers (guidsIn s.store userID) scan guid)
  | .deleting prev _ orphans =>
    (s.earlier = true → s.latest = true) ∧ (guid ∈ prev → s.latest = true → guid ∉ orphans)

structure Guarded (userID guid : Bytes) (s : State) : Prop where
  unproposed : (guid, true) ∉ s.proposed
  confirms : Confirms userID guid s

/-- Only the states in which the message is referred to need an argument. -/
theorem guarded_observe (guarded : Kept s.store userID guid → Guarded userID guid s) :
    Guarded userID guid (observe userID guid s) := by
  by_cases kept : Kept s.store userID guid
  · rw [observe, if_pos kept]
    exact guarded kept
  rw [observe, if_neg kept]
  refine ⟨?_, ?_⟩
  · simp
  · obtain ⟨store, phase, proposed, earlier, latest⟩ := s
    cases phase <;> simp [Confirms]

theorem guarded_command (guarded : Guarded userID guid s) {cmd : RaftCommand}
    (orderly : Orderly userID guid s (.command cmd))
    (kept : Kept (land s.store cmd) userID guid) :
    Guarded userID guid (advance userID minAge s (.command cmd)) := by
  obtain ⟨store, phase, proposed, earlier, latest⟩ := s
  refine ⟨guarded.unproposed, ?_⟩
  have confirms := guarded.confirms
  cases phase with
  | idle prev => trivial
  | scanning prev scan =>
    refine ⟨confirms.1, fun sighted held => ?_⟩
    exact (confirms.2 sighted held).keep (orderly sighted kept)
  | deleting prev current orphans => exact confirms

theorem guarded_land (guarded : Guarded userID guid s) (index : Nat) :
    Guarded userID guid (advance userID minAge s (.land index)) := by
  simp only [advance]
  split
  · exact guarded
  obtain ⟨store, phase, proposed, earlier, latest⟩ := s
  refine ⟨fun member => guarded.unproposed (List.eraseIdx_subset member), ?_⟩
  have confirms := guarded.confirms
  cases phase with
  | idle prev => trivial
  | scanning prev scan =>
    refine ⟨confirms.1, fun sighted held => ?_⟩
    rcases confirms.2 sighted held with found | ⟨name, unread, refers⟩
    · exact Or.inl found
    · exact Or.inr ⟨name, unread, mem_guidsIn_removal refers⟩
  | deleting prev current orphans => exact confirms

theorem found_not_orphaned {ps : PebbleStore} {found : List Bytes} {cutoff : Int}
    (member : guid ∈ found) : guid ∉ orphanedMail ps userID found cutoff := by
  intro orphaned
  simp only [orphanedMail, List.mem_filterMap] at orphaned
  obtain ⟨entry, _, listed⟩ := orphaned
  split at listed
  · cases listed
  rename_i unreferenced
  push Not at unreferenced
  split at listed
  · cases listed
  split at listed
  · cases listed
  · cases listed
    exact unreferenced.2.2 member

theorem guarded_turn (guarded : Guarded userID guid s) (next : Turn)
    (kept : Kept s.store userID guid) :
    Guarded userID guid (advance userID minAge s (.turn next)) := by
  obtain ⟨store, phase, proposed, earlier, latest⟩ := s
  have unproposed := guarded.unproposed
  have confirms := guarded.confirms
  simp only [advance]
  unfold turn
  split
  case h_4 prev =>
    -- the pass begins: whatever is referred to lies before the scan
    refine ⟨by simpa using unproposed, fun _ => rfl, fun _ _ => kept.covers⟩
  case h_5 prev name rest found =>
    cases listed : listMailboxMessages store userID name with
    | error cause => exact ⟨by simpa using unproposed, trivial⟩
    | ok msgs =>
      refine ⟨by simpa using unproposed, confirms.1, fun sighted held => ?_⟩
      rw [guidsIn_listed listed]
      exact (confirms.2 sighted held).read
  case h_7 prev found now =>
    refine ⟨by simpa using unproposed, confirms.1, fun sighted held => ?_⟩
    exact found_not_orphaned ((confirms.2 sighted held).found rfl)
  case h_8 prev current removed orphans =>
    refine ⟨?_, confirms.1, fun sighted held member =>
      confirms.2 sighted held (List.mem_cons_of_mem _ member)⟩
    intro member
    rcases List.mem_append.mp member with old | new
    · exact unproposed old
    -- a second sighting of the message, so it was not referred to all along
    split at new
    case isFalse => simp at new
    case isTrue sighted =>
      simp only [Option.toList_some, List.map_cons, List.map_nil, List.mem_singleton,
        Prod.mk.injEq] at new
      obtain ⟨rfl, held⟩ := new
      exact confirms.2 sighted (confirms.1 held.symm) List.mem_cons_self
  case h_10 =>
    refine ⟨by simpa using unproposed, ?_⟩
    cases phase with
    | idle prev => trivial
    | scanning prev scan | deleting prev current orphans => exact confirms
  all_goals exact ⟨by simpa using unproposed, trivial⟩

theorem guarded_step (event : Event) (guarded : Guarded userID guid s)
    (orderly : Orderly userID guid s event) :
    Guarded userID guid (step userID minAge guid s event) := by
  apply guarded_observe
  intro kept
  cases event with
  | command cmd => exact guarded_command guarded orderly kept
  | turn next => exact guarded_turn guarded next kept
  | land index => exact guarded_land guarded index

theorem guarded_spares (event : Event) (guarded : Guarded userID guid s) :
    Spares guid s event := by
  cases event with
  | land index =>
    intro proposed
    exact guarded.unproposed (List.mem_iff_getElem?.mpr ⟨index, proposed⟩)
  | _ => trivial

/-- Passes in any number, among commands of any kind: as long as no command takes
the message past the scan of a confirming pass, its metadata is not removed while
some mailbox refers to it from the first sighting on. -/
theorem passes_spare_kept (userID : Bytes) (minAge : Int) (guid : Bytes) (store : PebbleStore)
    (prev : List Bytes) (earlier latest : Bool) (events : List Event)
    (orderly : Histories.Along (step userID minAge guid) (Orderly userID guid)
      ⟨store, .idle prev, [], earlier, latest⟩ events) :
    Histories.Along (step userID minAge guid) (Spares guid)
      ⟨store, .idle prev, [], earlier, latest⟩ events :=
  Histories.along_strengthen (fun _ event guarded held => guarded_step event guarded held)
    (fun _ event guarded _ => guarded_spares event guarded) ⟨List.not_mem_nil, trivial⟩ orderly

end Safety

/-! A message that is moved back and forth between two mailboxes. -/

def sampleStore : PebbleStore :=
  land (land ∅ (deliverMessage sampleUser.bytes (ascii "A") (sampleMail "g1") 0))
    (deliverMessage sampleUser.bytes (ascii "B") (sampleMail "g2") 0)

def sampleStart : State := ⟨sampleStore, .idle [], [], false, false⟩

def moved (source : String) (uid : UInt32) (target : String) : Event :=
  .command (moveMessage sampleUser.bytes (ascii source) uid (ascii target))

/-- A pass during which the message goes from `B`, still to be read, to `A`. -/
def dodgedPass (uid : UInt32) : List Event :=
  [.turn (.start .present), .turn .read, moved "B" uid "A", .turn .read, .turn (.report 1000),
    .turn .delete]

def untilRemoval : List Event :=
  List.flatten [dodgedPass 1, [.turn .delete, moved "A" 2 "B"], dodgedPass 2]

/-- The metadata is removed although a mailbox refers to the message all the time. -/
theorem moved_mail_removed :
    ¬ Histories.Along (step sampleUser.bytes 10 (ascii "g2")) (Spares (ascii "g2")) sampleStart
      (untilRemoval ++ [.land 0]) ∧
    get sampleStore (mailMetaKey sampleUser.bytes (ascii "g2")) ≠ none ∧
    get (Histories.run (step sampleUser.bytes 10 (ascii "g2")) sampleStart
      (untilRemoval ++ [.land 0])).store (mailMetaKey sampleUser.bytes (ascii "g2")) = none ∧
    Kept (Histories.run (step sampleUser.bytes 10 (ascii "g2")) sampleStart
      (untilRemoval ++ [.land 0])).store sampleUser.bytes (ascii "g2") := by
  decide +kernel

/-- The first pass misses the message, the second meets it although it is moved
meanwhile, from a mailbox that was read to one that was not. -/
def metSecondTime : List Event :=
  List.flatten [dodgedPass 1,
    [.turn .delete, .turn (.start .present), .turn .read, moved "A" 2 "B", .turn .read,
      .turn (.report 1000), .turn .delete]]

theorem passes_spare_kept_met :
    Histories.Along (step sampleUser.bytes 10 (ascii "g2")) (Orderly sampleUser.bytes (ascii "g2"))
      sampleStart metSecondTime ∧
    Histories.Along (step sampleUser.bytes 10 (ascii "g2")) (Spares (ascii "g2"))
      sampleStart metSecondTime := by
  have orderly : Histories.Along (step sampleUser.bytes 10 (ascii "g2"))
      (Orderly sampleUser.bytes (ascii "g2")) sampleStart metSecondTime := by decide +kernel
  exact ⟨orderly, passes_spare_kept sampleUser.bytes 10 (ascii "g2") sampleStore [] false false
    metSecondTime orderly⟩

end Bongo.MailSweep
