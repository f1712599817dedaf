import Bongo.MailboxRanges
import Bongo.ImapViews

/-!
The mailbox of an IMAP session is the one in the store. A folder shows a mailbox
of the tree when it lists its messages and has its next UID; every command that
lands in the store then changes the folder as some deliveries, removals and
expunges of the session's model do.
-/

namespace Bongo.ImapMailbox

open ByteKeys KeyValue Records MailboxKeys Mailbox MailboxTree MailboxSteps MailboxStore
open MailboxRanges Histories ImapSession ImapViews

structure Shows (t : Tree) (name : Bytes) (folder : Folder) : Prop where
  lists : Lists t name folder.messages
  next : (t.metas name).map (·.uidNext) = some folder.uidNext

section Changes

variable {t after : Tree} {name : Bytes} {folder : Folder}

section

variable (lists : Lists t name folder.messages)
include lists

theorem lists_put (msg : MailboxMessage) :
    Lists (t.setMessage name msg.uid (some msg)) name (folder.put msg).messages := by
  refine ⟨fun other => ?_, ordered_put lists.ordered msg⟩
  rw [mem_put, setMessage_messages, lists.holds other]
  by_cases same : msg.uid = other.uid
  · simp [same, eq_comm]
  · have differs : other ≠ msg := fun equal => same (by rw [equal])
    simp [same, differs, Ne.symm same]

theorem lists_remove (uid : UInt32) :
    Lists (t.setMessage name uid none) name (folder.remove uid).messages := by
  refine ⟨fun other => ?_, lists.ordered.filter _⟩
  rw [mem_remove, setMessage_messages, lists.holds other]
  by_cases same : uid = other.uid
  · simp [same]
  · simp [same, Ne.symm same]

theorem lists_expunge (uids : List UInt32)
    (covers : ∀ uid msg, t.messages name uid = some msg → markedDeleted msg = true → uid ∈ uids)
    (exactly : ∀ uid ∈ uids, ∃ msg, t.messages name uid = some msg ∧ markedDeleted msg = true) :
    Lists (t.removeUids name uids) name folder.expunge.messages := by
  refine ⟨fun other => ?_, lists.ordered.filter _⟩
  rw [mem_expunge, lists.holds other]
  simp only [Tree.removeUids, true_and]
  by_cases removed : other.uid ∈ uids
  · obtain ⟨msg, stored, marked⟩ := exactly other.uid removed
    rw [if_pos removed, stored]
    refine iff_of_false ?_ (Option.some_ne_none other).symm
    rintro ⟨⟨⟩, unmarked⟩
    simp [marked] at unmarked
  · rw [if_neg removed]
    exact and_iff_left_of_imp fun here => Bool.eq_false_iff.mpr fun marked =>
      removed (covers other.uid other here marked)

end

variable (shows : Shows t name folder)
include shows

/-- A change of other mailboxes, or of other metadata, is not seen. -/
theorem Shows.unchanged (messages : ∀ uid, after.messages name uid = t.messages name uid)
    (next : (after.metas name).map (·.uidNext) = (t.metas name).map (·.uidNext)) :
    Shows after name folder := by
  refine ⟨⟨fun msg => ?_, shows.lists.ordered⟩, next.trans shows.next⟩
  rw [messages, shows.lists.holds]

theorem Shows.place (mbMeta : MailboxMeta) (found : t.metas name = some mbMeta)
    (msg : MailboxMessage) :
    Shows (t.place name mbMeta msg) name (folder.arrive msg) := by
  have next := shows.next
  rw [found, Option.map_some, Option.some.injEq] at next
  rw [Tree.place, Folder.arrive, next]
  have put := lists_put shows.lists { msg with uid := folder.uidNext }
  exact ⟨⟨put.holds, put.ordered⟩, by simp⟩

end Changes

/-! Commands in the store and events of the session's model. -/

inductive Outside : Event → Prop
  | deliver (msg : MailboxMessage) : Outside (.deliver msg)
  | remove (uid : UInt32) : Outside (.remove uid)
  | purge : Outside .purge

def Stays (name : Bytes) : MailboxOp → Prop
  | .delete mailbox => mailbox ≠ name
  | .rename value => ∀ payload, value = .json (.rename payload) → payload.oldName ≠ name
  | _ => True

section Landing

variable {t after : Tree} {name : Bytes} {s : State}

/-- At most `most` events of other sessions lead to a folder that shows the mailbox. -/
def Followed (most : Nat) (after : Tree) (name : Bytes) (s : State) : Prop :=
  ∃ events, events.length ≤ most ∧ (∀ event ∈ events, Outside event) ∧
    Shows after name (run step s events).folder

theorem followed_nothing {most : Nat} (shows : Shows after name s.folder) :
    Followed most after name s :=
  ⟨[], Nat.zero_le most, List.forall_mem_nil _, shows⟩

/-- One change after another. -/
theorem Followed.then {mid : Tree} {most more : Nat} (first : Followed most mid name s)
    (second : ∀ s : State, Shows mid name s.folder → Followed more after name s) :
    Followed (most + more) after name s := by
  obtain ⟨events, few, outside, shown⟩ := first
  obtain ⟨later, alsoFew, alsoOutside, last⟩ := second (run step s events) shown
  refine ⟨events ++ later, ?_, List.forall_mem_append.mpr ⟨outside, alsoOutside⟩, ?_⟩
  · rw [List.length_append]
    exact Nat.add_le_add few alsoFew
  · rw [run_append]
    exact last

theorem followed_event {event : Event} {most : Nat} (outside : Outside event)
    (shows : Shows after name (step s event).folder) : Followed (most + 1) after name s :=
  ⟨[event], Nat.le_add_left 1 most, List.forall_mem_singleton.mpr outside, shows⟩

section

variable (shows : Shows t name s.folder)
include shows

theorem followed_place {mailbox : Bytes} {mbMeta : MailboxMeta} {most : Nat}
    (found : mailbox = name → t.metas mailbox = some mbMeta) (msg : MailboxMessage) :
    Followed (most + 1) (t.place mailbox mbMeta msg) name s := by
  by_cases here : mailbox = name
  · cases here
    exact followed_event (.deliver msg) (shows.place mbMeta (found rfl) msg)
  · refine followed_nothing (shows.unchanged ?_ ?_)
    all_goals simp [Tree.place, here]

theorem followed_remove {mailbox : Bytes} {uid : UInt32}
    (stored : ∃ msg, t.messages mailbox uid = some msg ∧ msg.uid = uid) :
    Followed 1 (t.setMessage mailbox uid none) name s := by
  obtain ⟨msg, stored, own⟩ := stored
  by_cases here : mailbox = name
  · subst here
    have listed := (shows.lists.holds msg).mpr (own ▸ stored)
    refine followed_event (.remove uid) ?_
    rw [step, if_pos ((mem_uids uid).mpr ⟨msg, listed, own⟩)]
    exact ⟨lists_remove shows.lists uid, shows.next⟩
  · exact followed_nothing (shows.unchanged (fun place => by simp [here]) rfl)

/-- A move places a copy in one mailbox and takes the message out of another, which may
be the same. -/
theorem followed_move {payload : TransferPayload} {srcMsg : MailboxMessage} {dstMeta : MailboxMeta}
    (source : t.messages payload.srcMailbox payload.srcUID = some srcMsg)
    (own : srcMsg.uid = payload.srcUID) (found : t.metas payload.dstMailbox = some dstMeta)
    (placed : MailboxMessage) :
    Followed 2 ((t.place payload.dstMailbox dstMeta placed).setMessage payload.srcMailbox
      payload.srcUID none) name s := by
  refine (followed_place shows (fun _ => found) placed).then fun s shown =>
    followed_remove shown ?_
  simp only [Tree.place, setMessage_messages]
  split
  case isTrue here => exact ⟨_, rfl, here.2⟩
  case isFalse => exact ⟨srcMsg, source, own⟩

/-- Whatever a command does to the mailboxes, the session's model follows with at most two
events of other sessions: a move within the mailbox is a delivery and a removal. -/
theorem followed_step (isolated : t.Isolated name)
    (own : ∀ mailbox uid msg, t.messages mailbox uid = some msg → msg.uid = uid) {op : MailboxOp}
    (stays : Stays name op) (stepped : Step t op after) : Followed 2 after name s := by
  have present : t.metas name ≠ none := by
    intro missing
    simpa [missing] using shows.next
  cases stepped with
  | @append mailbox value mbMeta msg parsed found =>
    exact followed_place shows (fun _ => found) _
  | @deliver mailbox value mbMeta msg found =>
    refine followed_place shows (fun here => found.resolve_right fun fresh => ?_) _
    exact present (here ▸ fresh.1)
  | @copy payload srcMsg dstMeta source found =>
    exact followed_place shows (fun _ => found) _
  | @move payload srcMsg dstMeta source found =>
    exact followed_move shows source (own _ _ _ source) found _
  | @delete mailbox kept =>
    refine followed_nothing (shows.unchanged (fun uid => ?_) ?_)
    · exact if_neg stays
    · exact congrArg _ (if_neg stays)
  | @expunge mailbox uids covers exactly =>
    by_cases here : mailbox = name
    · subst here
      exact followed_event .purge ⟨lists_expunge shows.lists uids covers (exactly isolated),
        shows.next⟩
    · refine followed_nothing (shows.unchanged (fun uid => ?_) rfl)
      simp [Tree.removeUids, here]
  | @rename payload oldMeta moved found different free exactly =>
    have old : payload.oldName ≠ name := stays payload rfl
    have new : payload.newName ≠ name := fun same => present (same ▸ free)
    refine followed_nothing (shows.unchanged ?_ ?_)
    all_goals simp [Tree.renamed, old, new]
  | @subscribe mailbox value mbMeta flag found =>
    refine followed_nothing (shows.unchanged (fun uid => rfl) ?_)
    rw [setMeta_metas]
    split
    case isTrue here => simp [← here, found]
    case isFalse => rfl

end

end Landing

/-! Runs of commands of any users over the store. -/

section Runs

variable {user : UserID} {ps : PebbleStore}

def landing (ps : PebbleStore) (command : UserID × MailboxOp) : PebbleStore :=
  Fsm.land ps (command.2.command command.1.bytes)

/-- A command changes nothing in the tree of another user. -/
theorem landing_foreign (reachable : Reachable ps) {command : UserID × MailboxOp}
    (foreign : command.1 ≠ user) : tree (landing ps command) user.bytes = tree ps user.bytes := by
  rw [landing, land_command]
  split
  case h_1 after result applied =>
    obtain ⟨-, batch, rfl, lawful⟩ :=
      command_step command.1 (reachable.tidy command.1) command.2 after _ applied
    apply tree_of_agree
    intro key leads
    apply get_commit_untouched
    intro write member touched
    exact lawful_outside foreign (lawful write member) (touched ▸ leads)
  case h_2 => rfl

theorem reachable_run (reachable : Reachable ps) (commands : List (UserID × MailboxOp)) :
    Reachable (run landing ps commands) :=
  run_invariant (fun _ command before _ => .command command.1 command.2 before) reachable
    (along_of_forall fun _ _ _ => trivial)

/-- Whatever the others do, their commands leave a user's mailboxes as they are. -/
theorem users_apart (user : UserID) (before others : List (UserID × MailboxOp)) :
    tree (run landing ∅ (before ++ others.filter (·.1 ≠ user))) user.bytes =
      tree (run landing ∅ before) user.bytes := by
  rw [run_append]
  have keeps (ps : PebbleStore) (command : UserID × MailboxOp)
      (held : Reachable ps ∧ tree ps user.bytes = tree (run landing ∅ before) user.bytes)
      (foreign : command.1 ≠ user) : Reachable (landing ps command) ∧
        tree (landing ps command) user.bytes = tree (run landing ∅ before) user.bytes :=
    ⟨.command command.1 command.2 held.1, (landing_foreign held.1 foreign).trans held.2⟩
  refine (run_invariant keeps ⟨reachable_run .empty before, rfl⟩ (along_of_forall ?_)).2
  intro _ command member
  simpa using (List.mem_filter.mp member).2

/-- What an own command needs: no mailbox in the way, and the shown one not taken away. -/
def Spares (user : UserID) (name : Bytes) (ps : PebbleStore) (cmd : UserID × MailboxOp) : Prop :=
  cmd.1 = user → (tree ps user.bytes).Isolated name ∧ Stays name cmd.2

theorem followed_landing {name : Bytes} {s : State} (reachable : Reachable ps)
    (shows : Shows (tree ps user.bytes) name s.folder) {command : UserID × MailboxOp}
    (spares : Spares user name ps command) :
    Followed 2 (tree (landing ps command) user.bytes) name s := by
  obtain ⟨owner, op⟩ := command
  by_cases own : owner = user
  · subst own
    obtain ⟨isolated, stays⟩ := spares rfl
    have tidy := reachable.tidy owner
    rcases land_command_cases ps owner tidy op with same | ⟨stepped, -⟩
    · rw [landing, same]
      exact followed_nothing shows
    · exact followed_step shows isolated tidy.own_uid stays stepped
  · rw [landing_foreign reachable own]
    exact followed_nothing shows

/-- A session's model of its mailbox keeps up with the store: whatever commands of
whichever users land, events of other sessions, at most two for each command, lead to a
folder that shows the mailbox. -/
theorem commands_followed (reachable : Reachable ps) (name : Bytes) (s : State)
    (shows : Shows (tree ps user.bytes) name s.folder) (commands : List (UserID × MailboxOp))
    (spared : Along landing (Spares user name) ps commands) :
    Followed (2 * commands.length) (tree (run landing ps commands) user.bytes) name s := by
  induction commands generalizing ps s with
  | nil => exact followed_nothing shows
  | cons command rest ih =>
    rw [List.length_cons, Nat.mul_succ, Nat.add_comm]
    exact (followed_landing reachable shows spared.1).then fun s shown =>
      ih (.command command.1 command.2 reachable) s shown spared.2

end Runs

/-- A marked message is delivered to the mailbox and expunged again. -/
def marked : UserID × MailboxOp :=
  (sampleUser, .deliver (ascii "A") (.json (.delivery ⟨sampleMail "g2", flagDeleted⟩)))

theorem commands_followed_expunge :
    let commands := [marked, (sampleUser, .expunge (ascii "A"))]
    (((tree (landing oneMailbox marked) sampleUser.bytes).messages (ascii "A") 2).map
      markedDeleted = some true ∧
      (tree (run landing oneMailbox commands) sampleUser.bytes).messages (ascii "A") 2 = none) ∧
    Followed 4 (tree (run landing oneMailbox commands) sampleUser.bytes) (ascii "A")
      (start ⟨listMessages oneMailbox sampleUser.bytes (ascii "A"), 2⟩) := by
  intro commands
  have reachable : Reachable oneMailbox := .command sampleUser _ .empty
  have isolated : (tree oneMailbox sampleUser.bytes).Isolated (ascii "A") :=
    fun _ encloses => oneMailbox_alone encloses.ne.symm
  have later : (tree (landing oneMailbox marked) sampleUser.bytes).Isolated (ascii "A") := by
    intro other encloses
    have kept := deliver_elsewhere (reachable.tidy sampleUser) (sampleMail "g2") flagDeleted
      encloses.ne.symm
    obtain ⟨noMeta, noMessage⟩ := isolated other encloses
    exact ⟨kept.1.trans noMeta, fun uid => (kept.2 uid).trans (noMessage uid)⟩
  refine ⟨by decide, commands_followed reachable (ascii "A") _ ?_ commands
    ⟨fun _ => ⟨isolated, trivial⟩, fun _ => ⟨later, trivial⟩, trivial⟩⟩
  exact ⟨lists_of_isolated (reachable.tidy sampleUser) _ isolated, by decide⟩

end Bongo.ImapMailbox
