import Bongo.MailboxStore
import Bongo.Replay

/-!
Commands that are applied a second time. A crash between the batch of an entry
and the note of its index makes the next start apply that entry again, so each
command is looked at on its own result. The conditional commands settle there;
among the mailbox commands those that allocate a UID do not.
-/

namespace Bongo.FsmReplay

open ByteKeys KeyValue MailboxKeys Mailbox MailboxTree MailboxSteps MailboxStore Records Fsm

inductive Family where
  | acl
  | bayesTrain
  | queueMove
  | appPasswordTouch
  | deviceLinkConsume
  deriving DecidableEq

def Family.apply (family : Family) (ps : PebbleStore) (cmd : RaftCommand) :
    PebbleStore × Option Fsm.Error :=
  match family with
  | .acl => relabel .acl (Acl.applyACLCommand ps cmd)
  | .bayesTrain => relabel .bayes (Bayes.applyBayesTrainCommand ps cmd)
  | .queueMove => relabel .queue (Queue.applyQueueCommand ps cmd)
  | .appPasswordTouch => relabel .credential (Credentials.applyAppPasswordTouch ps cmd)
  | .deviceLinkConsume => relabel .credential (Credentials.applyAppPasswordTicketConsume ps cmd)

/-- A plan that settles is committed once, however often it is applied, and a
plan that fails is not committed. -/
theorem relabel_settles {E : Type} (label : E → Fsm.Error)
    {plan : PebbleStore → Except E (List (Write Value))} (settles : Settles plan)
    (ps : PebbleStore) :
    let first := relabel label (commitSyncBatch ps (plan ps))
    (first.2 = none → (relabel label (commitSyncBatch first.1 (plan first.1))).1 = first.1) ∧
      ∀ error, first.2 = some error → first.1 = ps := by
  simp only [relabel, Option.map_eq_none_iff, Option.map_eq_some_iff]
  constructor
  · intro accepted
    exact commitSyncBatch_again plan settles ps _ (Prod.ext rfl accepted)
  · rintro error ⟨cause, failed, -⟩
    exact commitSyncBatch_error ps (plan ps) cause failed

/-- A conditional command that was accepted changes nothing when it is applied
again, and one that failed changed nothing at all. -/
theorem synthetic_command_settles (family : Family) (ps : PebbleStore) (cmd : RaftCommand) :
    ((family.apply ps cmd).2 = none →
      (family.apply (family.apply ps cmd).1 cmd).1 = (family.apply ps cmd).1) ∧
    ∀ error, (family.apply ps cmd).2 = some error → (family.apply ps cmd).1 = ps := by
  cases family with
  | acl => exact relabel_settles .acl (Acl.planACL_settles cmd) ps
  | bayesTrain => exact relabel_settles .bayes (Bayes.planBayesTrain_settles cmd) ps
  | queueMove => exact relabel_settles .queue (Queue.planQueueMove_settles cmd) ps
  | appPasswordTouch =>
    exact relabel_settles .credential (Credentials.touchBatch_settles cmd) ps
  | deviceLinkConsume =>
    exact relabel_settles .credential (Credentials.ticketBatch_settles cmd) ps

def sampleMove : RaftCommand :=
  ⟨.put, Queue.queueMovePrefix ++ ascii "m1",
    .json (.queueMove ⟨ascii "/queue/pending/1-m1", ascii "/queue/pending/2-m1", ascii "mail"⟩)⟩

theorem synthetic_command_settles_move :
    (Family.queueMove.apply ∅ sampleMove).2 = none ∧
      (Family.queueMove.apply (Family.queueMove.apply ∅ sampleMove).1 sampleMove).1 =
        (Family.queueMove.apply ∅ sampleMove).1 := by
  have accepted : (Family.queueMove.apply ∅ sampleMove).2 = none := by decide
  exact ⟨accepted, (synthetic_command_settles .queueMove ∅ sampleMove).1 accepted⟩

section Again

variable {ps after later : PebbleStore} {cmd : RaftCommand}

theorem move_again {result again : MailboxCommandResult}
    (applied : applyMailboxMove ps cmd = .ok (after, result)) :
    applyMailboxMove after cmd ≠ .ok (later, again) := by
  intro repeated
  obtain ⟨userID, payload, -, -, writes, parsed, -, -, -, rfl⟩ := move_ok applied
  obtain ⟨_, _, srcMsg, -, -, reparsed, source, -, -, -⟩ := move_ok repeated
  cases parsed.symm.trans reparsed
  rw [readMailboxMessage_ok] at source
  simp [tree] at source

theorem rename_again (applied : applyMailboxRename ps cmd = .ok after) :
    applyMailboxRename after cmd ≠ .ok later := by
  intro repeated
  obtain ⟨userID, payload, oldMeta, msgs, parsed, -, -, -, -, -, -, rfl⟩ := rename_ok applied
  obtain ⟨_, _, mbMeta, -, reparsed, found, -⟩ := rename_ok repeated
  cases parsed.symm.trans reparsed
  rw [readMailboxMeta_ok] at found
  simp [tree, renamed] at found

theorem subscribe_again (applied : applyMailboxSubscribe ps cmd = .ok after)
    (repeated : applyMailboxSubscribe after cmd = .ok later) : later = after := by
  obtain ⟨userID, mailbox, payload, mbMeta, key, parsed, -, valid, rfl⟩ := subscribe_ok applied
  obtain ⟨_, _, _, reread, rekey, reparsed, found, -, rfl⟩ := subscribe_ok repeated
  cases key.symm.trans rekey
  cases parsed.symm.trans reparsed
  rw [readMailboxMeta_ok] at found
  simp only [tree, get_set, ↓reduceIte, Option.bind_some, Value.unmarshal_encoded _ valid,
    Option.some.injEq] at found
  subst found
  exact set_stored _ _ _ (by simp)

theorem listed_before {userID mailbox : Bytes} {keys : List Bytes}
    {before remaining : List MailboxMessage}
    (listed : listMailboxMessages ps userID mailbox = .ok before)
    (relisted : listMailboxMessages (commit ps (keys.map .delete)) userID mailbox =
      .ok remaining) {msg : MailboxMessage} (member : msg ∈ remaining) : msg ∈ before := by
  rw [mem_listMailboxMessages _ _ _ _ relisted] at member
  obtain ⟨key, value, leads, stored, read⟩ := member
  rw [mem_listMailboxMessages _ _ _ _ listed]
  exact ⟨key, value, leads, get_of_commit_deletes ps keys key value stored, read⟩

theorem delete_again (applied : applyMailboxDelete ps cmd = .ok after)
    (repeated : applyMailboxDelete after cmd = .ok later) : later = after := by
  have asKeys : ∀ userID mailbox msgs, deleteBatch userID mailbox msgs =
      ((msgs.map fun msg => mailboxMsgKey userID mailbox msg.uid) ++
        [mailboxMetaKey userID mailbox]).map .delete := by
    intro userID mailbox msgs
    simp [deleteBatch]
  obtain ⟨userID, mailbox, msgs, key, -, listed, rfl⟩ := delete_ok applied
  obtain ⟨_, _, remaining, rekey, -, relisted, rfl⟩ := delete_ok repeated
  cases key.symm.trans rekey
  rw [asKeys] at relisted ⊢
  rw [asKeys]
  apply commit_deletes_again
  intro key member
  rw [List.mem_append] at member ⊢
  rcases member with own | metaKey
  · left
    obtain ⟨msg, inside, rfl⟩ := List.mem_map.mp own
    exact List.mem_map.mpr ⟨msg, listed_before listed relisted inside, rfl⟩
  · exact Or.inr metaKey

theorem expunge_again {result again : MailboxCommandResult}
    (applied : applyMailboxExpunge ps cmd = .ok (after, result))
    (repeated : applyMailboxExpunge after cmd = .ok (later, again)) : later = after := by
  obtain ⟨userID, mailbox, msgs, key, listed, rfl⟩ := expunge_ok applied
  obtain ⟨_, _, remaining, rekey, relisted, rfl⟩ := expunge_ok repeated
  cases key.symm.trans rekey
  apply commit_deletes_again
  intro key member
  obtain ⟨uid, marked, rfl⟩ := List.mem_map.mp member
  obtain ⟨msg, inside, rfl⟩ := List.mem_map.mp marked
  obtain ⟨listedAgain, deleted⟩ := List.mem_filter.mp inside
  have earlier := listed_before listed relisted listedAgain
  exact List.mem_map.mpr
    ⟨msg.uid, List.mem_map.mpr ⟨msg, List.mem_filter.mpr ⟨earlier, deleted⟩, rfl⟩, rfl⟩

def allocates (key : Bytes) : Bool :=
  hasPrefix key mailboxAppendPrefix || hasPrefix key mailboxCopyPrefix ||
    hasPrefix key mailboxDeliverPrefix

variable {result : Option MailboxCommandResult}

theorem mailbox_again {again : Option MailboxCommandResult}
    (applied : applyMailboxCommand ps cmd = .ok (after, result))
    (repeated : applyMailboxCommand after cmd = .ok (later, again))
    (spends : allocates cmd.key = false) : later = after := by
  simp only [allocates, Bool.or_eq_false_iff] at spends
  obtain ⟨⟨notAppend, notCopy⟩, notDeliver⟩ := spends
  simp only [applyMailboxCommand, notAppend, notCopy, notDeliver, Bool.false_eq_true,
    ↓reduceIte] at applied repeated
  split_ifs at applied repeated
  · exact delete_again (withoutResult_ok applied) (withoutResult_ok repeated)
  · obtain ⟨_, first⟩ := withResult_ok applied
    obtain ⟨_, second⟩ := withResult_ok repeated
    exact expunge_again first second
  · obtain ⟨_, first⟩ := withResult_ok applied
    obtain ⟨_, second⟩ := withResult_ok repeated
    exact absurd second (move_again first)
  · exact absurd (withoutResult_ok repeated) (rename_again (withoutResult_ok applied))
  · exact subscribe_again (withoutResult_ok applied) (withoutResult_ok repeated)

/-- Every write of a mailbox command is under its user's keys. -/
theorem mailbox_lawful (applied : applyMailboxCommand ps cmd = .ok (after, result)) :
    ∃ userID batch, after = commit ps batch ∧ ∀ write ∈ batch, Lawful userID write := by
  simp only [applyMailboxCommand] at applied
  split_ifs at applied
  · obtain ⟨_, applied⟩ := withResult_ok applied
    obtain ⟨userID, _, _, _, writes, -, -, -, -, placed, rfl⟩ := append_ok applied
    exact ⟨userID, writes, rfl, placed_lawful placed⟩
  · obtain ⟨_, applied⟩ := withResult_ok applied
    obtain ⟨userID, _, _, _, writes, -, -, -, placed, rfl⟩ := copy_ok applied
    exact ⟨userID, writes, rfl, placed_lawful placed⟩
  · obtain ⟨userID, mailbox, msgs, -, -, -, rfl⟩ := delete_ok (withoutResult_ok applied)
    exact ⟨userID, _, rfl, deleteBatch_lawful msgs⟩
  · obtain ⟨_, applied⟩ := withResult_ok applied
    obtain ⟨userID, _, _, mailMeta, _, writes, -, -, -, -, -, placed, rfl⟩ := delivery_ok applied
    refine ⟨userID, _, rfl, ?_⟩
    exact List.forall_mem_cons.mpr ⟨Or.inr ⟨mailMeta.guid, rfl⟩, placed_lawful placed⟩
  · obtain ⟨_, applied⟩ := withResult_ok applied
    obtain ⟨userID, mailbox, msgs, -, -, rfl⟩ := expunge_ok applied
    exact ⟨userID, _, rfl, deletes_lawful _⟩
  · obtain ⟨_, applied⟩ := withResult_ok applied
    obtain ⟨userID, payload, _, _, writes, -, -, -, placed, rfl⟩ := move_ok applied
    refine ⟨userID, writes ++ [.delete _], by rw [commit_append, commit_delete, commit_nil], ?_⟩
    exact List.forall_mem_append.mpr
      ⟨placed_lawful placed, List.forall_mem_singleton.mpr (Or.inr ⟨_, _, rfl⟩)⟩
  · obtain ⟨userID, payload, oldMeta, msgs, -, -, -, -, -, valid, msgsValid, rfl⟩ :=
      rename_ok (withoutResult_ok applied)
    exact ⟨userID, renamed_lawful valid msgsValid⟩
  · obtain ⟨userID, mailbox, _, _, -, -, -, valid, rfl⟩ := subscribe_ok (withoutResult_ok applied)
    refine ⟨userID, [.set _ _], rfl, ?_⟩
    exact List.forall_mem_singleton.mpr (Or.inl (entry_meta userID mailbox _ valid))

theorem lawful_user {userID : Bytes} {write : Write Value} (lawful : Lawful userID write) :
    ascii "/user/" <+: write.key := by
  have inTree : ∀ rest, ascii "/user/" <+: mailboxPrefix userID ++ rest := by
    intro rest
    rw [mailboxPrefix, List.append_assoc]
    exact List.prefix_append _ _
  cases write with
  | set key value =>
    rcases lawful with entry | ⟨guid, rfl⟩
    · rcases entry with ⟨name, _, rfl, -⟩ | ⟨name, uid, _, rfl, -, -⟩
      · exact inTree _
      · exact inTree _
    · exact List.prefix_append _ _
  | delete key =>
    rcases lawful with ⟨name, rfl⟩ | ⟨name, uid, rfl⟩
    · exact inTree _
    · exact inTree _

theorem mailbox_unmarked (applied : applyMailboxCommand ps cmd = .ok (after, result)) :
    get after raftAppliedIndexKey = get ps raftAppliedIndexKey := by
  obtain ⟨userID, batch, rfl, lawful⟩ := mailbox_lawful applied
  apply get_commit_untouched
  intro write member same
  have leads := lawful_user (lawful write member)
  rw [same] at leads
  exact absurd leads (by decide)

end Again

structure CommittedLog where
  entries : List LogEntry
  ascending : entries.Pairwise fun left right => left.index < right.index

/-- `Apply` cut off between the batch of an entry and the note of its index. -/
def applyCut (ps : PebbleStore) (entry : LogEntry) : PebbleStore :=
  if entry.index ≠ 0 ∧ entry.index ≤ appliedIndex ps then ps else (applyEntry ps entry).1

def otherSynthetic (key : Bytes) : Bool :=
  Queue.isQueueSyntheticCommand key || Bayes.isBayesSyntheticCommand key ||
    Acl.isACLSyntheticCommand key || Credentials.isAppPasswordSyntheticCommand key ||
    Credentials.isAppPasswordTicketCommand key

/-- A mailbox command or a plain put or delete. -/
def MailboxOrPlain (entry : LogEntry) : Prop :=
  match entry.data with
  | .proto cmd => isMailboxSyntheticCommand cmd.key = true ∨ otherSynthetic cmd.key = false
  | _ => True

/-- The entry takes no UID and does not write the applied index itself. -/
def Repeats (entry : LogEntry) : Prop :=
  match entry.data with
  | .proto cmd =>
    if cmd.op = .put ∧ isMailboxSyntheticCommand cmd.key = true then allocates cmd.key = false
    else cmd.key ≠ raftAppliedIndexKey
  | .legacy _ key _ => key ≠ raftAppliedIndexKey
  | .malformed => True

def work (ps : PebbleStore) (entry : LogEntry) : PebbleStore := (applyEntry ps entry).1

def note (ps : PebbleStore) (entry : LogEntry) : PebbleStore := setAppliedIndex ps entry.index

section

variable (ps : PebbleStore)
include ps

theorem apply_eq_step (entry : LogEntry) :
    (apply ps entry).1 =
      Replay.step (fun ps => (appliedIndex ps).toNat) (fun entry => entry.index.toNat) work note
        ps entry := by
  have positive := entry.positive
  simp only [apply, Replay.step, ne_eq, positive, not_false_eq_true, true_and,
    ← UInt64.le_iff_toNat_le]
  split_ifs <;> rfl

theorem applyCut_eq_half (entry : LogEntry) :
    applyCut ps entry =
      Replay.half (fun ps => (appliedIndex ps).toNat) (fun entry => entry.index.toNat) work
        ps entry := by
  have positive := entry.positive
  simp [applyCut, Replay.half, work, positive, ← UInt64.le_iff_toNat_le]

theorem set_again (key : Bytes) (value : Value) :
    set (set ps key value) key value = set ps key value := set_stored _ _ _ (by simp)

theorem delete_twice (key : Bytes) :
    delete (delete ps key) key = delete ps key :=
  commit_deletes_again ps [key] [key] fun _ member => member

theorem applyProto_other {cmd : RaftCommand}
    (notMailbox : ¬ (cmd.op = .put ∧ isMailboxSyntheticCommand cmd.key = true))
    (plain : isMailboxSyntheticCommand cmd.key = true ∨ otherSynthetic cmd.key = false) :
    (applyProto ps cmd).1 =
      match cmd.op with
      | .put => set ps cmd.key cmd.value
      | .delete => delete ps cmd.key
      | .unspecified => ps := by
  cases op : cmd.op with
  | put =>
    have other : otherSynthetic cmd.key = false := plain.resolve_left fun mailbox =>
      notMailbox ⟨op, mailbox⟩
    simp only [otherSynthetic, Bool.or_eq_false_iff] at other
    simp only [applyProto, op] at notMailbox ⊢
    simp [notMailbox, other]
  | delete | unspecified => simp [applyProto, op]

theorem mailbox_repeats {cmd : RaftCommand} (spends : allocates cmd.key = false) :
    (applyMailbox (applyMailbox ps cmd).1 cmd).1 = (applyMailbox ps cmd).1 ∧
      get (applyMailbox ps cmd).1 raftAppliedIndexKey = get ps raftAppliedIndexKey := by
  cases applied : applyMailboxCommand ps cmd with
  | error error => simp [applyMailbox, applied]
  | ok outcome =>
    obtain ⟨after, result⟩ := outcome
    simp only [applyMailbox, applied]
    refine ⟨?_, mailbox_unmarked applied⟩
    cases repeated : applyMailboxCommand after cmd with
    | error error => rfl
    | ok second =>
      obtain ⟨later, again⟩ := second
      exact mailbox_again applied repeated spends

end

theorem repeatable_of_repeats {entry : LogEntry} (scope : MailboxOrPlain entry)
    (repeats : Repeats entry) :
    Replay.Repeatable (fun ps => (appliedIndex ps).toNat) work entry := by
  suffices both : ∀ ps, work (work ps entry) entry = work ps entry ∧
      get (work ps entry) raftAppliedIndexKey = get ps raftAppliedIndexKey by
    constructor
    · exact fun ps => (both ps).1
    · intro ps
      rw [appliedIndex_of_agree (both ps).2]
  intro ps
  obtain ⟨index, data, positive⟩ := entry
  cases data with
  | malformed => exact ⟨rfl, rfl⟩
  | legacy op key value =>
    have apart : key ≠ raftAppliedIndexKey := repeats
    cases op with
    | put => exact ⟨set_again ps key value, by simp [work, applyEntry, apart]⟩
    | delete => exact ⟨delete_twice ps key, by simp [work, applyEntry, apart]⟩
    | unknown => exact ⟨rfl, rfl⟩
  | proto cmd =>
    simp only [Repeats] at scope repeats
    simp only [work, applyEntry]
    by_cases missing : cmd.op = .unspecified
    · simp [missing]
    simp only [missing, ↓reduceIte]
    by_cases mailbox : cmd.op = .put ∧ isMailboxSyntheticCommand cmd.key = true
    · rw [if_pos mailbox] at repeats
      have branch : ∀ store, applyProto store cmd = applyMailbox store cmd :=
        fun store => if_pos mailbox
      rw [branch, branch]
      exact mailbox_repeats ps repeats
    · rw [if_neg mailbox] at repeats
      rw [applyProto_other _ mailbox scope, applyProto_other _ mailbox scope]
      cases op : cmd.op with
      | put => exact ⟨set_again _ _ _, by simp [repeats]⟩
      | delete => exact ⟨delete_twice _ _, by simp [repeats]⟩
      | unspecified => exact absurd op missing

/-- However often the state machine crashes inside `Apply`, the start that gets
through the log ends in the store in which every entry took effect once, as long
as no crash right after a batch strikes an entry that cannot be repeated. -/
theorem replay_applies_once (log : CommittedLog)
    (scope : ∀ entry ∈ log.entries, MailboxOrPlain entry) (start : PebbleStore)
    (fresh : appliedIndex start = 0) (crashes : List Replay.Crash)
    (safe : ∀ crash ∈ crashes, ∀ entry, log.entries[crash.position]? = some entry →
      crash.worked = true → Repeats entry) :
    Replay.recover (fun ps entry => (apply ps entry).1) applyCut log.entries start crashes =
      Replay.once work note start log.entries := by
  have noted : ∀ ps entry, (appliedIndex (note ps entry)).toNat = entry.index.toNat := by
    intro ps entry
    rw [note, appliedIndex_set]
  have steps : (fun ps entry => (apply ps entry).1) = Replay.step _ _ work note :=
    funext fun ps => funext fun entry => apply_eq_step ps entry
  have cuts : applyCut = Replay.half _ _ work :=
    funext fun ps => funext fun entry => applyCut_eq_half ps entry
  rw [steps, cuts, Replay.recover_eq_run noted]
  · apply Replay.run_eq_once noted
    · exact log.ascending.imp fun less => UInt64.lt_iff_toNat_lt.mp less
    · intro entry member
      rw [fresh]
      exact Nat.pos_of_ne_zero fun zero => entry.positive (UInt64.toNat_inj.mp zero)
  · intro crash member entry found worked
    exact repeatable_of_repeats (scope entry (List.mem_of_getElem? found))
      (safe crash member entry found worked)

def deliveryEntry : LogEntry :=
  ⟨1, .proto (deliverMessage sampleUser.bytes (ascii "A") (sampleMail "g1") 0), by decide⟩

def expungeEntry : LogEntry :=
  ⟨2, .proto ((MailboxOp.expunge (ascii "A")).command sampleUser.bytes), by decide⟩

/-- A crash right after the batch of an expunge, and one before the delivery. -/
theorem replay_applies_once_expunge :
    Replay.recover (fun ps entry => (apply ps entry).1) applyCut [deliveryEntry, expungeEntry] ∅
        [⟨1, true⟩, ⟨0, false⟩] =
      Replay.once work note ∅ [deliveryEntry, expungeEntry] := by
  apply replay_applies_once ⟨[deliveryEntry, expungeEntry], by decide⟩
  · exact List.forall_mem_cons.mpr ⟨Or.inl (by decide),
      List.forall_mem_singleton.mpr (Or.inl (by decide))⟩
  · decide
  · intro crash member entry found worked
    rcases List.mem_cons.mp member with rfl | later
    · cases found
      change allocates _ = false
      decide
    · cases List.mem_singleton.mp later
      cases worked

/-- A delivery whose batch was committed before the crash is delivered again by
the replay: the message is stored twice. -/
theorem replay_delivers_twice :
    Replay.recover (fun ps entry => (apply ps entry).1) applyCut [deliveryEntry] ∅ [⟨0, true⟩] ≠
      Replay.once work note ∅ [deliveryEntry] := by
  intro same
  have second := congrArg
    (fun ps => ((tree ps sampleUser.bytes).messages (ascii "A") 2).map (·.mailGuid)) same
  have stored : ((tree (Replay.recover (fun ps entry => (apply ps entry).1) applyCut
      [deliveryEntry] ∅ [⟨0, true⟩]) sampleUser.bytes).messages (ascii "A") 2).map (·.mailGuid) =
        some (ascii "g1") := by decide
  have absent : ((tree (Replay.once work note ∅ [deliveryEntry])
      sampleUser.bytes).messages (ascii "A") 2).map (·.mailGuid) = none := by decide
  exact absurd (stored.symm.trans (second.trans absent)) (by decide)

end Bongo.FsmReplay
