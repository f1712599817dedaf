import Bongo.MailboxStore

/-!
What the scan of one mailbox's messages returns. The range is a raw key prefix
made from the mailbox name, and names carry the hierarchy delimiter, so a
mailbox called `A/msg` keeps its keys inside the range of `A`.
-/

namespace Bongo.MailboxRanges

open ByteKeys KeyValue MailboxKeys Mailbox MailboxTree MailboxSteps MailboxBounds MailboxStore
open Proto Records
open Fsm (land)

/-- The stores that any users' commands lead to, with metadata and message
records landing at any time after they were read, and with anything else written
outside the mailbox trees. -/
inductive Reachable : PebbleStore → Prop
  | empty : Reachable ∅
  | command {ps : PebbleStore} (user : UserID) (op : MailboxOp) (before : Reachable ps) :
      Reachable (land ps (op.command user.bytes))
  | create {ps earlier : PebbleStore} {user : UserID} {name : Bytes} {now : Int64}
      {cmd : RaftCommand} (before : Reachable ps)
      (issued : createMailbox earlier user.bytes name now = .ok cmd) : Reachable (land ps cmd)
  | update {ps earlier : PebbleStore} {user : UserID} {change : Change} {mailbox : Bytes}
      {uid : UInt32} {cmd : RaftCommand} (before : Reachable ps) (read : Reachable earlier)
      (issued : updateMessage change earlier user.bytes mailbox uid = .ok cmd) :
      Reachable (land ps cmd)
  | other {ps after : PebbleStore} (before : Reachable ps)
      (apart : ∀ (user : UserID) key, mailboxPrefix user.bytes <+: key →
        get after key = get ps key) : Reachable after

variable {after : PebbleStore}

theorem tidy_of_agree {ps : PebbleStore} {userID : Bytes} (tidy : Tidy ps userID)
    (agree : ∀ key, mailboxPrefix userID <+: key → get after key = get ps key) :
    Tidy after userID := by
  intro key value leads stored
  rw [agree key leads] at stored
  exact tidy key value leads stored

/-- One user's writes are outside every other user's tree. -/
theorem lawful_outside {user other : UserID} (different : user ≠ other) {write : Write Value}
    (lawful : Lawful user.bytes write) : ¬ mailboxPrefix other.bytes <+: write.key := by
  have inTree : ∀ key, mailboxPrefix user.bytes <+: key → ¬ mailboxPrefix other.bytes <+: key :=
    fun key own foreign => different (mailboxPrefix_disjoint user other key own foreign)
  cases write with
  | set key value =>
    rcases lawful with entry | ⟨guid, rfl⟩
    · rcases entry with ⟨name, mbMeta, rfl, -⟩ | ⟨name, uid, msg, rfl, -, -⟩
      · exact inTree _ (mailboxPrefix_metaKey user.bytes name)
      · exact inTree _ (mailboxPrefix_msgKey user.bytes name uid)
    · exact mailboxPrefix_any_mail other user guid
  | delete key =>
    rcases lawful with ⟨name, rfl⟩ | ⟨name, uid, rfl⟩
    · exact inTree _ (mailboxPrefix_metaKey user.bytes name)
    · exact inTree _ (mailboxPrefix_msgKey user.bytes name uid)

theorem tidy_commit {ps : PebbleStore} (user : UserID) {other : UserID} (tidy : Tidy ps other.bytes)
    (batch : List (Write Value)) (lawful : ∀ write ∈ batch, Lawful user.bytes write) :
    Tidy (commit ps batch) other.bytes := by
  by_cases same : user = other
  · subst same
    exact tidy.commit batch lawful
  apply tidy_of_agree tidy
  intro key leads
  apply get_commit_untouched
  intro write member touched
  exact lawful_outside same (lawful write member) (touched ▸ leads)

theorem Reachable.tidy {ps : PebbleStore} (reachable : Reachable ps) (user : UserID) :
    Tidy ps user.bytes := by
  induction reachable generalizing user with
  | empty =>
    intro key value leads stored
    rw [get_empty] at stored
    cases stored
  | @command ps owner op before ih =>
    rw [land_command]
    cases applied : applyMailboxCommand ps (op.command owner.bytes) with
    | error error => exact ih user
    | ok outcome =>
      obtain ⟨after, result⟩ := outcome
      obtain ⟨-, batch, rfl, lawful⟩ := command_step owner (ih owner) op after result applied
      exact tidy_commit owner (ih user) batch lawful
  | @create ps earlier owner name now cmd before issued ih =>
    obtain ⟨-, valid, rfl⟩ := createMailbox_ok earlier issued
    rw [land_put_meta]
    apply tidy_commit owner (ih user) [.set _ _]
    intro write member
    rw [List.mem_singleton] at member
    subst member
    exact Or.inl (entry_meta owner.bytes name _ valid)
  | @update ps earlier owner change mailbox uid cmd before read issued ih readIh =>
    obtain ⟨seen, -, here, valid, rfl⟩ := updateMessage_ok issued
    have own := (readIh owner).own_uid mailbox uid seen here
    rw [land_put_message]
    apply tidy_commit owner (ih user) [.set _ _]
    intro write member
    rw [List.mem_singleton] at member
    subst member
    rw [← own, ← apply_uid change seen]
    exact Or.inl (entry_message owner.bytes mailbox _ valid)
  | other before apart ih => exact tidy_of_agree (ih user) (apart user)

/-- The messages of a mailbox, each once and in UID order. -/
structure Lists (t : Tree) (mailbox : Bytes) (msgs : List MailboxMessage) : Prop where
  holds : ∀ msg, msg ∈ msgs ↔ t.messages mailbox msg.uid = some msg
  ordered : msgs.Pairwise fun left right => left.uid < right.uid

/-- A rename as it should be: each message under its UID in the new place, none
left in the old one, and nothing else copied, replaced or lost. -/
structure Moved (before after : Tree) (mailbox newName : Bytes) : Prop where
  arrived : ∀ uid, after.messages newName uid = before.messages mailbox uid
  left : ∀ uid, after.messages mailbox uid = none
  kept : ∀ name uid, name ≠ mailbox → before.messages name uid ≠ none →
    after.messages name uid = before.messages name uid
  others : ∀ name uid, name ≠ mailbox → name ≠ newName →
    after.messages name uid = before.messages name uid

structure Exact (ps : PebbleStore) (user : UserID) (mailbox newName : Bytes) : Prop where
  commandListing : ∃ msgs, listMailboxMessages ps user.bytes mailbox = .ok msgs ∧
    Lists (tree ps user.bytes) mailbox msgs
  clientListing : Lists (tree ps user.bytes) mailbox (listMessages ps user.bytes mailbox)
  counts : ∀ msgs, Lists (tree ps user.bytes) mailbox msgs →
    countMessages ps user.bytes mailbox = tally msgs
  delete : ∀ after result,
    applyMailboxCommand ps ((MailboxOp.delete mailbox).command user.bytes) = .ok (after, result) →
    ∀ name uid, (tree after user.bytes).messages name uid =
      if mailbox = name then none else (tree ps user.bytes).messages name uid
  expunge : ∀ after result,
    applyMailboxCommand ps ((MailboxOp.expunge mailbox).command user.bytes) = .ok (after, result) →
    ∀ name uid, (tree after user.bytes).messages name uid =
      ((tree ps user.bytes).messages name uid).filter
        fun msg => !(decide (mailbox = name) && markedDeleted msg)
  rename : ∀ after result, applyMailboxCommand ps
        ((MailboxOp.rename (.json (.rename ⟨mailbox, newName⟩))).command user.bytes) =
      .ok (after, result) →
    Moved (tree ps user.bytes) (tree after user.bytes) mailbox newName

structure Renamable (t : Tree) (mailbox newName : Bytes) : Prop where
  named : mailbox ≠ [] ∧ newName ≠ []
  notInbox : equalFold mailbox inbox = false ∧ equalFold newName inbox = false
  different : newName ≠ mailbox
  present : t.metas mailbox ≠ none
  free : t.metas newName = none
  spelled : text newName = true

/-- Nothing is stored for a mailbox that the range of this one encloses, and
whatever is left under the new name is what the mailbox itself holds there. -/
structure Separate (t : Tree) (mailbox newName : Bytes) : Prop where
  isolated : t.Isolated mailbox
  clear : Renamable t mailbox newName → ∀ uid, t.messages newName uid ≠ none →
    t.messages newName uid = t.messages mailbox uid

section Listings

theorem msgKey_compare (userID mailbox : Bytes) (left right : UInt32) :
    compare (mailboxMsgKey userID mailbox left) (mailboxMsgKey userID mailbox right) =
      compare left.toNat right.toNat := by
  have leftBound := left.toNat_lt
  have rightBound := right.toNat_lt
  have same : ∀ bytes : Bytes, compare bytes bytes = .eq := fun bytes => Std.compare_self
  rw [mailboxMsgKey, mailboxMsgKey, compare_append _ _ _ _ rfl, same, Ordering.then,
    compare_append _ _ _ _ rfl, same, Ordering.then,
    decimal_compare 10 _ _ (by omega) (by omega)]

variable {ps : PebbleStore} {userID : Bytes}

theorem mem_listMessages (mailbox : Bytes) (msg : MailboxMessage) :
    msg ∈ listMessages ps userID mailbox ↔ ∃ key value,
      mailboxMsgPrefix userID mailbox <+: key ∧ get ps key = some value ∧
        value.unmarshal MailboxMessage = some msg :=
  mem_prefixScan_filterMap ps _ _ msg

/-- The listing of an isolated mailbox is exact. -/
theorem lists_of_isolated (tidy : Tidy ps userID) (mailbox : Bytes)
    (isolated : (tree ps userID).Isolated mailbox) :
    Lists (tree ps userID) mailbox (listMessages ps userID mailbox) := by
  constructor
  · intro msg
    rw [mem_listMessages]
    constructor
    · rintro ⟨key, value, leads, stored, read⟩
      obtain ⟨uid, found, rfl, reread, rfl⟩ := tidy.range_own mailbox isolated key value leads
        stored
      cases read.symm.trans reread
      simp [tree, stored, read]
    · intro shown
      simp only [tree, Option.bind_eq_some_iff] at shown
      obtain ⟨value, stored, read⟩ := shown
      exact ⟨_, value, (msgPrefix_msgKey_iff userID mailbox mailbox _).mpr (Or.inl rfl), stored,
        read⟩
  · -- the scan is in key order, and all keys in it are the mailbox's own
    rw [listMessages, List.pairwise_filterMap]
    refine (prefixScan_sorted ps _).imp_of_mem ?_
    rintro ⟨leftKey, leftValue⟩ ⟨rightKey, rightValue⟩ leftIn rightIn less left leftRead right
      rightRead
    obtain ⟨leftLeads, leftStored⟩ := (mem_prefixScan ps _ _ _).mp leftIn
    obtain ⟨rightLeads, rightStored⟩ := (mem_prefixScan ps _ _ _).mp rightIn
    obtain ⟨uid, found, rfl, reread, rfl⟩ :=
      tidy.range_own mailbox isolated _ _ leftLeads leftStored
    cases leftRead.symm.trans reread
    obtain ⟨uid, found, rfl, reread, rfl⟩ :=
      tidy.range_own mailbox isolated _ _ rightLeads rightStored
    cases rightRead.symm.trans reread
    simp only [msgKey_compare, Nat.compare_eq_lt] at less
    exact UInt32.lt_iff_toNat_lt.mpr less

theorem listed_of_isolated (tidy : Tidy ps userID) {mailbox : Bytes}
    (isolated : (tree ps userID).Isolated mailbox) :
    listMailboxMessages ps userID mailbox = .ok (listMessages ps userID mailbox) := by
  rw [listMailboxMessages, orError_ok, listMessages]
  apply mapM_total
  rintro ⟨key, value⟩ scanned
  obtain ⟨leads, stored⟩ := (mem_prefixScan ps _ key value).mp scanned
  obtain ⟨uid, msg, -, read, -⟩ := tidy.range_own mailbox isolated key value leads stored
  exact ⟨msg, read⟩

/-- In a listing without repetition no two entries of the scan read the same. -/
theorem scan_reads_apart {read : Bytes × Value → Option MailboxMessage}
    {entries : List (Bytes × Value)}
    (ordered : (entries.filterMap read).Pairwise fun left right => left.uid < right.uid)
    {left right : Bytes × Value} (leftIn : left ∈ entries) (rightIn : right ∈ entries)
    (different : left ≠ right) {msg : MailboxMessage} (leftRead : read left = some msg) :
    read right ≠ some msg := by
  let Apart (first second : Bytes × Value) : Prop :=
    ∀ one, read first = some one → ∀ two, read second = some two → one.uid ≠ two.uid
  have symmetric : Std.Symm Apart :=
    ⟨fun first second apart one oneRead two twoRead same =>
      apart two twoRead one oneRead same.symm⟩
  have apart : entries.Pairwise Apart := by
    refine (List.pairwise_filterMap.mp ordered).imp ?_
    intro first second less one oneRead two twoRead same
    exact absurd (less one oneRead two twoRead) (by simp [same])
  intro rightRead
  exact apart.forall leftIn rightIn different msg leftRead msg rightRead rfl

/-- A foreign record in the range would be in the listing too, as a message that
the mailbox does not have or as a second copy of one that it has. -/
theorem no_foreign_record {mailbox : Bytes} {msgs : List MailboxMessage}
    (listed : listMailboxMessages ps userID mailbox = .ok msgs)
    (lists : Lists (tree ps userID) mailbox msgs) {key : Bytes}
    (leads : mailboxMsgPrefix userID mailbox <+: key)
    (foreign : ∀ uid, key ≠ mailboxMsgKey userID mailbox uid) : get ps key = none := by
  cases stored : get ps key with
  | none => rfl
  | some value =>
    exfalso
    rw [listMailboxMessages, orError_ok] at listed
    obtain ⟨rfl, readable⟩ := mapM_readable _ _ _ listed
    have scanned := (mem_prefixScan ps _ key value).mpr ⟨leads, stored⟩
    obtain ⟨msg, read⟩ := readable _ scanned
    have shown := (lists.holds msg).mp (List.mem_filterMap.mpr ⟨_, scanned, read⟩)
    simp only [tree, Option.bind_eq_some_iff] at shown
    obtain ⟨ownValue, ownStored, ownRead⟩ := shown
    have own := (mem_prefixScan ps (mailboxMsgPrefix userID mailbox) _ ownValue).mpr
      ⟨(msgPrefix_msgKey_iff userID mailbox mailbox msg.uid).mpr (Or.inl rfl), ownStored⟩
    refine scan_reads_apart lists.ordered scanned own ?_ read ownRead
    intro same
    exact foreign msg.uid (congrArg Prod.fst same)

theorem isolated_of_lists {mailbox : Bytes} {msgs : List MailboxMessage}
    (listed : listMailboxMessages ps userID mailbox = .ok msgs)
    (lists : Lists (tree ps userID) mailbox msgs) : (tree ps userID).Isolated mailbox := by
  intro other encloses
  constructor
  · have absent := no_foreign_record listed lists
      ((msgPrefix_metaKey_iff userID mailbox other).mpr encloses) (by simp)
    simp [tree, absent]
  intro uid
  have absent := no_foreign_record listed lists
    ((msgPrefix_msgKey_iff userID mailbox other uid).mpr (Or.inr encloses)) (by
      intro place same
      exact encloses.ne ((msgKey_inj userID _ _ _ _).mp same).1.symm)
  simp [tree, absent]

theorem Lists.unique {t : Tree} {mailbox : Bytes} {left right : List MailboxMessage}
    (first : Lists t mailbox left) (second : Lists t mailbox right) : left = right := by
  have nodup : ∀ msgs, Lists t mailbox msgs → msgs.Nodup := by
    intro msgs lists
    refine lists.ordered.imp ?_
    rintro one two less rfl
    exact absurd less (by simp)
  have perm : left.Perm right := by
    rw [List.perm_ext_iff_of_nodup (nodup left first) (nodup right second)]
    intro msg
    rw [first.holds msg, second.holds msg]
  refine perm.eq_of_pairwise ?_ first.ordered second.ordered
  intro one two _ _ less more
  exact absurd (UInt32.lt_trans less more) (by simp)

end Listings

section Renames

variable {ps : PebbleStore} {user : UserID} {mailbox newName : Bytes}

theorem renameMessages_total (userID oldName newName : Bytes) (msgs : List MailboxMessage)
    (valid : ∀ msg ∈ msgs, marshalable msg = true) :
    ∃ writes, renameMessages userID oldName newName msgs = .ok writes := by
  induction msgs with
  | nil => exact ⟨[], rfl⟩
  | cons msg rest ih =>
    obtain ⟨others, more⟩ := ih fun other member => valid other (List.mem_cons_of_mem _ member)
    simp only [renameMessages, writeMailboxMessageBatch, bind_ok, orError_ok, Value.marshal_some,
      more]
    exact ⟨_, _, ⟨_, ⟨valid msg List.mem_cons_self, rfl⟩, rfl⟩, _, rfl, rfl⟩

variable {result : Option MailboxCommandResult}

/-- What the rename command checks, apart from its listing. -/
theorem rename_command_checks (applied : applyMailboxCommand ps
      ((MailboxOp.rename (.json (.rename ⟨mailbox, newName⟩))).command user.bytes) =
        .ok (after, result)) :
    (mailbox ≠ [] ∧ newName ≠ []) ∧
      (equalFold mailbox inbox = false ∧ equalFold newName inbox = false) := by
  rw [applyMailboxCommand_command] at applied
  have accepted := withoutResult_ok applied
  simp only [applyMailboxRename, bind_ok, reject_ok, not_or, Bool.not_eq_true] at accepted
  obtain ⟨⟨userID, payload⟩, parsed, -, oldPlain, -, -, -, ⟨newPlain, -⟩, -⟩ := accepted
  obtain ⟨-, spelled, oldNamed, newNamed⟩ := renameCommand_ok parsed
  cases spelled
  exact ⟨⟨oldNamed, newNamed⟩, oldPlain, newPlain⟩

theorem renamable_of_accepted (applied : applyMailboxCommand ps
      ((MailboxOp.rename (.json (.rename ⟨mailbox, newName⟩))).command user.bytes) =
        .ok (after, result)) : Renamable (tree ps user.bytes) mailbox newName := by
  obtain ⟨named, notInbox⟩ := rename_command_checks applied
  rw [applyMailboxCommand_command] at applied
  obtain ⟨userID, payload, oldMeta, msgs, parsed, found, different, free, -, valid, -, -⟩ :=
    rename_ok (withoutResult_ok applied)
  obtain ⟨owner, spelled, -, -⟩ := renameCommand_ok parsed
  cases spelled
  obtain rfl : userID = user.bytes := owner.trans (trimPrefix_append _ _)
  rw [readMailboxMeta_ok] at found
  rw [MailboxMeta.marshalable_eq] at valid
  exact ⟨named, notInbox, different, by simp [found], by simp [tree, free], valid⟩

/-- A rename of an isolated mailbox is refused for the listed reasons only. -/
theorem rename_accepted (tidy : Tidy ps user.bytes)
    (isolated : (tree ps user.bytes).Isolated mailbox)
    (renamable : Renamable (tree ps user.bytes) mailbox newName) :
    ∃ after result, applyMailboxCommand ps
      ((MailboxOp.rename (.json (.rename ⟨mailbox, newName⟩))).command user.bytes) =
        .ok (after, result) := by
  obtain ⟨oldMeta, found⟩ := Option.ne_none_iff_exists'.mp renamable.present
  have free := tidy.meta_stored newName renamable.free
  have listed := listed_of_isolated tidy isolated
  have valid : ∀ msg ∈ listMessages ps user.bytes mailbox, marshalable msg = true := by
    intro msg member
    obtain ⟨-, value, -, -, read⟩ := (mem_listMessages mailbox msg).mp member
    exact Value.marshalable_of_unmarshal msg value read
  obtain ⟨writes, relocated⟩ := renameMessages_total user.bytes mailbox newName _ valid
  have metaValid : marshalable { oldMeta with name := newName } = true := by
    rw [MailboxMeta.marshalable_eq]
    exact renamable.spelled
  have parsed : parseMailboxRenameCommand (mailboxRenameKey user.bytes)
      (.json (.rename ⟨mailbox, newName⟩)) = .ok (user.bytes, ⟨mailbox, newName⟩) := by
    simp [parseMailboxRenameCommand, mailboxRenameKey, user.nonempty, renamable.named, reject,
      orError, parseRenamePayload, bind, Except.bind, pure, Except.pure]
  rw [← readMailboxMeta_ok] at found
  have accepted : applyMailboxRename ps
      ((MailboxOp.rename (.json (.rename ⟨mailbox, newName⟩))).command user.bytes) =
      .ok (commit ps (.set (mailboxMetaKey user.bytes newName)
        (.encoded { oldMeta with name := newName }) :: writes ++
          [.delete (mailboxMetaKey user.bytes mailbox)])) := by
    simp only [applyMailboxRename, writeMailboxMetaBatch, bind_ok, orError_ok, reject_ok,
      Value.marshal_some, not_or, Bool.not_eq_true]
    exact ⟨_, parsed, (), renamable.notInbox.1, oldMeta, found, (),
      ⟨renamable.notInbox.2, renamable.different⟩, (), by simp [free], _, listed, _,
      ⟨_, ⟨metaValid, rfl⟩, rfl⟩, writes, relocated, rfl⟩
  simp only [applyMailboxCommand_command, accepted]
  exact ⟨_, _, rfl⟩

/-- What an accepted rename of an isolated mailbox does. -/
theorem moved_of_separate (tidy : Tidy ps user.bytes)
    (separate : Separate (tree ps user.bytes) mailbox newName) (applied : applyMailboxCommand ps
      ((MailboxOp.rename (.json (.rename ⟨mailbox, newName⟩))).command user.bytes) =
        .ok (after, result)) :
    Moved (tree ps user.bytes) (tree after user.bytes) mailbox newName := by
  have clear := separate.clear (renamable_of_accepted applied)
  obtain ⟨oldMeta, moved, -, different, -, exactly, shape⟩ :=
    (command_step user tidy _ after result applied).1.rename_inv
  have arrived : ∀ uid, (tree after user.bytes).messages newName uid =
      (tree ps user.bytes).messages mailbox uid := by
    intro uid
    simp only [shape, Tree.renamed, different.symm, exactly separate.isolated uid]
    cases held : (tree ps user.bytes).messages mailbox uid with
    | some msg => rfl
    | none =>
      -- what is left under the new name is nothing the mailbox lacks
      cases left : (tree ps user.bytes).messages newName uid with
      | none => rfl
      | some msg =>
        have same := clear uid (by simp [left])
        rw [left, held] at same
        cases same
  constructor
  · exact arrived
  · intro uid
    simp [shape, Tree.renamed]
  · intro name uid apart held
    by_cases new : name = newName
    · subst new
      rw [arrived uid, clear uid held]
    · simp [shape, Tree.renamed, Ne.symm apart, Ne.symm new]
  · intro name uid apart new
    simp [shape, Tree.renamed, Ne.symm apart, Ne.symm new]

end Renames

section Exactness

variable {ps : PebbleStore} {user : UserID} {mailbox newName : Bytes}

theorem exact_of_separate (tidy : Tidy ps user.bytes)
    (separate : Separate (tree ps user.bytes) mailbox newName) :
    Exact ps user mailbox newName := by
  have lists := lists_of_isolated tidy mailbox separate.isolated
  constructor
  · exact ⟨_, listed_of_isolated tidy separate.isolated, lists⟩
  · exact lists
  · intro msgs same
    rw [same.unique lists, countMessages]
  · intro after result applied name uid
    rw [(command_step user tidy _ after result applied).1.delete_inv]
    rfl
  · intro after result applied name uid
    obtain ⟨uids, covers, exactly, shape⟩ :=
      (command_step user tidy _ after result applied).1.expunge_inv
    simp only [shape, Tree.removeUids]
    split_ifs with removed
    · obtain ⟨rfl, member⟩ := removed
      obtain ⟨msg, held, marked⟩ := exactly separate.isolated uid member
      simp [held, Option.filter_some, marked]
    cases held : (tree ps user.bytes).messages name uid with
    | none => rfl
    | some msg =>
      symm
      rw [Option.filter_eq_some_iff]
      refine ⟨rfl, ?_⟩
      by_cases same : mailbox = name
      · subst same
        have unmarked : markedDeleted msg ≠ true := fun marked =>
          removed ⟨rfl, covers uid msg held marked⟩
        simp [unmarked]
      · simp [same]
  · exact fun after result applied => moved_of_separate tidy separate applied

theorem separate_of_exact (tidy : Tidy ps user.bytes) (exactly : Exact ps user mailbox newName) :
    Separate (tree ps user.bytes) mailbox newName := by
  obtain ⟨msgs, listed, lists⟩ := exactly.commandListing
  have isolated := isolated_of_lists listed lists
  constructor
  · exact isolated
  intro renamable uid left
  obtain ⟨after, result, applied⟩ := rename_accepted tidy isolated renamable
  have moved := exactly.rename after result applied
  rw [← moved.arrived uid, moved.kept newName uid renamable.different left]

end Exactness

/-- In every reachable store the scans of a mailbox, and the rename, delete and
expunge that use them, are exact if and only if the mailbox is separate. -/
theorem exact_iff_separate (ps : PebbleStore) (reachable : Reachable ps) (user : UserID)
    (mailbox newName : Bytes) :
    Exact ps user mailbox newName ↔ Separate (tree ps user.bytes) mailbox newName := by
  have tidy := reachable.tidy user
  constructor
  · exact separate_of_exact tidy
  · exact exact_of_separate tidy

def oneMailbox : PebbleStore :=
  land ∅ (deliverMessage sampleUser.bytes (ascii "A") (sampleMail "g1") 0)

/-- A delivery leaves the other mailboxes as they are. -/
theorem deliver_elsewhere {ps : PebbleStore} {user : UserID} (tidy : Tidy ps user.bytes)
    (mailMeta : Bytes) (flags : UInt32) {mailbox name : Bytes} (other : name ≠ mailbox) :
    let later := tree (land ps (deliverMessage user.bytes mailbox mailMeta flags)) user.bytes
    later.metas name = (tree ps user.bytes).metas name ∧
      ∀ uid, later.messages name uid = (tree ps user.bytes).messages name uid := by
  intro later
  rcases land_command_cases ps user tidy
      (.deliver mailbox (.json (.delivery ⟨mailMeta, flags⟩))) with same | ⟨stepped, -⟩
  · have unchanged : later = tree ps user.bytes := congrArg (tree · user.bytes) same
    simp [unchanged]
  · obtain ⟨mbMeta, msg, -, shape⟩ := stepped.deliver_inv
    have placed : later = (tree ps user.bytes).place mailbox mbMeta msg := shape
    simp [placed, Tree.place, Ne.symm other]

theorem oneMailbox_alone {name : Bytes} (other : name ≠ ascii "A") :
    (tree oneMailbox sampleUser.bytes).metas name = none ∧
      ∀ uid, (tree oneMailbox sampleUser.bytes).messages name uid = none := by
  have empty := regular_empty ∅ sampleUser fun key _ => get_empty key
  have kept := deliver_elsewhere empty.tidy (sampleMail "g1") 0 other
  rw [tree_empty sampleUser ∅ fun key _ => get_empty key] at kept
  exact kept

/-- A mailbox below A whose name does not reach into A's keys. -/
def withSubfolder : PebbleStore :=
  land oneMailbox (deliverMessage sampleUser.bytes (ascii "A/x") (sampleMail "g2") 0)

theorem withSubfolder_alone {name : Bytes} (other : name ≠ ascii "A") (below : name ≠ ascii "A/x") :
    (tree withSubfolder sampleUser.bytes).metas name = none ∧
      ∀ uid, (tree withSubfolder sampleUser.bytes).messages name uid = none := by
  have reachable : Reachable oneMailbox := .command sampleUser _ .empty
  obtain ⟨metas, messages⟩ :=
    deliver_elsewhere (reachable.tidy sampleUser) (sampleMail "g2") 0 below
  obtain ⟨noMeta, noMessage⟩ := oneMailbox_alone other
  exact ⟨metas.trans noMeta, fun uid => (messages uid).trans (noMessage uid)⟩

theorem exact_iff_separate_subfolder :
    Exact withSubfolder sampleUser (ascii "A") (ascii "B") ∧
      (tree withSubfolder sampleUser.bytes).messages (ascii "A/x") 1 ≠ none := by
  refine ⟨(exact_iff_separate withSubfolder (.command sampleUser _ (.command sampleUser _ .empty))
    sampleUser (ascii "A") (ascii "B")).mpr ⟨?_, ?_⟩, by decide⟩
  · intro other encloses
    refine withSubfolder_alone encloses.ne.symm ?_
    rintro rfl
    exact absurd encloses (by decide)
  · intro _ uid left
    exact absurd ((withSubfolder_alone (by decide) (by decide)).2 uid) left

/-- With a mailbox called A/msg beside A, the listing of A also holds the message
of A/msg, and a rename of A to B puts that one in the place of A's own. -/
theorem nested_name_captures_messages :
    let store := land oneMailbox
      (deliverMessage sampleUser.bytes (ascii "A/msg") (sampleMail "g2") 0)
    let renamed := land store
      ((MailboxOp.rename (.json (.rename ⟨ascii "A", ascii "B"⟩))).command sampleUser.bytes)
    Reachable store ∧ ¬ Exact store sampleUser (ascii "A") (ascii "B") ∧
      ((tree store sampleUser.bytes).messages (ascii "A") 1).map (·.mailGuid) = some (ascii "g1") ∧
      ((tree renamed sampleUser.bytes).messages (ascii "B") 1).map (·.mailGuid) =
        some (ascii "g2") := by
  intro store renamed
  refine ⟨.command sampleUser _ (.command sampleUser _ .empty), ?_, by decide,
    by decide⟩
  intro exactly
  have listed : (⟨1, ascii "g2", 0, 0, []⟩ : MailboxMessage) ∈
      listMessages store sampleUser.bytes (ascii "A") := by decide
  exact absurd ((exactly.clientListing.holds _).mp listed) (by decide)

end Bongo.MailboxRanges
