import Bongo.MailboxTree

/-!
The commands one user's clients issue, and everything each of them can do to
that user's tree. A rename and an expunge act on what a listing of the mailbox
returned, which is the mailbox's own messages only if it is isolated.
-/

namespace Bongo.MailboxSteps

open ByteKeys KeyValue MailboxKeys Mailbox MailboxTree Proto Records

inductive MailboxOp where
  | append (mailbox : Bytes) (value : Value)
  | deliver (mailbox : Bytes) (value : Value)
  | copy (value : Value)
  | move (value : Value)
  | delete (mailbox : Bytes)
  | expunge (mailbox : Bytes)
  | rename (value : Value)
  | subscribe (mailbox : Bytes) (value : Value)
  deriving DecidableEq

def scopedKey (lead userID mailbox : Bytes) : Bytes := lead ++ (userID ++ 47 :: mailbox)

def mailboxAppendKey : Bytes → Bytes → Bytes := scopedKey mailboxAppendPrefix
def mailboxDeleteKey : Bytes → Bytes → Bytes := scopedKey mailboxDeletePrefix
def mailboxDeliverKey : Bytes → Bytes → Bytes := scopedKey mailboxDeliverPrefix
def mailboxExpungeKey : Bytes → Bytes → Bytes := scopedKey mailboxExpungePrefix
def mailboxSubscribeKey : Bytes → Bytes → Bytes := scopedKey mailboxSubscribePrefix
def mailboxCopyKey (userID : Bytes) : Bytes := mailboxCopyPrefix ++ userID
def mailboxMoveKey (userID : Bytes) : Bytes := mailboxMovePrefix ++ userID
def mailboxRenameKey (userID : Bytes) : Bytes := mailboxRenamePrefix ++ userID

def MailboxOp.command (userID : Bytes) : MailboxOp → RaftCommand
  | .append mailbox value => ⟨.put, mailboxAppendKey userID mailbox, value⟩
  | .deliver mailbox value => ⟨.put, mailboxDeliverKey userID mailbox, value⟩
  | .copy value => ⟨.put, mailboxCopyKey userID, value⟩
  | .move value => ⟨.put, mailboxMoveKey userID, value⟩
  | .delete mailbox => ⟨.put, mailboxDeleteKey userID mailbox, .empty⟩
  | .expunge mailbox => ⟨.put, mailboxExpungeKey userID mailbox, .empty⟩
  | .rename value => ⟨.put, mailboxRenameKey userID, value⟩
  | .subscribe mailbox value => ⟨.put, mailboxSubscribeKey userID mailbox, value⟩

theorem applyMailboxCommand_command (ps : PebbleStore) (userID : Bytes) (op : MailboxOp) :
    applyMailboxCommand ps (op.command userID) =
      match op with
      | .append _ _ => withResult (applyMailboxAppend ps (op.command userID))
      | .deliver _ _ => withResult (applyMailboxDelivery ps (op.command userID))
      | .copy _ => withResult (applyMailboxCopy ps (op.command userID))
      | .move _ => withResult (applyMailboxMove ps (op.command userID))
      | .delete _ => withoutResult (applyMailboxDelete ps (op.command userID))
      | .expunge _ => withResult (applyMailboxExpunge ps (op.command userID))
      | .rename _ => withoutResult (applyMailboxRename ps (op.command userID))
      | .subscribe _ _ => withoutResult (applyMailboxSubscribe ps (op.command userID)) := by
  cases op <;> rfl

theorem splitScoped_scopedKey {user : UserID} {lead mailbox left right : Bytes}
    (parsed : splitScoped (trimPrefix (scopedKey lead user.bytes mailbox) lead) =
      some (left, right)) :
    left = user.bytes ∧ right = mailbox := by
  rw [scopedKey, trimPrefix_append, splitScoped, cut_append 47 _ _ user.slashless] at parsed
  dsimp only at parsed
  split at parsed
  case isTrue => cases parsed
  case isFalse =>
    cases parsed
    exact ⟨rfl, rfl⟩

variable {mailbox : Bytes}

section Writes

variable {ps after : PebbleStore}

theorem placed_lawful {userID : Bytes} {mbMeta : MailboxMeta} {msg : MailboxMessage}
    {writes : List (Write Value)} (placed : placeMessage userID mailbox mbMeta msg = .ok writes) :
    ∀ write ∈ writes, Lawful userID write := by
  obtain ⟨metaValid, msgValid, rfl⟩ := placeMessage_ok placed
  have metaEntry := entry_meta userID mailbox _ metaValid
  have msgEntry := entry_message userID mailbox _ msgValid
  exact List.forall_mem_cons.mpr ⟨Or.inl metaEntry, List.forall_mem_singleton.mpr (Or.inl msgEntry)⟩

theorem deletes_lawful {userID : Bytes} (uids : List UInt32) :
    ∀ write ∈ (uids.map (mailboxMsgKey userID mailbox)).map Write.delete, Lawful userID write := by
  intro write member
  simp only [List.map_map, List.mem_map] at member
  obtain ⟨uid, -, rfl⟩ := member
  exact Or.inr ⟨mailbox, uid, rfl⟩

theorem deleteBatch_eq (userID mailbox : Bytes) (msgs : List MailboxMessage) :
    deleteBatch userID mailbox msgs =
      ((msgs.map (·.uid)).map (mailboxMsgKey userID mailbox)).map .delete ++
        [.delete (mailboxMetaKey userID mailbox)] := by
  simp [deleteBatch]

theorem deleteBatch_lawful {userID : Bytes} (msgs : List MailboxMessage) :
    ∀ write ∈ deleteBatch userID mailbox msgs, Lawful userID write := by
  rw [deleteBatch_eq]
  exact List.forall_mem_append.mpr
    ⟨deletes_lawful _, List.forall_mem_singleton.mpr (Or.inl ⟨mailbox, rfl⟩)⟩

theorem renamed_lawful {userID : Bytes} {payload : RenamePayload} {oldMeta : MailboxMeta}
    {msgs : List MailboxMessage}
    (valid : marshalable { oldMeta with name := payload.newName } = true)
    (msgsValid : ∀ msg ∈ msgs, marshalable msg = true) :
    ∃ batch, renamed ps userID payload oldMeta msgs = commit ps batch ∧
      ∀ write ∈ batch, Lawful userID write := by
  refine ⟨.set (mailboxMetaKey userID payload.newName)
      (.encoded { oldMeta with name := payload.newName }) ::
    relocation (fun msg => mailboxMsgKey userID payload.newName msg.uid)
      (fun msg => mailboxMsgKey userID payload.oldName msg.uid) Value.encoded msgs ++
    [.delete (mailboxMetaKey userID payload.oldName)], ?_, ?_⟩
  · rw [renamed, commit_append, commit_set, commit_delete, commit_nil]
  refine List.forall_mem_append.mpr ⟨List.forall_mem_cons.mpr
    ⟨Or.inl (entry_meta userID _ _ valid), ?_⟩, List.forall_mem_singleton.mpr (Or.inl ⟨_, rfl⟩)⟩
  refine List.forall_mem_flatMap.mpr fun msg listed => List.forall_mem_cons.mpr
    ⟨Or.inl (entry_message userID _ msg (msgsValid msg listed)), ?_⟩
  exact List.forall_mem_singleton.mpr (Or.inr ⟨_, _, rfl⟩)

end Writes

section Steps

inductive Step (t : Tree) : MailboxOp → Tree → Prop
  | append {mailbox : Bytes} {value : Value} {mbMeta : MailboxMeta} {msg : MailboxMessage}
      (parsed : value.unmarshal MailboxMessage = some msg)
      (found : t.metas mailbox = some mbMeta) :
      Step t (.append mailbox value) (t.place mailbox mbMeta msg)
  | deliver {mailbox : Bytes} {value : Value} {mbMeta : MailboxMeta} {msg : MailboxMessage}
      (found : t.metas mailbox = some mbMeta ∨
        t.metas mailbox = none ∧ mbMeta = freshMeta mailbox) :
      Step t (.deliver mailbox value) (t.place mailbox mbMeta msg)
  | copy {payload : TransferPayload} {srcMsg : MailboxMessage} {dstMeta : MailboxMeta}
      (source : t.messages payload.srcMailbox payload.srcUID = some srcMsg)
      (found : t.metas payload.dstMailbox = some dstMeta) :
      Step t (.copy (.json (.transfer payload)))
        (t.place payload.dstMailbox dstMeta (transferred srcMsg dstMeta.uidNext))
  | move {payload : TransferPayload} {srcMsg : MailboxMessage} {dstMeta : MailboxMeta}
      (source : t.messages payload.srcMailbox payload.srcUID = some srcMsg)
      (found : t.metas payload.dstMailbox = some dstMeta) :
      Step t (.move (.json (.transfer payload)))
        ((t.place payload.dstMailbox dstMeta
          (transferred srcMsg dstMeta.uidNext)).setMessage payload.srcMailbox payload.srcUID none)
  | delete {mailbox : Bytes} (kept : equalFold mailbox inbox = false) :
      Step t (.delete mailbox) (t.drop mailbox)
  | expunge {mailbox : Bytes} {uids : List UInt32}
      (covers : ∀ uid msg, t.messages mailbox uid = some msg → markedDeleted msg = true →
        uid ∈ uids)
      (exactly : t.Isolated mailbox → ∀ uid ∈ uids,
        ∃ msg, t.messages mailbox uid = some msg ∧ markedDeleted msg = true) :
      Step t (.expunge mailbox) (t.removeUids mailbox uids)
  | rename {payload : RenamePayload} {oldMeta : MailboxMeta}
      {moved : UInt32 → Option MailboxMessage}
      (found : t.metas payload.oldName = some oldMeta)
      (different : payload.newName ≠ payload.oldName)
      (free : t.metas payload.newName = none)
      (exactly : t.Isolated payload.oldName → ∀ uid, moved uid = t.messages payload.oldName uid) :
      Step t (.rename (.json (.rename payload)))
        (t.renamed payload.oldName payload.newName oldMeta moved)
  | subscribe {mailbox : Bytes} {value : Value} {mbMeta : MailboxMeta} {flag : Bool}
      (found : t.metas mailbox = some mbMeta) :
      Step t (.subscribe mailbox value)
        (t.setMeta mailbox (some { mbMeta with unsubscribed := flag }))

section Inversion

variable {t after : Tree}

theorem Step.deliver_inv {value : Value} (stepped : Step t (.deliver mailbox value) after) :
    ∃ mbMeta msg, (t.metas mailbox = some mbMeta ∨
      t.metas mailbox = none ∧ mbMeta = freshMeta mailbox) ∧
      after = t.place mailbox mbMeta msg := by
  cases stepped with
  | deliver found => exact ⟨_, _, found, rfl⟩

theorem Step.delete_inv (stepped : Step t (.delete mailbox) after) : after = t.drop mailbox := by
  cases stepped with
  | delete kept => rfl

theorem Step.expunge_inv (stepped : Step t (.expunge mailbox) after) :
    ∃ uids, (∀ uid msg, t.messages mailbox uid = some msg → markedDeleted msg = true → uid ∈ uids) ∧
      (t.Isolated mailbox → ∀ uid ∈ uids,
        ∃ msg, t.messages mailbox uid = some msg ∧ markedDeleted msg = true) ∧
      after = t.removeUids mailbox uids := by
  cases stepped with
  | expunge covers exactly => exact ⟨_, covers, exactly, rfl⟩

/-- A rename is accepted only onto a free name. -/
theorem Step.rename_inv {payload : RenamePayload}
    (stepped : Step t (.rename (.json (.rename payload))) after) :
    ∃ oldMeta moved, t.metas payload.oldName = some oldMeta ∧
      payload.newName ≠ payload.oldName ∧ t.metas payload.newName = none ∧
      (t.Isolated payload.oldName → ∀ uid, moved uid = t.messages payload.oldName uid) ∧
      after = t.renamed payload.oldName payload.newName oldMeta moved := by
  cases stepped with
  | rename found different free exactly => exact ⟨_, _, found, different, free, exactly, rfl⟩

end Inversion

variable {ps : PebbleStore} {userID : Bytes}

theorem tree_place {mbMeta : MailboxMeta} {msg : MailboxMessage} {writes : List (Write Value)}
    (placed : placeMessage userID mailbox mbMeta msg = .ok writes) :
    tree (commit ps writes) userID = (tree ps userID).place mailbox mbMeta msg := by
  obtain ⟨metaValid, msgValid, rfl⟩ := placeMessage_ok placed
  rw [commit_set, commit_set, commit_nil, tree_set_message, tree_set_meta,
    Value.unmarshal_encoded _ metaValid, Value.unmarshal_encoded _ msgValid, Tree.place]

theorem tree_removeUids (mailbox : Bytes) (uids : List UInt32) :
    tree (commit ps ((uids.map (mailboxMsgKey userID mailbox)).map .delete)) userID =
      (tree ps userID).removeUids mailbox uids := by
  apply Tree.same
  · intro other
    simp only [tree, get_commit_deletes, Tree.removeUids]
    rw [if_neg (by simp)]
  intro other place
  by_cases gone : mailbox = other ∧ place ∈ uids
  · have listed : mailboxMsgKey userID other place ∈ uids.map (mailboxMsgKey userID mailbox) :=
      List.mem_map.mpr ⟨place, gone.2, by rw [gone.1]⟩
    simp only [tree, get_commit_deletes, Tree.removeUids, if_pos listed, if_pos gone,
      Option.bind_none]
  · have unlisted :
        mailboxMsgKey userID other place ∉ uids.map (mailboxMsgKey userID mailbox) := by
      intro listed
      obtain ⟨uid, member, same⟩ := List.mem_map.mp listed
      obtain ⟨rfl, rfl⟩ := (msgKey_inj userID _ _ _ _).mp same
      exact gone ⟨rfl, member⟩
    simp only [tree, get_commit_deletes, Tree.removeUids, if_neg unlisted, if_neg gone]

theorem unlisted_none (tidy : Tidy ps userID) {mailbox : Bytes} {msgs : List MailboxMessage}
    (listed : listMailboxMessages ps userID mailbox = .ok msgs) {uid : UInt32}
    (outside : uid ∉ msgs.map (·.uid)) : (tree ps userID).messages mailbox uid = none := by
  by_contra shown
  obtain ⟨msg, shown⟩ := Option.ne_none_iff_exists'.mp shown
  obtain ⟨member, own⟩ := tidy.own_listed _ msgs listed uid msg shown
  exact outside (List.mem_map.mpr ⟨msg, member, own⟩)

/-- A delete removes the whole mailbox even when its listing holds more. -/
theorem tree_deleteBatch (tidy : Tidy ps userID) {mailbox : Bytes} {msgs : List MailboxMessage}
    (listed : listMailboxMessages ps userID mailbox = .ok msgs) :
    tree (commit ps (deleteBatch userID mailbox msgs)) userID = (tree ps userID).drop mailbox := by
  rw [deleteBatch_eq, commit_append, commit_delete, commit_nil, tree_delete_meta, tree_removeUids]
  apply Tree.same
  · intro other
    simp [Tree.drop, Tree.removeUids]
  intro other place
  simp only [setMeta_messages, Tree.removeUids, Tree.drop]
  by_cases same : mailbox = other
  · subst same
    simp only [true_and]
    split_ifs with member
    · rfl
    · exact unlisted_none tidy listed member
  · simp [same]

section Rename

variable {payload : RenamePayload} {oldMeta : MailboxMeta} {msgs : List MailboxMessage}
  (different : payload.newName ≠ payload.oldName)

theorem get_renamed_message {name : Bytes} {uid : UInt32} :
    get (renamed ps userID payload oldMeta msgs) (mailboxMsgKey userID name uid) =
      get (commit (set ps (mailboxMetaKey userID payload.newName)
          (.encoded { oldMeta with name := payload.newName }))
        (relocation (fun msg => mailboxMsgKey userID payload.newName msg.uid)
          (fun msg => mailboxMsgKey userID payload.oldName msg.uid) Value.encoded msgs))
        (mailboxMsgKey userID name uid) := by
  rw [renamed, get_delete, if_neg (metaKey_ne_msgKey userID _ _ _)]

/-- Messages that the listing does not touch stay where they are. -/
theorem get_renamed_other {name : Bytes} {uid : UInt32}
    (untouched : payload.newName = name ∨ payload.oldName = name → uid ∉ msgs.map (·.uid)) :
    get (renamed ps userID payload oldMeta msgs) (mailboxMsgKey userID name uid) =
      get ps (mailboxMsgKey userID name uid) := by
  have fromNames : ∀ chosen, payload.newName = chosen ∨ payload.oldName = chosen →
      ∀ msg ∈ msgs, mailboxMsgKey userID chosen msg.uid ≠ mailboxMsgKey userID name uid := by
    intro chosen either msg listed same
    obtain ⟨rfl, rfl⟩ := (msgKey_inj userID _ _ _ _).mp same
    exact untouched either (List.mem_map.mpr ⟨msg, listed, rfl⟩)
  rw [get_renamed_message, get_relocation_other _ _ _ _ _ _ (fromNames _ (Or.inl rfl))
    (fromNames _ (Or.inr rfl)), get_set, if_neg (metaKey_ne_msgKey userID _ _ _)]

theorem renamed_metas (valid : marshalable { oldMeta with name := payload.newName } = true)
    (name : Bytes) :
    (tree (renamed ps userID payload oldMeta msgs) userID).metas name =
      if payload.oldName = name then none
      else if payload.newName = name then some { oldMeta with name := payload.newName }
      else (tree ps userID).metas name := by
  rw [renamed, tree_delete_meta, setMeta_metas]
  by_cases old : payload.oldName = name
  · simp [old]
  simp only [tree]
  rw [get_relocation_other _ _ _ _ _ _ (by simp) (by simp), get_set]
  by_cases new : payload.newName = name
  · subst new
    simp [Value.unmarshal_encoded _ valid]
  · simp [new]

include different

theorem rename_apart (left right : MailboxMessage) :
    mailboxMsgKey userID payload.newName left.uid ≠
      mailboxMsgKey userID payload.oldName right.uid := by
  intro same
  exact different ((msgKey_inj userID _ _ _ _).mp same).1

theorem get_renamed_source {uid : UInt32} (listed : uid ∈ msgs.map (·.uid)) :
    get (renamed ps userID payload oldMeta msgs) (mailboxMsgKey userID payload.oldName uid) =
      none := by
  obtain ⟨msg, member, rfl⟩ := List.mem_map.mp listed
  rw [get_renamed_message]
  exact get_relocation_source _ _ _ (rename_apart different) _ msgs msg member

variable (ps userID oldMeta) in
theorem get_renamed_target {uid : UInt32} (listed : uid ∈ msgs.map (·.uid)) :
    ∃ msg ∈ msgs, msg.uid = uid ∧
      get (renamed ps userID payload oldMeta msgs) (mailboxMsgKey userID payload.newName uid) =
        some (.encoded msg) := by
  obtain ⟨msg, member, rfl⟩ := List.mem_map.mp listed
  obtain ⟨last, inside, same, stored⟩ := get_relocation_target _ _ Value.encoded
    (rename_apart different) (set ps (mailboxMetaKey userID payload.newName)
      (.encoded { oldMeta with name := payload.newName })) msgs msg member
  refine ⟨last, inside, ((msgKey_inj userID _ _ _ _).mp same).2, ?_⟩
  rw [get_renamed_message]
  exact stored

/-- A rename puts what the listing returned under the new name. For an isolated
mailbox that is each of its messages, unchanged and under its own UID. -/
theorem tree_renamed (tidy : Tidy ps userID)
    (listed : listMailboxMessages ps userID payload.oldName = .ok msgs)
    (valid : marshalable { oldMeta with name := payload.newName } = true)
    (msgsValid : ∀ msg ∈ msgs, marshalable msg = true) :
    ∃ moved : UInt32 → Option MailboxMessage, tree (renamed ps userID payload oldMeta msgs) userID =
        (tree ps userID).renamed payload.oldName payload.newName oldMeta moved ∧
      ((tree ps userID).Isolated payload.oldName →
        ∀ uid, moved uid = (tree ps userID).messages payload.oldName uid) := by
  refine ⟨fun uid => if uid ∈ msgs.map (·.uid) then
    (tree (renamed ps userID payload oldMeta msgs) userID).messages payload.newName uid
    else none, ?_, ?_⟩
  · apply Tree.same
    · intro name
      rw [renamed_metas valid]
      rfl
    intro name uid
    simp only [Tree.renamed]
    split_ifs with old new inside
    · -- the old name: what was listed is deleted, and everything it had was listed
      subst old
      by_cases inside : uid ∈ msgs.map (·.uid)
      · simp only [tree, get_renamed_source different inside, Option.bind_none]
      · simp only [tree, get_renamed_other fun _ => inside]
        exact unlisted_none tidy listed inside
    · subst new
      obtain ⟨msg, member, -, stored⟩ := get_renamed_target ps userID oldMeta different inside
      simp [tree, stored, Value.unmarshal_encoded _ (msgsValid msg member)]
    · subst new
      simp only [Option.none_or, tree, get_renamed_other fun _ => inside]
    · have apart : payload.newName = name ∨ payload.oldName = name → uid ∉ msgs.map (·.uid) :=
        fun either => absurd either (not_or.mpr ⟨new, old⟩)
      simp only [tree, get_renamed_other apart]
  · intro isolated uid
    simp only
    split_ifs with inside
    · obtain ⟨msg, member, own, stored⟩ := get_renamed_target ps userID oldMeta different inside
      have origin := tidy.listed_own _ isolated msgs listed msg member
      rw [own] at origin
      rw [origin]
      simp [tree, stored, Value.unmarshal_encoded _ (msgsValid msg member)]
    · exact (unlisted_none tidy listed inside).symm

end Rename

theorem withResult_ok {applied : Except Error (PebbleStore × MailboxCommandResult)}
    {after : PebbleStore} {result : Option MailboxCommandResult}
    (ok : withResult applied = .ok (after, result)) : ∃ found, applied = .ok (after, found) := by
  cases applied with
  | error error => cases ok
  | ok outcome =>
    cases ok
    exact ⟨outcome.2, rfl⟩

theorem withoutResult_ok {applied : Except Error PebbleStore} {after : PebbleStore}
    {result : Option MailboxCommandResult} (ok : withoutResult applied = .ok (after, result)) :
    applied = .ok after := by
  cases applied with
  | error error => cases ok
  | ok outcome =>
    cases ok
    rfl

/-- Everything a command of the user can do: one step of the tree, made by
lawful writes. -/
theorem command_step (user : UserID) (tidy : Tidy ps user.bytes) (op : MailboxOp)
    (after : PebbleStore) (result : Option MailboxCommandResult)
    (applied : applyMailboxCommand ps (op.command user.bytes) = .ok (after, result)) :
    Step (tree ps user.bytes) op (tree after user.bytes) ∧
      ∃ batch, after = commit ps batch ∧ ∀ write ∈ batch, Lawful user.bytes write := by
  rw [applyMailboxCommand_command] at applied
  cases op with
  | append mailbox value =>
    obtain ⟨_, applied⟩ := withResult_ok applied
    obtain ⟨userID, name, msg, mbMeta, writes, key, parsed, -, found, placed, rfl⟩ :=
      append_ok applied
    obtain ⟨rfl, rfl⟩ := splitScoped_scopedKey key
    rw [readMailboxMeta_ok] at found
    rw [tree_place placed]
    exact ⟨.append parsed found, writes, rfl, placed_lawful placed⟩
  | deliver mailbox value =>
    obtain ⟨_, applied⟩ := withResult_ok applied
    obtain ⟨userID, name, payload, mailMeta, mbMeta, writes, key, -, -, -, found, placed, rfl⟩ :=
      delivery_ok applied
    obtain ⟨rfl, rfl⟩ := splitScoped_scopedKey key
    have outside := mailboxPrefix_mailMetaKey user.bytes mailMeta.guid
    have source : (tree ps user.bytes).metas name = some mbMeta ∨
        (tree ps user.bytes).metas name = none ∧ mbMeta = freshMeta name := by
      rcases readOrInitMailboxMeta_ok ps user.bytes name mbMeta found with stored | ⟨free, fresh⟩
      · exact Or.inl stored
      · right
        simp [tree, free, fresh]
    rw [commit_set, tree_place placed, tree_set_outside _ _ _ _ outside]
    refine ⟨.deliver source, _, (commit_set _ _ _ _).symm, ?_⟩
    exact List.forall_mem_cons.mpr ⟨Or.inr ⟨mailMeta.guid, rfl⟩, placed_lawful placed⟩
  | copy value =>
    obtain ⟨_, applied⟩ := withResult_ok applied
    obtain ⟨userID, payload, srcMsg, dstMeta, writes, parsed, source, found, placed, rfl⟩ :=
      copy_ok applied
    obtain ⟨same, spelled, -⟩ := transfer_ok parsed
    obtain rfl : userID = user.bytes := same.trans (trimPrefix_append _ _)
    obtain rfl : value = .json (.transfer payload) := spelled
    rw [readMailboxMeta_ok] at found
    rw [readMailboxMessage_ok] at source
    rw [tree_place placed]
    exact ⟨.copy source found, writes, rfl, placed_lawful placed⟩
  | move value =>
    obtain ⟨_, applied⟩ := withResult_ok applied
    obtain ⟨userID, payload, srcMsg, dstMeta, writes, parsed, source, found, placed, rfl⟩ :=
      move_ok applied
    obtain ⟨same, spelled, -⟩ := transfer_ok parsed
    obtain rfl : userID = user.bytes := same.trans (trimPrefix_append _ _)
    obtain rfl : value = .json (.transfer payload) := spelled
    rw [readMailboxMeta_ok] at found
    rw [readMailboxMessage_ok] at source
    rw [tree_delete_message, tree_place placed]
    refine ⟨.move source found, writes ++
      [.delete (mailboxMsgKey user.bytes payload.srcMailbox payload.srcUID)], ?_, ?_⟩
    · rw [commit_append, commit_delete, commit_nil]
    exact List.forall_mem_append.mpr
      ⟨placed_lawful placed, List.forall_mem_singleton.mpr (Or.inr ⟨_, _, rfl⟩)⟩
  | delete mailbox =>
    obtain ⟨userID, name, msgs, key, kept, listed, rfl⟩ := delete_ok (withoutResult_ok applied)
    obtain ⟨rfl, rfl⟩ := splitScoped_scopedKey key
    rw [tree_deleteBatch tidy listed]
    exact ⟨.delete kept, _, rfl, deleteBatch_lawful msgs⟩
  | expunge mailbox =>
    obtain ⟨_, applied⟩ := withResult_ok applied
    obtain ⟨userID, name, msgs, key, listed, rfl⟩ := expunge_ok applied
    obtain ⟨rfl, rfl⟩ := splitScoped_scopedKey key
    rw [tree_removeUids]
    refine ⟨.expunge ?_ ?_, _, rfl, deletes_lawful _⟩
    · intro uid msg shown marked
      obtain ⟨member, own⟩ := tidy.own_listed name msgs listed uid msg shown
      exact List.mem_map.mpr ⟨msg, List.mem_filter.mpr ⟨member, marked⟩, own⟩
    · intro isolated uid member
      obtain ⟨msg, kept, rfl⟩ := List.mem_map.mp member
      obtain ⟨inside, marked⟩ := List.mem_filter.mp kept
      exact ⟨msg, tidy.listed_own name isolated msgs listed msg inside, marked⟩
  | rename value =>
    obtain ⟨userID, payload, oldMeta, msgs, parsed, found, different, free, listed, valid,
      msgsValid, rfl⟩ := rename_ok (withoutResult_ok applied)
    obtain ⟨same, spelled, -⟩ := renameCommand_ok parsed
    obtain rfl : userID = user.bytes := same.trans (trimPrefix_append _ _)
    obtain rfl : value = .json (.rename payload) := spelled
    rw [readMailboxMeta_ok] at found
    obtain ⟨moved, shape, exactly⟩ :=
      tree_renamed different tidy listed valid msgsValid
    have absent : (tree ps user.bytes).metas payload.newName = none := by
      simp [tree, free]
    rw [shape]
    exact ⟨.rename found different absent exactly, renamed_lawful valid msgsValid⟩
  | subscribe mailbox value =>
    obtain ⟨userID, name, payload, mbMeta, key, -, found, valid, rfl⟩ :=
      subscribe_ok (withoutResult_ok applied)
    obtain ⟨rfl, rfl⟩ := splitScoped_scopedKey key
    rw [readMailboxMeta_ok] at found
    rw [tree_set_meta, Value.unmarshal_encoded _ valid]
    refine ⟨.subscribe found, [.set (mailboxMetaKey user.bytes name)
      (.encoded { mbMeta with unsubscribed := !payload.subscribed })], rfl, ?_⟩
    exact List.forall_mem_singleton.mpr (Or.inl (entry_meta user.bytes name _ valid))

end Steps

end Bongo.MailboxSteps
