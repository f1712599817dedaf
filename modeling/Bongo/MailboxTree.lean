import Bongo.Mailbox

/-!
One user's mailboxes as a tree: the metadata of each mailbox and the message
at each of its UIDs. The keys of the store are met here and in the module on
the commands' steps only; every invariant of the mailboxes is about trees.
-/

namespace Bongo.MailboxTree

open ByteKeys KeyValue MailboxKeys Mailbox Proto Records

structure Tree where
  metas : Bytes → Option MailboxMeta
  messages : Bytes → UInt32 → Option MailboxMessage

theorem Tree.same {left right : Tree} (metas : ∀ name, left.metas name = right.metas name)
    (messages : ∀ name uid, left.messages name uid = right.messages name uid) : left = right := by
  cases left
  cases right
  congr 1
  · exact funext metas
  · exact funext fun name => funext (messages name)

def tree (ps : PebbleStore) (userID : Bytes) : Tree where
  metas name := (get ps (mailboxMetaKey userID name)).bind (·.unmarshal MailboxMeta)
  messages name uid :=
    (get ps (mailboxMsgKey userID name uid)).bind (·.unmarshal MailboxMessage)

def freshMeta (name : Bytes) : MailboxMeta :=
  { name := name, uidValidity := 1, uidNext := 1, unsubscribed := false }

section Reading

variable (ps : PebbleStore) (userID mailbox : Bytes)

theorem readMailboxMeta_ok (mbMeta : MailboxMeta) :
    readMailboxMeta ps userID mailbox = .ok mbMeta ↔
      (tree ps userID).metas mailbox = some mbMeta := by
  simp [readMailboxMeta, bind_ok, orError_ok, tree, Option.bind_eq_some_iff]

theorem readMailboxMessage_ok (uid : UInt32) (msg : MailboxMessage) :
    readMailboxMessage ps userID mailbox uid = .ok msg ↔
      (tree ps userID).messages mailbox uid = some msg := by
  simp [readMailboxMessage, bind_ok, orError_ok, tree, Option.bind_eq_some_iff]

theorem readOrInitMailboxMeta_ok (mbMeta : MailboxMeta)
    (read : readOrInitMailboxMeta ps userID mailbox = .ok mbMeta) :
    (tree ps userID).metas mailbox = some mbMeta ∨
      get ps (mailboxMetaKey userID mailbox) = none ∧ mbMeta = freshMeta mailbox := by
  cases stored : get ps (mailboxMetaKey userID mailbox) with
  | none =>
    right
    simp only [readOrInitMailboxMeta, readMailboxMeta, stored] at read
    cases read
    exact ⟨rfl, rfl⟩
  | some value =>
    left
    apply (readMailboxMeta_ok ps userID mailbox mbMeta).mp
    cases parsed : value.unmarshal MailboxMeta with
    | none =>
      simp [readOrInitMailboxMeta, readMailboxMeta, stored, parsed, orError, bind,
        Except.bind] at read
    | some found =>
      simp only [readOrInitMailboxMeta, readMailboxMeta, stored, parsed, orError, bind,
        Except.bind] at read ⊢
      exact read

/-- A listing holds every record of the scanned range, whoever wrote it. -/
theorem mem_listMailboxMessages (msgs : List MailboxMessage)
    (listed : listMailboxMessages ps userID mailbox = .ok msgs) (msg : MailboxMessage) :
    msg ∈ msgs ↔ ∃ key value, mailboxMsgPrefix userID mailbox <+: key ∧
      get ps key = some value ∧ value.unmarshal MailboxMessage = some msg := by
  rw [listMailboxMessages, orError_ok] at listed
  rw [(mapM_readable _ _ _ listed).1, mem_prefixScan_filterMap]

end Reading

/-! Single changes of a tree, and the store writes that make them. -/
section Changes

def Tree.setMeta (t : Tree) (name : Bytes) (mbMeta : Option MailboxMeta) : Tree :=
  { t with metas := fun other => if name = other then mbMeta else t.metas other }

def Tree.setMessage (t : Tree) (name : Bytes) (uid : UInt32) (msg : Option MailboxMessage) :
    Tree :=
  { t with messages := fun other place =>
      if name = other ∧ uid = place then msg else t.messages other place }

def Tree.place (t : Tree) (mailbox : Bytes) (mbMeta : MailboxMeta) (msg : MailboxMessage) : Tree :=
  (t.setMeta mailbox (some { mbMeta with uidNext := mbMeta.uidNext + 1 })).setMessage mailbox
    mbMeta.uidNext (some { msg with uid := mbMeta.uidNext })

def Tree.removeUids (t : Tree) (mailbox : Bytes) (uids : List UInt32) : Tree :=
  { t with messages := fun other place =>
      if mailbox = other ∧ place ∈ uids then none else t.messages other place }

def Tree.drop (t : Tree) (mailbox : Bytes) : Tree where
  metas other := if mailbox = other then none else t.metas other
  messages other place := if mailbox = other then none else t.messages other place

/-- The mailbox `oldName` gone and `newName` in its place, with `moved` on top
of whatever was stored under the new name. -/
def Tree.renamed (t : Tree) (oldName newName : Bytes) (oldMeta : MailboxMeta)
    (moved : UInt32 → Option MailboxMessage) : Tree where
  metas other :=
    if oldName = other then none
    else if newName = other then some { oldMeta with name := newName } else t.metas other
  messages other place :=
    if oldName = other then none
    else if newName = other then (moved place).or (t.messages newName place)
    else t.messages other place

@[simp] theorem setMeta_metas (t : Tree) (name other : Bytes) (mbMeta : Option MailboxMeta) :
    (t.setMeta name mbMeta).metas other = if name = other then mbMeta else t.metas other := rfl

@[simp] theorem setMeta_messages (t : Tree) (name other : Bytes) (mbMeta : Option MailboxMeta)
    (uid : UInt32) : (t.setMeta name mbMeta).messages other uid = t.messages other uid := rfl

@[simp] theorem setMessage_metas (t : Tree) (name other : Bytes) (uid : UInt32)
    (msg : Option MailboxMessage) : (t.setMessage name uid msg).metas other = t.metas other := rfl

@[simp] theorem setMessage_messages (t : Tree) (name other : Bytes) (uid place : UInt32)
    (msg : Option MailboxMessage) :
    (t.setMessage name uid msg).messages other place =
      if name = other ∧ uid = place then msg else t.messages other place := rfl

theorem setMeta_found (t : Tree) (name : Bytes) (mbMeta : MailboxMeta) :
    (t.setMeta name (some mbMeta)).metas name = some mbMeta := if_pos rfl

theorem setMeta_place (t : Tree) (name : Bytes) (before : Option MailboxMeta)
    (mbMeta : MailboxMeta) (msg : MailboxMessage) :
    (t.setMeta name before).place name mbMeta msg = t.place name mbMeta msg := by
  apply Tree.same
  · intro other
    by_cases same : name = other <;> simp [Tree.place, same]
  · intro other uid
    rfl

variable (ps : PebbleStore) (userID name : Bytes)

theorem tree_set_meta (value : Value) :
    tree (set ps (mailboxMetaKey userID name) value) userID =
      (tree ps userID).setMeta name (value.unmarshal MailboxMeta) := by
  apply Tree.same
  · intro other
    by_cases same : name = other <;> simp [tree, same]
  · intro other place
    simp [tree]

theorem tree_delete_meta :
    tree (delete ps (mailboxMetaKey userID name)) userID = (tree ps userID).setMeta name none := by
  apply Tree.same
  · intro other
    by_cases same : name = other <;> simp [tree, same]
  · intro other place
    simp [tree]

theorem tree_set_message (uid : UInt32) (value : Value) :
    tree (set ps (mailboxMsgKey userID name uid) value) userID =
      (tree ps userID).setMessage name uid (value.unmarshal MailboxMessage) := by
  apply Tree.same
  · intro other
    simp [tree]
  · intro other place
    by_cases same : name = other ∧ uid = place <;> simp [tree, same]

theorem tree_delete_message (uid : UInt32) :
    tree (delete ps (mailboxMsgKey userID name uid)) userID =
      (tree ps userID).setMessage name uid none := by
  apply Tree.same
  · intro other
    simp [tree]
  · intro other place
    by_cases same : name = other ∧ uid = place <;> simp [tree, same]

/-- Writes outside the user's mailbox tree leave it as it is. -/
theorem tree_of_agree (after : PebbleStore)
    (agree : ∀ key, mailboxPrefix userID <+: key → get after key = get ps key) :
    tree after userID = tree ps userID := by
  apply Tree.same
  · intro other
    simp [tree, agree _ (mailboxPrefix_metaKey userID other)]
  · intro other place
    simp [tree, agree _ (mailboxPrefix_msgKey userID other place)]

theorem tree_set_outside (key : Bytes) (value : Value)
    (outside : ¬ mailboxPrefix userID <+: key) :
    tree (set ps key value) userID = tree ps userID := by
  apply tree_of_agree
  intro other leads
  rw [get_set, if_neg]
  rintro rfl
  exact outside leads

end Changes

/-! Tidy stores: every key of the user's tree is a mailbox's metadata or a
message under its own UID. Every command keeps its user's tree tidy, whatever
the mailboxes are called. -/
section Tidiness

def Entry (userID key : Bytes) (value : Value) : Prop :=
  (∃ name mbMeta, key = mailboxMetaKey userID name ∧ value.unmarshal MailboxMeta = some mbMeta) ∨
  (∃ name uid msg, key = mailboxMsgKey userID name uid ∧
    value.unmarshal MailboxMessage = some msg ∧ msg.uid = uid)

def Tidy (ps : PebbleStore) (userID : Bytes) : Prop :=
  ∀ key value, mailboxPrefix userID <+: key → get ps key = some value → Entry userID key value

def Lawful (userID : Bytes) : Write Value → Prop
  | .set key value => Entry userID key value ∨ ∃ guid, key = mailMetaKey userID guid
  | .delete key => (∃ name, key = mailboxMetaKey userID name) ∨
      ∃ name uid, key = mailboxMsgKey userID name uid

theorem entry_meta (userID name : Bytes) (mbMeta : MailboxMeta)
    (valid : marshalable mbMeta = true) :
    Entry userID (mailboxMetaKey userID name) (.encoded mbMeta) :=
  Or.inl ⟨name, mbMeta, rfl, Value.unmarshal_encoded _ valid⟩

theorem entry_message (userID name : Bytes) (msg : MailboxMessage)
    (valid : marshalable msg = true) :
    Entry userID (mailboxMsgKey userID name msg.uid) (.encoded msg) :=
  Or.inr ⟨name, msg.uid, msg, rfl, Value.unmarshal_encoded _ valid, rfl⟩

theorem Tidy.commit {ps : PebbleStore} {userID : Bytes} (tidy : Tidy ps userID)
    (batch : List (Write Value)) (lawful : ∀ write ∈ batch, Lawful userID write) :
    Tidy (commit ps batch) userID := by
  intro key value leads present
  rcases get_commit_some ps batch key value present with before | written
  · exact tidy key value leads before
  rcases lawful _ written with entry | ⟨guid, mail⟩
  · exact entry
  · subst mail
    exact absurd leads (mailboxPrefix_mailMetaKey userID guid)

variable {ps : PebbleStore} {userID : Bytes} (tidy : Tidy ps userID)
include tidy

theorem Tidy.set {key : Bytes} {value : Value} (entry : Entry userID key value) :
    Tidy (set ps key value) userID := by
  apply tidy.commit [.set key value]
  intro write member
  rw [List.mem_singleton] at member
  subst member
  exact Or.inl entry

theorem Tidy.meta_stored (name : Bytes) (absent : (tree ps userID).metas name = none) :
    get ps (mailboxMetaKey userID name) = none := by
  cases stored : get ps (mailboxMetaKey userID name) with
  | none => rfl
  | some value =>
    rcases tidy _ value (mailboxPrefix_metaKey userID name) stored with
      ⟨other, mbMeta, same, read⟩ | ⟨other, uid, msg, same, -, -⟩
    · simp [tree, stored, read] at absent
    · exact absurd same (metaKey_ne_msgKey userID name other uid)

theorem Tidy.message_stored {name : Bytes} {uid : UInt32} {value : Value}
    (stored : get ps (mailboxMsgKey userID name uid) = some value) :
    ∃ msg, value.unmarshal MailboxMessage = some msg ∧ msg.uid = uid := by
  rcases tidy _ value (mailboxPrefix_msgKey userID name uid) stored with
    ⟨other, mbMeta, same, -⟩ | ⟨other, place, msg, same, read, own⟩
  · exact absurd same (msgKey_ne_metaKey userID other name uid)
  · obtain ⟨rfl, rfl⟩ := (msgKey_inj userID name other uid place).mp same
    exact ⟨msg, read, own⟩

theorem Tidy.own_uid (name : Bytes) (uid : UInt32) (msg : MailboxMessage)
    (shown : (tree ps userID).messages name uid = some msg) : msg.uid = uid := by
  simp only [tree, Option.bind_eq_some_iff] at shown
  obtain ⟨value, stored, read⟩ := shown
  obtain ⟨found, reread, own⟩ := tidy.message_stored stored
  cases read.symm.trans reread
  exact own

theorem Tidy.own_listed (name : Bytes) (msgs : List MailboxMessage)
    (listed : listMailboxMessages ps userID name = .ok msgs) (uid : UInt32)
    (msg : MailboxMessage) (shown : (tree ps userID).messages name uid = some msg) :
    msg ∈ msgs ∧ msg.uid = uid := by
  refine ⟨?_, tidy.own_uid name uid msg shown⟩
  simp only [tree, Option.bind_eq_some_iff] at shown
  obtain ⟨value, stored, read⟩ := shown
  rw [mem_listMailboxMessages ps userID name msgs listed]
  exact ⟨_, value, (msgPrefix_msgKey_iff userID name name uid).mpr (Or.inl rfl), stored, read⟩

omit tidy in
def Tree.Isolated (t : Tree) (name : Bytes) : Prop :=
  ∀ other, Encloses name other → t.metas other = none ∧ ∀ uid, t.messages other uid = none

/-- The range of an isolated mailbox holds nothing but its own messages. -/
theorem Tidy.range_own (name : Bytes) (isolated : (tree ps userID).Isolated name) (key : Bytes)
    (value : Value) (leads : mailboxMsgPrefix userID name <+: key)
    (stored : get ps key = some value) :
    ∃ uid msg, key = mailboxMsgKey userID name uid ∧
      value.unmarshal MailboxMessage = some msg ∧ msg.uid = uid := by
  have inside : mailboxPrefix userID <+: key :=
    (List.prefix_append _ _ : mailboxPrefix userID <+: mailboxMsgPrefix userID name).trans leads
  rcases tidy key value inside stored with
    ⟨other, mbMeta, rfl, metaRead⟩ | ⟨other, uid, msg, rfl, msgRead, own⟩
  · have encloses := (msgPrefix_metaKey_iff userID name other).mp leads
    have absent := (isolated other encloses).1
    simp [tree, stored, metaRead] at absent
  · rcases (msgPrefix_msgKey_iff userID name other uid).mp leads with rfl | encloses
    · exact ⟨uid, msg, rfl, msgRead, own⟩
    · have absent := (isolated other encloses).2 uid
      simp [tree, stored, msgRead] at absent

theorem Tidy.listed_own (name : Bytes) (isolated : (tree ps userID).Isolated name)
    (msgs : List MailboxMessage) (listed : listMailboxMessages ps userID name = .ok msgs)
    (msg : MailboxMessage) (member : msg ∈ msgs) :
    (tree ps userID).messages name msg.uid = some msg := by
  rw [mem_listMailboxMessages ps userID name msgs listed] at member
  obtain ⟨key, value, leads, stored, read⟩ := member
  obtain ⟨uid, found, rfl, reread, rfl⟩ := tidy.range_own name isolated key value leads stored
  cases read.symm.trans reread
  simp [tree, stored, read]

end Tidiness

end Bongo.MailboxTree
