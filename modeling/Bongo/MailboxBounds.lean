import Bongo.MailboxSteps

/-!
The bound every mailbox keeps: the next UID lies above all stored messages.
Each way a tree can change has one lemma here, and `Sound.step` puts them
together for the commands.
-/

namespace Bongo.MailboxBounds

open ByteKeys KeyValue MailboxKeys Mailbox MailboxTree MailboxSteps Records

/-- Messages are stored only in mailboxes that exist. -/
def Homed (t : Tree) : Prop := ∀ name uid, t.metas name = none → t.messages name uid = none

def Within (t : Tree) : Prop :=
  ∀ name mbMeta uid msg, t.metas name = some mbMeta → t.messages name uid = some msg →
    uid < mbMeta.uidNext

structure Sound (t : Tree) : Prop where
  homed : Homed t
  within : Within t

def Untouched (before after : Tree) : Prop :=
  ∀ name uid msg, before.messages name uid = some msg →
    after.messages name uid = some msg ∨ after.messages name uid = none

theorem untouched_refl (t : Tree) : Untouched t t := fun _ _ _ here => Or.inl here

def Room (t : Tree) (mailbox : Bytes) : Prop :=
  (t.metas mailbox).map (·.uidNext) ≠ some 0xFFFFFFFF

instance (t : Tree) (mailbox : Bytes) : Decidable (Room t mailbox) :=
  inferInstanceAs (Decidable (_ ≠ _))

/-- What a command needs of the tree: room for the UID it takes, and for a
rename a mailbox that takes no other mailbox's messages along. -/
def Spacious (t : Tree) : MailboxOp → Prop
  | .append mailbox _ => Room t mailbox
  | .deliver mailbox _ => Room t mailbox
  | .copy (.json (.transfer payload)) => Room t payload.dstMailbox
  | .move (.json (.transfer payload)) => Room t payload.dstMailbox
  | .rename (.json (.rename payload)) =>
    t.metas payload.oldName ≠ none → t.metas payload.newName = none → t.Isolated payload.oldName
  | _ => True

variable {mbMeta : MailboxMeta} {mailbox : Bytes}

theorem Room.of_found {t : Tree} (room : Room t mailbox) (found : t.metas mailbox = some mbMeta) :
    mbMeta.uidNext ≠ 0xFFFFFFFF := by
  intro full
  exact room (by rw [found, Option.map_some, full])

theorem lt_succ_of_room (next : UInt32) (room : next ≠ 0xFFFFFFFF) : next < next + 1 := by
  have bound := next.toNat_lt
  have top : next.toNat ≠ 4294967295 := fun full => room (UInt32.toNat_inj.mp full)
  rw [UInt32.lt_iff_toNat_lt, UInt32.toNat_add]
  have one : (1 : UInt32).toNat = 1 := rfl
  omega

/-- `less` holds nothing that `t` does not hold, and keeps no message of a
mailbox it dropped. -/
structure Shrinks (t less : Tree) : Prop where
  metas : ∀ name, less.metas name = t.metas name ∨
    less.metas name = none ∧ ∀ uid, less.messages name uid = none
  messages : ∀ name uid, less.messages name uid = t.messages name uid ∨
    less.messages name uid = none

variable {name : Bytes}

section Shrinking

variable {t less : Tree} (shrinks : Shrinks t less)
include shrinks

theorem Shrinks.message_of {uid : UInt32} {msg : MailboxMessage}
    (here : less.messages name uid = some msg) : t.messages name uid = some msg := by
  rcases shrinks.messages name uid with same | gone
  · exact same ▸ here
  · rw [gone] at here
    cases here

theorem Shrinks.meta_of (here : less.metas name = some mbMeta) : t.metas name = some mbMeta := by
  rcases shrinks.metas name with same | ⟨gone, -⟩
  · exact same ▸ here
  · rw [gone] at here
    cases here

theorem Shrinks.untouched {before : Tree} (earlier : Untouched before t) :
    Untouched before less := by
  intro name uid msg here
  rcases shrinks.messages name uid with same | gone
  · rw [same]
    exact earlier name uid msg here
  · exact Or.inr gone

end Shrinking

theorem shrinks_setMessage_none (t : Tree) (name : Bytes) (uid : UInt32) :
    Shrinks t (t.setMessage name uid none) := by
  constructor
  · exact fun other => Or.inl rfl
  intro other place
  rw [setMessage_messages]
  split_ifs
  · exact Or.inr rfl
  · exact Or.inl rfl

theorem shrinks_removeUids (t : Tree) (name : Bytes) (uids : List UInt32) :
    Shrinks t (t.removeUids name uids) := by
  constructor
  · exact fun other => Or.inl rfl
  intro other place
  simp only [Tree.removeUids]
  split_ifs
  · exact Or.inr rfl
  · exact Or.inl rfl

theorem shrinks_drop (t : Tree) (name : Bytes) : Shrinks t (t.drop name) := by
  constructor
  · intro other
    simp only [Tree.drop]
    split_ifs
    · exact Or.inr ⟨rfl, fun uid => rfl⟩
    · exact Or.inl rfl
  · intro other place
    simp only [Tree.drop]
    split_ifs
    · exact Or.inr rfl
    · exact Or.inl rfl

section Changes

variable {t : Tree} (sound : Sound t)
include sound

theorem Sound.place (msg : MailboxMessage) (found : t.metas mailbox = some mbMeta)
    (room : mbMeta.uidNext ≠ 0xFFFFFFFF) : Sound (t.place mailbox mbMeta msg) := by
  have grows := lt_succ_of_room mbMeta.uidNext room
  constructor
  · intro name uid absent
    rcases ite_eq_iff.mp absent with ⟨-, absent⟩ | ⟨apart, absent⟩
    · cases absent
    · simp [Tree.place, apart, sound.homed name uid absent]
  · intro name current uid stored present here
    rcases ite_eq_iff.mp present with ⟨rfl, new⟩ | ⟨apart, present⟩
    · cases new
      by_cases new : mbMeta.uidNext = uid
      · exact new ▸ grows
      · simp only [Tree.place, setMessage_messages, new] at here
        exact UInt32.lt_trans (sound.within mailbox mbMeta uid stored found here) grows
    · simp only [Tree.place, setMessage_messages, apart] at here
      exact sound.within name current uid stored present here

/-- The slot at the next UID is free, so placing a message replaces none. -/
theorem Sound.place_untouched (msg : MailboxMessage) (found : t.metas mailbox = some mbMeta) :
    Untouched t (t.place mailbox mbMeta msg) := by
  intro name uid stored here
  left
  by_cases slot : mailbox = name ∧ mbMeta.uidNext = uid
  · obtain ⟨rfl, rfl⟩ := slot
    exact absurd (sound.within mailbox mbMeta _ stored found here) (by simp)
  · simp only [Tree.place, setMessage_messages, slot]
    exact here

theorem Sound.setMeta (within : ∀ uid msg, t.messages name uid = some msg → uid < mbMeta.uidNext) :
    Sound (t.setMeta name (some mbMeta)) := by
  constructor
  · intro other uid missing
    rcases ite_eq_iff.mp missing with ⟨-, missing⟩ | ⟨-, missing⟩
    · cases missing
    · exact sound.homed other uid missing
  · intro other current uid msg present here
    rcases ite_eq_iff.mp present with ⟨rfl, new⟩ | ⟨-, present⟩
    · cases new
      exact within uid msg here
    · exact sound.within other current uid msg present here

theorem Sound.appear (mbMeta : MailboxMeta) (empty : ∀ uid, t.messages name uid = none) :
    Sound (t.setMeta name (some mbMeta)) :=
  sound.setMeta fun uid _ here => nomatch (empty uid).symm.trans here

theorem Sound.shrink {less : Tree} (shrinks : Shrinks t less) : Sound less := by
  constructor
  · intro name uid absent
    rcases shrinks.metas name with same | ⟨-, empty⟩
    · rcases shrinks.messages name uid with unchanged | gone
      · rw [unchanged]
        exact sound.homed name uid (same ▸ absent)
      · exact gone
    · exact empty uid
  · intro name mbMeta uid msg present here
    exact sound.within name mbMeta uid msg (shrinks.meta_of present) (shrinks.message_of here)

variable {oldName newName : Bytes}

/-- Nothing is stored under a free name, so a renamed mailbox holds there what
it held under its old one. -/
theorem Sound.arrived {moved : UInt32 → Option MailboxMessage} (free : t.metas newName = none)
    (exactly : ∀ uid, moved uid = t.messages oldName uid) (uid : UInt32) :
    (moved uid).or (t.messages newName uid) = t.messages oldName uid := by
  rw [exactly uid, sound.homed newName uid free, Option.or_none]

theorem Sound.rename {oldMeta : MailboxMeta} {moved : UInt32 → Option MailboxMessage}
    (found : t.metas oldName = some oldMeta) (free : t.metas newName = none)
    (exactly : ∀ uid, moved uid = t.messages oldName uid) :
    Sound (t.renamed oldName newName oldMeta moved) := by
  constructor
  · intro name uid absent
    simp only [Tree.renamed] at absent ⊢
    split_ifs at absent ⊢ with old new
    · rfl
    · exact sound.homed name uid absent
  · intro name mbMeta uid msg present here
    simp only [Tree.renamed] at present here
    split_ifs at present here with old new
    · cases present
      rw [sound.arrived free exactly uid] at here
      exact sound.within oldName oldMeta uid msg found here
    · exact sound.within name mbMeta uid msg present here

theorem Sound.rename_untouched (oldMeta : MailboxMeta) (moved : UInt32 → Option MailboxMessage)
    (free : t.metas newName = none) : Untouched t (t.renamed oldName newName oldMeta moved) := by
  intro name uid msg here
  simp only [Tree.renamed]
  split_ifs with old new
  · exact Or.inr rfl
  · subst new
    rw [sound.homed newName uid free] at here
    cases here
  · exact Or.inl here

end Changes

/-- A command that has the space it needs keeps the bound and replaces no
stored message. -/
theorem Sound.step {t after : Tree} {op : MailboxOp} (sound : Sound t) (space : Spacious t op)
    (stepped : Step t op after) : Sound after ∧ Untouched t after := by
  cases stepped with
  | append parsed found =>
    exact ⟨sound.place _ found (space.of_found found), sound.place_untouched _ found⟩
  | deliver found =>
    rcases found with found | ⟨absent, rfl⟩
    · exact ⟨sound.place _ found (space.of_found found), sound.place_untouched _ found⟩
    -- the mailbox appears and takes its first message
    rename_i mailbox value msg
    have appeared := sound.appear (freshMeta mailbox) fun uid => sound.homed mailbox uid absent
    have found := setMeta_found t mailbox (freshMeta mailbox)
    rw [← setMeta_place t mailbox (some (freshMeta mailbox))]
    exact ⟨appeared.place msg found (by simp [freshMeta]), appeared.place_untouched msg found⟩
  | copy source found =>
    exact ⟨sound.place _ found (space.of_found found), sound.place_untouched _ found⟩
  | move source found =>
    constructor
    · exact (sound.place _ found (space.of_found found)).shrink (shrinks_setMessage_none _ _ _)
    · exact (shrinks_setMessage_none _ _ _).untouched (sound.place_untouched _ found)
  | delete kept =>
    exact ⟨sound.shrink (shrinks_drop t _), (shrinks_drop t _).untouched (untouched_refl t)⟩
  | expunge covers exactly =>
    exact ⟨sound.shrink (shrinks_removeUids t _ _),
      (shrinks_removeUids t _ _).untouched (untouched_refl t)⟩
  | rename found different free exactly =>
    have isolated := space (by rw [found]; simp) free
    exact ⟨sound.rename found free (exactly isolated), sound.rename_untouched _ _ free⟩
  | subscribe found =>
    have within := fun uid msg => sound.within _ _ uid msg found
    exact ⟨sound.setMeta within, untouched_refl t⟩

section Start

variable (user : UserID) (ps : PebbleStore)
  (empty : ∀ key, mailboxPrefix user.bytes <+: key → get ps key = none)
include empty

theorem tree_empty : tree ps user.bytes = ⟨fun _ => none, fun _ _ => none⟩ := by
  apply Tree.same
  · intro name
    simp [tree, empty _ (mailboxPrefix_metaKey user.bytes name)]
  · intro name uid
    simp [tree, empty _ (mailboxPrefix_msgKey user.bytes name uid)]

theorem tidy_empty : Tidy ps user.bytes := by
  intro key value leads stored
  rw [empty key leads] at stored
  cases stored

theorem sound_empty : Sound (tree ps user.bytes) := by
  rw [tree_empty user ps empty]
  constructor
  · exact fun name uid absent => rfl
  · intro name mbMeta uid msg present
    cases present

end Start

end Bongo.MailboxBounds
