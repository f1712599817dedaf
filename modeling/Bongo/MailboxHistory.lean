import Bongo.MailboxStore

/-!
Histories of one user's mailboxes. A client caches a message under the triple
of mailbox name, UID validity and UID, so what matters is what the triple ever
denoted, in any state of the run, and not only in the current one.
-/

namespace Bongo.MailboxHistory

open ByteKeys KeyValue MailboxKeys Mailbox MailboxTree MailboxSteps MailboxBounds MailboxStore
open Proto Records Histories
open Fsm (land)

inductive Event where
  | command (op : MailboxOp)
  | create (name : Bytes) (now : Int64)
  deriving DecidableEq

def step (user : UserID) (ps : PebbleStore) : Event → PebbleStore
  | .command op => land ps (op.command user.bytes)
  | .create name now =>
    match createMailbox ps user.bytes name now with
    | .ok cmd => land ps cmd
    | .error _ => ps

/-- A run's current store and all stores before it. -/
structure History where
  store : PebbleStore
  past : List PebbleStore

def record (user : UserID) (history : History) (event : Event) : History :=
  ⟨step user history.store event, history.store :: history.past⟩

def Tree.Visible (t : Tree) (name : Bytes) (validity uid : UInt32) (guid : Bytes) : Prop :=
  (t.metas name).map (·.uidValidity) = some validity ∧
    (t.messages name uid).map (·.mailGuid) = some guid

instance (t : Tree) (name : Bytes) (validity uid : UInt32) (guid : Bytes) :
    Decidable (Tree.Visible t name validity uid guid) :=
  inferInstanceAs (Decidable (_ ∧ _))

def Shown (user : UserID) (history : History) (name : Bytes) (validity uid : UInt32)
    (guid : Bytes) : Prop :=
  ∃ ps ∈ history.store :: history.past, Tree.Visible (tree ps user.bytes) name validity uid guid

instance (user : UserID) (history : History) (name : Bytes) (validity uid : UInt32)
    (guid : Bytes) : Decidable (Shown user history name validity uid guid) :=
  inferInstanceAs (Decidable (∃ ps ∈ _, _))

section Condition

variable (user : UserID) (history : History)

def Unused (name : Bytes) (validity : UInt32) : Prop :=
  ∀ uid guid, ¬ Shown user history name validity uid guid

/-- A command that brings a mailbox into being under a name brings a validity
that the name never had, or, by a rename, one under which the name only ever
showed what the mailbox still holds or can no longer allocate. -/
def Renews : MailboxOp → Prop
  | .deliver mailbox _ =>
    (tree history.store user.bytes).metas mailbox = none → Unused user history mailbox 1
  | .rename (.json (.rename payload)) =>
    ∀ mbMeta, (tree history.store user.bytes).metas payload.oldName = some mbMeta →
      (tree history.store user.bytes).metas payload.newName = none →
      ∀ uid guid, Shown user history payload.newName mbMeta.uidValidity uid guid →
        uid < mbMeta.uidNext ∧
          ∀ msg, (tree history.store user.bytes).messages payload.oldName uid = some msg →
            msg.mailGuid = guid
  | _ => True

def Safe : Event → Prop
  | .create name now =>
    (tree history.store user.bytes).metas name = none → Unused user history name (clockValidity now)
  | .command op => Spacious (tree history.store user.bytes) op ∧ Renews user history op

end Condition

/-! The invariant, on trees and on whatever was shown so far. -/
section Invariant

/-- Under its current validity a mailbox has shown only UIDs below the next one,
and whatever is still there is what was shown. -/
def Agrees (shown : Bytes → UInt32 → UInt32 → Bytes → Prop) (t : Tree) : Prop :=
  ∀ name mbMeta uid guid, t.metas name = some mbMeta → shown name mbMeta.uidValidity uid guid →
    uid < mbMeta.uidNext ∧ ∀ msg, t.messages name uid = some msg → msg.mailGuid = guid

variable {shown : Bytes → UInt32 → UInt32 → Bytes → Prop} {t : Tree} (agrees : Agrees shown t)
include agrees

theorem Agrees.place {mailbox : Bytes} {mbMeta : MailboxMeta} (msg : MailboxMessage)
    (found : t.metas mailbox = some mbMeta) (room : mbMeta.uidNext ≠ 0xFFFFFFFF) :
    Agrees shown (t.place mailbox mbMeta msg) := by
  intro name current uid guid present was
  rcases ite_eq_iff.mp present with ⟨rfl, new⟩ | ⟨apart, present⟩
  · cases new
    obtain ⟨below, held⟩ := agrees mailbox mbMeta uid guid found was
    refine ⟨UInt32.lt_trans below (lt_succ_of_room mbMeta.uidNext room), ?_⟩
    intro stored
    -- the new UID is above everything shown, so the message here is an old one
    have other : mbMeta.uidNext ≠ uid := fun reused => absurd below (by simp [reused])
    simp only [Tree.place, setMessage_messages, other]
    exact held stored
  · simpa [Tree.place, apart] using agrees name current uid guid present was

theorem Agrees.setMeta {name : Bytes} {mbMeta : MailboxMeta}
    (agreed : ∀ uid guid, shown name mbMeta.uidValidity uid guid →
      uid < mbMeta.uidNext ∧ ∀ msg, t.messages name uid = some msg → msg.mailGuid = guid) :
    Agrees shown (t.setMeta name (some mbMeta)) := by
  intro other current uid guid present was
  rcases ite_eq_iff.mp present with ⟨rfl, new⟩ | ⟨-, present⟩
  · cases new
    exact agreed uid guid was
  · exact agrees other current uid guid present was

theorem Agrees.appear {name : Bytes} (mbMeta : MailboxMeta)
    (unused : ∀ uid guid, ¬ shown name mbMeta.uidValidity uid guid) :
    Agrees shown (t.setMeta name (some mbMeta)) :=
  agrees.setMeta fun uid guid was => absurd was (unused uid guid)

theorem Agrees.shrink {less : Tree} (shrinks : Shrinks t less) : Agrees shown less := by
  intro name mbMeta uid guid present was
  obtain ⟨below, held⟩ := agrees name mbMeta uid guid (shrinks.meta_of present) was
  exact ⟨below, fun msg here => held msg (shrinks.message_of here)⟩

theorem Agrees.rename {oldName newName : Bytes} {oldMeta : MailboxMeta}
    {moved : UInt32 → Option MailboxMessage}
    (arrived : ∀ uid, (moved uid).or (t.messages newName uid) = t.messages oldName uid)
    (agreed : ∀ uid guid, shown newName oldMeta.uidValidity uid guid → uid < oldMeta.uidNext ∧
        ∀ msg, t.messages oldName uid = some msg → msg.mailGuid = guid) :
    Agrees shown (t.renamed oldName newName oldMeta moved) := by
  intro name mbMeta uid guid present was
  simp only [Tree.renamed] at present ⊢
  split_ifs at present ⊢ with old new
  · subst new
    cases present
    rw [arrived uid]
    exact agreed uid guid was
  · exact agrees name mbMeta uid guid present was

end Invariant

section Runs

variable (user : UserID)

structure Inv (history : History) : Prop extends Regular user history.store where
  agrees : Agrees (Shown user history) (tree history.store user.bytes)
  unique : ∀ name validity uid left right, Shown user history name validity uid left →
    Shown user history name validity uid right → left = right

theorem shown_record (history : History) (event : Event) (name : Bytes) (validity uid : UInt32)
    (guid : Bytes) :
    Shown user (record user history event) name validity uid guid ↔
      Tree.Visible (tree (step user history.store event) user.bytes) name validity uid guid ∨
        Shown user history name validity uid guid := by
  simp [Shown, record]

/-- What a safe command leaves true of everything shown before it. -/
theorem agrees_of_step {history : History} {op : MailboxOp} {after : Tree}
    (sound : Sound (tree history.store user.bytes))
    (agrees : Agrees (Shown user history) (tree history.store user.bytes))
    (space : Spacious (tree history.store user.bytes) op) (renews : Renews user history op)
    (stepped : Step (tree history.store user.bytes) op after) :
    Agrees (Shown user history) after := by
  cases stepped with
  | append parsed found => exact agrees.place _ found (space.of_found found)
  | deliver found =>
    rcases found with found | ⟨absent, rfl⟩
    · exact agrees.place _ found (space.of_found found)
    -- the mailbox appears with validity 1 and takes its first message
    rename_i mailbox value msg
    have appeared := agrees.appear (freshMeta mailbox) (renews absent)
    rw [← setMeta_place _ mailbox (some (freshMeta mailbox))]
    exact appeared.place msg (setMeta_found _ mailbox _) (by simp [freshMeta])
  | copy source found => exact agrees.place _ found (space.of_found found)
  | move source found =>
    exact (agrees.place _ found (space.of_found found)).shrink (shrinks_setMessage_none _ _ _)
  | delete kept => exact agrees.shrink (shrinks_drop _ _)
  | expunge covers exactly => exact agrees.shrink (shrinks_removeUids _ _ _)
  | rename found different free exactly =>
    have isolated := space (by rw [found]; simp) free
    exact agrees.rename (sound.arrived free (exactly isolated)) (renews _ found free)
  | subscribe found =>
    have agreed := fun uid guid => agrees _ _ uid guid found
    exact agrees.setMeta agreed

/-- The next store is regular and agrees with what was shown before it. -/
theorem step_agrees {history : History} {event : Event} (inv : Inv user history)
    (safe : Safe user history event) :
    Regular user (step user history.store event) ∧
      Agrees (Shown user history) (tree (step user history.store event) user.bytes) := by
  cases event with
  | command op =>
    obtain ⟨space, renews⟩ := safe
    rcases land_command_cases history.store user inv.tidy op with same | ⟨stepped, tidy⟩
    · rw [step, same]
      exact ⟨inv.toRegular, inv.agrees⟩
    · exact ⟨⟨tidy, (inv.sound.step space stepped).1⟩,
        agrees_of_step user inv.sound inv.agrees space renews stepped⟩
  | create name now =>
    rw [step]
    cases created : createMailbox history.store user.bytes name now with
    | error error => exact ⟨inv.toRegular, inv.agrees⟩
    | ok cmd =>
      obtain ⟨free, tidy, shape⟩ := created_tree history.store user inv.tidy created
      refine ⟨⟨tidy, ?_⟩, ?_⟩
      · rw [shape]
        exact inv.sound.appear _ fun uid => inv.sound.homed _ uid free
      · rw [shape]
        exact inv.agrees.appear _ (safe free)

theorem inv_record (history : History) (event : Event) (inv : Inv user history)
    (safe : Safe user history event) : Inv user (record user history event) := by
  obtain ⟨regular, agrees⟩ := step_agrees user inv safe
  constructor
  · exact regular
  · intro name mbMeta uid guid present was
    rcases (shown_record user history event name _ uid guid).mp was with now | before
    · -- shown right now: the tree shows one message here
      obtain ⟨msg, here, same⟩ := Option.map_eq_some_iff.mp now.2
      refine ⟨regular.sound.within name mbMeta uid msg present here, ?_⟩
      intro other there
      cases here.symm.trans there
      exact same
    · exact agrees name mbMeta uid guid present before
  · intro name validity uid left right first second
    have met : ∀ now before,
        Tree.Visible (tree (step user history.store event) user.bytes) name validity uid now →
        Shown user history name validity uid before → now = before := by
      intro now before visible was
      obtain ⟨mbMeta, present, rfl⟩ := Option.map_eq_some_iff.mp visible.1
      obtain ⟨msg, here, rfl⟩ := Option.map_eq_some_iff.mp visible.2
      exact (agrees name mbMeta uid before present was).2 msg here
    rcases (shown_record user history event name validity uid left).mp first with now | before <;>
      rcases (shown_record user history event name validity uid right).mp second with
        also | earlier
    · exact Option.some.inj (now.2.symm.trans also.2)
    · exact met left right now earlier
    · exact (met right left also before).symm
    · exact inv.unique name validity uid left right before earlier

theorem inv_start (ps : PebbleStore)
    (empty : ∀ key, mailboxPrefix user.bytes <+: key → get ps key = none) :
    Inv user ⟨ps, []⟩ := by
  have silent : ∀ name validity uid guid, ¬ Shown user ⟨ps, []⟩ name validity uid guid := by
    rintro name validity uid guid ⟨store, member, visible⟩
    rw [List.mem_singleton] at member
    subst member
    rw [tree_empty user _ empty] at visible
    cases visible.1
  constructor
  · exact regular_empty ps user empty
  · exact fun name mbMeta uid guid present was => absurd was (silent _ _ _ _)
  · exact fun name validity uid left right first => absurd first (silent _ _ _ _)

/-- Along a safe run from a store without mailboxes of the user, a mailbox name,
a validity and a UID together denote one message. -/
theorem triple_denotes_one_message (user : UserID) (start : PebbleStore)
    (empty : ∀ key, mailboxPrefix user.bytes <+: key → get start key = none)
    (events : List Event) (safe : Along (record user) (Safe user) ⟨start, []⟩ events)
    (name : Bytes) (validity uid : UInt32) (left right : Bytes)
    (first : Shown user (run (record user) ⟨start, []⟩ events) name validity uid left)
    (second : Shown user (run (record user) ⟨start, []⟩ events) name validity uid right) :
    left = right :=
  (run_invariant (inv_record user) (inv_start user start empty) safe).unique name validity uid left
    right first second

def sampleDelivery (mailbox guid : String) : MailboxOp :=
  .deliver (ascii mailbox) (.json (.delivery ⟨sampleMail guid, 0⟩))

def twoDeliveries : List Event :=
  [.command (sampleDelivery "A" "g1"), .command (sampleDelivery "A" "g2")]

theorem triple_denotes_one_message_two_deliveries :
    Shown sampleUser (run (record sampleUser) ⟨∅, []⟩ twoDeliveries) (ascii "A") 1 1
        (ascii "g1") ∧
      ¬ Shown sampleUser (run (record sampleUser) ⟨∅, []⟩ twoDeliveries) (ascii "A") 1 1
        (ascii "g2") := by
  have unused : Unused sampleUser ⟨∅, []⟩ (ascii "A") 1 := by
    rintro uid guid ⟨ps, member, visible⟩
    rw [List.mem_singleton] at member
    subst member
    simp [Tree.Visible, tree] at visible
  have safe : Along (record sampleUser) (Safe sampleUser) ⟨∅, []⟩ twoDeliveries := by
    refine ⟨⟨?_, fun _ => unused⟩, ⟨?_, fun absent => absurd absent (by decide)⟩, trivial⟩
    · change Room _ (ascii "A")
      decide
    · change Room _ (ascii "A")
      decide
  have first : Shown sampleUser (run (record sampleUser) ⟨∅, []⟩ twoDeliveries) (ascii "A") 1 1
      (ascii "g1") := by decide
  refine ⟨first, fun second => ?_⟩
  exact absurd (triple_denotes_one_message sampleUser ∅ (fun key _ => get_empty key) twoDeliveries
    safe _ _ _ _ _ first second) (by decide)

/-- A mailbox created by a delivery always starts with validity 1 and UID 1, so
delivering, deleting and delivering again shows two messages under one triple. -/
theorem redelivery_reuses_triple :
    let history := run (record sampleUser) ⟨∅, []⟩
      [.command (sampleDelivery "A" "g1"), .command (.delete (ascii "A")),
        .command (sampleDelivery "A" "g2")]
    Shown sampleUser history (ascii "A") 1 1 (ascii "g1") ∧
      Shown sampleUser history (ascii "A") 1 1 (ascii "g2") ∧ ascii "g1" ≠ ascii "g2" := by
  decide

end Runs

end Bongo.MailboxHistory
