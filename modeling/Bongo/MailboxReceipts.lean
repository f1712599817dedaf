import Bongo.MailboxStore

/-!
The UID a caller gets for a message it stores. The replicated command assigns one,
but `DeliverMessage`, `AppendMessage` and the IMAP `Copy` and `Move` drop its
result: they load the mailbox afterwards and take the UID before its next one.
Reads and commands are on one node.
-/

namespace Bongo.MailboxReceipts

open ByteKeys KeyValue MailboxKeys Mailbox MailboxTree MailboxSteps MailboxBounds MailboxStore
open Records Histories

inductive Call where
  | deliver (mailbox mailMeta : Bytes) (flags : UInt32)
  | append (mailbox mailGuid : Bytes) (flags : UInt32) (internalDate : Int64)
  | copy (srcMailbox : Bytes) (uid : UInt32) (dstMailbox : Bytes)
  | move (srcMailbox : Bytes) (uid : UInt32) (dstMailbox : Bytes)

def Call.mailbox : Call → Bytes
  | .deliver mailbox _ _ | .append mailbox _ _ _ | .copy _ _ mailbox | .move _ _ mailbox => mailbox

def Call.command (userID : Bytes) : Call → Option RaftCommand
  | .deliver mailbox mailMeta flags => some (deliverMessage userID mailbox mailMeta flags)
  | .append mailbox mailGuid flags internalDate =>
    (appendMessage userID mailbox mailGuid flags internalDate).toOption
  | .copy srcMailbox uid dstMailbox => some (copyMessage userID srcMailbox uid dstMailbox)
  | .move srcMailbox uid dstMailbox => some (moveMessage userID srcMailbox uid dstMailbox)

/-- Where the next message of a mailbox is stored; a delivery creates a missing one. -/
def nextUID (t : Tree) (mailbox : Bytes) : UInt32 := (t.metas mailbox).elim 1 (·.uidNext)

/-- A call whose command is applied and that has not loaded the mailbox yet. `later`
counts the messages that other calls have stored in the mailbox since. -/
structure Placed where
  mailbox : Bytes
  uid : UInt32
  later : Nat
  deriving DecidableEq

def Placed.pass (mailbox : Bytes) (call : Placed) : Placed :=
  if call.mailbox = mailbox then { call with later := call.later + 1 } else call

structure World where
  ps : PebbleStore
  placed : List Placed

inductive Event where
  | apply (call : Call)
  | load (position : Nat)

variable (user : UserID)

def step (world : World) : Event → World
  | .apply call =>
    match (call.command user.bytes).map (applyMailboxCommand world.ps) with
    | some (.ok (after, _)) =>
      { ps := after
        placed := ⟨call.mailbox, nextUID (tree world.ps user.bytes) call.mailbox, 0⟩ ::
          world.placed.map (Placed.pass call.mailbox) }
    | _ => world
  | .load position => { world with placed := world.placed.eraseIdx position }

def receipt (world : World) (call : Placed) : Option UInt32 :=
  (readMailboxMeta world.ps user.bytes call.mailbox).toOption.map (·.uidNext - 1)

def Reports (world : World) : Event → Prop
  | .apply _ => True
  | .load position =>
    ∀ call ∈ world.placed[position]?, receipt user world call = some call.uid

/-- UIDs have 32 bits, so that 2 ^ 32 messages in between would not show. -/
def Undisturbed (world : World) : Event → Prop
  | .apply _ => True
  | .load position => ∀ call ∈ world.placed[position]?, 2 ^ 32 ∣ call.later

instance (world : World) : (event : Event) → Decidable (Undisturbed world event)
  | .apply _ => isTrue trivial
  | .load position => inferInstanceAs (Decidable (∀ call ∈ world.placed[position]?, _))

section Steps

variable {user}

def Places (mailbox : Bytes) : MailboxOp → Prop
  | .append name _ | .deliver name _ => name = mailbox
  | .copy (.json (.transfer payload)) | .move (.json (.transfer payload)) =>
    payload.dstMailbox = mailbox
  | _ => False

theorem Call.command_op {call : Call} {cmd : RaftCommand}
    (issued : call.command user.bytes = some cmd) :
    ∃ op, cmd = op.command user.bytes ∧ Places call.mailbox op := by
  cases call with
  | append mailbox mailGuid flags internalDate =>
    have built := toOption_some issued
    simp only [appendMessage, bind_ok, pure, Except.pure, Except.ok.injEq] at built
    obtain ⟨data, -, rfl⟩ := built
    exact ⟨.append mailbox data, rfl, rfl⟩
  | deliver _ _ _ | copy _ _ _ | move _ _ _ =>
    cases issued
    exact ⟨_, rfl, rfl⟩

/-- The message is stored at the mailbox's next UID, and nothing else is stored. -/
theorem Step.places {t after : Tree} {op : MailboxOp} {mailbox : Bytes}
    (places : Places mailbox op) (stepped : Step t op after) :
    ∃ mbMeta msg, mbMeta.uidNext = nextUID t mailbox ∧ (after = t.place mailbox mbMeta msg ∨
        ∃ name uid, after = (t.place mailbox mbMeta msg).setMessage name uid none) := by
  cases stepped with
  | append parsed found =>
    obtain rfl := places
    exact ⟨_, _, by simp [nextUID, found], .inl rfl⟩
  | deliver found =>
    obtain rfl := places
    rcases found with found | ⟨missing, rfl⟩
    · exact ⟨_, _, by simp [nextUID, found], .inl rfl⟩
    · exact ⟨_, _, by simp [nextUID, missing, freshMeta], .inl rfl⟩
  | copy source found =>
    obtain rfl := places
    exact ⟨_, _, by simp [nextUID, found], .inl rfl⟩
  | move source found =>
    obtain rfl := places
    exact ⟨_, _, by simp [nextUID, found], .inr ⟨_, _, rfl⟩⟩
  | delete _ | expunge _ _ | rename _ _ _ _ | subscribe _ => exact places.elim

/-- The next UID is ahead of a call's own by the messages stored since. -/
def Counted (t : Tree) (call : Placed) : Prop :=
  (t.metas call.mailbox).map (·.uidNext) = some (call.uid + 1 + UInt32.ofNat call.later)

structure Kept (user : UserID) (world : World) : Prop where
  tidy : Tidy world.ps user.bytes
  counted : ∀ call ∈ world.placed, Counted (tree world.ps user.bytes) call

theorem Counted.pass {t after : Tree} {mailbox : Bytes} {call : Placed} (counted : Counted t call)
    (metas : ∀ name, (after.metas name).map (·.uidNext) =
      if mailbox = name then some (nextUID t mailbox + 1) else (t.metas name).map (·.uidNext)) :
    Counted after (call.pass mailbox) := by
  unfold Placed.pass
  split
  · rename_i same
    subst same
    obtain ⟨mbMeta, found, next⟩ := Option.map_eq_some_iff.mp counted
    simp only [Counted, metas, nextUID, found, Option.elim_some, next]
    simp [UInt32.add_assoc]
  · rename_i other
    rw [Counted, metas, if_neg (Ne.symm other)]
    exact counted

theorem Kept.step {world : World} (kept : Kept user world) (event : Event) :
    Kept user (step user world event) := by
  cases event with
  | load position =>
    exact { kept with
      counted := fun call member => kept.counted call (List.mem_of_mem_eraseIdx member) }
  | apply call =>
    simp only [MailboxReceipts.step]
    split
    · rename_i after result applied
      obtain ⟨cmd, issued, landed⟩ := Option.map_eq_some_iff.mp applied
      obtain ⟨op, rfl, places⟩ := Call.command_op issued
      obtain ⟨stepped, batch, rfl, lawful⟩ := command_step user kept.tidy op _ _ landed
      have metas : ∀ name, ((tree (commit world.ps batch) user.bytes).metas name).map (·.uidNext) =
          if call.mailbox = name then some (nextUID (tree world.ps user.bytes) call.mailbox + 1)
          else ((tree world.ps user.bytes).metas name).map (·.uidNext) := by
        intro name
        obtain ⟨mbMeta, msg, next, shape | ⟨source, uid, shape⟩⟩ := Step.places places stepped
        all_goals
          rw [shape, ← next]
          simp only [Tree.place, setMessage_metas, setMeta_metas]
          split <;> rfl
      refine ⟨kept.tidy.commit batch lawful, List.forall_mem_cons.mpr ⟨?_, ?_⟩⟩
      · simp [Counted, metas]
      · intro later member
        obtain ⟨earlier, inside, rfl⟩ := List.mem_map.mp member
        exact (kept.counted earlier inside).pass metas
    · exact kept

theorem Kept.reports_iff {world : World} (kept : Kept user world) (event : Event) :
    Reports user world event ↔ Undisturbed world event := by
  cases event with
  | apply call => exact Iff.rfl
  | load position =>
    refine forall₂_congr fun call found => ?_
    obtain ⟨mbMeta, stored, next⟩ :=
      Option.map_eq_some_iff.mp (kept.counted call (List.mem_of_getElem? found))
    have read := (readMailboxMeta_ok world.ps user.bytes call.mailbox mbMeta).mpr stored
    have ahead : call.uid + 1 + UInt32.ofNat call.later - 1 = call.uid ↔
        UInt32.ofNat call.later = 0 := by grind
    simp only [receipt, read, Except.toOption, Option.map_some, Option.some.injEq, next, ahead,
      ← UInt32.toNat_inj, Nat.dvd_iff_mod_eq_zero]
    rfl

end Steps

/-- Calls report where their messages were stored exactly in those runs in which none
loads a mailbox that has got another message since. -/
theorem reported_uid_iff (start : PebbleStore) (tidy : Tidy start user.bytes)
    (events : List Event) :
    Along (step user) (Reports user) ⟨start, []⟩ events ↔
      Along (step user) Undisturbed ⟨start, []⟩ events :=
  along_congr (fun _ event (kept : Kept user _) => kept.step event)
    (fun _ event kept => kept.reports_iff event) ⟨tidy, List.forall_mem_nil _⟩

def sampleCall (mailbox guid : String) : Call := .deliver (ascii mailbox) (sampleMail guid) 0

/-- Between the two steps of a delivery, one to another mailbox lands. -/
theorem reported_uid_iff_apart :
    Along (step sampleUser) (Reports sampleUser) ⟨∅, []⟩
      [.apply (sampleCall "INBOX" "g1"), .apply (sampleCall "A" "g2"), .load 1, .load 0] :=
  (reported_uid_iff sampleUser ∅ (tidy_empty sampleUser ∅ fun _ _ => rfl) _).mpr
    (by decide)

/-- Of two concurrent deliveries, both are given the UID of the second. -/
theorem two_deliveries_share_receipt :
    let world := run (step sampleUser) ⟨∅, []⟩
      [.apply (sampleCall "INBOX" "g1"), .apply (sampleCall "INBOX" "g2")]
    world.placed.map (·.uid) = [2, 1] ∧
      world.placed.map (receipt sampleUser world) = [some 2, some 2] := by
  decide

end Bongo.MailboxReceipts
