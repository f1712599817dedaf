import Bongo.ImapViews

/-!
Sequence numbers in commands. A client's number `n` means the `n`th message of
the list it holds, which is the session's `reported`. `Fetch`, `Store`, `Copy`
and `Move` look the number up in a fresh listing of the mailbox instead, and
`Search` answers in the client's numbers but reads no sequence set.
-/

namespace Bongo.ImapNumbers

open Histories ImapSession ImapViews Views ByteKeys Records Mailbox MailboxStore

/-- What a command can find: the mailbox as it is now and what the client has
been told, whatever other sessions have done since. -/
structure Scene where
  folder : Folder
  reported : List UInt32
  tracked : Tracked folder reported

def sceneOf (folder : Folder) (numbered : Numbered folder) (events : List Event)
    (steady : Along step Steady (start folder) events) : Scene where
  folder := (run step (start folder) events).folder
  reported := (run step (start folder) events).reported
  tracked := (run_invariant (fun _ event lawful steady => lawful.step event steady)
    (lawful_start numbered) steady).tracked

/-- The criteria of a `SEARCH`: a sequence set, and all the rest taken together
as a test of the message. -/
structure SearchCriteria where
  seqNum : Nat → Bool
  others : MailboxMessage → Bool

def search (criteria : SearchCriteria) (folder : Folder) (reported : List UInt32) :
    List (UInt32 × Nat) :=
  ((folder.messages.filter criteria.others).map fun msg =>
    (msg.uid, reportedSeqNum reported msg.uid)).filter fun found => 0 < found.2

inductive Command where
  | act (act : Act)
  | search (others : MailboxMessage → Bool)

/-- The messages a command with this sequence set acts on or answers with, each
with the number the client hears. -/
def targets (scene : Scene) (contains : Nat → Bool) : Command → List (UInt32 × Nat)
  | .act _ => chosen (.seq contains) scene.folder.uids
  | .search others => search ⟨contains, others⟩ scene.folder scene.reported

def wanted : Command → MailboxMessage → Bool
  | .act _, _ => true
  | .search others, msg => others msg

/-- The message that is still in the mailbox, that the command asks for, and
that has this number in the client's list. -/
def Occupies (scene : Scene) (contains : Nat → Bool) (command : Command) (uid : UInt32)
    (seqNum : Nat) : Prop :=
  1 ≤ seqNum ∧ contains seqNum = true ∧ scene.reported[seqNum - 1]? = some uid ∧
    ∃ msg ∈ scene.folder.messages, msg.uid = uid ∧ wanted command msg = true

def Resolves (scene : Scene) (contains : Nat → Bool) (command : Command) : Prop :=
  ∀ uid seqNum, (uid, seqNum) ∈ targets scene contains command ↔
    Occupies scene contains command uid seqNum

/-- Up to this number of the client nothing was removed; or the mailbox has
fewer messages than that, and the one the client means is gone. -/
def Unshifted (scene : Scene) (seqNum : Nat) : Prop :=
  seqNum ≤ scene.reported.length ∧ (∀ uid ∈ scene.reported.take seqNum, uid ∈ scene.folder.uids) ∨
    scene.folder.uids.length < seqNum ∧
      ∀ uid, scene.reported[seqNum - 1]? = some uid → uid ∉ scene.folder.uids

/-- For a command on messages, every number it names is unshifted; for a
search, the sequence set leaves out nothing that the other criteria find. -/
def Settled (scene : Scene) (contains : Nat → Bool) : Command → Prop
  | .act _ => ∀ seqNum, 1 ≤ seqNum → contains seqNum = true → Unshifted scene seqNum
  | .search others => ∀ msg ∈ scene.folder.messages, others msg = true →
      msg.uid ∈ scene.reported → contains (reportedSeqNum scene.reported msg.uid) = true

section Acting

variable {scene : Scene} {seqNum : Nat}

/-- What the two listings have at a number, when nothing moved. -/
theorem Unshifted.agree (unshifted : Unshifted scene seqNum) (positive : 1 ≤ seqNum)
    (uid : UInt32) :
    scene.folder.uids[seqNum - 1]? = some uid ↔
      scene.reported[seqNum - 1]? = some uid ∧ uid ∈ scene.folder.uids := by
  rcases unshifted with ⟨known, present⟩ | ⟨short, gone⟩
  · -- the first part of the client's list leads the mailbox
    have kept : (scene.reported.take seqNum).filter (· ∈ scene.folder.uids) =
        scene.reported.take seqNum :=
      List.filter_eq_self.mpr fun other member => decide_eq_true (present other member)
    have leads : scene.reported.take seqNum <+: scene.folder.uids := by
      have first : (scene.reported.take seqNum).filter (· ∈ scene.folder.uids) <+:
          scene.reported.filter (· ∈ scene.folder.uids) := (List.take_prefix _ _).filter _
      rw [kept] at first
      exact first.trans ⟨_, scene.tracked.split⟩
    have inside : seqNum - 1 < (scene.reported.take seqNum).length := by
      rw [List.length_take, min_eq_left known]
      omega
    have same : scene.folder.uids[seqNum - 1]? = scene.reported[seqNum - 1]? := by
      rw [leads_getElem leads inside, List.getElem?_take_of_lt (by omega)]
    rw [same]
    constructor
    · intro here
      refine ⟨here, present uid ?_⟩
      exact List.mem_of_getElem? ((List.getElem?_take_of_lt (by omega)).trans here)
    · exact fun both => both.1
  · rw [List.getElem?_eq_none (by omega)]
    constructor
    · intro absurdity
      cases absurdity
    · rintro ⟨here, listed⟩
      exact absurd listed (gone uid here)

theorem unshifted_of_agree (positive : 1 ≤ seqNum)
    (agree : ∀ uid, scene.folder.uids[seqNum - 1]? = some uid ↔
      scene.reported[seqNum - 1]? = some uid ∧ uid ∈ scene.folder.uids) :
    Unshifted scene seqNum := by
  rcases Nat.lt_or_ge scene.folder.uids.length seqNum with short | reaches
  · right
    refine ⟨short, fun uid here listed => ?_⟩
    have there := (agree uid).mpr ⟨here, listed⟩
    rw [List.getElem?_eq_none (by omega)] at there
    cases there
  · left
    have bound : seqNum - 1 < scene.folder.uids.length := by omega
    obtain ⟨here, listed⟩ := (agree _).mp (List.getElem?_eq_getElem bound)
    have once : scene.folder.uids.Nodup :=
      scene.tracked.numbered.ascending.imp fun less => ne_of_lt less
    -- the message is in the known part of the mailbox, and at the same place there
    have leads : scene.reported.filter (· ∈ scene.folder.uids) <+: scene.folder.uids :=
      ⟨_, scene.tracked.split⟩
    have member : scene.folder.uids[seqNum - 1] ∈
        scene.reported.filter (· ∈ scene.folder.uids) :=
      List.mem_filter.mpr ⟨List.mem_of_getElem? here, decide_eq_true listed⟩
    obtain ⟨place, found⟩ := List.mem_iff_getElem?.mp member
    have inside := (List.getElem?_eq_some_iff.mp found).1
    have there : scene.folder.uids[place]? = some scene.folder.uids[seqNum - 1] := by
      rw [leads_getElem leads inside, found]
    have same : place = seqNum - 1 :=
      (List.getElem?_inj (List.getElem?_eq_some_iff.mp there).1 once).mp
        (there.trans (List.getElem?_eq_getElem bound).symm)
    rw [same] at found
    have all := filter_fixed _ scene.reported scene.tracked.nodup (seqNum - 1) _ here found
    rw [Nat.sub_add_cancel positive] at all
    have reach := (List.getElem?_eq_some_iff.mp here).1
    exact ⟨by omega, fun uid early => of_decide_eq_true (all uid early)⟩

theorem unshifted_iff (positive : 1 ≤ seqNum) :
    Unshifted scene seqNum ↔ ∀ uid, scene.folder.uids[seqNum - 1]? = some uid ↔
      scene.reported[seqNum - 1]? = some uid ∧ uid ∈ scene.folder.uids :=
  ⟨fun unshifted uid => unshifted.agree positive uid, unshifted_of_agree positive⟩

theorem act_resolves_iff (contains : Nat → Bool) (act : Act) :
    Resolves scene contains (.act act) ↔ Settled scene contains (.act act) := by
  have occupied : ∀ uid seqNum, Occupies scene contains (.act act) uid seqNum ↔
      1 ≤ seqNum ∧ contains seqNum = true ∧
        (scene.reported[seqNum - 1]? = some uid ∧ uid ∈ scene.folder.uids) := by
    intro uid seqNum
    simp [Occupies, wanted, mem_uids]
  have acted : ∀ uid seqNum, (uid, seqNum) ∈ targets scene contains (.act act) ↔
      1 ≤ seqNum ∧ scene.folder.uids[seqNum - 1]? = some uid ∧ contains seqNum = true :=
    fun uid seqNum => mem_places _ _ uid seqNum
  constructor
  · intro resolves seqNum positive named
    refine (unshifted_iff positive).mpr fun uid => ?_
    have here := resolves uid seqNum
    rw [acted, occupied] at here
    tauto
  · intro settled uid seqNum
    rw [acted, occupied]
    constructor
    · rintro ⟨positive, here, named⟩
      exact ⟨positive, named, ((settled seqNum positive named).agree positive uid).mp here⟩
    · rintro ⟨positive, named, here⟩
      exact ⟨positive, ((settled seqNum positive named).agree positive uid).mpr here, named⟩

end Acting

section Searching

variable {scene : Scene}

theorem reportedSeqNum_iff {reported : List UInt32} (once : reported.Nodup) (uid : UInt32)
    {seqNum : Nat} (positive : 1 ≤ seqNum) :
    reportedSeqNum reported uid = seqNum ↔ reported[seqNum - 1]? = some uid := by
  rw [reportedSeqNum]
  split
  · rename_i known
    have found := List.getElem?_idxOf known
    constructor
    · intro same
      rw [← same, Nat.add_sub_cancel, found]
    · intro here
      have place := (List.getElem?_inj (List.getElem?_eq_some_iff.mp found).1 once).mp
        (found.trans here.symm)
      omega
  · rename_i unknown
    constructor
    · omega
    · exact fun here => absurd (List.mem_of_getElem? here) unknown

theorem reportedSeqNum_pos (reported : List UInt32) (uid : UInt32) :
    0 < reportedSeqNum reported uid ↔ uid ∈ reported := by
  rw [reportedSeqNum]
  split <;> simp [*]

theorem mem_search (contains : Nat → Bool) (others : MailboxMessage → Bool) (uid : UInt32)
    (seqNum : Nat) :
    (uid, seqNum) ∈ targets scene contains (.search others) ↔
      1 ≤ seqNum ∧ scene.reported[seqNum - 1]? = some uid ∧
        ∃ msg ∈ scene.folder.messages, msg.uid = uid ∧ others msg = true := by
  simp only [targets, search, List.mem_filter, List.mem_map, Prod.mk.injEq, decide_eq_true_eq]
  constructor
  · rintro ⟨⟨msg, ⟨listed, meets⟩, rfl, number⟩, positive⟩
    exact ⟨positive, (reportedSeqNum_iff scene.tracked.nodup _ positive).mp number, msg, listed,
      rfl, meets⟩
  · rintro ⟨positive, here, msg, listed, rfl, meets⟩
    exact ⟨⟨msg, ⟨listed, meets⟩, rfl,
      (reportedSeqNum_iff scene.tracked.nodup _ positive).mpr here⟩, positive⟩

theorem search_resolves_iff (contains : Nat → Bool) (others : MailboxMessage → Bool) :
    Resolves scene contains (.search others) ↔ Settled scene contains (.search others) := by
  constructor
  · intro resolves msg listed meets known
    have positive := (reportedSeqNum_pos scene.reported msg.uid).mpr known
    have here := (reportedSeqNum_iff scene.tracked.nodup msg.uid positive).mp rfl
    have found := (mem_search contains others msg.uid _).mpr
      ⟨positive, here, msg, listed, rfl, meets⟩
    exact ((resolves msg.uid _).mp found).2.1
  · intro settled uid seqNum
    rw [mem_search]
    constructor
    · rintro ⟨positive, here, msg, listed, rfl, meets⟩
      have named := settled msg listed meets (List.mem_of_getElem? here)
      rw [(reportedSeqNum_iff scene.tracked.nodup msg.uid positive).mpr here] at named
      exact ⟨positive, named, here, msg, listed, rfl, meets⟩
    · rintro ⟨positive, -, here, found⟩
      exact ⟨positive, here, found⟩

end Searching

/-- A command acts on exactly the messages that its numbers mean to the client
if and only if its numbers are settled. -/
theorem numbers_resolve_iff (scene : Scene) (contains : Nat → Bool) (command : Command) :
    Resolves scene contains command ↔ Settled scene contains command := by
  cases command with
  | act act => exact act_resolves_iff contains act
  | search others => exact search_resolves_iff contains others

/-- Three messages were reported, and another session took the first. -/
def shiftedScene : Scene where
  folder := { messages := [sampleMessage 2, sampleMessage 3], uidNext := 4 }
  reported := [1, 2, 3]
  tracked := ⟨by decide, by decide, by decide, by decide⟩

/-- `STORE 2` marks the third message of the client, not the second, and a
`SEARCH` among the first message only finds the other two. -/
theorem shifted_number_names_another :
    targets shiftedScene (· == 2) (.act (store (some (.addFlags flagDeleted)) fun _ => none)) =
        [(3, 2)] ∧
      Occupies shiftedScene (· == 2)
        (.act (store (some (.addFlags flagDeleted)) fun _ => none)) 2 2 ∧
      targets shiftedScene (· == 1) (.search fun _ => true) = [(2, 2), (3, 3)] ∧
      ¬ Resolves shiftedScene (· == 2)
        (.act (store (some (.addFlags flagDeleted)) fun _ => none)) := by
  have stored : targets shiftedScene (· == 2)
      (.act (store (some (.addFlags flagDeleted)) fun _ => none)) = [(3, 2)] := by decide
  have meant : Occupies shiftedScene (· == 2)
      (.act (store (some (.addFlags flagDeleted)) fun _ => none)) 2 2 :=
    ⟨by decide, by decide, by decide, sampleMessage 2, List.mem_cons_self, rfl, rfl⟩
  refine ⟨stored, meant, by decide, fun resolves => ?_⟩
  have listed := (resolves 2 2).mpr meant
  rw [stored] at listed
  exact absurd listed (by decide)

end Bongo.ImapNumbers
