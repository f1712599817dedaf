import Bongo.ImapSession

/-!
When the client's list is the session's `reported`. Two invariants carry this.
`Lawful` says how the session's knowledge and the mailbox hang together: both
are ascending, and whatever the client has not been told about is younger than
all it has. `Told` says that the client and the session agree, and that the
numbers a `Move` is going to send are the client's.
-/

namespace Bongo.ImapViews

open Histories ImapSession Views Records Mailbox MailboxStore
open MailboxBounds (lt_succ_of_room)

scoped instance uidOrder : LinearOrder UInt32 where
  le_refl := UInt32.le_refl
  le_trans _ _ _ := UInt32.le_trans
  le_antisymm _ _ := UInt32.le_antisymm
  le_total := UInt32.le_total
  lt_iff_le_not_ge left right := by
    rw [UInt32.not_le]
    exact ⟨fun less => ⟨UInt32.le_of_lt less, less⟩, fun both => both.2⟩
  toDecidableLE := inferInstance
  toDecidableEq := inferInstance
  toDecidableLT := inferInstance
  min_def _ _ := rfl
  max_def _ _ := rfl

/-- By going through the list, not through all UIDs. -/
scoped instance (priority := 2000) decidableUids (uids : List UInt32) (p : UInt32 → Prop)
    [DecidablePred p] : Decidable (∀ uid ∈ uids, p uid) := List.decidableBAll p uids

variable {uid : UInt32}

section Folders

variable {folder after : Folder}

theorem mem_uids (uid : UInt32) : uid ∈ folder.uids ↔ ∃ msg ∈ folder.messages, msg.uid = uid :=
  List.mem_map

theorem mem_put (msg other : MailboxMessage) :
    other ∈ (folder.put msg).messages ↔
      other = msg ∨ other ∈ folder.messages ∧ other.uid ≠ msg.uid := by
  simp only [Folder.put, List.mem_append, List.mem_filter, List.mem_cons, decide_eq_true_eq]
  have split : other.uid ≠ msg.uid ↔ other.uid < msg.uid ∨ msg.uid < other.uid := ne_iff_lt_or_gt
  rw [split]
  tauto

theorem mem_uids_put (msg : MailboxMessage) (uid : UInt32) :
    uid ∈ (folder.put msg).uids ↔ uid = msg.uid ∨ uid ∈ folder.uids := by
  simp only [mem_uids, mem_put]
  constructor
  · rintro ⟨other, rfl | ⟨listed, -⟩, rfl⟩
    · exact Or.inl rfl
    · exact Or.inr ⟨other, listed, rfl⟩
  rintro (rfl | ⟨other, listed, rfl⟩)
  · exact ⟨msg, Or.inl rfl, rfl⟩
  · by_cases same : other.uid = msg.uid
    · exact ⟨msg, Or.inl rfl, same.symm⟩
    · exact ⟨other, Or.inr ⟨listed, same⟩, rfl⟩

theorem mem_remove (uid : UInt32) (msg : MailboxMessage) :
    msg ∈ (folder.remove uid).messages ↔ msg ∈ folder.messages ∧ msg.uid ≠ uid := by
  simp [Folder.remove]

theorem mem_expunge (msg : MailboxMessage) :
    msg ∈ folder.expunge.messages ↔ msg ∈ folder.messages ∧ markedDeleted msg = false := by
  simp [Folder.expunge]

theorem find_some {msg : MailboxMessage} (found : folder.find uid = some msg) :
    msg ∈ folder.messages ∧ msg.uid = uid :=
  ⟨List.mem_of_find?_eq_some found, by simpa using List.find?_some found⟩

/-- The messages are in UID order and below the next UID. -/
@[mk_iff]
structure Numbered (folder : Folder) : Prop where
  ascending : folder.uids.Pairwise (· < ·)
  below : ∀ uid ∈ folder.uids, uid < folder.uidNext

instance (folder : Folder) : Decidable (Numbered folder) :=
  decidable_of_iff _ (numbered_iff folder).symm

/-- A later state of a mailbox: UIDs are used once. -/
structure Evolves (before after : Folder) : Prop where
  numbered : Numbered after
  next : before.uidNext ≤ after.uidNext
  kept : ∀ uid ∈ after.uids, uid < before.uidNext → uid ∈ before.uids

/-- The records that were there before are as they were. -/
def Intact (before after : Folder) : Prop :=
  ∀ msg ∈ after.messages, msg.uid < before.uidNext → msg ∈ before.messages

theorem Numbered.sublist (numbered : Numbered folder)
    (fewer : after.messages.Sublist folder.messages) (next : after.uidNext = folder.uidNext) :
    Numbered after := by
  have uids : after.uids.Sublist folder.uids := fewer.map _
  refine ⟨numbered.ascending.sublist uids, fun uid member => ?_⟩
  rw [next]
  exact numbered.below uid (uids.subset member)

theorem Numbered.evolves_sublist (numbered : Numbered folder)
    (fewer : after.messages.Sublist folder.messages) (next : after.uidNext = folder.uidNext) :
    Evolves folder after :=
  ⟨numbered.sublist fewer next, le_of_eq next.symm, fun _ member _ => (fewer.map _).subset member⟩

theorem intact_of_sublist (fewer : after.messages.Sublist folder.messages) :
    Intact folder after := fun _ member _ => fewer.subset member

theorem ordered_put (ordered : folder.messages.Pairwise fun left right => left.uid < right.uid)
    (msg : MailboxMessage) :
    (folder.put msg).messages.Pairwise fun left right => left.uid < right.uid := by
  rw [Folder.put, List.pairwise_append, List.pairwise_cons]
  refine ⟨ordered.filter _, ⟨fun other member => ?_, ordered.filter _⟩, ?_⟩
  · simpa using (List.mem_filter.mp member).2
  intro left before right behind
  have smaller : left.uid < msg.uid := by simpa using (List.mem_filter.mp before).2
  rcases List.mem_cons.mp behind with rfl | later
  · exact smaller
  · exact lt_trans smaller (by simpa using (List.mem_filter.mp later).2)

theorem Numbered.ascending_put (numbered : Numbered folder) (msg : MailboxMessage) :
    (folder.put msg).uids.Pairwise (· < ·) :=
  List.pairwise_map.mpr (ordered_put (List.pairwise_map.mp numbered.ascending) msg)

theorem Numbered.evolves_put (numbered : Numbered folder) {msg : MailboxMessage}
    (present : msg.uid ∈ folder.uids) : Evolves folder (folder.put msg) := by
  have same : ∀ uid, uid ∈ (folder.put msg).uids → uid ∈ folder.uids := by
    intro uid member
    rcases (mem_uids_put msg uid).mp member with rfl | listed
    · exact present
    · exact listed
  exact ⟨⟨numbered.ascending_put msg, fun uid member => numbered.below uid (same uid member)⟩,
    le_refl _, fun uid member _ => same uid member⟩

theorem Numbered.evolves_arrive (numbered : Numbered folder) (room : folder.uidNext ≠ 0xFFFFFFFF)
    (msg : MailboxMessage) : Evolves folder (folder.arrive msg) := by
  have grows := lt_succ_of_room folder.uidNext room
  refine ⟨⟨numbered.ascending_put _, ?_⟩, le_of_lt grows, ?_⟩
  · intro uid member
    rcases (mem_uids_put _ uid).mp member with rfl | listed
    · exact grows
    · exact lt_trans (numbered.below uid listed) grows
  · intro uid member old
    rcases (mem_uids_put _ uid).mp member with rfl | listed
    · exact absurd old (lt_irrefl _)
    · exact listed

theorem intact_arrive (msg : MailboxMessage) : Intact folder (folder.arrive msg) := by
  intro other member old
  rcases (mem_put _ other).mp member with rfl | ⟨listed, -⟩
  · exact absurd old (lt_irrefl _)
  · exact listed

theorem Evolves.trans {later : Folder} (first : Evolves folder after)
    (second : Evolves after later) : Evolves folder later :=
  ⟨second.numbered, le_trans first.next second.next, fun uid member old =>
    first.kept uid (second.kept uid member (lt_of_lt_of_le old first.next)) old⟩

theorem Intact.trans {later : Folder} (first : Intact folder after) (second : Intact after later)
    (next : folder.uidNext ≤ after.uidNext) : Intact folder later :=
  fun msg member old => first msg (second msg member (lt_of_lt_of_le old next)) old

def Gone (folder : Folder) (uid : UInt32) : Prop := uid ∉ folder.uids ∧ uid < folder.uidNext

theorem Gone.evolves (gone : Gone folder uid) (evolves : Evolves folder after) : Gone after uid :=
  ⟨fun back => gone.1 (evolves.kept uid back gone.2), lt_of_lt_of_le gone.2 evolves.next⟩

theorem Numbered.gone_remove (numbered : Numbered folder) (present : uid ∈ folder.uids) :
    Gone (folder.remove uid) uid := by
  refine ⟨fun still => ?_, numbered.below uid present⟩
  obtain ⟨msg, kept, same⟩ := (mem_uids uid).mp still
  exact ((mem_remove uid msg).mp kept).2 same

/-- Distinct UIDs: whoever carries a marked UID is marked. -/
theorem gone_expunge (known : uid < folder.uidNext)
    (marked : ∀ msg ∈ folder.messages, msg.uid = uid → markedDeleted msg = true) :
    Gone folder.expunge uid := by
  refine ⟨fun still => ?_, known⟩
  obtain ⟨msg, kept, same⟩ := (mem_uids uid).mp still
  obtain ⟨listed, unmarked⟩ := mem_expunge msg |>.mp kept
  rw [marked msg listed same] at unmarked
  cases unmarked

theorem Numbered.marked_marked (numbered : Numbered folder) (member : uid ∈ folder.marked)
    (msg : MailboxMessage) (listed : msg ∈ folder.messages) (same : msg.uid = uid) :
    markedDeleted msg = true := by
  obtain ⟨other, found, rfl⟩ := List.mem_map.mp member
  obtain ⟨here, marked⟩ := List.mem_filter.mp found
  have once : (folder.messages.map (·.uid)).Nodup := numbered.ascending.imp fun less =>
    ne_of_lt less
  rw [List.inj_on_of_nodup_map once listed here same]
  exact marked

theorem marked_listed (member : uid ∈ folder.marked) : uid ∈ folder.uids := by
  obtain ⟨msg, found, rfl⟩ := List.mem_map.mp member
  exact List.mem_map_of_mem (List.mem_of_mem_filter found)

end Folders

variable {phase : Phase}

section Knowing

structure Tracked (folder : Folder) (reported : List UInt32) : Prop where
  numbered : Numbered folder
  ascending : reported.Pairwise (· < ·)
  below : ∀ uid ∈ reported, uid < folder.uidNext
  fresh : ∀ uid ∈ folder.uids, uid ∉ reported → ∀ seen ∈ reported, seen < uid

variable {folder after : Folder} {reported : List UInt32}

section

variable (tracked : Tracked folder reported)
include tracked

theorem Tracked.evolves (evolves : Evolves folder after) :
    Tracked after reported := by
  refine ⟨evolves.numbered, tracked.ascending,
    fun uid known => lt_of_lt_of_le (tracked.below uid known) evolves.next, ?_⟩
  intro uid listed unknown seen known
  by_cases old : uid < folder.uidNext
  · exact tracked.fresh uid (evolves.kept uid listed old) unknown seen known
  · exact lt_of_lt_of_le (tracked.below seen known) (not_lt.mp old)

theorem Tracked.erase (gone : uid ∉ folder.uids) :
    Tracked folder (reported.erase uid) := by
  refine ⟨tracked.numbered, tracked.ascending.sublist List.erase_sublist,
    fun seen known => tracked.below seen (List.mem_of_mem_erase known), ?_⟩
  intro other listed unknown seen known
  have differs : other ≠ uid := by
    rintro rfl
    exact gone listed
  exact tracked.fresh other listed
    (fun member => unknown ((List.mem_erase_of_ne differs).mpr member))
    seen (List.mem_of_mem_erase known)

theorem Tracked.erases (uids : List UInt32) (gone : ∀ uid ∈ uids, uid ∉ folder.uids) :
    Tracked folder (uids.foldl List.erase reported) := by
  induction uids generalizing reported with
  | nil => exact tracked
  | cons uid rest ih =>
    exact ih (tracked.erase (gone uid List.mem_cons_self))
      fun other member => gone other (List.mem_cons_of_mem _ member)

end

theorem Numbered.tracked_all (numbered : Numbered folder) : Tracked folder folder.uids :=
  ⟨numbered, numbered.ascending, numbered.below, fun _ listed unknown => absurd listed unknown⟩

theorem Tracked.nodup (tracked : Tracked folder reported) : reported.Nodup :=
  tracked.ascending.imp fun less => ne_of_lt less

/-- What the client knows and still is there comes first in the mailbox. -/
theorem Tracked.split (tracked : Tracked folder reported) :
    reported.filter (· ∈ folder.uids) ++ folder.uids.filter (· ∉ reported) = folder.uids :=
  seen_prefix reported folder.uids tracked.ascending tracked.numbered.ascending tracked.fresh

def Holds (folder : Folder) : Phase → Prop
  | .idling channel => ∀ uid, .expunge uid ∈ channel → Gone folder uid
  | .expunging uids => ∀ uid ∈ uids, uid < folder.uidNext ∧
      ∀ msg ∈ folder.messages, msg.uid = uid → markedDeleted msg = true
  | .acting (.move _) _ moved => ∀ place ∈ moved, Gone folder place.1
  | .acting _ _ moved => moved = []
  | _ => True

theorem holds_evolves (holds : Holds folder phase) (evolves : Evolves folder after)
    (intact : Intact folder after) : Holds after phase := by
  cases phase with
  | idling channel => exact fun uid queued => (holds uid queued).evolves evolves
  | expunging uids =>
    intro uid member
    obtain ⟨known, marked⟩ := holds uid member
    refine ⟨lt_of_lt_of_le known evolves.next, fun msg listed same => ?_⟩
    exact marked msg (intact msg listed (same ▸ known)) same
  | acting act pending moved =>
    cases act with
    | rewrite changes => exact holds
    | copy here => exact holds
    | move here => exact fun place member => (holds place member).evolves evolves
  | _ => trivial

structure Lawful (s : State) : Prop where
  tracked : Tracked s.folder s.reported
  due : ∀ uid, .expunge uid ∈ s.due → Gone s.folder uid
  phase : Holds s.folder s.phase

def written : Event → Phase → List UInt32
  | .proceed, .writing _ _ _ _ msg => [msg.uid]
  | _, _ => []

/-- What no step may do: use up the UIDs, or write a message back that was
removed after the session read it. -/
def Steady (s : State) (event : Event) : Prop :=
  s.folder.uidNext ≠ 0xFFFFFFFF ∧ ∀ uid ∈ written event s.phase, uid ∈ s.folder.uids

instance (s : State) (event : Event) : Decidable (Steady s event) :=
  inferInstanceAs (Decidable (_ ∧ _))

variable {s : State}

theorem lawful_start (numbered : Numbered folder) : Lawful (start folder) := by
  refine ⟨⟨numbered, List.Pairwise.nil, ?_, ?_⟩, ?_, trivial⟩
  · exact List.forall_mem_nil _
  · exact nofun
  · exact nofun

section

variable (lawful : Lawful s)
include lawful

/-- A landed command, in any phase that it leaves alone. -/
theorem Lawful.land (evolves : Evolves s.folder after) (intact : Intact s.folder after)
    (gone : List UInt32) (arrived : Bool) (removed : ∀ uid ∈ gone, Gone after uid) :
    Lawful (ImapSession.land s after gone arrived) := by
  refine ⟨lawful.tracked.evolves evolves, ?_, holds_evolves lawful.phase evolves intact⟩
  intro uid member
  rw [ImapSession.land, List.append_assoc, List.mem_append, List.mem_append] at member
  rcases member with earlier | listed | last
  · exact (lawful.due uid earlier).evolves evolves
  · obtain ⟨other, found, same⟩ := List.mem_map.mp listed
    cases same
    exact removed _ found
  · cases arrived <;> simp at last

theorem Lawful.rephase (holds : Holds s.folder phase) :
    Lawful { s with phase := phase } :=
  ⟨lawful.tracked, lawful.due, holds⟩

theorem Lawful.remove (present : uid ∈ s.folder.uids) :
    Lawful (ImapSession.land s (s.folder.remove uid) [uid] false) := by
  have fewer : (s.folder.remove uid).messages.Sublist s.folder.messages := List.filter_sublist
  refine lawful.land (lawful.tracked.numbered.evolves_sublist fewer rfl) (intact_of_sublist fewer)
    [uid] false fun other member => ?_
  rw [List.mem_singleton.mp member]
  exact lawful.tracked.numbered.gone_remove present

theorem Lawful.purge :
    Lawful (ImapSession.land s s.folder.expunge s.folder.marked false) := by
  have fewer : s.folder.expunge.messages.Sublist s.folder.messages := List.filter_sublist
  have numbered := lawful.tracked.numbered
  exact lawful.land (numbered.evolves_sublist fewer rfl) (intact_of_sublist fewer) _ false
    fun uid member => gone_expunge (numbered.below uid (marked_listed member))
      (numbered.marked_marked member)

theorem Lawful.landCopy (room : s.folder.uidNext ≠ 0xFFFFFFFF) (here : Bool)
    (msg : MailboxMessage) : Lawful (ImapSession.landCopy s here msg) := by
  cases here with
  | false => exact lawful
  | true =>
    exact lawful.land (lawful.tracked.numbered.evolves_arrive room _) (intact_arrive _) [] true
      (List.forall_mem_nil _)

theorem Lawful.landMove (room : s.folder.uidNext ≠ 0xFFFFFFFF) (here : Bool) (msg : MailboxMessage)
    (present : msg.uid ∈ s.folder.uids) :
    Lawful (ImapSession.landMove s here msg) ∧
      Gone (ImapSession.landMove s here msg).folder msg.uid := by
  -- the copy arrives first, if it stays in this mailbox
  have arrives : ∃ folder, folder = (if here then
      s.folder.arrive (transferred msg s.folder.uidNext) else s.folder) ∧
      Evolves s.folder folder ∧ Intact s.folder folder ∧ msg.uid ∈ folder.uids := by
    cases here with
    | false => exact ⟨_, rfl, lawful.tracked.numbered.evolves_sublist (List.Sublist.refl _) rfl,
        intact_of_sublist (List.Sublist.refl _), present⟩
    | true => exact ⟨_, rfl, lawful.tracked.numbered.evolves_arrive room _, intact_arrive _,
        (mem_uids_put _ _).mpr (Or.inr present)⟩
  obtain ⟨folder, same, evolves, intact, still⟩ := arrives
  have fewer : (folder.remove msg.uid).messages.Sublist folder.messages := List.filter_sublist
  have gone := evolves.numbered.gone_remove still
  rw [ImapSession.landMove, ← same]
  refine ⟨lawful.land (evolves.trans (evolves.numbered.evolves_sublist fewer rfl))
    (intact.trans (intact_of_sublist fewer) evolves.next) [msg.uid] here ?_, gone⟩
  intro uid member
  rw [List.mem_singleton.mp member]
  exact gone

theorem Lawful.announce : Lawful (ImapSession.announce s) := by
  cases due : s.due with
  | nil =>
    rw [ImapSession.announce, due]
    exact lawful
  | cons notif rest =>
    rw [ImapSession.announce, due]
    have soon : ∀ uid, .expunge uid ∈ notif :: rest → Gone s.folder uid := due ▸ lawful.due
    refine ⟨lawful.tracked, fun uid member => soon uid (List.mem_cons_of_mem _ member), ?_⟩
    have holds := lawful.phase
    cases phase : s.phase with
    | idling channel =>
      intro uid queued
      rw [phase] at holds
      split at queued
      · rcases List.mem_append.mp queued with earlier | last
        · exact holds uid earlier
        · exact soon uid (List.mem_singleton.mp last ▸ List.mem_cons_self)
      · exact holds uid queued
    | _ =>
      rw [phase] at holds
      exact holds

theorem Lawful.reports {client : View} (holds : Holds s.folder phase) :
    Lawful { s with phase := phase, reported := s.folder.uids, client := client } :=
  ⟨lawful.tracked.numbered.tracked_all, lawful.due, holds⟩

end

theorem tellExpunged_frame (s : State) (uid : UInt32) :
    (tellExpunged s uid).folder = s.folder ∧ (tellExpunged s uid).due = s.due ∧
      (tellExpunged s uid).phase = s.phase ∧
      (tellExpunged s uid).reported = s.reported.erase uid := by
  rw [tellExpunged]
  by_cases known : uid ∈ s.reported
  · simp [reportedSeqNum, known, dropReported]
  · simp [reportedSeqNum, known, List.erase_of_not_mem known]

theorem Lawful.tell (lawful : Lawful s) (gone : uid ∉ s.folder.uids) :
    Lawful (tellExpunged s uid) := by
  obtain ⟨folder, due, phase, reported⟩ := tellExpunged_frame s uid
  refine ⟨?_, ?_, ?_⟩
  · rw [folder, reported]
    exact lawful.tracked.erase gone
  · rw [folder, due]
    exact lawful.due
  · rw [folder, phase]
    exact lawful.phase

theorem Lawful.tells (lawful : Lawful s) (uids : List UInt32)
    (gone : ∀ uid ∈ uids, uid ∉ s.folder.uids) : Lawful (uids.foldl tellExpunged s) := by
  induction uids generalizing s with
  | nil => exact lawful
  | cons uid rest ih =>
    refine ih (lawful.tell (gone uid List.mem_cons_self)) fun other member => ?_
    rw [(tellExpunged_frame s uid).1]
    exact gone other (List.mem_cons_of_mem _ member)

theorem Lawful.finish (lawful : Lawful s) (moved : List (UInt32 × Nat))
    (gone : ∀ place ∈ moved, Gone s.folder place.1) : Lawful (ImapSession.finish s moved) := by
  refine ⟨lawful.tracked.erases _ fun uid member => ?_, lawful.due, trivial⟩
  obtain ⟨place, listed, rfl⟩ := List.mem_map.mp member
  exact (gone place listed).1

theorem Lawful.transferNext (lawful : Lawful s) (room : s.folder.uidNext ≠ 0xFFFFFFFF) (act : Act)
    (place : UInt32 × Nat) (rest moved : List (UInt32 × Nat))
    (holds : Holds s.folder (.acting act (place :: rest) moved)) :
    Lawful (ImapSession.transferNext s act place rest moved) := by
  unfold ImapSession.transferNext
  cases act with
  | rewrite changes => exact lawful.rephase trivial
  | copy here =>
    cases found : s.folder.find place.1 with
    | none => exact lawful.rephase trivial
    | some msg => exact (lawful.landCopy room here msg).rephase holds
  | move here =>
    cases found : s.folder.find place.1 with
    | none => exact lawful.rephase trivial
    | some msg =>
      obtain ⟨listed, same⟩ := find_some found
      obtain ⟨landed, gone⟩ := lawful.landMove room here msg ((mem_uids _).mpr ⟨msg, listed, rfl⟩)
      -- the earlier messages of this command stay gone
      have earlier := (lawful.rephase holds).landMove room here msg
        ((mem_uids _).mpr ⟨msg, listed, rfl⟩)
      exact landed.rephase (List.forall_mem_append.mpr
        ⟨earlier.1.phase, List.forall_mem_singleton.mpr (same ▸ gone)⟩)

/-- The phases between the messages of a `Fetch` or a `Store`. -/
inductive Plain : Phase → Prop
  | ready : Plain .ready
  | acting (changes : UInt32 → List (Change × Bool)) (rest : List (UInt32 × Nat)) :
      Plain (.acting (.rewrite changes) rest [])
  | rewriting (changes : UInt32 → List (Change × Bool)) (rest : List (UInt32 × Nat))
      (uid : UInt32) (left : List (Change × Bool)) : Plain (.rewriting changes rest uid left)
  | writing (changes : UInt32 → List (Change × Bool)) (rest : List (UInt32 × Nat))
      (uid : UInt32) (left : List (Change × Bool)) (msg : MailboxMessage) :
      Plain (.writing changes rest uid left msg)

theorem Plain.holds (plain : Plain phase) : Holds folder phase := by
  cases plain <;> trivial

theorem rewriteNext_cases (s : State) (changes : UInt32 → List (Change × Bool))
    (rest : List (UInt32 × Nat)) (uid : UInt32) (left : List (Change × Bool)) :
    ∃ phase, rewriteNext s changes rest uid left = { s with phase := phase } ∧ Plain phase := by
  rcases left with _ | ⟨⟨change, fatal⟩, left⟩
  · exact ⟨_, rfl, .acting changes rest⟩
  cases found : s.folder.find uid with
  | some msg =>
    exact ⟨.writing changes rest uid left (change.apply msg),
      by simp only [rewriteNext, found], .writing changes rest uid left _⟩
  | none =>
    cases fatal with
    | true => exact ⟨.ready, by simp [rewriteNext, found], .ready⟩
    | false => exact ⟨.rewriting changes rest uid left, by simp [rewriteNext, found],
        .rewriting changes rest uid left⟩

variable (lawful : Lawful s)
include lawful

theorem Lawful.proceed (steady : Steady s .proceed) :
    Lawful (ImapSession.proceed s) := by
  have holds := lawful.phase
  obtain ⟨room, back⟩ := steady
  rw [ImapSession.proceed]
  cases phase : s.phase with
  | selecting =>
    exact ⟨lawful.tracked, lawful.due, trivial⟩
  | expunging uids =>
    rw [phase] at holds
    refine (lawful.purge.tells uids.reverse fun uid member => ?_).rephase trivial
    obtain ⟨known, marked⟩ := holds uid (List.mem_reverse.mp member)
    exact (gone_expunge known marked).1
  | acting act pending moved =>
    rw [phase] at holds
    cases pending with
    | nil =>
      refine lawful.finish moved fun place member => ?_
      cases act with
      | move here => exact holds place member
      | _ =>
        rw [show moved = [] from holds] at member
        exact absurd member List.not_mem_nil
    | cons place rest => exact lawful.transferNext room act place rest moved holds
  | rewriting changes rest uid left =>
    obtain ⟨next, same, plain⟩ := rewriteNext_cases s changes rest uid left
    show Lawful (rewriteNext s changes rest uid left)
    rw [same]
    exact lawful.rephase plain.holds
  | writing changes rest uid left msg =>
    have present : msg.uid ∈ s.folder.uids := back msg.uid (by rw [phase]; exact List.mem_cons_self)
    have evolves := lawful.tracked.numbered.evolves_put present
    refine ⟨lawful.tracked.evolves evolves, fun gone member => ?_, trivial⟩
    rcases List.mem_append.mp member with earlier | last
    · exact (lawful.due gone earlier).evolves evolves
    -- a write announces no removal
    exfalso
    revert last
    cases s.folder.find msg.uid with
    | none => simp
    | some prev =>
      split <;> simp
  | _ => exact lawful

theorem Lawful.receive : Lawful (ImapSession.receive s) := by
  have holds := lawful.phase
  rw [ImapSession.receive]
  cases phase : s.phase with
  | idling channel =>
    rw [phase] at holds
    rcases channel with _ | ⟨notif, rest⟩
    · exact lawful
    have waiting : Holds s.folder (.idling rest) :=
      fun uid queued => holds uid (List.mem_cons_of_mem _ queued)
    cases notif with
    | newMail existsCount => exact lawful.reports waiting
    | expunge uid => exact (lawful.rephase waiting).tell (holds uid List.mem_cons_self).1
    | flagChange uid => exact lawful.rephase waiting
  | _ => exact lawful

theorem Lawful.poll (allowExpunge : Bool) :
    Lawful (ImapSession.poll s allowExpunge) := by
  rw [ImapSession.poll]
  split
  · simp only [pollUpdates]
    split
    · exact ⟨lawful.tracked, lawful.due, lawful.phase⟩
    · exact lawful.reports lawful.phase
  · exact lawful

theorem Lawful.expunge : Lawful (ImapSession.expunge s) := by
  have numbered := lawful.tracked.numbered
  rw [ImapSession.expunge]
  split
  · cases marked : s.folder.marked with
    | nil => exact lawful
    | cons first rest =>
      refine lawful.rephase fun uid member => ?_
      rw [← marked] at member
      exact ⟨numbered.below uid (marked_listed member), numbered.marked_marked member⟩
  · exact lawful

theorem Lawful.step (event : Event) (steady : Steady s event) :
    Lawful (ImapSession.step s event) := by
  cases event with
  | deliver msg =>
    exact lawful.land (lawful.tracked.numbered.evolves_arrive steady.1 msg) (intact_arrive msg)
      [] true (List.forall_mem_nil _)
  | remove uid =>
    rw [ImapSession.step]
    split
    · exact lawful.remove ‹_›
    · exact lawful
  | purge => exact lawful.purge
  | announce => exact lawful.announce
  | select =>
    rw [ImapSession.step]
    split
    · exact lawful.reports trivial
    · exact lawful.reports trivial
    · exact lawful
  | poll allowExpunge => exact lawful.poll allowExpunge
  | idle =>
    rw [ImapSession.step]
    split
    · exact lawful.rephase nofun
    · exact lawful
  | receive => exact lawful.receive
  | done =>
    rw [ImapSession.step]
    split
    · exact lawful.rephase trivial
    · exact lawful
  | search => exact lawful
  | act act numSet =>
    rw [ImapSession.step]
    split
    · cases act with
      | move here => exact lawful.rephase (List.forall_mem_nil _)
      | _ => exact lawful.rephase rfl
    · exact lawful
  | expunge => exact lawful.expunge
  | proceed => exact lawful.proceed steady

end Knowing

section Telling

/-- The client has heard the answer to its last `SELECT`. -/
def Answered : Phase → Prop
  | .selecting => False
  | _ => True

/-- The numbers a `Move` is going to send are numbers of the client. -/
def Numbers (reported : List UInt32) : Phase → Prop
  | .acting (.move _) pending moved =>
    ((moved ++ pending).Pairwise fun first second => first.2 < second.2) ∧
      ∀ place ∈ moved ++ pending, Aligned reported place
  | _ => True

structure Told (s : State) : Prop where
  same : Answered s.phase → s.client = s.reported.map some
  numbers : Numbers s.reported s.phase

/-- The step counts the messages for the answer to a `SELECT`. -/
def counts : Event → Phase → Bool
  | .proceed, .selecting => true
  | _, _ => false

def announced : Event → Phase → List Nat
  | .receive, .idling (.newMail existsCount :: _) => [existsCount]
  | _, _ => []

/-- The set of messages that a `Move` begins with. -/
def movesFrom : Event → Phase → List NumSet
  | .act (.move _) numSet, .ready => [numSet]
  | _, _ => []

/-- The steps that keep the client in step: `SELECT` counts the messages it
listed; an announced arrival finds every message of the client still there and
counts what the mailbox holds now; and a `Move` finds each of its messages where
the client has it, or after all that the client has. -/
@[mk_iff]
structure Calm (s : State) (event : Event) : Prop where
  steady : Steady s event
  counted : counts event s.phase = true → s.folder.uids = s.reported
  present : ∀ existsCount ∈ announced event s.phase, (∀ uid ∈ s.reported, uid ∈ s.folder.uids) ∧
      max existsCount s.reported.length = s.folder.uids.length
  aligned : ∀ numSet ∈ movesFrom event s.phase, ∀ place ∈ chosen numSet s.folder.uids,
    Aligned s.reported place

instance (s : State) (event : Event) : Decidable (Calm s event) :=
  decidable_of_iff _ (calm_iff s event).symm

theorem Plain.told {s : State} (plain : Plain phase) (same : s.client = s.reported.map some) :
    Told { s with phase := phase } := by
  cases plain <;> exact ⟨fun _ => same, trivial⟩

variable {s : State}

theorem told_start (folder : Folder) : Told (start folder) := ⟨fun _ => rfl, trivial⟩

theorem hear_expunges (msgs : List UInt32) (seqNums : List Nat) (client : View) :
    (seqNums.map Response.expunge).foldl (hear msgs) client = seqNums.foldl strike client := by
  rw [List.foldl_map]
  rfl

/-- Where what the client still has comes first in the mailbox, a poll leaves the client with
what the session then remembers. -/
theorem poll_tells_leads {reported msgs : List UInt32}
    (leads : reported.filter (· ∈ msgs) <+: msgs) (allowExpunge : Bool) :
    (pollUpdates reported msgs allowExpunge).2.foldl (hear msgs) (reported.map some) =
      (pollUpdates reported msgs allowExpunge).1.map some := by
  simp only [pollUpdates]
  split
  · rfl
  have kept : (expungedSeqNums reported msgs).reverse.foldl strike reported =
      reported.filter (· ∈ msgs) := strikes_unwanted (fun uid => uid ∈ msgs) reported
  -- as many numbers are sent as messages are missing
  have count : reported.length - (expungedSeqNums reported msgs).length =
      (reported.filter (· ∈ msgs)).length := by
    have missing := congrArg List.length
      (places_entries (fun uid => !decide (uid ∈ msgs)) reported)
    have total : reported.length = _ := List.length_eq_length_filter_add
      (fun uid => decide (uid ∈ msgs))
    rw [List.length_map] at missing
    rw [expungedSeqNums, List.length_map, missing]
    omega
  rw [List.foldl_append, hear_expunges, strikes_map, kept, count]
  split
  · exact grow_prefix _ _ _ leads (max_eq_left leads.length_le)
  · rename_i equal
    rw [List.foldl_nil, leads.eq_of_length (not_not.mp equal).symm]
    rfl

theorem poll_tells {folder : Folder} {reported : List UInt32} (tracked : Tracked folder reported)
    (allowExpunge : Bool) :
    (pollUpdates reported folder.uids allowExpunge).2.foldl (hear folder.uids)
        (reported.map some) =
      (pollUpdates reported folder.uids allowExpunge).1.map some :=
  poll_tells_leads ⟨_, tracked.split⟩ allowExpunge

/-- Without leave to expunge a poll does as it does with it, or nothing at all. -/
theorem poll_without_leave (reported msgs : List UInt32) :
    pollUpdates reported msgs false = pollUpdates reported msgs true ∨
      pollUpdates reported msgs false = (reported, []) := by
  by_cases gone : expungedSeqNums reported msgs = []
  · left
    simp [pollUpdates, gone]
  · right
    simp [pollUpdates, gone]

/-- The responses of a poll turn any client's list into the mailbox, entry by entry, and the
session remembers the mailbox; without leave to expunge that is so or nothing happens. -/
theorem poll_reproduces (reported msgs : List UInt32) (viewSorted : reported.Pairwise (· < ·))
    (sorted : msgs.Pairwise (· < ·))
    (fresh : ∀ uid ∈ msgs, uid ∉ reported → ∀ old ∈ reported, old < uid) :
    ((pollUpdates reported msgs true).2.foldl (hear msgs) (reported.map some) = msgs.map some ∧
      (pollUpdates reported msgs true).1 = msgs) ∧
    (pollUpdates reported msgs false = pollUpdates reported msgs true ∨
      pollUpdates reported msgs false = (reported, [])) := by
  have leads : reported.filter (· ∈ msgs) <+: msgs :=
    ⟨_, seen_prefix reported msgs viewSorted sorted fresh⟩
  have remembered : (pollUpdates reported msgs true).1 = msgs := by
    simp [pollUpdates, setReported]
  refine ⟨⟨?_, remembered⟩, poll_without_leave reported msgs⟩
  rw [poll_tells_leads leads true, remembered]

/-- Message 1 is gone and message 5 has come. -/
theorem poll_reproduces_sample :
    (pollUpdates [1, 2, 3] [2, 3, 5] true).2 = [.expunge 1, .numMessages 3] ∧
      (pollUpdates [1, 2, 3] [2, 3, 5] true).2.foldl (hear [2, 3, 5]) ([1, 2, 3].map some) =
        [2, 3, 5].map some :=
  ⟨by decide, (poll_reproduces [1, 2, 3] [2, 3, 5] (by decide) (by decide) (by decide)).1.1⟩

theorem Told.poll (told : Told s) (lawful : Lawful s) (allowExpunge : Bool) :
    Told (ImapSession.poll s allowExpunge) := by
  rw [ImapSession.poll]
  cases phase : s.phase with
  | ready =>
    have same := told.same (by rw [phase]; trivial)
    have tells := poll_tells lawful.tracked allowExpunge
    rw [← same] at tells
    exact ⟨fun _ => tells, trivial⟩
  | _ => exact told

theorem tellExpunged_same (same : s.client = s.reported.map some) (uid : UInt32) :
    (tellExpunged s uid).client = (tellExpunged s uid).reported.map some := by
  rw [tellExpunged]
  by_cases known : uid ∈ s.reported
  · have erased : s.reported.erase uid = s.reported.eraseIdx (s.reported.idxOf uid) :=
      List.erase_eq_eraseIdx_of_idxOf rfl
    simp only [reportedSeqNum, known, if_true, Nat.succ_ne_zero, if_false, hear, dropReported]
    rw [same, strike_map, strike, Nat.add_sub_cancel, erased]
  · simp [reportedSeqNum, known, same]

theorem tells_same (uids : List UInt32) (same : s.client = s.reported.map some) :
    (uids.foldl tellExpunged s).client = (uids.foldl tellExpunged s).reported.map some := by
  induction uids generalizing s with
  | nil => exact same
  | cons uid rest ih => exact ih (tellExpunged_same same uid)

theorem Told.receive (told : Told s) (lawful : Lawful s) (calm : Calm s .receive) :
    Told (ImapSession.receive s) := by
  rw [ImapSession.receive]
  cases phase : s.phase with
  | idling channel =>
    have same := told.same (by rw [phase]; trivial)
    rcases channel with _ | ⟨notif, rest⟩
    · exact told
    cases notif with
    | newMail existsCount =>
      obtain ⟨present, count⟩ :=
        calm.present existsCount (by rw [phase]; exact List.mem_cons_self)
      refine ⟨fun _ => ?_, trivial⟩
      have all : s.reported.filter (· ∈ s.folder.uids) = s.reported :=
        List.filter_eq_self.mpr fun uid known => decide_eq_true (present uid known)
      have leads : s.reported <+: s.folder.uids := ⟨_, all ▸ lawful.tracked.split⟩
      rw [same]
      exact grow_prefix s.reported s.folder.uids existsCount leads count
    | expunge uid =>
      have known : ({ s with phase := .idling rest } : State).client = s.reported.map some :=
        same
      refine ⟨fun _ => tellExpunged_same known uid, ?_⟩
      rw [(tellExpunged_frame _ uid).2.2.1]
      trivial
    | flagChange uid => exact ⟨fun _ => same, trivial⟩
  | _ => exact told

/-- The numbers of a finished `Move`, from the last to the first, strike what
the session drops. -/
theorem Told.finish (same : s.client = s.reported.map some) (tracked : Tracked s.folder s.reported)
    (moved : List (UInt32 × Nat))
    (ascending : moved.Pairwise fun first second => first.2 < second.2)
    (aligned : ∀ place ∈ moved, Aligned s.reported place) : Told (ImapSession.finish s moved) := by
  refine ⟨fun _ => ?_, trivial⟩
  have struck := strikes_aligned moved s.reported tracked.nodup ascending aligned
  simp only [ImapSession.finish]
  rw [hear_expunges, same, strikes_map, struck]
  rfl

theorem Told.transferNext (same : s.client = s.reported.map some) (act : Act)
    (place : UInt32 × Nat) (rest moved : List (UInt32 × Nat))
    (numbers : Numbers s.reported (.acting act (place :: rest) moved)) :
    Told (ImapSession.transferNext s act place rest moved) := by
  unfold ImapSession.transferNext
  cases act with
  | rewrite changes => exact ⟨fun _ => same, trivial⟩
  | copy here =>
    cases found : s.folder.find place.1 with
    | none => exact ⟨fun _ => same, trivial⟩
    | some msg =>
      cases here <;> exact ⟨fun _ => same, trivial⟩
  | move here =>
    cases found : s.folder.find place.1 with
    | none => exact ⟨fun _ => same, trivial⟩
    | some msg =>
      refine ⟨fun _ => same, ?_⟩
      rw [Numbers, List.append_cons] at numbers
      exact numbers

variable (told : Told s)
include told

theorem Told.proceed (lawful : Lawful s) (calm : Calm s .proceed) :
    Told (ImapSession.proceed s) := by
  have numbers := told.numbers
  rw [ImapSession.proceed]
  cases phase : s.phase with
  | selecting =>
    have counted := calm.counted (by rw [phase]; rfl)
    refine ⟨fun _ => ?_, trivial⟩
    rw [← counted]
    exact grow_prefix [] s.folder.uids s.folder.messages.length List.nil_prefix
      (by simp [Folder.uids])
  | expunging uids =>
    have same := told.same (by rw [phase]; trivial)
    exact ⟨fun _ => tells_same uids.reverse same, trivial⟩
  | acting act pending moved =>
    have same := told.same (by rw [phase]; trivial)
    have holds := lawful.phase
    rw [phase] at numbers holds
    cases pending with
    | nil =>
      cases act with
      | move here =>
        rw [Numbers, List.append_nil] at numbers
        exact Told.finish same lawful.tracked moved numbers.1 numbers.2
      | _ =>
        rw [show moved = [] from holds]
        exact ⟨fun _ => same, trivial⟩
    | cons place rest => exact Told.transferNext same act place rest moved numbers
  | rewriting changes rest uid left =>
    have same := told.same (by rw [phase]; trivial)
    obtain ⟨next, written, plain⟩ := rewriteNext_cases s changes rest uid left
    show Told (rewriteNext s changes rest uid left)
    rw [written]
    exact plain.told same
  | writing changes rest uid left msg =>
    have same := told.same (by rw [phase]; trivial)
    exact ⟨fun _ => same, trivial⟩
  | _ => exact told

theorem Told.announce : Told (ImapSession.announce s) := by
  rw [ImapSession.announce]
  cases s.due with
  | nil => exact told
  | cons notif rest =>
    have numbers := told.numbers
    have same := told.same
    cases phase : s.phase with
    | idling channel =>
      rw [phase] at same
      exact ⟨fun _ => same trivial, trivial⟩
    | _ =>
      rw [phase] at same numbers
      exact ⟨same, numbers⟩

theorem Told.expunge : Told (ImapSession.expunge s) := by
  rw [ImapSession.expunge]
  cases phase : s.phase with
  | ready =>
    have same := told.same (by rw [phase]; trivial)
    cases s.folder.marked with
    | nil => exact told
    | cons first rest => exact ⟨fun _ => same, trivial⟩
  | _ => exact told

theorem Told.act (act : Act) (numSet : NumSet) (calm : Calm s (.act act numSet)) :
    Told (step s (.act act numSet)) := by
  rw [step]
  cases phase : s.phase with
  | ready =>
    have same := told.same (by rw [phase]; trivial)
    refine ⟨fun _ => same, ?_⟩
    cases act with
    | move here => exact ⟨places_ascending _ _,
        calm.aligned numSet (by rw [phase]; exact List.mem_cons_self)⟩
    | _ => trivial
  | _ => exact told

theorem Told.step (lawful : Lawful s) (event : Event) (calm : Calm s event) :
    Told (ImapSession.step s event) := by
  cases event with
  | deliver msg => exact ⟨told.same, told.numbers⟩
  | remove uid =>
    rw [ImapSession.step]
    split
    · exact ⟨told.same, told.numbers⟩
    · exact told
  | purge => exact ⟨told.same, told.numbers⟩
  | announce => exact told.announce
  | select =>
    rw [ImapSession.step]
    split
    · exact ⟨fun answered => answered.elim, trivial⟩
    · exact ⟨fun answered => answered.elim, trivial⟩
    · exact told
  | poll allowExpunge => exact told.poll lawful allowExpunge
  | idle =>
    rw [ImapSession.step]
    cases phase : s.phase with
    | ready => exact ⟨fun _ => told.same (by rw [phase]; trivial), trivial⟩
    | _ => exact told
  | receive => exact told.receive lawful calm
  | done =>
    rw [ImapSession.step]
    split
    · rename_i channel phase
      exact ⟨fun _ => told.same (by rw [phase]; trivial), trivial⟩
    · exact told
  | search => exact told
  | act act numSet => exact told.act act numSet calm
  | expunge => exact told.expunge
  | proceed => exact told.proceed lawful calm

end Telling

/-- In a run of calm steps the client's list is the session's, entry by entry,
in every state but those inside a `SELECT`. -/
theorem client_list_is_reported (folder : Folder) (numbered : Numbered folder)
    (events : List Event) (calm : Along step Calm (start folder) events) (reached : State)
    (passed : Passes step (start folder) events reached) (answered : Answered reached.phase) :
    reached.client = reached.reported.map some := by
  have keeps : ∀ s event, Lawful s ∧ Told s → Calm s event →
      Lawful (step s event) ∧ Told (step s event) := by
    rintro s event ⟨lawful, told⟩ calm
    exact ⟨lawful.step event calm.steady, told.step lawful event calm⟩
  have kept := passes_invariant keeps ⟨lawful_start numbered, told_start folder⟩ calm passed
  exact kept.2.same answered

def sampleMessage (uid : UInt32) : MailboxMessage :=
  { uid := uid, mailGuid := ByteKeys.ascii "m", flags := 0, internalDate := 0, tags := [] }

def twoMessages : Folder := { messages := [sampleMessage 1, sampleMessage 2], uidNext := 3 }

/-- A delivery heard while idling, a message taken by another session and a
`Move` of the two that are left. -/
def calmRun : List Event :=
  [.select, .proceed, .idle, .deliver (sampleMessage 0), .announce, .receive, .done, .remove 1,
    .poll true, .act (.move false) (.seq fun _ => true), .proceed, .proceed, .proceed]

theorem client_list_is_reported_calm :
    (run step (start twoMessages) calmRun).client = [] ∧
      (run step (start twoMessages) (calmRun.take 9)).client = [some 2, some 3] ∧
      (run step (start twoMessages) calmRun).client =
        (run step (start twoMessages) calmRun).reported.map some := by
  have calm : Along step Calm (start twoMessages) calmRun := by decide
  refine ⟨by decide, by decide, ?_⟩
  exact client_list_is_reported twoMessages (by decide) calmRun calm _
    ⟨calmRun, [], by simp, rfl⟩
    (by trivial)

/-- Idling on two messages. A third arrives and is announced, and the first is
taken away before the session looks: the session now remembers the two that are
left, while the client has been told of three and is never told otherwise, even
by the announcement of the removal and a poll. -/
theorem announced_count_outlives_removal :
    ∃ reached, reached = run step (start twoMessages)
        [.select, .proceed, .idle, .deliver (sampleMessage 0), .announce, .remove 1, .announce,
          .receive, .receive, .done, .poll true] ∧
      Answered reached.phase ∧ reached.reported = [2, 3] ∧
      reached.client = [some 1, some 2, none] ∧ reached.client ≠ reached.reported.map some := by
  refine ⟨_, rfl, trivial, by decide, by decide, by decide⟩

end Bongo.ImapViews
