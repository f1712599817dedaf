import Bongo.ByteKeys
import Bongo.Unfolding

/-!
Conversation threads. `BuildThread` climbs from a message along `In-Reply-To`,
keeping the identifiers it has followed, and then descends from the top by
`buildNode`, which keeps nothing. Identifiers come out of received mail: they
may repeat, and they may form cycles.
-/

namespace Bongo.Threads

open ByteKeys Unfolding

/-- The fields of a mail's metadata that a thread node copies. -/
structure MailMeta where
  guid : Bytes
  messageId : Bytes
  inReplyTo : Bytes
  subject : Bytes
  sender : Bytes
  receivedAt : Int
  flags : Int
  deriving DecidableEq

/-- A user's mail in the order of the scan. Each record is stored under its
GUID. -/
structure Mails where
  records : List MailMeta
  distinct : (records.map (·.guid)).Nodup

inductive ThreadNode where
  | mk (mail : MailMeta) (depth : Nat) (children : List ThreadNode)

structure ThreadSummary where
  root : ThreadNode
  allNodes : List (MailMeta × Nat)
  count : Nat

inductive Error where
  | messageNotFound
  deriving DecidableEq

/-- How the children of a node come to be ordered: by the time of receipt, and
otherwise as the iteration over a map and an unstable sort leave them. -/
structure Arrangement where
  sort : List MailMeta → List MailMeta
  perm : ∀ mails, (sort mails).Perm mails
  sorted : ∀ mails, (sort mails).Pairwise fun first second => first.receivedAt ≤ second.receivedAt

namespace Mails

/-- The last record of the scan with this message identifier. -/
def load (mails : Mails) (messageId : Bytes) : Option MailMeta :=
  mails.records.reverse.find? fun mail => mail.messageId ≠ [] ∧ mail.messageId = messageId

def childIndex (mails : Mails) (messageId : Bytes) : List MailMeta :=
  mails.records.filter fun mail => mail.inReplyTo ≠ [] ∧ mail.inReplyTo = messageId

/-- The loop up to the root; `none` when the fuel runs out. -/
def climb (mails : Mails) : Nat → MailMeta → List Bytes → Option MailMeta
  | 0, _, _ => none
  | fuel + 1, root, visited =>
    if root.inReplyTo ≠ [] ∧ root.inReplyTo ∉ visited then
      match mails.load root.inReplyTo with
      | some parent => mails.climb fuel parent (root.inReplyTo :: visited)
      | none => some root
    else some root

end Mails

/-- The children of a node are built one after another, each adding to
`allNodes`. -/
def buildChildren (build : MailMeta → List (MailMeta × Nat) →
      Option (ThreadNode × List (MailMeta × Nat))) :
    List MailMeta → List (MailMeta × Nat) → Option (List ThreadNode × List (MailMeta × Nat))
  | [], allNodes => some ([], allNodes)
  | child :: rest, allNodes => do
      let (node, allNodes) ← build child allNodes
      let (nodes, allNodes) ← buildChildren build rest allNodes
      some (node :: nodes, allNodes)

def buildNode (children : MailMeta → List MailMeta) :
    Nat → Nat → MailMeta → List (MailMeta × Nat) → Option (ThreadNode × List (MailMeta × Nat))
  | 0, _, _, _ => none
  | fuel + 1, depth, mail, allNodes => do
      let (nodes, allNodes) ← buildChildren (buildNode children fuel (depth + 1)) (children mail)
        (allNodes ++ [(mail, depth)])
      some (.mk mail depth nodes, allNodes)

/-- The children of a message as `buildNode` goes through them. -/
def repliesTo (arrangement : Arrangement) (mails : Mails) (mail : MailMeta) : List MailMeta :=
  arrangement.sort (mails.childIndex mail.messageId)

/-- `none` means that the recursion is still under way. -/
def buildThread (arrangement : Arrangement) (mails : Mails) (guid : Bytes) (fuel : Nat) :
    Option (Except Error ThreadSummary) :=
  match mails.records.find? fun mail => mail.guid = guid with
  | none => some (.error .messageNotFound)
  | some start => do
      let root ← mails.climb fuel start []
      let (node, allNodes) ← buildNode (repliesTo arrangement mails) fuel 0 root []
      some (.ok { root := node, allNodes := allNodes, count := allNodes.length })

def ThreadNode.messages : ThreadNode → List MailMeta
  | .mk mail _ children => mail :: children.flatMap messages

structure Good (thread : ThreadSummary) (start : MailMeta) : Prop where
  once : thread.root.messages.Nodup
  nodes : thread.allNodes.map Prod.fst = thread.root.messages
  starts : start ∈ thread.root.messages
  counts : thread.count = thread.root.messages.toFinset.card

def Terminates (arrangement : Arrangement) (mails : Mails) (start : MailMeta) : Prop :=
  ∃ fuel thread, buildThread arrangement mails start.guid fuel = some (.ok thread) ∧
    Good thread start

/-! The condition. -/

/-- `parent` is the message that the climb goes to from `mail`. -/
def Mails.Answers (mails : Mails) (mail parent : MailMeta) : Prop :=
  mail.inReplyTo ≠ [] ∧ mails.load mail.inReplyTo = some parent

/-- `reply` names the identifier of `mail`. -/
def Mails.Replies (mails : Mails) (mail reply : MailMeta) : Prop :=
  reply ∈ mails.records ∧ reply.inReplyTo ≠ [] ∧ reply.inReplyTo = mail.messageId

/-- The messages answered, one after another from `start`, come to an end at a
message that answers none of the user's; and below that one, no reply answers
two different messages. -/
def Mails.Settled (mails : Mails) (start : MailMeta) : Prop :=
  ∃ top, Relation.ReflTransGen mails.Answers start top ∧ (∀ parent, ¬ mails.Answers top parent) ∧
    ∀ first second reply, Relation.ReflTransGen mails.Replies top first →
      Relation.ReflTransGen mails.Replies top second →
      mails.Replies first reply → mails.Replies second reply → first = second

theorem buildChildren_spreads {build : MailMeta → List (MailMeta × Nat) →
      Option (ThreadNode × List (MailMeta × Nat))} (part : MailMeta → Option (List MailMeta))
    (each : ∀ mail allNodes, match build mail allNodes with
      | some (node, more) => part mail = some node.messages ∧
          more.map Prod.fst = allNodes.map Prod.fst ++ node.messages
      | none => part mail = none)
    (mails : List MailMeta) (allNodes : List (MailMeta × Nat)) :
    match buildChildren build mails allNodes with
    | some (nodes, more) => spreadAll part mails = some (nodes.flatMap ThreadNode.messages) ∧
        more.map Prod.fst = allNodes.map Prod.fst ++ nodes.flatMap ThreadNode.messages
    | none => spreadAll part mails = none := by
  induction mails generalizing allNodes with
  | nil => exact ⟨rfl, (List.append_nil _).symm⟩
  | cons mail rest ih =>
    have first := each mail allNodes
    cases built : build mail allNodes with
    | none =>
      rw [built] at first
      simp only [buildChildren, built]
      simp [spreadAll, show part mail = none from first]
    | some result =>
      obtain ⟨node, more⟩ := result
      rw [built] at first
      obtain ⟨here, listed⟩ := first
      have others := ih more
      simp only [buildChildren, built, spreadAll, here, Option.bind_eq_bind, Option.bind_some]
      cases continued : buildChildren build rest more with
      | none =>
        rw [continued] at others
        simp [show spreadAll part rest = none from others]
      | some result =>
        obtain ⟨nodes, last⟩ := result
        rw [continued] at others
        obtain ⟨there, relisted⟩ := others
        simp only [Option.bind_some, there, List.flatMap_cons, true_and]
        rw [relisted, listed, List.append_assoc]

/-- `buildNode` unfolds the children and lists in `allNodes` what it meets. -/
theorem buildNode_spreads (children : MailMeta → List MailMeta) (fuel depth : Nat) (mail : MailMeta)
    (allNodes : List (MailMeta × Nat)) :
    match buildNode children fuel depth mail allNodes with
    | some (node, more) => spread children fuel mail = some node.messages ∧
        more.map Prod.fst = allNodes.map Prod.fst ++ node.messages
    | none => spread children fuel mail = none := by
  induction fuel generalizing depth mail allNodes with
  | zero => rfl
  | succ fuel ih =>
    have below := buildChildren_spreads (spread children fuel)
      (fun mail allNodes => ih (depth + 1) mail allNodes) (children mail)
      (allNodes ++ [(mail, depth)])
    cases built : buildChildren (buildNode children fuel (depth + 1)) (children mail)
        (allNodes ++ [(mail, depth)]) with
    | none =>
      rw [built] at below
      simp only [buildNode, built]
      rw [spread, show spreadAll (spread children fuel) (children mail) = none from below]
      rfl
    | some result =>
      obtain ⟨nodes, more⟩ := result
      rw [built] at below
      obtain ⟨spreads, listed⟩ := below
      simp only [buildNode, built]
      rw [spread, spreads]
      refine ⟨by simp [ThreadNode.messages], ?_⟩
      rw [listed]
      simp [ThreadNode.messages]

variable {top : MailMeta}

section Climbing

variable {mails : Mails}

variable {mail : MailMeta}

theorem load_some {messageId : Bytes} (found : mails.load messageId = some mail) :
    mail ∈ mails.records ∧ mail.messageId = messageId := by
  have listed := List.mem_of_find?_eq_some found
  have meets := List.find?_some found
  rw [decide_eq_true_eq] at meets
  exact ⟨List.mem_reverse.mp listed, meets.2⟩

theorem load_none {messageId : Bytes} (missing : mails.load messageId = none)
    (named : messageId ≠ [])
    {mail : MailMeta} (member : mail ∈ mails.records) : mail.messageId ≠ messageId := by
  rintro rfl
  have fails := List.find?_eq_none.mp missing mail (List.mem_reverse.mpr member)
  simp [named] at fails

theorem answers_unique {first second : MailMeta} (left : mails.Answers mail first)
    (right : mails.Answers mail second) : first = second :=
  Option.some.inj (left.2.symm.trans right.2)

section

variable (member : mail ∈ mails.records)
include member

theorem replies_of_answers {parent : MailMeta} (answers : mails.Answers mail parent) :
    mails.Replies parent mail :=
  ⟨member, answers.1, (load_some answers.2).2.symm⟩

theorem answers_listed (climbs : Relation.ReflTransGen mails.Answers mail top) :
    top ∈ mails.records := by
  induction climbs with
  | refl => exact member
  | tail _ answers _ => exact (load_some answers.2).1

theorem below_of_climbs (climbs : Relation.ReflTransGen mails.Answers mail top) :
    Relation.ReflTransGen mails.Replies top mail := by
  induction climbs with
  | refl => exact Relation.ReflTransGen.refl
  | tail further answers ih =>
    exact Relation.ReflTransGen.head
      (replies_of_answers (answers_listed member further) answers) ih

end

/-- Where the climb stops: at a message that answers none, or at one whose
answered message was climbed through before. -/
theorem climb_stops (fuel : Nat) (mail : MailMeta) (visited : List Bytes) (root : MailMeta)
    (stopped : mails.climb fuel mail visited = some root)
    (followed : ∀ messageId ∈ visited, ∃ parent, mails.load messageId = some parent ∧
      Relation.ReflTransGen mails.Answers parent mail) :
    Relation.ReflTransGen mails.Answers mail root ∧ ((∀ parent, ¬ mails.Answers root parent) ∨
        ∃ parent, mails.Answers root parent ∧ Relation.ReflTransGen mails.Answers parent root) := by
  induction fuel generalizing mail visited with
  | zero => cases stopped
  | succ fuel ih =>
    rw [Mails.climb] at stopped
    split at stopped
    · rename_i goes
      cases found : mails.load mail.inReplyTo with
      | none =>
        rw [found] at stopped
        cases stopped
        refine ⟨Relation.ReflTransGen.refl, Or.inl fun parent answers => ?_⟩
        rw [answers.2] at found
        cases found
      | some parent =>
        rw [found] at stopped
        have answers : mails.Answers mail parent := ⟨goes.1, found⟩
        obtain ⟨climbs, ends⟩ := ih parent _ stopped fun messageId member => by
          rcases List.mem_cons.mp member with rfl | earlier
          · exact ⟨parent, found, Relation.ReflTransGen.refl⟩
          · obtain ⟨above, loaded, led⟩ := followed messageId earlier
            exact ⟨above, loaded, led.tail answers⟩
        exact ⟨Relation.ReflTransGen.head answers climbs, ends⟩
    · rename_i stays
      cases stopped
      refine ⟨Relation.ReflTransGen.refl, ?_⟩
      by_cases named : root.inReplyTo = []
      · exact Or.inl fun parent answers => answers.1 named
      have again : root.inReplyTo ∈ visited := by
        by_contra fresh
        exact stays ⟨named, fresh⟩
      obtain ⟨parent, loaded, led⟩ := followed root.inReplyTo again
      exact Or.inr ⟨parent, ⟨named, loaded⟩, led⟩

theorem climb_total (fuel : Nat) (mail : MailMeta) (visited : List Bytes)
    (member : mail ∈ mails.records)
    (enough : ((mails.records.map (·.inReplyTo)).toFinset \ visited.toFinset).card < fuel) :
    ∃ root, mails.climb fuel mail visited = some root := by
  induction fuel generalizing mail visited with
  | zero => omega
  | succ fuel ih =>
    rw [Mails.climb]
    split
    · rename_i goes
      cases found : mails.load mail.inReplyTo with
      | none => exact ⟨mail, rfl⟩
      | some parent =>
        refine ih parent _ (load_some found).1 (Nat.lt_of_lt_of_le (Finset.card_lt_card ?_)
          (Nat.le_of_lt_succ enough))
        -- the identifier just followed is no longer left
        have here : mail.inReplyTo ∈ (mails.records.map (·.inReplyTo)).toFinset :=
          List.mem_toFinset.mpr (List.mem_map_of_mem member)
        have left : mail.inReplyTo ∈
            (mails.records.map (·.inReplyTo)).toFinset \ visited.toFinset :=
          Finset.mem_sdiff.mpr ⟨here, fun again => goes.2 (List.mem_toFinset.mp again)⟩
        rw [Finset.ssubset_iff_of_subset]
        · exact ⟨mail.inReplyTo, left, by simp⟩
        · intro messageId
          simp only [Finset.mem_sdiff, List.toFinset_cons, Finset.mem_insert, not_or]
          exact fun remains => ⟨remains.1, remains.2.2⟩
    · exact ⟨mail, rfl⟩

/-- A climb that runs in a circle never ends at the top. -/
theorem circle_has_no_top {root parent : MailMeta} (answers : mails.Answers root parent)
    (back : Relation.ReflTransGen mails.Answers parent root)
    (climbs : Relation.ReflTransGen mails.Answers root top) : ∃ above, mails.Answers top above := by
  have returns : Relation.ReflTransGen mails.Answers top root := by
    induction climbs with
    | refl => exact Relation.ReflTransGen.refl
    | @tail middle next _ steps ih =>
      rcases Relation.ReflTransGen.cases_head ih with rfl | ⟨above, up, further⟩
      · rw [answers_unique steps answers]
        exact back
      · rw [answers_unique steps up]
        exact further
  rcases Relation.ReflTransGen.cases_head returns with rfl | ⟨above, up, -⟩
  · exact ⟨parent, answers⟩
  · exact ⟨above, up⟩

/-- The climb ends at the top if there is one. -/
theorem climb_reaches_top {start root : MailMeta}
    (climbs : Relation.ReflTransGen mails.Answers start top)
    (last : ∀ parent, ¬ mails.Answers top parent)
    (climbed : Relation.ReflTransGen mails.Answers start root)
    (ends : (∀ parent, ¬ mails.Answers root parent) ∨
      ∃ parent, mails.Answers root parent ∧ Relation.ReflTransGen mails.Answers parent root) :
    root = top := by
  have unique : Relator.RightUnique mails.Answers := fun _ _ _ => answers_unique
  rcases Relation.ReflTransGen.total_of_right_unique unique climbs climbed with above | below
  · rcases Relation.ReflTransGen.cases_head above with same | ⟨parent, answers, -⟩
    · exact same.symm
    · exact absurd answers (last parent)
  rcases ends with stops | ⟨parent, answers, back⟩
  · rcases Relation.ReflTransGen.cases_head below with same | ⟨parent, answers, -⟩
    · exact same
    · exact absurd answers (stops parent)
  · obtain ⟨beyond, further⟩ := circle_has_no_top answers back below
    exact absurd further (last beyond)

end Climbing

section Threading

variable (arrangement : Arrangement) (mails : Mails)

theorem mem_repliesTo (mail reply : MailMeta) :
    reply ∈ repliesTo arrangement mails mail ↔ mails.Replies mail reply := by
  rw [repliesTo, (arrangement.perm _).mem_iff, Mails.childIndex, List.mem_filter, decide_eq_true_eq]
  rfl

theorem repliesTo_nodup (mail : MailMeta) : (repliesTo arrangement mails mail).Nodup := by
  rw [repliesTo, (arrangement.perm _).nodup_iff]
  exact (List.Nodup.of_map _ mails.distinct).filter _

theorem reaches_iff (top mail : MailMeta) :
    Reaches (repliesTo arrangement mails) top mail ↔
      Relation.ReflTransGen mails.Replies top mail := by
  have same : (fun node child => child ∈ repliesTo arrangement mails node) = mails.Replies := by
    funext node child
    exact propext (mem_repliesTo arrangement mails node child)
  rw [Reaches, same]

theorem reaches_finite (top : MailMeta) :
    {mail | Reaches (repliesTo arrangement mails) top mail}.Finite := by
  refine (List.finite_toSet (top :: mails.records)).subset fun mail reaches => ?_
  rcases Relation.ReflTransGen.cases_tail ((reaches_iff arrangement mails top mail).mp reaches) with
    rfl | ⟨last, -, replies⟩
  · exact List.mem_cons_self
  · exact List.mem_cons_of_mem _ replies.1

/-- Below a message that answers none, a tree is what the condition asks for. -/
theorem treelike_iff (member : top ∈ mails.records) (last : ∀ parent, ¬ mails.Answers top parent) :
    Treelike (repliesTo arrangement mails) top ↔
      ∀ first second reply, Relation.ReflTransGen mails.Replies top first →
        Relation.ReflTransGen mails.Replies top second →
        mails.Replies first reply → mails.Replies second reply → first = second := by
  constructor
  · intro tree first second reply left right here there
    exact tree.single first second reply ((reaches_iff arrangement mails _ _).mpr left)
      ((reaches_iff arrangement mails _ _).mpr right)
      ((mem_repliesTo arrangement mails _ _).mpr here)
      ((mem_repliesTo arrangement mails _ _).mpr there)
  · intro single
    refine ⟨fun node reaches again => ?_, fun first second reply left right here there => ?_⟩
    · -- a message with the identifier that the top answers would have been loaded
      have replies := (mem_repliesTo arrangement mails _ _).mp again
      have listed : node ∈ mails.records := by
        rcases Relation.ReflTransGen.cases_tail
          ((reaches_iff arrangement mails _ _).mp reaches) with
          rfl | ⟨above, -, further⟩
        · exact member
        · exact further.1
      cases found : mails.load top.inReplyTo with
      | none => exact load_none found replies.2.1 listed replies.2.2.symm
      | some parent => exact last parent ⟨replies.2.1, found⟩
    · exact single first second reply ((reaches_iff arrangement mails _ _).mp left)
        ((reaches_iff arrangement mails _ _).mp right)
        ((mem_repliesTo arrangement mails _ _).mp here)
        ((mem_repliesTo arrangement mails _ _).mp there)

theorem buildThread_ok {start : MailMeta} (member : start ∈ mails.records) (fuel : Nat)
    (thread : ThreadSummary) :
    buildThread arrangement mails start.guid fuel = some (.ok thread) ↔
      ∃ root, mails.climb fuel start [] = some root ∧
        ∃ node allNodes, buildNode (repliesTo arrangement mails) fuel 0 root [] =
          some (node, allNodes) ∧ ⟨node, allNodes, allNodes.length⟩ = thread := by
  have found : (mails.records.find? fun mail => mail.guid = start.guid) = some start := by
    cases search : mails.records.find? fun mail => mail.guid = start.guid with
    | none => exact absurd (List.find?_eq_none.mp search start member) (by simp)
    | some other =>
      have same : other.guid = start.guid := by simpa using List.find?_some search
      rw [List.inj_on_of_nodup_map mails.distinct (List.mem_of_find?_eq_some search) member same]
  simp [buildThread, found, Option.bind_eq_some_iff]

/-- The thread of a message ends at a tree with every message once if and only
if the messages around it are settled. -/
theorem thread_is_tree_iff (start : { mail // mail ∈ mails.records }) :
    Terminates arrangement mails start.1 ↔ mails.Settled start.1 := by
  obtain ⟨start, member⟩ := start
  constructor
  · rintro ⟨fuel, thread, built, good⟩
    obtain ⟨root, climbed, node, allNodes, unfolded, rfl⟩ :=
      (buildThread_ok arrangement mails member fuel thread).mp built
    have spreads := buildNode_spreads (repliesTo arrangement mails) fuel 0 root []
    rw [unfolded] at spreads
    have tree := treelike_of_nodup fuel root _ spreads.1 good.once
    obtain ⟨climbs, ends⟩ := climb_stops fuel start [] root climbed
      (List.forall_mem_nil _)
    have listed := answers_listed member climbs
    -- a climb stopped by the identifiers it had followed is a circle below the root
    have last : ∀ parent, ¬ mails.Answers root parent := by
      rcases ends with last | ⟨parent, answers, back⟩
      · exact last
      · have below := below_of_climbs (load_some answers.2).1 back
        exact absurd ((mem_repliesTo arrangement mails _ _).mpr (replies_of_answers listed answers))
          (tree.top parent ((reaches_iff arrangement mails _ _).mpr below))
    exact ⟨root, climbs, last, (treelike_iff arrangement mails listed last).mp tree⟩
  · rintro ⟨top, climbs, last, single⟩
    have listed := answers_listed member climbs
    have tree := (treelike_iff arrangement mails listed last).mpr single
    have finite := reaches_finite arrangement mails top
    -- fuel for both loops
    let fuel := {mail | Reaches (repliesTo arrangement mails) top mail}.ncard +
      ((mails.records.map (·.inReplyTo)).toFinset \ ([] : List Bytes).toFinset).card + 1
    obtain ⟨root, climbed⟩ := climb_total fuel start [] member (by omega)
    have same : root = top := by
      obtain ⟨other, ends⟩ := climb_stops fuel start [] root climbed
        (List.forall_mem_nil _)
      exact climb_reaches_top climbs last other ends
    subst same
    obtain ⟨met, spreads⟩ := tree.total fuel finite (by omega)
    have once := tree.nodup (repliesTo_nodup arrangement mails) fuel met spreads
    have described := buildNode_spreads (repliesTo arrangement mails) fuel 0 root []
    cases unfolded : buildNode (repliesTo arrangement mails) fuel 0 root [] with
    | none =>
      rw [unfolded] at described
      rw [show spread (repliesTo arrangement mails) fuel root = none from described] at spreads
      cases spreads
    | some result =>
      obtain ⟨node, allNodes⟩ := result
      rw [unfolded] at described
      obtain ⟨messages, nodes⟩ := described
      cases messages.symm.trans spreads
      refine ⟨fuel, ⟨node, allNodes, allNodes.length⟩,
        (buildThread_ok arrangement mails member fuel _).mpr
          ⟨root, climbed, node, allNodes, unfolded, rfl⟩, once, nodes, ?_, ?_⟩
      · exact (mem_spread fuel root _ spreads start).mpr
          ((reaches_iff arrangement mails _ _).mpr (below_of_climbs member climbs))
      · rw [List.toFinset_card_of_nodup once]
        simpa using congrArg List.length nodes

end Threading

/-! Two threads that go wrong. -/

def byTime : Arrangement where
  sort := List.insertionSort fun first second => first.receivedAt ≤ second.receivedAt
  perm := List.perm_insertionSort _
  sorted := by
    have : Std.Total fun first second : MailMeta => first.receivedAt ≤ second.receivedAt :=
      ⟨fun first second => Int.le_total first.receivedAt second.receivedAt⟩
    have : IsTrans MailMeta fun first second => first.receivedAt ≤ second.receivedAt :=
      ⟨fun _ _ _ => Int.le_trans⟩
    exact List.pairwise_insertionSort _

def sampleMail (guid messageId inReplyTo : String) (receivedAt : Int) : MailMeta :=
  { guid := ascii guid, messageId := ascii messageId, inReplyTo := ascii inReplyTo
    subject := [], sender := [], receivedAt := receivedAt, flags := 0 }

def selfAnswer : Mails := ⟨[sampleMail "1" "x" "x" 0], by decide⟩

/-- Two copies of one message, both received, and a reply to it. -/
def twoCopies : Mails :=
  ⟨[sampleMail "1" "r" "" 0, sampleMail "2" "a" "r" 1, sampleMail "3" "a" "r" 2,
    sampleMail "4" "b" "a" 3], by decide⟩

theorem selfAnswer_buildNode (fuel : Nat) :
    buildNode (repliesTo byTime selfAnswer) fuel 0 (sampleMail "1" "x" "x" 0) [] = none := by
  have again : sampleMail "1" "x" "x" 0 ∈ repliesTo byTime selfAnswer (sampleMail "1" "x" "x" 0) :=
    by decide
  have described := buildNode_spreads (repliesTo byTime selfAnswer) fuel 0
    (sampleMail "1" "x" "x" 0) []
  cases built : buildNode (repliesTo byTime selfAnswer) fuel 0 (sampleMail "1" "x" "x" 0) [] with
  | none => rfl
  | some result =>
    obtain ⟨node, allNodes⟩ := result
    rw [built] at described
    rw [spread_self again fuel] at described
    cases described.1

/-- The thread of the message that answers itself is never built; the reply to
the message that came twice is in its thread twice. -/
theorem threads_of_repeated_identifiers :
    (∀ fuel, buildThread byTime selfAnswer (ascii "1") fuel = none) ∧
      (buildThread byTime twoCopies (ascii "4") 5).map (fun result => result.toOption.map
        fun thread => (thread.count, thread.allNodes.map fun node => node.1.guid)) =
        some (some (5, [ascii "1", ascii "2", ascii "4", ascii "3", ascii "4"])) := by
  refine ⟨fun fuel => ?_, by decide⟩
  have found : (selfAnswer.records.find? fun mail => mail.guid = ascii "1") =
      some (sampleMail "1" "x" "x" 0) := by decide
  simp only [buildThread, found]
  cases climbed : selfAnswer.climb fuel (sampleMail "1" "x" "x" 0) [] with
  | none => rfl
  | some root =>
    have climbs := (climb_stops fuel _ [] root climbed (List.forall_mem_nil _)).1
    have same : root = sampleMail "1" "x" "x" 0 :=
      List.mem_singleton.mp (answers_listed (by decide) climbs)
    simp [same, selfAnswer_buildNode]

end Bongo.Threads
