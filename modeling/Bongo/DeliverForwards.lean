import Bongo.Deliver

/-!
The forwards of one message. The gate answers a question once, what it lets
through is fit to be queued, and the messages handed to the queue carry each
spelling of a target once, however the targets are charged and grouped.
-/

namespace Bongo.Deliver

open ByteKeys Queue

section Tables

variable {Key Value : Type} [BEq Key] [LawfulBEq Key]

theorem lookup_cons_other {table : List (Key × Value)} {key other : Key} {value found : Value}
    (free : table.lookup key = none) (known : table.lookup other = some found) :
    ((key, value) :: table).lookup other = some found := by
  have different : (other == key) = false := by
    apply beq_false_of_ne
    rintro rfl
    rw [free] at known
    cases known
  rw [List.lookup_cons, different]
  exact known

end Tables

variable {target : Bytes}

section Gate

variable (p : DeliverProcessor) (env : QueueEnvelope) (mail : Mail)

theorem forwardKey_inj (user other : UserID) (target address : Bytes) :
    forwardKey p user target = forwardKey p other address ↔
      user = other ∧ p.toLower target = p.toLower address := by
  constructor
  · intro same
    have parts := append_mark_inj user.plain other.plain same
    cases user
    cases other
    cases parts.1
    exact ⟨rfl, parts.2⟩
  · rintro ⟨rfl, same⟩
    rw [forwardKey, forwardKey, same]

/-- A target that the queue may get: the queue is there, and the message does
not reach the target's user already. -/
structure Fit (target : Bytes) : Prop where
  named : target ≠ []
  apart : selfForward p env.recipients target = false
  queue : p.queuer.isSome = true

variable {user : UserID}

theorem deny_none_fit {calls : Nat} (passes : (deny p env mail calls user target).1 = none) :
    Fit p env target := by
  have clear : refusal p env mail user target = none := by
    cases found : refusal p env mail user target with
    | none => rfl
    | some denial =>
      rw [deny, found] at passes
      cases passes
  rw [refusal] at clear
  split_ifs at clear with spam empty noQueue hops self
  constructor
  · exact empty
  · -- alone, the target is dropped only as a forward to oneself
    rw [forwardTargets, forwardTargetsFrom, if_neg (by simp [empty])] at self
    split at self
    next => exact absurd rfl self
    next apart => exact Bool.eq_false_iff.mpr apart
  · cases found : p.queuer with
    | none =>
      rw [found] at noQueue
      exact absurd rfl noQueue
    | some enqueue => rfl

def Grows (before after : ForwardGate) : Prop :=
  ∀ key decision, before.decided.lookup key = some decision →
    after.decided.lookup key = some decision

structure GateSound (gate : ForwardGate) : Prop where
  agrees : ∀ user target, gate.decided.lookup (forwardKey p user target) = some true ↔
    ∃ a ∈ gate.approved, a.userID = user ∧ p.toLower a.target = p.toLower target
  fit : ∀ a ∈ gate.approved, Fit p env a.target

theorem permit_grows (gate : ForwardGate) (user : UserID) (target : Bytes) :
    Grows gate (permit p env mail gate user target).2 := by
  intro key decision known
  simp only [permit]
  cases found : gate.decided.lookup (forwardKey p user (p.trimSpace target)) with
  | some earlier => exact known
  | none =>
    dsimp only
    split <;> exact lookup_cons_other found known

theorem permit_recorded (gate : ForwardGate) (user : UserID) (target : Bytes) :
    (permit p env mail gate user target).2.decided.lookup
        (forwardKey p user (p.trimSpace target)) =
      some (permit p env mail gate user target).1 := by
  simp only [permit]
  cases found : gate.decided.lookup (forwardKey p user (p.trimSpace target)) with
  | some earlier => exact found
  | none =>
    dsimp only
    split <;> exact List.lookup_cons_self

theorem permit_sound {gate : ForwardGate} (sound : GateSound p env gate) (user : UserID)
    (target : Bytes) : GateSound p env (permit p env mail gate user target).2 := by
  simp only [permit]
  cases found : gate.decided.lookup (forwardKey p user (p.trimSpace target)) with
  | some earlier => exact sound
  | none =>
    cases denied : (deny p env mail gate.calls user (p.trimSpace target)).1 with
    | some denial =>
      constructor
      · intro other address
        rw [← sound.agrees other address, List.lookup_cons]
        split
        next same =>
          rw [beq_iff_eq.mp same, found]
          simp
        next => rfl
      · exact sound.fit
    | none =>
      constructor
      · intro other address
        rw [List.lookup_cons]
        simp only [List.mem_append, List.mem_singleton]
        split
        next same =>
          have parts := (forwardKey_inj p _ _ _ _).mp (beq_iff_eq.mp same)
          exact iff_of_true rfl ⟨_, .inr rfl, parts.1.symm, parts.2.symm⟩
        next different =>
          rw [sound.agrees other address]
          constructor
          · rintro ⟨a, member, same⟩
            exact ⟨a, .inl member, same⟩
          rintro ⟨a, member | rfl, same⟩
          · exact ⟨a, member, same⟩
          · -- the new forward has the key asked for
            have key := (forwardKey_inj p _ _ _ _).mpr same
            exact absurd (beq_iff_eq.mpr key.symm) (by simpa using different)
      · exact List.forall_mem_append.mpr
          ⟨sound.fit, List.forall_mem_singleton.mpr (deny_none_fit p env mail denied)⟩

theorem vetRuleRequests_sound : GateSound p env (vetRuleRequests p env mail) := by
  refine List.foldlRecOn _ _ ⟨by simp, by simp⟩ fun gate sound request _ => ?_
  split
  next => exact sound
  next => exact permit_sound p env mail sound _ _

/-- The user's mail is left to a forward without a copy. -/
def Relies (gate : ForwardGate) (user : UserID) : Prop :=
  ∃ prefs, forwardingPrefs p user = some prefs ∧ prefs.forwardKeepCopy = false ∧
    gate.decided.lookup (forwardKey p user (p.trimSpace prefs.forwardAddress)) = some true

/-- The user keeps a copy, or the forward is not let through. -/
def Free (gate : ForwardGate) (user : UserID) : Prop :=
  ∀ prefs, forwardingPrefs p user = some prefs → prefs.forwardKeepCopy = false →
    gate.decided.lookup (forwardKey p user (p.trimSpace prefs.forwardAddress)) = some false

variable {p} in
theorem Relies.grow {before after : ForwardGate} (relies : Relies p before user)
    (growth : Grows before after) : Relies p after user := by
  obtain ⟨prefs, set, leaves, decided⟩ := relies
  exact ⟨prefs, set, leaves, growth _ _ decided⟩

variable {p} in
theorem Free.grow {before after : ForwardGate} (free : Free p before user)
    (growth : Grows before after) : Free p after user :=
  fun prefs set leaves => growth _ _ (free prefs set leaves)

variable {p} in
theorem Free.not_relies {gate : ForwardGate} (free : Free p gate user) : ¬ Relies p gate user := by
  rintro ⟨prefs, set, leaves, decided⟩
  rw [free prefs set leaves] at decided
  cases decided

theorem accountForward_grows (gate : ForwardGate) (user : UserID) :
    Grows gate (accountForward p env mail gate user).2 := by
  rw [accountForward]
  cases forwardingPrefs p user with
  | none => exact fun _ _ known => known
  | some prefs => exact permit_grows p env mail gate user _

theorem accountForward_sound (gate : ForwardGate) (sound : GateSound p env gate)
    (user : UserID) : GateSound p env (accountForward p env mail gate user).2 := by
  rw [accountForward]
  cases forwardingPrefs p user with
  | none => exact sound
  | some prefs => exact permit_sound p env mail sound user _

/-- The local copy is skipped exactly for those who rely on the forward. -/
theorem accountForward_cases (gate : ForwardGate) (user : UserID) :
    (accountForward p env mail gate user).1 = true ∧
        Relies p (accountForward p env mail gate user).2 user ∨
      (accountForward p env mail gate user).1 = false ∧
        Free p (accountForward p env mail gate user).2 user := by
  rw [accountForward]
  cases set : forwardingPrefs p user with
  | none =>
    refine .inr ⟨rfl, ?_⟩
    intro prefs other
    rw [set] at other
    cases other
  | some prefs =>
    have recorded := permit_recorded p env mail gate user prefs.forwardAddress
    cases answer : (permit p env mail gate user prefs.forwardAddress).1 with
    | false =>
      refine .inr ⟨by simp [answer], ?_⟩
      intro other same _
      cases set.symm.trans same
      rw [recorded, answer]
    | true =>
      cases keeps : prefs.forwardKeepCopy with
      | true =>
        refine .inr ⟨by simp [keeps], ?_⟩
        intro other same leaves
        cases set.symm.trans same
        rw [keeps] at leaves
        cases leaves
      | false =>
        refine .inl ⟨by simp [answer, keeps], prefs, set, keeps, ?_⟩
        rw [recorded, answer]

end Gate

section Offers

variable (p : DeliverProcessor) (env : QueueEnvelope) (mail : Mail)

theorem mem_forwardTargetsFrom (recipients seen addresses : List Bytes) (target : Bytes) :
    target ∈ forwardTargetsFrom p recipients seen addresses ↔
      target ∈ addresses ∧ target ≠ [] ∧ target ∉ seen ∧
        selfForward p recipients target = false := by
  induction addresses generalizing seen with
  | nil => simp [forwardTargetsFrom]
  | cons address rest ih =>
    rw [forwardTargetsFrom]
    split_ifs with skipped self
    · rw [ih, List.mem_cons]
      constructor
      · rintro ⟨member, kept⟩
        exact ⟨.inr member, kept⟩
      rintro ⟨rfl | member, named, fresh, apart⟩
      · rcases skipped with empty | again
        · exact absurd empty named
        · exact absurd again fresh
      · exact ⟨member, named, fresh, apart⟩
    · rw [ih, List.mem_cons, List.mem_cons, not_or]
      constructor
      · rintro ⟨member, named, fresh, apart⟩
        exact ⟨.inr member, named, fresh.2, apart⟩
      rintro ⟨rfl | member, named, fresh, apart⟩
      · rw [apart] at self
        cases self
      · refine ⟨member, named, ⟨?_, fresh⟩, apart⟩
        rintro rfl
        rw [apart] at self
        cases self
    · rw [List.mem_cons, ih, List.mem_cons, List.mem_cons, not_or]
      rw [not_or] at skipped
      constructor
      · rintro (rfl | ⟨member, named, fresh, apart⟩)
        · exact ⟨.inl rfl, skipped.1, skipped.2, Bool.eq_false_iff.mpr self⟩
        · exact ⟨.inr member, named, fresh.2, apart⟩
      rintro ⟨rfl | member, named, fresh, apart⟩
      · exact .inl rfl
      · by_cases here : target = address
        · exact .inl here
        · exact .inr ⟨member, named, ⟨here, fresh⟩, apart⟩

theorem forwardTargetsFrom_self (seen addresses : List Bytes) (single : addresses.Nodup)
    (fresh : ∀ target ∈ addresses, target ∉ seen) (fit : ∀ target ∈ addresses, Fit p env target) :
    forwardTargetsFrom p env.recipients seen addresses = addresses := by
  induction addresses generalizing seen with
  | nil => rfl
  | cons address rest ih =>
    have here := fit address List.mem_cons_self
    have unseen := fresh address List.mem_cons_self
    rw [List.nodup_cons] at single
    rw [forwardTargetsFrom, if_neg (by simp [here.named, unseen]), if_neg (by simp [here.apart])]
    congr 1
    apply ih _ single.2
    · intro target member
      rw [List.mem_cons, not_or]
      refine ⟨?_, fresh target (List.mem_cons_of_mem _ member)⟩
      rintro rfl
      exact single.1 member
    · exact fun target member => fit target (List.mem_cons_of_mem _ member)

theorem join_targets (key : Bytes) (fresh : ForwardGroup) (target : Bytes)
    (groups : List (Bytes × ForwardGroup)) :
    ((join key fresh target groups).flatMap (·.2.targets)).Perm
      (target :: groups.flatMap (·.2.targets)) := by
  induction groups with
  | nil => simp [join]
  | cons entry rest ih =>
    obtain ⟨other, group⟩ := entry
    rw [join]
    split
    next =>
      simp only [List.flatMap_cons, List.append_assoc]
      exact List.perm_middle
    next =>
      exact (ih.append_left group.targets).trans List.perm_middle

structure Holds (targets : List Bytes) (groups : List (Bytes × ForwardGroup)) : Prop where
  single : (groups.flatMap (·.2.targets)).Nodup
  exact : ∀ target, target ∈ groups.flatMap (·.2.targets) ↔ target ∈ targets

theorem Holds.join {targets : List Bytes} {groups : List (Bytes × ForwardGroup)}
    (holds : Holds targets groups) (key : Bytes) (fresh : ForwardGroup) (new : target ∉ targets) :
    Holds (target :: targets) (join key fresh target groups) := by
  have order := join_targets key fresh target groups
  constructor
  · rw [order.nodup_iff, List.nodup_cons, holds.exact]
    exact ⟨new, holds.single⟩
  · intro other
    rw [order.mem_iff, List.mem_cons, holds.exact, List.mem_cons]

theorem groupsFrom_holds (origin : OutboundOrigin) (queued : List Bytes)
    (groups : List (Bytes × ForwardGroup)) (approved : List ApprovedForward)
    (holds : Holds queued groups) :
    Holds (queued ++ approved.map (·.target)) (groupsFrom p env origin queued groups approved) := by
  induction approved generalizing queued groups with
  | nil => simpa [groupsFrom] using holds
  | cons a rest ih =>
    rw [groupsFrom]
    split
    next again =>
      have later := ih queued groups holds
      refine ⟨later.single, fun target => (later.exact target).trans ?_⟩
      simp only [List.mem_append, List.map_cons, List.mem_cons]
      constructor
      · rintro (earlier | further)
        · exact .inl earlier
        · exact .inr (.inr further)
      · rintro (earlier | rfl | further)
        · exact .inl earlier
        · exact .inl again
        · exact .inr further
    next new =>
      have later := ih (a.target :: queued) _
        (holds.join (groupKey p env origin a.userID) (newGroup p env origin a.userID) new)
      refine ⟨later.single, fun target => (later.exact target).trans ?_⟩
      simp only [List.mem_append, List.map_cons, List.mem_cons]
      tauto

theorem messagesFrom_recipients (origin : OutboundOrigin) (made : Nat)
    (groups : List (Bytes × ForwardGroup)) (single : (groups.flatMap (·.2.targets)).Nodup)
    (fit : ∀ target ∈ groups.flatMap (·.2.targets), Fit p env target) :
    (messagesFrom p env origin made groups).flatMap (·.recipients) =
      groups.flatMap (·.2.targets) := by
  induction groups generalizing made with
  | nil => rfl
  | cons entry rest ih =>
    obtain ⟨key, group⟩ := entry
    rw [List.flatMap_cons] at single fit ⊢
    rw [List.nodup_append] at single
    have whole : forwardTargets p group.targets env.recipients = group.targets := by
      apply forwardTargetsFrom_self p env [] _ single.1
      · exact fun _ _ => List.not_mem_nil
      · exact fun target member => fit target (List.mem_append_left _ member)
    have later := fun made => ih made single.2.1
      fun target member => fit target (List.mem_append_right _ member)
    rw [messagesFrom]
    simp only [whole]
    split
    next empty =>
      rw [later, empty, List.nil_append]
    next =>
      rw [List.flatMap_cons, later]
      rfl

structure Carries (targets : List Bytes) (messages : List OutboundMessage) : Prop where
  single : (messages.flatMap (·.recipients)).Nodup
  exact : ∀ target, target ∈ messages.flatMap (·.recipients) ↔ target ∈ targets

theorem enqueueGroups_carries (made : Nat) (approved : List ApprovedForward)
    (origin : OutboundOrigin) (fit : ∀ a ∈ approved, Fit p env a.target) :
    Carries (approved.map (·.target)) (enqueueGroups p env made approved origin) := by
  have holds := groupsFrom_holds p env origin [] [] approved ⟨List.nodup_nil, by simp⟩
  rw [List.nil_append] at holds
  have same := messagesFrom_recipients p env origin made _ holds.single (by
    intro target member
    obtain ⟨a, approvedHere, rfl⟩ := List.mem_map.mp ((holds.exact target).mp member)
    exact fit a approvedHere)
  rw [← enqueueGroups] at same
  constructor
  · rw [same]
    exact holds.single
  · intro target
    rw [same, holds.exact]

section

variable (allow : Nat → Bytes → Bool)
include allow

theorem stay_recorded (calls : Nat) (stays : List (Bytes × Bool)) (target : Bytes) :
    (stay p env allow calls stays target).2.2.lookup target =
      some (stay p env allow calls stays target).1 := by
  rw [stay]
  cases found : stays.lookup target with
  | some kept => exact found
  | none =>
    simp only
    split <;> exact List.lookup_cons_self

theorem stay_grows (calls : Nat) {stays : List (Bytes × Bool)} (target : Bytes) {other : Bytes}
    {kept : Bool} (known : stays.lookup other = some kept) :
    (stay p env allow calls stays target).2.2.lookup other = some kept := by
  rw [stay]
  cases found : stays.lookup target with
  | some kept => exact known
  | none =>
    simp only
    split <;> exact lookup_cons_other found known

variable (kept : List Bytes) (calls : Nat) (stays : List (Bytes × Bool))
  (approved : List ApprovedForward)

/-- A target that is decided goes to its side. -/
theorem chargeFrom_side {side : Bool} (known : stays.lookup target = some side) :
    (∀ a ∈ (chargeFrom p env allow kept calls stays approved).1, a.target = target → side = true) ∧
      ∀ a ∈ (chargeFrom p env allow kept calls stays approved).2, a.target = target →
        side = false := by
  induction approved generalizing calls stays with
  | nil => simp [chargeFrom]
  | cons a rest ih =>
    rw [chargeFrom]
    split
    next =>
      have later := ih (stay p env allow calls stays a.target).2.1 _
        (stay_grows p env allow calls a.target known)
      -- the head is on the side that its own target is decided for
      have head : a.target = target → (stay p env allow calls stays a.target).1 = side := by
        rintro rfl
        have recorded := stay_recorded p env allow calls stays a.target
        rw [stay_grows p env allow calls a.target known] at recorded
        exact (Option.some.inj recorded).symm
      simp only
      split
      next stayed =>
        refine ⟨?_, later.2⟩
        intro b member same
        rcases List.mem_cons.mp member with rfl | further
        · rw [← head same, stayed]
        · exact later.1 b further same
      next left =>
        refine ⟨later.1, ?_⟩
        intro b member same
        rcases List.mem_cons.mp member with rfl | further
        · rw [← head same]
          exact Bool.eq_false_iff.mpr left
        · exact later.2 b further same
    next => exact ih calls stays known

theorem chargeFrom_apart :
    ∀ a ∈ (chargeFrom p env allow kept calls stays approved).1,
      ∀ b ∈ (chargeFrom p env allow kept calls stays approved).2, a.target ≠ b.target := by
  induction approved generalizing calls stays with
  | nil => simp [chargeFrom]
  | cons head rest ih =>
    rw [chargeFrom]
    split
    next =>
      have recorded := stay_recorded p env allow calls stays head.target
      have later := ih (stay p env allow calls stays head.target).2.1
        (stay p env allow calls stays head.target).2.2
      have sides := chargeFrom_side p env allow kept
        (stay p env allow calls stays head.target).2.1 _ rest recorded
      simp only
      split
      next stayed =>
        intro a left b right same
        rcases List.mem_cons.mp left with rfl | further
        · rw [sides.2 b right same.symm] at stayed
          cases stayed
        · exact later a further b right same
      next moved =>
        intro a left b right same
        rcases List.mem_cons.mp right with rfl | further
        · exact moved (sides.1 a left same)
        · exact later a left b further same
    next => exact ih calls stays

theorem mem_chargeFrom (a : ApprovedForward) :
    (a ∈ (chargeFrom p env allow kept calls stays approved).1 ∨
        a ∈ (chargeFrom p env allow kept calls stays approved).2) ↔
      a ∈ approved ∧ a.target ∈ kept := by
  induction approved generalizing calls stays with
  | nil => simp [chargeFrom]
  | cons head rest ih =>
    rw [chargeFrom]
    split
    next keeps =>
      have later := ih (stay p env allow calls stays head.target).2.1
        (stay p env allow calls stays head.target).2.2
      simp only
      split
      all_goals
        simp only [List.mem_cons]
        constructor
        · rintro member
          by_cases here : a = head
          · rw [here]
            exact ⟨.inl rfl, keeps⟩
          · have further := later.mp (by tauto)
            exact ⟨.inr further.1, further.2⟩
        · rintro ⟨rfl | member, targeted⟩
          · tauto
          · have further := later.mpr ⟨member, targeted⟩
            tauto
    next drops =>
      rw [ih, List.mem_cons]
      constructor
      · rintro ⟨member, targeted⟩
        exact ⟨.inr member, targeted⟩
      · rintro ⟨rfl | member, targeted⟩
        · exact absurd targeted drops
        · exact ⟨member, targeted⟩

end

theorem Carries.append {left right targets : List Bytes} {messages others : List OutboundMessage}
    (first : Carries left messages) (second : Carries right others)
    (apart : ∀ target ∈ left, target ∉ right)
    (both : ∀ target, target ∈ targets ↔ target ∈ left ∨ target ∈ right) :
    Carries targets (messages ++ others) := by
  constructor
  · rw [List.flatMap_append, List.nodup_append']
    refine ⟨first.single, second.single, ?_⟩
    intro target here there
    exact apart target ((first.exact target).mp here) ((second.exact target).mp there)
  · intro target
    rw [List.flatMap_append, List.mem_append, first.exact, second.exact, both]

theorem enqueueForwards_carries (approved : List ApprovedForward)
    (fit : ∀ a ∈ approved, Fit p env a.target) :
    Carries (approved.map (·.target)) (enqueueForwards p env mail approved) := by
  rw [enqueueForwards]
  split
  next nothing =>
    have nobody : approved = [] := by
      cases approved with
      | nil => rfl
      | cons a rest =>
        have queue := (fit a List.mem_cons_self).queue
        rcases nothing with empty | absent
        · cases empty
        · rw [Option.isNone_iff_eq_none.mp absent] at queue
          cases queue
    rw [nobody]
    exact ⟨List.nodup_nil, by simp⟩
  next =>
    cases p.authorRL with
    | none => exact enqueueGroups_carries p env 0 approved _ fit
    | some allow =>
      simp only
      split
      next =>
        have split := mem_chargeFrom p env allow
          (forwardTargets p (approved.map (·.target)) env.recipients) 0 [] approved
        rw [← chargeAuthor] at split
        have kept : ∀ a ∈ approved,
            a.target ∈ forwardTargets p (approved.map (·.target)) env.recipients := by
          intro a member
          have ready := fit a member
          exact (mem_forwardTargetsFrom p _ _ _ _).mpr
            ⟨List.mem_map_of_mem member, ready.named, List.not_mem_nil, ready.apart⟩
        refine Carries.append
          (enqueueGroups_carries p env 0 _ .fromLocal
            fun a member => fit a ((split a).mp (.inl member)).1)
          (enqueueGroups_carries p env _ _ .forward
            fun a member => fit a ((split a).mp (.inr member)).1) ?_ ?_
        · intro target left right
          obtain ⟨a, here, rfl⟩ := List.mem_map.mp left
          obtain ⟨b, there, same⟩ := List.mem_map.mp right
          exact chargeFrom_apart p env allow _ 0 [] approved a here b there same.symm
        · intro target
          simp only [List.mem_map]
          constructor
          · rintro ⟨a, member, rfl⟩
            rcases (split a).mpr ⟨member, kept a member⟩ with left | right
            · exact .inl ⟨a, left, rfl⟩
            · exact .inr ⟨a, right, rfl⟩
          · rintro (⟨a, left, rfl⟩ | ⟨a, right, rfl⟩)
            · exact ⟨a, ((split a).mp (.inl left)).1, rfl⟩
            · exact ⟨a, ((split a).mp (.inr right)).1, rfl⟩
      next => exact enqueueGroups_carries p env 0 approved _ fit

end Offers

end Bongo.Deliver
