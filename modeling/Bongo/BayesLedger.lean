import Bongo.Bayes
import Bongo.Histories

/-!
The training counters as a ledger. The trainings of one user form a history, newest first;
the last training of a message decides the category it counts for. Every command keeps the
stored counts equal to the numbers of messages in that history, so repeated and reversed
trainings cancel exactly.
-/

namespace Bongo.Bayes

open ByteKeys KeyValue Proto Records Histories

def underUser (userID rest : Bytes) : Bytes := ascii "/user/" ++ userID ++ ascii "/bayes/" ++ rest

theorem bayesTokenKey_eq (userID category token : Bytes) :
    bayesTokenKey userID category token = underUser userID (category ++ 47 :: token) := by
  simp [bayesTokenKey, underUser]

theorem bayesMessageKey_eq (userID guid : Bytes) :
    bayesMessageKey userID guid = underUser userID (ascii "msg/" ++ guid) := by
  have split : ascii "/bayes/msg/" = ascii "/bayes/" ++ ascii "msg/" := by decide
  simp [bayesMessageKey, underUser, split]

theorem bayesTrainedKey_eq (userID : Bytes) :
    bayesTrainedKey userID = underUser userID (ascii "trained") := by
  have split : ascii "/bayes/trained" = ascii "/bayes/" ++ ascii "trained" := by decide
  simp [bayesTrainedKey, underUser, split]

@[simp] theorem underUser_inj (userID left right : Bytes) :
    underUser userID left = underUser userID right ↔ left = right := by
  simp [underUser]

variable {other left right user : Bytes}

/-- Without slashes in their names, two users share no key. -/
theorem underUser_apart (plain : 47 ∉ user) (clean : 47 ∉ other)
    (same : underUser user left = underUser other right) : user = other := by
  have mark : ascii "/bayes/" = 47 :: ascii "bayes/" := by decide
  simp only [underUser, mark, List.append_assoc, List.cons_append] at same
  have rest := congrArg (cut 47) (List.append_cancel_left same)
  rw [cut_append 47 user _ plain, cut_append 47 other _ clean] at rest
  exact (Prod.mk.inj (Option.some.inj rest)).1

def Category (category : Bytes) : Prop := category = bayesSpam ∨ category = bayesHam

instance (category : Bytes) : Decidable (Category category) := inferInstanceAs (Decidable (_ ∨ _))

variable {category : Bytes}

theorem category_plain (known : Category category) : 47 ∉ category := by
  rcases known with rfl | rfl <;> decide

variable {token : Bytes}

theorem tokenKey_inj (known : Category left) (valid : Category right)
    (same : bayesTokenKey user left token = bayesTokenKey user right other) :
    left = right ∧ token = other := by
  rw [bayesTokenKey_eq, bayesTokenKey_eq, underUser_inj] at same
  have parts := congrArg (cut 47) same
  rw [cut_append 47 left _ (category_plain known),
    cut_append 47 right _ (category_plain valid)] at parts
  exact Prod.mk.inj (Option.some.inj parts)

variable {guid : Bytes}

theorem tokenKey_ne_message (known : Category category) :
    bayesTokenKey user category token ≠ bayesMessageKey user guid := by
  rw [bayesTokenKey_eq, bayesMessageKey_eq, Ne, underUser_inj]
  intro same
  rcases known with rfl | rfl <;> cases same

theorem tokenKey_ne_trained (known : Category category) :
    bayesTokenKey user category token ≠ bayesTrainedKey user := by
  rw [bayesTokenKey_eq, bayesTrainedKey_eq, Ne, underUser_inj]
  intro same
  rcases known with rfl | rfl <;> cases same

theorem messageKey_ne_trained (user guid : Bytes) :
    bayesMessageKey user guid ≠ bayesTrainedKey user := by
  rw [bayesMessageKey_eq, bayesTrainedKey_eq, Ne, underUser_inj]
  intro same
  cases same

theorem messageKey_inj :
    bayesMessageKey user left = bayesMessageKey user right ↔ left = right := by
  rw [bayesMessageKey_eq, bayesMessageKey_eq, underUser_inj, List.append_right_inj]

/-- What a command trains, if it is not refused. -/
def training (cmd : RaftCommand) : Option BayesTrainPayload :=
  if isBayesSyntheticCommand cmd.key then
    (parseBayesPayload cmd.value).filter fun payload =>
      payload.userID ≠ [] ∧ payload.guid ≠ [] ∧ Category payload.category ∧
        payload.tokens.length ≤ maxBayesTokens
  else none

def trainingWrites (get : Bytes → Option Value) (payload : BayesTrainPayload) :
    List (Write Value) :=
  let tokens := distinctTokens [] payload.tokens
  let markerKey := bayesMessageKey payload.userID payload.guid
  let marker := Write.set markerKey (.bytes payload.category)
  let learned := adjust get payload.userID payload.category increment tokens
  let previous := (read get markerKey).2
  if previous = .bytes payload.category then []
  else if previous = .empty then learned ++ [bumpTrained get payload.userID, marker]
  else
    (if previous = .bytes bayesSpam then adjust get payload.userID bayesSpam decrement tokens
      else if previous = .bytes bayesHam then adjust get payload.userID bayesHam decrement tokens
      else []) ++ learned ++ [marker]

theorem planBayesTrain_ok (get : Bytes → Option Value) (cmd : RaftCommand)
    (writes : List (Write Value)) :
    planBayesTrain get cmd = .ok writes ↔
      ∃ payload, training cmd = some payload ∧ writes = trainingWrites get payload := by
  have chosen : ∀ payload : BayesTrainPayload, training cmd = some payload ↔
      isBayesSyntheticCommand cmd.key = true ∧ parseBayesPayload cmd.value = some payload ∧
        payload.userID ≠ [] ∧ payload.guid ≠ [] ∧ Category payload.category ∧
        payload.tokens.length ≤ maxBayesTokens := by
    intro payload
    unfold training
    split
    case isTrue synthetic => simp [synthetic, Option.filter_eq_some_iff]
    case isFalse other => simp [other]
  have planned : ∀ payload : BayesTrainPayload, ∀ plan : Except Error (List (Write Value)),
      plan = .ok (trainingWrites get payload) →
      (plan = .ok writes ↔ writes = trainingWrites get payload) := by
    rintro payload plan rfl
    rw [Except.ok.injEq, eq_comm]
  simp only [planBayesTrain, bind_ok, reject_ok, orError_ok, chosen]
  constructor
  · rintro ⟨-, synthetic, payload, parsed, -, user, -, guid, -, category, -, size, plan⟩
    refine ⟨payload, ⟨by simpa using synthetic, parsed, user, guid, ?_, not_lt.mp size⟩, ?_⟩
    · tauto
    · refine (planned payload _ ?_).mp plan
      simp only [trainingWrites]
      split_ifs <;> rfl
  · rintro ⟨payload, ⟨synthetic, parsed, user, guid, category, size⟩, rfl⟩
    refine ⟨(), by simp [synthetic], payload, parsed, (), user, (), guid, (), ?_, (),
      not_lt.mpr size, ?_⟩
    · unfold Category at category
      tauto
    · simp only [trainingWrites]
      split_ifs <;> rfl

theorem apply_training (ps : PebbleStore) (cmd : RaftCommand) :
    (applyBayesTrainCommand ps cmd).1 =
      match training cmd with
      | none => ps
      | some payload => commit ps (trainingWrites (get ps) payload) := by
  have plan := planBayesTrain_ok (get ps) cmd
  unfold applyBayesTrainCommand
  cases planned : planBayesTrain (get ps) cmd with
  | error refused =>
    cases found : training cmd with
    | none => rfl
    | some payload =>
      have accepted := (plan _).mpr ⟨payload, found, rfl⟩
      rw [planned] at accepted
      cases accepted
  | ok writes =>
    obtain ⟨payload, found, same⟩ := (plan writes).mp planned
    rw [found, same]
    rfl

section Ledger

/-- Guids and categories, newest first. -/
abbrev History := List (Bytes × Bytes)

def guids (history : History) : Finset Bytes := (history.map Prod.fst).toFinset

def latest (history : History) (guid : Bytes) : Option Bytes :=
  (history.find? fun entry => entry.1 = guid).map Prod.snd

variable (tokensOf : Bytes → List Bytes)

def counted (history : History) (category token : Bytes) : Finset Bytes :=
  (guids history).filter fun guid =>
    latest history guid = some category ∧ token ∈ tokensOf guid

theorem latest_cons (guid category : Bytes) (history : History) (other : Bytes) :
    latest ((guid, category) :: history) other =
      if guid = other then some category else latest history other := by
  unfold latest
  rw [List.find?_cons]
  by_cases same : guid = other <;> simp [same]

theorem guids_cons (guid category : Bytes) (history : History) :
    guids ((guid, category) :: history) = insert guid (guids history) := by
  simp [guids]

theorem mem_guids (history : History) (guid : Bytes) :
    guid ∈ guids history ↔ (latest history guid).isSome := by
  induction history with
  | nil => simp [guids, latest]
  | cons entry rest ih =>
    rw [guids_cons, latest_cons, Finset.mem_insert, ih]
    by_cases same : entry.1 = guid
    · simp [same]
    · simp [same, Ne.symm same]

theorem mem_counted (history : History) (category token guid : Bytes) :
    guid ∈ counted tokensOf history category token ↔
      latest history guid = some category ∧ token ∈ tokensOf guid := by
  unfold counted
  rw [Finset.mem_filter, mem_guids]
  constructor
  · exact And.right
  · intro trained
    exact ⟨by rw [trained.1]; rfl, trained⟩

/-- A training moves its message, and no other, to the category it names. -/
theorem counted_cons (history : History) (guid trained category token : Bytes) :
    counted tokensOf ((guid, trained) :: history) category token =
      if trained = category ∧ token ∈ tokensOf guid then
        insert guid (counted tokensOf history category token)
      else (counted tokensOf history category token).erase guid := by
  ext other
  rw [mem_counted, latest_cons]
  by_cases same : guid = other
  · subst same
    by_cases moved : trained = category ∧ token ∈ tokensOf guid
    · simp [moved]
    · rw [if_pos rfl, if_neg moved, Option.some.injEq]
      simp [moved]
  · rw [if_neg same]
    split <;> simp [mem_counted, Ne.symm same]

theorem card_counted_le (history : History) (category token : Bytes) :
    (counted tokensOf history category token).card ≤ history.length :=
  calc (counted tokensOf history category token).card
      ≤ (guids history).card := Finset.card_filter_le _ _
    _ ≤ (history.map Prod.fst).length := List.toFinset_card_le _
    _ = history.length := List.length_map _

end Ledger

variable {key : Bytes}

theorem read_count {get : Bytes → Option Value} {count : UInt64}
    (stored : get key = some (encodeBayesCount count)) : (read get key).1 = count := by
  have short : encodeBayesCount count ≠ .empty := by
    intro same
    exact encodeVarint_ne_nil 9 _ (Value.bytes.inj same)
  have decoded := decodeVarint_encodeVarint 9 count.toNat [] (by
    have bound := count.toNat_lt
    omega)
  rw [List.append_nil] at decoded
  rw [read, stored]
  simp only [if_neg short]
  simp [uvarint, encodeBayesCount, decoded]

theorem read_congr {get other : Bytes → Option Value} (same : get key = other key) :
    read get key = read other key := by
  rw [read, read, same]

theorem read_set_other {ps : PebbleStore} {value : Value} (apart : key ≠ other) :
    read (get (set ps key value)) other = read (get ps) other :=
  read_congr (by rw [get_set, if_neg apart])

theorem mem_distinctTokens (seen tokens : List Bytes) (token : Bytes) :
    token ∈ distinctTokens seen tokens ↔
      token ∈ tokens ∧ token ≠ [] ∧ token.length ≤ maxBayesTokenLen ∧ token ∉ seen := by
  induction tokens generalizing seen with
  | nil => simp [distinctTokens]
  | cons first rest ih =>
    rw [distinctTokens]
    split
    case isTrue dropped =>
      rw [ih, List.mem_cons]
      constructor
      · rintro ⟨member, valid⟩
        exact ⟨Or.inr member, valid⟩
      · rintro ⟨rfl | member, valid⟩
        · exact absurd dropped (by simp [valid.1, not_lt.mpr valid.2.1, valid.2.2])
        · exact ⟨member, valid⟩
    case isFalse kept =>
      rw [not_or, not_or, not_lt] at kept
      rw [List.mem_cons, ih, List.mem_cons, List.mem_cons, not_or]
      by_cases same : token = first
      · subst same
        simp [kept]
      · simp [same]

section Adjusted

variable (ps : PebbleStore) (get : Bytes → Option Value) (step : UInt64 → UInt64)
  (tokens : List Bytes)

/-- Each token's count is read once, so the order of the writes does not matter. -/
theorem get_commit_adjust (user category key : Bytes) :
    KeyValue.get (commit ps (adjust get user category step tokens)) key =
      if ∃ token ∈ tokens, bayesTokenKey user category token = key then
        some (encodeBayesCount (step (read get key).1))
      else KeyValue.get ps key := by
  induction tokens generalizing ps with
  | nil => simp [adjust]
  | cons token rest ih =>
    have first : adjust get user category step (token :: rest) =
        .set (bayesTokenKey user category token)
          (encodeBayesCount (step (read get (bayesTokenKey user category token)).1)) ::
        adjust get user category step rest := rfl
    rw [first, commit_set, ih, get_set]
    by_cases later : ∃ other ∈ rest, bayesTokenKey user category other = key
    · simp [later]
    · by_cases same : bayesTokenKey user category token = key
      · simp [same]
      · simp [same]

/-- What an adjustment of one category does to the count of a token in another. -/
theorem count_adjust (token : Bytes) (known : Category category) (valid : Category other) :
    (read (KeyValue.get (commit ps (adjust get user category step tokens)))
      (bayesTokenKey user other token)).1 =
      if category = other ∧ token ∈ tokens then
        step (read get (bayesTokenKey user other token)).1
      else (read (KeyValue.get ps) (bayesTokenKey user other token)).1 := by
  have hit : (∃ named ∈ tokens,
      bayesTokenKey user category named = bayesTokenKey user other token) ↔
      category = other ∧ token ∈ tokens := by
    constructor
    · rintro ⟨named, member, same⟩
      obtain ⟨rfl, rfl⟩ := tokenKey_inj known valid same
      exact ⟨rfl, member⟩
    · rintro ⟨rfl, member⟩
      exact ⟨token, member, rfl⟩
  have found := get_commit_adjust ps get step tokens user category (bayesTokenKey user other token)
  simp only [hit] at found
  split at found
  case isTrue both => rw [if_pos both, read_count found]
  case isFalse neither => rw [if_neg neither, read_congr found]

theorem get_adjust_other (apart : ∀ token, bayesTokenKey user category token ≠ key) :
    KeyValue.get (commit ps (adjust get user category step tokens)) key = KeyValue.get ps key := by
  rw [get_commit_adjust, if_neg]
  rintro ⟨token, -, same⟩
  exact apart token same

end Adjusted

section Steps

variable (tokensOf : Bytes → List Bytes) (user : Bytes)

structure Exact (history : History) (ps : PebbleStore) : Prop where
  marker : ∀ guid, get ps (bayesMessageKey user guid) = (latest history guid).map Value.bytes
  known : ∀ guid category, latest history guid = some category → Category category
  count : ∀ category token, Category category → token ≠ [] → token.length ≤ maxBayesTokenLen →
    (read (get ps) (bayesTokenKey user category token)).1.toNat =
      (counted tokensOf history category token).card
  trained : (read (get ps) (bayesTrainedKey user)).1.toNat = (guids history).card

variable {tokensOf user} {history : History} {ps : PebbleStore}

theorem category_ne_empty (known : Category category) : Value.bytes category ≠ .empty := by
  intro same
  rcases known with rfl | rfl <;> cases same

section

variable (exact : Exact tokensOf user history ps)
include exact

theorem Exact.previous (guid : Bytes) :
    (read (get ps) (bayesMessageKey user guid)).2 =
      ((latest history guid).map Value.bytes).getD .empty := by
  rw [read, exact.marker]
  cases found : latest history guid with
  | none => rfl
  | some category =>
    have named := category_ne_empty (exact.known guid category found)
    simp [named]

/-- Data at other keys than those of the user's trainings are not part of the ledger. -/
theorem Exact.congr {other : PebbleStore}
    (same : ∀ rest, get other (underUser user rest) = get ps (underUser user rest)) :
    Exact tokensOf user history other where
  marker guid := by
    rw [bayesMessageKey_eq, same, ← bayesMessageKey_eq]
    exact exact.marker guid
  known := exact.known
  count category token known nonempty short := by
    rw [bayesTokenKey_eq, read_congr (same _), ← bayesTokenKey_eq]
    exact exact.count category token known nonempty short
  trained := by
    rw [bayesTrainedKey_eq, read_congr (same _), ← bayesTrainedKey_eq]
    exact exact.trained

/-- A repeated training leaves everything as it is. -/
theorem Exact.again (repeated : latest history guid = some category) :
    Exact tokensOf user ((guid, category) :: history) ps := by
  have same : latest ((guid, category) :: history) = latest history := by
    funext other
    rw [latest_cons]
    split
    case isTrue this => rw [← this, repeated]
    case isFalse => rfl
  have members : guids ((guid, category) :: history) = guids history := by
    rw [guids_cons, Finset.insert_eq_of_mem]
    rw [mem_guids, repeated]
    rfl
  have sets : ∀ named token, counted tokensOf ((guid, category) :: history) named token =
      counted tokensOf history named token := by
    intro named token
    unfold counted
    rw [same, members]
  exact ⟨by rw [same]; exact exact.marker, by rw [same]; exact exact.known,
    fun named token => by rw [sets]; exact exact.count named token,
    by rw [members]; exact exact.trained⟩

end

theorem increment_toNat {count : UInt64} (room : count.toNat + 1 < 2 ^ 64) :
    (increment count).toNat = count.toNat + 1 := by
  rw [increment, UInt64.toNat_add]
  exact Nat.mod_eq_of_lt room

theorem decrement_toNat (count : UInt64) : (decrement count).toNat = count.toNat - 1 := by
  unfold decrement
  split
  case isTrue positive =>
    have least : 1 ≤ count := by
      rw [UInt64.le_iff_toNat_le]
      exact UInt64.lt_iff_toNat_lt.mp positive
    rw [UInt64.toNat_sub_of_le _ _ least]
    rfl
  case isFalse zero =>
    rw [UInt64.lt_iff_toNat_lt, not_lt] at zero
    have none : count.toNat = 0 := Nat.le_zero.mp zero
    omega

/-- How many messages count for a token once one more is trained. -/
theorem card_counted_cons (guid category named token : Bytes) :
    (counted tokensOf ((guid, category) :: history) named token).card =
      if category = named ∧ token ∈ tokensOf guid then
        if latest history guid = some named then (counted tokensOf history named token).card
        else (counted tokensOf history named token).card + 1
      else if latest history guid = some named ∧ token ∈ tokensOf guid then
        (counted tokensOf history named token).card - 1
      else (counted tokensOf history named token).card := by
  have member := mem_counted tokensOf history named token guid
  rw [counted_cons]
  split
  case isTrue joins =>
    split
    case isTrue known => rw [Finset.insert_eq_of_mem (member.mpr ⟨known, joins.2⟩)]
    case isFalse new =>
      rw [Finset.card_insert_of_notMem fun found => new (member.mp found).1]
  case isFalse =>
    split
    case isTrue leaves => rw [Finset.card_erase_of_mem (member.mpr leaves)]
    case isFalse stays =>
      rw [Finset.erase_eq_of_notMem fun found => stays (member.mp found)]

section

variable (exact : Exact tokensOf user history ps)
include exact

variable (room : history.length + 1 < 2 ^ 64)
include room

/-- A message moves to a category: the tokens count one more there and one less where the
message was before, which is never below zero. -/
theorem Exact.moved (valid : Category category) (changed : latest history guid ≠ some category)
    {after : PebbleStore}
    (marker : ∀ other, get after (bayesMessageKey user other) =
      if guid = other then some (.bytes category) else get ps (bayesMessageKey user other))
    (count : ∀ named token, Category named → (read (get after) (bayesTokenKey user named token)).1 =
      if category = named ∧ token ∈ distinctTokens [] (tokensOf guid) then
        increment (read (get ps) (bayesTokenKey user named token)).1
      else if latest history guid = some named ∧ token ∈ distinctTokens [] (tokensOf guid) then
        decrement (read (get ps) (bayesTokenKey user named token)).1
      else (read (get ps) (bayesTokenKey user named token)).1)
    (trained : (read (get after) (bayesTrainedKey user)).1.toNat =
      (guids ((guid, category) :: history)).card) :
    Exact tokensOf user ((guid, category) :: history) after := by
  constructor
  case marker =>
    intro other
    rw [marker, latest_cons, exact.marker]
    split <;> rfl
  case known =>
    intro other named found
    rw [latest_cons] at found
    split at found
    case isTrue => exact Option.some.inj found ▸ valid
    case isFalse => exact exact.known other named found
  case count =>
    intro named token wanted nonempty short
    have before := exact.count named token wanted nonempty short
    have bound := card_counted_le tokensOf history named token
    rw [count named token wanted, card_counted_cons]
    simp only [mem_distinctTokens, nonempty, short, List.not_mem_nil, not_false_eq_true, ne_eq,
      and_true]
    split
    case isTrue joins =>
      obtain ⟨rfl, -⟩ := joins
      rw [if_neg changed, increment_toNat (by omega), before]
    case isFalse =>
      split
      case isTrue => rw [decrement_toNat, before]
      case isFalse => exact before
  case trained => exact trained

theorem Exact.first (valid : Category category) (new : latest history guid = none) :
    Exact tokensOf user ((guid, category) :: history)
      (commit ps (adjust (get ps) user category increment (distinctTokens [] (tokensOf guid)) ++
        [bumpTrained (get ps) user, .set (bayesMessageKey user guid) (.bytes category)])) := by
  rw [commit_append, bumpTrained, commit_set, commit_set, commit_nil]
  apply exact.moved room valid (by rw [new]; nofun)
  · intro other
    rw [get_set, get_set, if_neg (messageKey_ne_trained user other).symm,
      get_adjust_other ps (get ps) _ _ fun token => tokenKey_ne_message valid]
    simp [messageKey_inj]
  · intro named token wanted
    rw [read_set_other (tokenKey_ne_message wanted).symm,
      read_set_other (tokenKey_ne_trained wanted).symm,
      count_adjust ps (get ps) _ _ token valid wanted]
    simp [new]
  · have absent : guid ∉ guids history := by
      rw [mem_guids, new]
      nofun
    have size : (guids history).card ≤ history.length :=
      (List.toFinset_card_le _).trans_eq (List.length_map _)
    have before := exact.trained
    rw [read_set_other (messageKey_ne_trained user guid), read_count (by rw [get_set, if_pos rfl]),
      guids_cons, Finset.card_insert_of_notMem absent, ← before]
    exact increment_toNat (by omega)

theorem Exact.reversed {previous : Bytes} (valid : Category category)
    (known : latest history guid = some previous) (changed : category ≠ previous) :
    Exact tokensOf user ((guid, category) :: history)
      (commit ps (adjust (get ps) user previous decrement (distinctTokens [] (tokensOf guid)) ++
        adjust (get ps) user category increment (distinctTokens [] (tokensOf guid)) ++
        [.set (bayesMessageKey user guid) (.bytes category)])) := by
  have legal : Category previous := exact.known guid previous known
  rw [commit_append, commit_append, commit_set, commit_nil]
  have moves : latest history guid ≠ some category := by
    rw [known]
    exact fun same => changed (Option.some.inj same).symm
  apply exact.moved room valid moves
  · intro other
    rw [get_set, get_adjust_other _ (get ps) _ _ fun token => tokenKey_ne_message valid,
      get_adjust_other ps (get ps) _ _ fun token => tokenKey_ne_message legal]
    simp [messageKey_inj]
  · intro named token wanted
    rw [read_set_other (tokenKey_ne_message wanted).symm,
      count_adjust _ (get ps) _ _ token valid wanted,
      count_adjust ps (get ps) _ _ token legal wanted, known]
    simp
  · rw [read_set_other (messageKey_ne_trained user guid),
      read_congr (get_adjust_other _ (get ps) _ _ fun token => tokenKey_ne_trained valid),
      read_congr (get_adjust_other ps (get ps) _ _ fun token => tokenKey_ne_trained legal),
      guids_cons, Finset.insert_eq_of_mem (by rw [mem_guids, known]; rfl)]
    exact exact.trained

theorem Exact.train {payload : BayesTrainPayload} (mine : payload.userID = user)
    (tokens : payload.tokens = tokensOf payload.guid) (valid : Category payload.category) :
    Exact tokensOf user ((payload.guid, payload.category) :: history)
      (commit ps (trainingWrites (get ps) payload)) := by
  subst mine
  have previous := exact.previous payload.guid
  simp only [trainingWrites, tokens]
  cases found : latest history payload.guid with
  | none =>
    have empty : (read (get ps) (bayesMessageKey payload.userID payload.guid)).2 = .empty := by
      rw [previous, found]
      rfl
    rw [if_neg (by rw [empty]; exact (category_ne_empty valid).symm), if_pos empty]
    exact exact.first room valid found
  | some category =>
    have marked : (read (get ps) (bayesMessageKey payload.userID payload.guid)).2 =
        .bytes category := by
      rw [previous, found]
      rfl
    have legal := exact.known payload.guid category found
    by_cases same : category = payload.category
    · rw [if_pos (by rw [marked, same])]
      exact exact.again (same ▸ found)
    rw [marked, if_neg (fun equal => same (Value.bytes.inj equal)),
      if_neg (category_ne_empty legal)]
    have reversed := exact.reversed room valid found (Ne.symm same)
    rcases legal with rfl | rfl
    · rw [if_pos rfl]
      exact reversed
    · rw [if_neg (by decide), if_pos rfl]
      exact reversed

end

theorem adjust_under (get : Bytes → Option Value) (user category : Bytes)
    (step : UInt64 → UInt64) (tokens : List Bytes) :
    ∀ write ∈ adjust get user category step tokens, ∃ rest, write.key = underUser user rest := by
  intro write member
  obtain ⟨token, -, rfl⟩ := List.mem_map.mp member
  exact ⟨_, bayesTokenKey_eq user category token⟩

theorem trainingWrites_under (get : Bytes → Option Value) (payload : BayesTrainPayload) :
    ∀ write ∈ trainingWrites get payload, ∃ rest, write.key = underUser payload.userID rest := by
  have marked : ∃ rest, bayesMessageKey payload.userID payload.guid =
      underUser payload.userID rest := ⟨_, bayesMessageKey_eq _ _⟩
  have bumped : ∃ rest, bayesTrainedKey payload.userID = underUser payload.userID rest :=
    ⟨_, bayesTrainedKey_eq _⟩
  have adjusted := adjust_under get payload.userID
  simp only [trainingWrites]
  split
  case isTrue => exact List.forall_mem_nil _
  case isFalse =>
    split
    case isTrue =>
      simp only [List.forall_mem_append, List.forall_mem_cons]
      exact ⟨adjusted _ _ _, bumped, marked, List.forall_mem_nil _⟩
    case isFalse =>
      simp only [List.forall_mem_append, List.forall_mem_cons]
      refine ⟨⟨?_, adjusted _ _ _⟩, marked, List.forall_mem_nil _⟩
      split
      case isTrue => exact adjusted _ _ _
      case isFalse =>
        split
        case isTrue => exact adjusted _ _ _
        case isFalse => exact List.forall_mem_nil _

theorem get_training_other (ps : PebbleStore) {payload : BayesTrainPayload}
    (other : payload.userID ≠ user) (plain : 47 ∉ payload.userID) (clean : 47 ∉ user)
    (rest : Bytes) :
    get (commit ps (trainingWrites (get ps) payload)) (underUser user rest) =
      get ps (underUser user rest) := by
  apply get_commit_untouched
  intro write member same
  obtain ⟨left, key⟩ := trainingWrites_under (get ps) payload write member
  exact other (underUser_apart plain clean (key.symm.trans same))

end Steps

def apply (ps : PebbleStore) (cmd : RaftCommand) : PebbleStore := (applyBayesTrainCommand ps cmd).1

def historyOf (user : Bytes) (cmds : List RaftCommand) : History :=
  (((cmds.filterMap training).filter fun payload => payload.userID = user).map
    fun payload => (payload.guid, payload.category)).reverse

theorem historyOf_snoc (user : Bytes) (cmds : List RaftCommand) (cmd : RaftCommand) :
    historyOf user (cmds ++ [cmd]) =
      match training cmd with
      | none => historyOf user cmds
      | some payload =>
        if payload.userID = user then (payload.guid, payload.category) :: historyOf user cmds
        else historyOf user cmds := by
  unfold historyOf
  rw [List.filterMap_append]
  cases found : training cmd with
  | none => simp [found]
  | some payload =>
    by_cases mine : payload.userID = user
    · simp [found, mine]
    · simp [found, mine]

theorem historyOf_length (user : Bytes) (cmds : List RaftCommand) :
    (historyOf user cmds).length ≤ cmds.length := by
  unfold historyOf
  rw [List.length_reverse, List.length_map]
  exact (List.length_filter_le _ _).trans (List.length_filterMap_le _ _)

theorem training_category {cmd : RaftCommand} {payload : BayesTrainPayload}
    (trained : training cmd = some payload) : Category payload.category := by
  unfold training at trained
  split at trained
  case isTrue =>
    have checked := (Option.filter_eq_some_iff.mp trained).2
    exact (of_decide_eq_true checked).2.2.1
  case isFalse => cases trained

section Runs

variable (user : Bytes) (tokensOf : Bytes → List Bytes) (ps : PebbleStore)
  (cmds : List RaftCommand) (fresh : ∀ rest, get ps (underUser user rest) = none)
  (fixed : ∀ payload ∈ cmds.filterMap training, payload.userID = user →
    payload.tokens = tokensOf payload.guid)
  (apart : ∀ payload ∈ cmds.filterMap training,
    payload.userID = user ∨ 47 ∉ payload.userID ∧ 47 ∉ user)
  (indexed : cmds.length < 2 ^ 64)
include fresh fixed apart indexed

theorem exact_run :
    Exact tokensOf user (historyOf user cmds) (run apply ps cmds) := by
  induction cmds using List.reverseRecOn with
  | nil =>
    have absent : ∀ rest, (read (get ps) (underUser user rest)).1 = 0 := by
      intro rest
      rw [read, fresh]
    constructor
    case marker =>
      intro guid
      rw [bayesMessageKey_eq]
      exact fresh _
    case known =>
      intro guid category found
      cases found
    case count =>
      intro category token _ _ _
      rw [run_nil, bayesTokenKey_eq, absent]
      rfl
    case trained =>
      rw [run_nil, bayesTrainedKey_eq, absent]
      rfl
  | append_singleton cmds cmd ih =>
    rw [List.filterMap_append, List.forall_mem_append] at fixed apart
    rw [List.length_append, List.length_singleton] at indexed
    have before := ih fixed.1 apart.1 (by omega)
    have room := historyOf_length user cmds
    rw [run_append, run_cons, run_nil, historyOf_snoc]
    generalize run apply ps cmds = store at before
    rw [apply, apply_training]
    cases trained : training cmd with
    | none => exact before
    | some payload =>
      have member : payload ∈ [cmd].filterMap training := by simp [trained]
      simp only
      split
      case isTrue mine =>
        exact before.train (by omega) mine (fixed.2 payload member mine) (training_category trained)
      case isFalse other =>
        obtain ⟨plain, clean⟩ := (apart.2 payload member).resolve_left other
        exact before.congr (get_training_other store other plain clean)

/-- After any commands the counts are those of the messages by their last training, and the
trained count is the number of messages ever trained. Log entries have 64-bit numbers. -/
theorem bayes_counts_exact :
    (∀ category token, Category category → token ≠ [] → token.length ≤ maxBayesTokenLen →
      (read (get (run apply ps cmds)) (bayesTokenKey user category token)).1.toNat =
        (counted tokensOf (historyOf user cmds) category token).card) ∧
    (read (get (run apply ps cmds)) (bayesTrainedKey user)).1.toNat =
      (guids (historyOf user cmds)).card := by
  have exact := exact_run user tokensOf ps cmds fresh fixed apart indexed
  exact ⟨exact.count, exact.trained⟩

end Runs

def trainCmd (category : Bytes) : RaftCommand where
  op := .put
  key := bayesTrainPrefix ++ ascii "u"
  value := .json (.bayesTrain ⟨ascii "u", ascii "m1", category, [ascii "word"]⟩)

/-- A message trained as spam, again as spam, and then as ham. -/
theorem bayes_counts_exact_reversed :
    (read (get (run apply ∅ [trainCmd bayesSpam, trainCmd bayesSpam, trainCmd bayesHam]))
      (bayesTokenKey (ascii "u") bayesSpam (ascii "word"))).1.toNat = 0 ∧
    (read (get (run apply ∅ [trainCmd bayesSpam, trainCmd bayesSpam, trainCmd bayesHam]))
      (bayesTrainedKey (ascii "u"))).1.toNat = 1 := by
  have counts := bayes_counts_exact (ascii "u") (fun _ => [ascii "word"]) ∅
    [trainCmd bayesSpam, trainCmd bayesSpam, trainCmd bayesHam] (fun rest => get_empty _)
    (by decide) (by decide) (by decide)
  rw [counts.1 bayesSpam (ascii "word") (by decide) (by decide) (by decide), counts.2]
  decide

end Bongo.Bayes
