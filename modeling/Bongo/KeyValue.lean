import Bongo.ByteKeys

/-!
An ordered key-value store: point reads and writes, batches that commit as one
write, and scans of the keys under a lead. Two stores that read the same at
every key are equal.
-/

namespace Bongo.KeyValue

open ByteKeys

abbrev Store (V : Type) := Std.ExtTreeMap Bytes V compare

variable {V : Type}

def get (ps : Store V) (key : Bytes) : Option V := ps[key]?

def set (ps : Store V) (key : Bytes) (value : V) : Store V := ps.insert key value

def delete (ps : Store V) (key : Bytes) : Store V := ps.erase key

@[simp] theorem get_empty (key : Bytes) : get (∅ : Store V) key = none := by
  simp [get]

@[simp] theorem get_set (ps : Store V) (key other : Bytes) (value : V) :
    get (set ps key value) other = if key = other then some value else get ps other := by
  simp [get, set, Std.ExtTreeMap.getElem?_insert]

@[simp] theorem get_delete (ps : Store V) (key other : Bytes) :
    get (delete ps key) other = if key = other then none else get ps other := by
  simp [get, delete, Std.ExtTreeMap.getElem?_erase]

theorem store_ext (left right : Store V) (same : ∀ key, get left key = get right key) :
    left = right :=
  Std.ExtTreeMap.ext_getElem? same

theorem set_stored (ps : Store V) (key : Bytes) (value : V) (stored : get ps key = some value) :
    set ps key value = ps := by
  apply store_ext
  intro other
  rw [get_set]
  split
  case isTrue same => rw [← same, stored]
  case isFalse => rfl

/-! Batches. The writes land in order, all of them or none. -/

inductive Write (V : Type) where
  | set (key : Bytes) (value : V)
  | delete (key : Bytes)
  deriving DecidableEq

def Write.key : Write V → Bytes
  | .set key _ => key
  | .delete key => key

def Write.apply (ps : Store V) : Write V → Store V
  | .set key value => KeyValue.set ps key value
  | .delete key => KeyValue.delete ps key

def commit (ps : Store V) (batch : List (Write V)) : Store V := batch.foldl Write.apply ps

section

variable (ps : Store V)
include ps

@[simp] theorem commit_nil : commit ps [] = ps := rfl

@[simp] theorem commit_set (key : Bytes) (value : V) (rest : List (Write V)) :
    commit ps (.set key value :: rest) = commit (set ps key value) rest := rfl

@[simp] theorem commit_delete (key : Bytes) (rest : List (Write V)) :
    commit ps (.delete key :: rest) = commit (delete ps key) rest := rfl

@[simp] theorem commit_append (first second : List (Write V)) :
    commit ps (first ++ second) = commit (commit ps first) second :=
  List.foldl_append

theorem get_apply_of_ne {write : Write V} {key : Bytes} (other : write.key ≠ key) :
    get (write.apply ps) key = get ps key := by
  cases write with
  | set target value => simp [Write.apply, show target ≠ key from other]
  | delete target => simp [Write.apply, show target ≠ key from other]

theorem get_commit_untouched (batch : List (Write V)) (key : Bytes)
    (untouched : ∀ write ∈ batch, write.key ≠ key) :
    get (commit ps batch) key = get ps key := by
  induction batch generalizing ps with
  | nil => rfl
  | cons write rest ih =>
    calc get (commit ps (write :: rest)) key
        = get (commit (write.apply ps) rest) key := rfl
      _ = get (write.apply ps) key :=
        ih _ fun later member => untouched later (List.mem_cons_of_mem _ member)
      _ = get ps key := get_apply_of_ne ps (untouched write List.mem_cons_self)

theorem get_commit_some (batch : List (Write V)) (key : Bytes) (value : V)
    (present : get (commit ps batch) key = some value) :
    get ps key = some value ∨ .set key value ∈ batch := by
  induction batch generalizing ps with
  | nil => exact Or.inl present
  | cons write rest ih =>
    rcases ih (write.apply ps) present with before | later
    · cases write with
      | set target stored =>
        simp only [Write.apply, get_set] at before
        split at before
        case isTrue same =>
          cases before
          right
          simp [same]
        case isFalse => exact Or.inl before
      | delete target =>
        simp only [Write.apply, get_delete] at before
        split at before
        case isTrue => cases before
        case isFalse => exact Or.inl before
    · exact Or.inr (List.mem_cons_of_mem _ later)

theorem get_commit_deletes (keys : List Bytes) (key : Bytes) :
    get (commit ps (keys.map .delete)) key = if key ∈ keys then none else get ps key := by
  induction keys generalizing ps with
  | nil => simp
  | cons first rest ih =>
    rw [List.map_cons, commit_delete, ih, get_delete]
    by_cases later : key ∈ rest
    · simp [later]
    · simp [later, @eq_comm _ key first]

theorem commit_deletes_absent (keys : List Bytes) (absent : ∀ key ∈ keys, get ps key = none) :
    commit ps (keys.map .delete) = ps := by
  apply store_ext
  intro key
  rw [get_commit_deletes]
  split
  case isTrue listed => exact (absent key listed).symm
  case isFalse => rfl

theorem get_of_commit_deletes (keys : List Bytes) (key : Bytes) (value : V)
    (present : get (commit ps (keys.map .delete)) key = some value) :
    get ps key = some value := by
  rw [get_commit_deletes] at present
  split at present
  case isTrue => cases present
  case isFalse => exact present

/-- Deleting again, and no more than before, changes nothing. -/
theorem commit_deletes_again (keys again : List Bytes) (within : ∀ key ∈ again, key ∈ keys) :
    commit (commit ps (keys.map .delete)) (again.map .delete) = commit ps (keys.map .delete) := by
  apply commit_deletes_absent
  intro key member
  rw [get_commit_deletes, if_pos (within key member)]

end

/-! Relocation: a batch that writes every item at its target and deletes it at
its source, where no target is a source. -/
section Relocation

variable {A : Type} (target source : A → Bytes) (value : A → V)

def relocation (items : List A) : List (Write V) :=
  items.flatMap fun item => [.set (target item) (value item), .delete (source item)]

theorem relocation_cons (item : A) (rest : List A) :
    relocation target source value (item :: rest) =
      .set (target item) (value item) :: .delete (source item) ::
        relocation target source value rest := rfl

theorem get_relocation_other (ps : Store V) (items : List A) (key : Bytes)
    (fromTargets : ∀ item ∈ items, target item ≠ key)
    (fromSources : ∀ item ∈ items, source item ≠ key) :
    get (commit ps (relocation target source value items)) key = get ps key := by
  apply get_commit_untouched
  intro write member
  obtain ⟨item, listed, here⟩ := List.mem_flatMap.mp member
  rcases List.mem_cons.mp here with rfl | deleted
  · exact fromTargets item listed
  · cases List.mem_singleton.mp deleted
    exact fromSources item listed

variable (apart : ∀ left right, target left ≠ source right)
include apart

theorem get_relocation_source (ps : Store V) (items : List A) (item : A)
    (member : item ∈ items) :
    get (commit ps (relocation target source value items)) (source item) = none := by
  -- once deleted, the key stays absent: later writes go to targets
  have stays : ∀ (rest : List A) (ps : Store V), get ps (source item) = none →
      get (commit ps (relocation target source value rest)) (source item) = none := by
    intro rest
    induction rest with
    | nil => exact fun ps absent => absent
    | cons next rest ih =>
      intro ps absent
      rw [relocation_cons, commit_set, commit_delete]
      apply ih
      simp [apart next item, absent]
  induction items generalizing ps with
  | nil => cases member
  | cons first rest ih =>
    rw [relocation_cons, commit_set, commit_delete]
    rcases List.mem_cons.mp member with rfl | later
    · apply stays
      simp
    · exact ih _ later

/-- A target holds the value of one of the items that go there. -/
theorem get_relocation_target (ps : Store V) (items : List A) (item : A)
    (member : item ∈ items) :
    ∃ last ∈ items, target last = target item ∧
      get (commit ps (relocation target source value items)) (target item) = some (value last) := by
  have stays : ∀ (rest : List A) (ps : Store V), (∃ last ∈ items, target last = target item ∧
        get ps (target item) = some (value last)) →
      (∀ other ∈ rest, other ∈ items) →
      ∃ last ∈ items, target last = target item ∧
        get (commit ps (relocation target source value rest)) (target item) =
          some (value last) := by
    intro rest
    induction rest with
    | nil => exact fun ps held _ => held
    | cons next rest ih =>
      rintro ps ⟨last, listed, same, stored⟩ part
      rw [relocation_cons, commit_set, commit_delete]
      refine ih _ ?_ fun other later => part other (List.mem_cons_of_mem _ later)
      rw [get_delete, if_neg (Ne.symm (apart item next)), get_set]
      split
      case isTrue hit => exact ⟨next, part next List.mem_cons_self, hit, rfl⟩
      case isFalse => exact ⟨last, listed, same, stored⟩
  -- the items before `item` do not matter: its own write comes after theirs
  obtain ⟨before, after, split⟩ := List.append_of_mem member
  have batch : relocation target source value items =
      relocation target source value before ++ (.set (target item) (value item) ::
        .delete (source item) :: relocation target source value after) := by
    rw [split, relocation, relocation, List.flatMap_append, List.flatMap_cons]
    rfl
  rw [batch, commit_append, commit_set, commit_delete]
  apply stays
  · refine ⟨item, member, rfl, ?_⟩
    rw [get_delete, if_neg (Ne.symm (apart item item)), get_set, if_pos rfl]
  · intro other later
    rw [split]
    exact List.mem_append_right _ (List.mem_cons_of_mem _ later)

end Relocation

/-- The entries from `lead` up to `upperBound lead`, in key order. -/
def prefixScan (ps : Store V) (lead : Bytes) : List (Bytes × V) :=
  ps.toList.filter fun entry => inRange lead entry.1

def scanKeys (ps : Store V) (lead : Bytes) : List Bytes := (prefixScan ps lead).map Prod.fst

theorem mem_prefixScan (ps : Store V) (lead key : Bytes) (value : V) :
    (key, value) ∈ prefixScan ps lead ↔ lead <+: key ∧ get ps key = some value := by
  simp only [prefixScan, List.mem_filter, inRange_iff, get]
  rw [Std.ExtTreeMap.mem_toList_iff_getElem?_eq_some, and_comm]

theorem mem_prefixScan_filterMap {α : Type} (ps : Store V) (lead : Bytes) (read : V → Option α)
    (found : α) :
    found ∈ (prefixScan ps lead).filterMap (fun entry => read entry.2) ↔
      ∃ key value, lead <+: key ∧ get ps key = some value ∧ read value = some found := by
  simp [mem_prefixScan, and_assoc]

theorem mapM_readable {α β : Type} (read : α → Option β) (entries : List α) (found : List β)
    (mapped : entries.mapM read = some found) :
    found = entries.filterMap read ∧ ∀ entry ∈ entries, ∃ value, read entry = some value := by
  induction entries generalizing found with
  | nil =>
    cases mapped
    exact ⟨rfl, List.forall_mem_nil _⟩
  | cons entry rest ih =>
    simp only [List.mapM_cons, Option.bind_eq_bind, Option.bind_eq_some_iff] at mapped
    obtain ⟨first, here, others, more, same⟩ := mapped
    cases same
    obtain ⟨rfl, readable⟩ := ih others more
    constructor
    · rw [List.filterMap_cons, here]
    · exact List.forall_mem_cons.mpr ⟨⟨first, here⟩, readable⟩

theorem mapM_total {α β : Type} (read : α → Option β) (entries : List α)
    (readable : ∀ entry ∈ entries, ∃ value, read entry = some value) :
    entries.mapM read = some (entries.filterMap read) := by
  induction entries with
  | nil => rfl
  | cons entry rest ih =>
    obtain ⟨value, here⟩ := readable entry List.mem_cons_self
    rw [List.mapM_cons, ih fun other member => readable other (List.mem_cons_of_mem _ member),
      List.filterMap_cons, here]
    rfl

theorem mem_scanKeys (ps : Store V) (lead key : Bytes) :
    key ∈ scanKeys ps lead ↔ lead <+: key ∧ ∃ value, get ps key = some value := by
  simp [scanKeys, mem_prefixScan]

/-- A store that kept only entries of another scans to a part of it. -/
theorem scanKeys_subset (ps kept : Store V) (lead key : Bytes)
    (part : ∀ key value, get kept key = some value → get ps key = some value)
    (member : key ∈ scanKeys kept lead) : key ∈ scanKeys ps lead := by
  rw [mem_scanKeys] at member ⊢
  obtain ⟨leads, value, present⟩ := member
  exact ⟨leads, value, part key value present⟩

theorem prefixScan_sorted (ps : Store V) (lead : Bytes) :
    (prefixScan ps lead).Pairwise fun left right => compare left.1 right.1 = .lt :=
  Std.ExtTreeMap.ordered_keys_toList.filter _

theorem scanKeys_sorted (ps : Store V) (lead : Bytes) :
    (scanKeys ps lead).Pairwise fun left right => (compare left right).isLE := by
  refine List.pairwise_map.mpr ((prefixScan_sorted ps lead).imp fun order => ?_)
  rw [order]
  rfl

theorem scanKeys_head {ps : Store V} {lead key : Bytes}
    (first : (scanKeys ps lead).head? = some key) :
    key ∈ scanKeys ps lead ∧ ∀ other ∈ scanKeys ps lead, (compare key other).isLE := by
  have sorted := scanKeys_sorted ps lead
  obtain ⟨rest, keys⟩ := List.head?_eq_some_iff.mp first
  rw [keys] at sorted ⊢
  exact ⟨List.mem_cons_self, List.forall_mem_cons.mpr
    ⟨Std.ReflCmp.isLE_rfl, (List.pairwise_cons.mp sorted).1⟩⟩

theorem scanKeys_last {ps : Store V} {lead key : Bytes}
    (last : (scanKeys ps lead).getLast? = some key) :
    key ∈ scanKeys ps lead ∧ ∀ other ∈ scanKeys ps lead, (compare other key).isLE := by
  have sorted := scanKeys_sorted ps lead
  obtain ⟨front, keys⟩ := List.getLast?_eq_some_iff.mp last
  rw [keys] at sorted ⊢
  refine ⟨List.mem_append_right _ List.mem_cons_self, List.forall_mem_append.mpr ⟨?_, ?_⟩⟩
  · exact fun other earlier =>
      (List.pairwise_append.mp sorted).2.2 other earlier key List.mem_cons_self
  · exact List.forall_mem_singleton.mpr Std.ReflCmp.isLE_rfl

/-- From `start` on, up to an end that is left out. -/
def between (start : Bytes) (upper : Option Bytes) (key : Bytes) : Bool :=
  (compare start key).isLE &&
    match upper with
    | none => true
    | some upper => (compare key upper).isLT

def deleteBetween (ps : Store V) (start : Bytes) (upper : Option Bytes) : Store V :=
  commit ps (((ps.toList.map Prod.fst).filter (between start upper)).map .delete)

theorem get_deleteBetween (ps : Store V) (start : Bytes) (upper : Option Bytes) (key : Bytes) :
    get (deleteBetween ps start upper) key =
      if between start upper key then none else get ps key := by
  rw [deleteBetween, get_commit_deletes]
  cases inside : between start upper key with
  | false => simp [inside]
  | true =>
    cases stored : get ps key with
    | none => simp
    | some value =>
      have listed : key ∈ (ps.toList.map Prod.fst).filter (between start upper) := by
        refine List.mem_filter.mpr ⟨List.mem_map.mpr ⟨(key, value), ?_, rfl⟩, inside⟩
        exact Std.ExtTreeMap.mem_toList_iff_getElem?_eq_some.mpr stored
      rw [if_pos listed]
      rfl

end Bongo.KeyValue
