import Bongo.KeyValue
import Bongo.Histories

/-!
The store of a Raft node. Log entries lie in the key-value store under their
index in twenty decimal digits and stable values beside them; what the store is
for is a map from index to entry and a map of stable values, and every call does
to the one what it says about the other.
-/

namespace Bongo.RaftStore

open ByteKeys KeyValue Histories

def raftLogPrefix : Bytes := ascii "_raft/log/"

def raftStablePrefix : Bytes := ascii "_raft/stable/"

def logKey (index : UInt64) : Bytes := raftLogPrefix ++ decimal 20 index.toNat

def stableKey (key : Bytes) : Bytes := raftStablePrefix ++ key

/-- The codec of log entries: what it encodes it decodes. -/
structure LogCodec (Entry : Type) where
  index : Entry → UInt64
  encode : Entry → Option Bytes
  decode : Bytes → Option Entry
  decodes : ∀ entry bytes, encode entry = some bytes → decode bytes = some entry

inductive Error where
  | logNotFound
  | decoding
  | invalidLogKey
  | parsingLogIndex
  | encodingLog (index : UInt64)
  deriving DecidableEq

def isDigit (byte : UInt8) : Bool := 48 ≤ byte && byte ≤ 57

/-- `Sscanf` with `%d` reads the digits at the front; white space before them,
which no log key has, is not skipped here. -/
def parseLogIndex (key : Bytes) : Except Error UInt64 :=
  if key.length ≤ raftLogPrefix.length then .error .invalidLogKey
  else
    let digits := (key.drop raftLogPrefix.length).takeWhile isDigit
    if digits = [] ∨ 2 ^ 64 ≤ readDecimal digits then .error .parsingLogIndex
    else .ok (UInt64.ofNat (readDecimal digits))

/-! Pebble's calls. -/

/-- The source has the body of `prefixUpperBound` here a second time. -/
def keySuccessor (key : Bytes) : Option Bytes := upperBound key

/-- Both ends included. Without a successor of the end, every key from the start
on is deleted. -/
def deleteKeys (ps : Store Bytes) (start stop : Bytes) : Store Bytes :=
  deleteBetween ps start (keySuccessor stop)

def lastKeyWithPrefix (ps : Store Bytes) (lead : Bytes) : Option Bytes :=
  (scanKeys ps lead).getLast?

section Calls

variable {Entry : Type} (codec : LogCodec Entry)

def firstIndex (ps : Store Bytes) : Except Error UInt64 :=
  match (scanKeys ps raftLogPrefix).head? with
  | none => .ok 0
  | some key => parseLogIndex key

def lastIndex (ps : Store Bytes) : Except Error UInt64 :=
  match lastKeyWithPrefix ps raftLogPrefix with
  | none => .ok 0
  | some key => parseLogIndex key

def getLog (ps : Store Bytes) (index : UInt64) : Except Error Entry :=
  match get ps (logKey index) with
  | none => .error .logNotFound
  | some value =>
    match codec.decode value with
    | none => .error .decoding
    | some entry => .ok entry

/-- Entries are stored one by one up to the first that cannot be encoded. -/
def storeLogs (ps : Store Bytes) : List Entry → Store Bytes × Option Error
  | [] => (ps, none)
  | entry :: rest =>
    match codec.encode entry with
    | none => (ps, some (.encodingLog (codec.index entry)))
    | some value => storeLogs (set ps (logKey (codec.index entry)) value) rest

def deleteRange (ps : Store Bytes) (min max : UInt64) : Store Bytes :=
  deleteKeys ps (logKey min) (logKey max)

def setStable (ps : Store Bytes) (key value : Bytes) : Store Bytes := set ps (stableKey key) value

/-- A missing value reads as an empty one. -/
def getStable (ps : Store Bytes) (key : Bytes) : Bytes := (get ps (stableKey key)).getD []

inductive Call (Entry : Type) where
  | storeLogs (entries : List Entry)
  | deleteRange (min max : UInt64)
  | setStable (key value : Bytes)

def perform (ps : Store Bytes) : Call Entry → Store Bytes
  | .storeLogs entries => (storeLogs codec ps entries).1
  | .deleteRange min max => deleteRange ps min max
  | .setStable key value => setStable ps key value

/-! What it is for. -/

structure Log (Entry : Type) where
  entries : UInt64 → Option Entry
  stable : Bytes → Option Bytes

def emptyLog : Log Entry := ⟨fun _ => none, fun _ => none⟩

def Log.put (log : Log Entry) (entry : Entry) : Log Entry :=
  { log with entries := Function.update log.entries (codec.index entry) (some entry) }

def Log.after (log : Log Entry) : Call Entry → Log Entry
  | .storeLogs entries =>
    (entries.takeWhile fun entry => (codec.encode entry).isSome).foldl (Log.put codec) log
  | .deleteRange min max =>
    { log with entries := fun index => if min ≤ index ∧ index ≤ max then none
                                       else log.entries index }
  | .setStable key value => { log with stable := Function.update log.stable key (some value) }

/-- The least live index, or 0 when there is none. -/
def Log.First (log : Log Entry) (index : UInt64) : Prop :=
  (∀ other, log.entries other = none) ∧ index = 0 ∨
    log.entries index ≠ none ∧ ∀ other, log.entries other ≠ none → index ≤ other

/-- The greatest live index, or 0 when there is none. -/
def Log.Last (log : Log Entry) (index : UInt64) : Prop :=
  (∀ other, log.entries other = none) ∧ index = 0 ∨
    log.entries index ≠ none ∧ ∀ other, log.entries other ≠ none → other ≤ index

theorem Log.put_self (log : Log Entry) (entry : Entry) :
    (log.put codec entry).entries (codec.index entry) = some entry := Function.update_self ..

theorem Log.put_other (log : Log Entry) (entry : Entry) {index : UInt64}
    (other : index ≠ codec.index entry) :
    (log.put codec entry).entries index = log.entries index := Function.update_of_ne other ..

end Calls

theorem index_bound (index : UInt64) : index.toNat < 10 ^ 20 :=
  Nat.lt_of_lt_of_le index.toNat_lt (by decide)

theorem logKey_inj {left right : UInt64} (same : logKey left = logKey right) : left = right :=
  UInt64.toNat_inj.mp (decimal_inj 20 _ _ (index_bound left) (index_bound right)
    (List.append_cancel_left same))

theorem stableKey_inj {left right : Bytes} (same : stableKey left = stableKey right) :
    left = right := List.append_cancel_left same

theorem logKey_compare (left right : UInt64) :
    compare (logKey left) (logKey right) = compare left.toNat right.toNat := by
  rw [logKey, logKey, compare_append _ _ _ _ rfl,
    decimal_compare 20 _ _ (index_bound left) (index_bound right)]
  simp

theorem logKey_le {left right : UInt64} (order : (compare (logKey left) (logKey right)).isLE) :
    left ≤ right := by
  rw [logKey_compare, Nat.isLE_compare] at order
  exact UInt64.le_iff_toNat_le.mpr order

theorem raftLogPrefix_stableKey (key : Bytes) : ¬ raftLogPrefix <+: stableKey key := by
  rintro ⟨rest, same⟩
  simp [raftLogPrefix, stableKey, raftStablePrefix, ascii] at same

theorem logKey_ne_stableKey (index : UInt64) (key : Bytes) : logKey index ≠ stableKey key := by
  intro same
  exact raftLogPrefix_stableKey key (same ▸ List.prefix_append _ _)

theorem logKey_prefix_iff (left right : UInt64) : logKey left <+: logKey right ↔ left = right := by
  constructor
  · intro leads
    have lengths : (logKey left).length = (logKey right).length := by simp [logKey]
    exact logKey_inj (leads.eq_of_length lengths)
  · rintro rfl
    exact List.prefix_refl _

theorem digits_decimal (width number : Nat) :
    (decimal width number).takeWhile isDigit = decimal width number := by
  rw [List.takeWhile_eq_self_iff]
  intro byte member
  obtain ⟨low, high⟩ := mem_decimal width number byte member
  rw [isDigit, Bool.and_eq_true, decide_eq_true_eq, decide_eq_true_eq, UInt8.le_iff_toNat_le,
    UInt8.le_iff_toNat_le]
  exact ⟨low, high⟩

theorem parseLogIndex_logKey (index : UInt64) : parseLogIndex (logKey index) = .ok index := by
  have long : ¬ (logKey index).length ≤ raftLogPrefix.length := by simp [logKey]
  have digits : ((logKey index).drop raftLogPrefix.length).takeWhile isDigit =
      decimal 20 index.toNat := by
    rw [logKey, List.drop_left, digits_decimal]
  have value := readDecimal_decimal 20 index.toNat (index_bound index)
  have some : ¬ (decimal 20 index.toNat = [] ∨ 2 ^ 64 ≤ index.toNat) := by
    rintro (empty | large)
    · have length := decimal_length 20 index.toNat
      rw [empty] at length
      cases length
    · exact absurd index.toNat_lt (Nat.not_lt.mpr large)
  rw [parseLogIndex, if_neg long]
  simp only [digits, value, if_neg some, UInt64.ofNat_toNat]

/-- The last byte of a log key is a digit, so the key has a successor. -/
theorem keySuccessor_logKey (index : UInt64) :
    ∃ upper, keySuccessor (logKey index) = some upper := by
  have shape : logKey index =
      (raftLogPrefix ++ decimal 19 (index.toNat / 10)) ++ [digit index.toNat] := by
    rw [logKey, decimal, List.append_assoc]
  have room : digit index.toNat ≠ 0xFF := by
    intro full
    have value := digit_toNat index.toNat
    rw [full] at value
    have literal : (0xFF : UInt8).toNat = 255 := rfl
    omega
  exact ⟨_, by rw [keySuccessor, shape, upperBound_concat _ _ room]⟩

theorem between_some (start upper key : Bytes) : between start (some upper) key =
    ((compare start key).isLE && (compare key upper).isLT) := rfl

/-- The range that is deleted holds exactly the log keys of the indexes asked. -/
theorem between_logKey (min max index : UInt64) :
    between (logKey min) (keySuccessor (logKey max)) (logKey index) = true ↔
      min ≤ index ∧ index ≤ max := by
  obtain ⟨upper, successor⟩ := keySuccessor_logKey max
  rw [successor, between_some, Bool.and_eq_true, logKey_compare]
  have above : (compare index.toNat max.toNat = .lt ∨ max = index) ↔ index ≤ max := by
    rw [Nat.compare_eq_lt, UInt64.le_iff_toNat_le, ← UInt64.toNat_inj]
    omega
  have below : (compare min.toNat index.toNat).isLE = true ↔ min ≤ index := by
    rw [Nat.isLE_compare, UInt64.le_iff_toNat_le]
  simp only [below_upperBound successor, logKey_compare, logKey_prefix_iff, above, below]

theorem between_stableKey (min max : UInt64) (key : Bytes) :
    between (logKey min) (keySuccessor (logKey max)) (stableKey key) = false := by
  obtain ⟨upper, successor⟩ := keySuccessor_logKey max
  have order : compare (stableKey key) (logKey max) = .gt := by
    have stable : stableKey key = ascii "_raft/s" ++ (ascii "table/" ++ key) := by
      simp [stableKey, raftStablePrefix, ascii]
    have log : logKey max = ascii "_raft/l" ++ (ascii "og/" ++ decimal 20 max.toNat) := by
      simp [logKey, raftLogPrefix, ascii]
    have fronts : compare (ascii "_raft/s") (ascii "_raft/l") = .gt := by decide
    rw [stable, log, compare_append (ascii "_raft/s") (ascii "_raft/l") _ _ (by decide),
      fronts]
    rfl
  rw [successor, between_some, Bool.and_eq_false_iff]
  right
  rw [Bool.eq_false_iff]
  intro below
  rcases (below_upperBound successor (stableKey key)).mp below with less | leads
  · rw [order] at less
    cases less
  · exact raftLogPrefix_stableKey key ((List.prefix_append _ _).trans leads)

section Refinement

variable {Entry : Type} (codec : LogCodec Entry)

structure Shows (ps : Store Bytes) (log : Log Entry) : Prop where
  entries : ∀ index, get ps (logKey index) = (log.entries index).bind codec.encode
  encoded : ∀ index entry, log.entries index = some entry → (codec.encode entry).isSome = true
  stable : ∀ key, get ps (stableKey key) = log.stable key
  only : ∀ key value, get ps key = some value →
    (∃ index, key = logKey index) ∨ ∃ name, key = stableKey name

theorem shows_empty : Shows codec ∅ emptyLog where
  entries _ := get_empty _
  encoded _ _ impossible := by cases impossible
  stable _ := get_empty _
  only key value present := by
    rw [get_empty] at present
    cases present

variable {codec} {ps : Store Bytes} {log : Log Entry} (shows_ : Shows codec ps log)
include shows_

theorem Shows.put {entry : Entry} {value : Bytes} (encoded : codec.encode entry = some value) :
    Shows codec (set ps (logKey (codec.index entry)) value) (log.put codec entry) := by
  constructor
  · intro index
    rw [get_set]
    by_cases same : index = codec.index entry
    · rw [same, if_pos rfl, Log.put_self]
      exact encoded.symm
    · rw [if_neg fun keys => same (logKey_inj keys).symm, Log.put_other codec log entry same]
      exact shows_.entries index
  · intro index other held
    by_cases same : index = codec.index entry
    · rw [same, Log.put_self] at held
      cases held
      rw [encoded]
      rfl
    · rw [Log.put_other codec log entry same] at held
      exact shows_.encoded index other held
  · intro key
    rw [get_set, if_neg (logKey_ne_stableKey _ key)]
    exact shows_.stable key
  · intro key stored present
    rw [get_set] at present
    split_ifs at present with same
    · exact Or.inl ⟨_, same.symm⟩
    · exact shows_.only key stored present

theorem Shows.storeLogs (entries : List Entry) :
    Shows codec (RaftStore.storeLogs codec ps entries).1
      (log.after codec (.storeLogs entries)) := by
  rw [Log.after]
  induction entries generalizing ps log with
  | nil => exact shows_
  | cons entry rest ih =>
    rw [RaftStore.storeLogs]
    cases encoded : codec.encode entry with
    | none =>
      rw [List.takeWhile_cons, encoded]
      exact shows_
    | some value =>
      rw [List.takeWhile_cons, encoded]
      exact ih (shows_.put encoded)

theorem Shows.deleteRange (min max : UInt64) :
    Shows codec (RaftStore.deleteRange ps min max) (log.after codec (.deleteRange min max)) := by
  rw [Log.after, RaftStore.deleteRange, deleteKeys]
  constructor
  · intro index
    simp only [get_deleteBetween, between_logKey]
    split_ifs
    · rfl
    · exact shows_.entries index
  · intro index entry held
    simp only at held
    split_ifs at held
    exact shows_.encoded index entry held
  · intro key
    rw [get_deleteBetween, between_stableKey]
    exact shows_.stable key
  · intro key value present
    rw [get_deleteBetween] at present
    split_ifs at present
    exact shows_.only key value present

theorem Shows.setStable (key value : Bytes) :
    Shows codec (RaftStore.setStable ps key value) (log.after codec (.setStable key value)) := by
  rw [Log.after, RaftStore.setStable]
  constructor
  · intro index
    rw [get_set, if_neg (Ne.symm (logKey_ne_stableKey index key))]
    exact shows_.entries index
  · exact shows_.encoded
  · intro other
    change get (set ps (stableKey key) value) (stableKey other) =
      Function.update log.stable key (some value) other
    rw [get_set]
    by_cases same : other = key
    · rw [same, if_pos rfl, Function.update_self]
    · rw [if_neg fun keys => same (stableKey_inj keys).symm, Function.update_of_ne same]
      exact shows_.stable other
  · intro other stored present
    rw [get_set] at present
    split_ifs at present with same
    · exact Or.inr ⟨key, same.symm⟩
    · exact shows_.only other stored present

theorem Shows.perform (call : Call Entry) :
    Shows codec (RaftStore.perform codec ps call) (log.after codec call) := by
  cases call with
  | storeLogs entries => exact shows_.storeLogs entries
  | deleteRange min max => exact shows_.deleteRange min max
  | setStable key value => exact shows_.setStable key value

/-! Reading. -/

theorem Shows.getLog (index : UInt64) :
    RaftStore.getLog codec ps index =
      match log.entries index with
      | some entry => .ok entry
      | none => .error .logNotFound := by
  rw [RaftStore.getLog, shows_.entries index]
  cases held : log.entries index with
  | none => rfl
  | some entry =>
    obtain ⟨value, encoded⟩ := Option.isSome_iff_exists.mp (shows_.encoded index entry held)
    simp only [Option.bind_some, encoded, codec.decodes entry value encoded]

/-- A scan of the log finds the keys of the live indexes. -/
theorem Shows.scanned (key : Bytes) : key ∈ scanKeys ps raftLogPrefix ↔
    ∃ index, key = logKey index ∧ log.entries index ≠ none := by
  rw [mem_scanKeys]
  constructor
  · rintro ⟨leads, value, present⟩
    rcases shows_.only key value present with ⟨index, rfl⟩ | ⟨name, rfl⟩
    · refine ⟨index, rfl, ?_⟩
      intro dead
      rw [shows_.entries, dead] at present
      cases present
    · exact absurd leads (raftLogPrefix_stableKey name)
  · rintro ⟨index, rfl, live⟩
    obtain ⟨entry, held⟩ := Option.ne_none_iff_exists'.mp live
    obtain ⟨value, encoded⟩ := Option.isSome_iff_exists.mp (shows_.encoded index entry held)
    refine ⟨List.prefix_append _ _, value, ?_⟩
    rw [shows_.entries, held]
    exact encoded

theorem Shows.unscanned (none : scanKeys ps raftLogPrefix = []) (index : UInt64) :
    log.entries index = Option.none := by
  by_contra live
  have member := (shows_.scanned (logKey index)).mpr ⟨index, rfl, live⟩
  rw [none] at member
  exact List.not_mem_nil member

theorem Shows.firstIndex : ∃ index, RaftStore.firstIndex ps = .ok index ∧ log.First index := by
  rw [RaftStore.firstIndex]
  cases first : (scanKeys ps raftLogPrefix).head? with
  | none => exact ⟨0, rfl, Or.inl ⟨shows_.unscanned (List.head?_eq_none_iff.mp first), rfl⟩⟩
  | some key =>
    obtain ⟨member, least⟩ := scanKeys_head first
    obtain ⟨index, rfl, live⟩ := (shows_.scanned key).mp member
    refine ⟨index, parseLogIndex_logKey index, Or.inr ⟨live, fun other otherLive => ?_⟩⟩
    exact logKey_le (least _ ((shows_.scanned _).mpr ⟨other, rfl, otherLive⟩))

theorem Shows.lastIndex : ∃ index, RaftStore.lastIndex ps = .ok index ∧ log.Last index := by
  rw [RaftStore.lastIndex, lastKeyWithPrefix]
  cases last : (scanKeys ps raftLogPrefix).getLast? with
  | none => exact ⟨0, rfl, Or.inl ⟨shows_.unscanned (List.getLast?_eq_none_iff.mp last), rfl⟩⟩
  | some key =>
    obtain ⟨member, greatest⟩ := scanKeys_last last
    obtain ⟨index, rfl, live⟩ := (shows_.scanned key).mp member
    refine ⟨index, parseLogIndex_logKey index, Or.inr ⟨live, fun other otherLive => ?_⟩⟩
    exact logKey_le (greatest _ ((shows_.scanned _).mpr ⟨other, rfl, otherLive⟩))

end Refinement

section Runs

variable {Entry : Type} (codec : LogCodec Entry)

theorem run_shows (calls : List (Call Entry)) :
    Shows codec (run (perform codec) ∅ calls) (run (Log.after codec) emptyLog calls) := by
  induction calls using List.reverseRecOn with
  | nil => exact shows_empty codec
  | append_singleton before call ih =>
    rw [run_append, run_append]
    exact ih.perform call

/-- After any calls, the store reads as the map from index to entry that the
calls describe: its entries, its ends and its stable values. -/
theorem store_refines_map (calls : List (Call Entry)) :
    (∀ index, getLog codec (run (perform codec) ∅ calls) index =
      match (run (Log.after codec) emptyLog calls).entries index with
      | some entry => .ok entry
      | none => .error .logNotFound) ∧
    (∃ index, firstIndex (run (perform codec) ∅ calls) = .ok index ∧
      (run (Log.after codec) emptyLog calls).First index) ∧
    (∃ index, lastIndex (run (perform codec) ∅ calls) = .ok index ∧
      (run (Log.after codec) emptyLog calls).Last index) ∧
    ∀ key, getStable (run (perform codec) ∅ calls) key =
      ((run (Log.after codec) emptyLog calls).stable key).getD [] := by
  have shows_ := run_shows codec calls
  refine ⟨shows_.getLog, shows_.firstIndex, shows_.lastIndex, ?_⟩
  intro key
  rw [getStable, shows_.stable key]

end Runs

/-- An entry is its index and its data, written one after the other. -/
def sampleCodec : LogCodec (UInt64 × Bytes) where
  index := Prod.fst
  encode entry := some (bigEndian 8 entry.1.toNat ++ entry.2)
  decode bytes :=
    if bytes.length < 8 then none
    else some (UInt64.ofNat (readBigEndian (bytes.take 8)), bytes.drop 8)
  decodes := by
    rintro ⟨index, data⟩ bytes ⟨⟩
    have size : (bigEndian 8 index.toNat).length = 8 := bigEndian_length 8 _
    have read := readBigEndian_bigEndian 8 index.toNat index.toNat_lt
    rw [if_neg (by rw [List.length_append, size]; omega), List.take_left' size,
      List.drop_left' size, read, UInt64.ofNat_toNat]

def sampleCalls : List (Call (UInt64 × Bytes)) :=
  [.storeLogs [(9, ascii "a"), (10, ascii "b"), (11, ascii "c")],
    .setStable (ascii "CurrentTerm") (ascii "7"), .deleteRange 9 10,
    .storeLogs [(11, ascii "d"), (12, ascii "e")]]

/-- Entries before the tenth digit and after it, some deleted and one stored again. -/
theorem store_refines_map_sample :
    getLog sampleCodec (run (perform sampleCodec) ∅ sampleCalls) 10 = .error .logNotFound ∧
      getLog sampleCodec (run (perform sampleCodec) ∅ sampleCalls) 11 = .ok (11, ascii "d") ∧
      lastIndex (run (perform sampleCodec) ∅ sampleCalls) = .ok 12 ∧
      getStable (run (perform sampleCodec) ∅ sampleCalls) (ascii "CurrentTerm") = ascii "7" := by
  obtain ⟨logs, -, ⟨last, read, greatest⟩, stable⟩ := store_refines_map sampleCodec sampleCalls
  refine ⟨(logs 10).trans (by decide), (logs 11).trans (by decide), ?_,
    (stable (ascii "CurrentTerm")).trans (by decide)⟩
  have live : ∀ index, (run (Log.after sampleCodec) emptyLog sampleCalls).entries index ≠ none ↔
      index = 11 ∨ index = 12 := by
    intro index
    simp only [sampleCalls, run, List.foldl, Log.after, sampleCodec, Option.isSome_some,
      List.takeWhile, Log.put, Function.update_apply, emptyLog]
    grind
  rw [read]
  rcases greatest with ⟨empty, -⟩ | ⟨there, bound⟩
  · exact absurd (empty 12) ((live 12).mpr (.inr rfl))
  · have above := bound 12 ((live 12).mpr (.inr rfl))
    rcases (live last).mp there with rfl | rfl
    · exact absurd above (by decide)
    · rfl

end Bongo.RaftStore
