import Bongo.Records

/-!
Bayes training: one command adjusts the counters of a message's tokens, the
user's trained total and a marker that records how the message was trained.
Counts are stored as varints; the marker holds the category's name.
-/

namespace Bongo.Bayes

open ByteKeys KeyValue Proto Records

def bayesTrainPrefix : Bytes := ascii "/__bayes_train__/"
def maxBayesTokens : Nat := 1024
def maxBayesTokenLen : Nat := 64
def bayesSpam : Bytes := ascii "spam"
def bayesHam : Bytes := ascii "ham"

def bayesTokenKey (userID category token : Bytes) : Bytes :=
  ascii "/user/" ++ userID ++ ascii "/bayes/" ++ category ++ [47] ++ token

def bayesTrainedKey (userID : Bytes) : Bytes :=
  ascii "/user/" ++ userID ++ ascii "/bayes/trained"

def bayesMessageKey (userID guid : Bytes) : Bytes :=
  ascii "/user/" ++ userID ++ ascii "/bayes/msg/" ++ guid

inductive Error where
  | notBayesCommand
  | parsingPayload
  | missingUserID
  | missingGuid
  | invalidCategory (category : Bytes)
  | tooManyTokens (count : Nat)
  deriving DecidableEq

def isBayesSyntheticCommand (key : Bytes) : Bool := hasPrefix key bayesTrainPrefix

def parseBayesPayload : Value → Option BayesTrainPayload
  | .json (.bayesTrain payload) => some payload
  | _ => none

/-- `binary.Uvarint`, which reads malformed data as zero. A JSON text starts
with a brace, the one-byte varint 123. -/
def uvarint : Value → UInt64
  | .bytes data =>
    match decodeVarint 9 data with
    | some (count, _) => count.toUInt64
    | none => 0
  | .json _ => 123

def encodeBayesCount (count : UInt64) : Value := .bytes (encodeVarint 9 count.toNat)

/-- The tokens in order, each once; empty and overlong ones are left out. -/
def distinctTokens : List Bytes → List Bytes → List Bytes
  | _, [] => []
  | seen, token :: rest =>
    if token = [] ∨ maxBayesTokenLen < token.length ∨ token ∈ seen then
      distinctTokens seen rest
    else token :: distinctTokens (token :: seen) rest

section Planning

variable (get : Bytes → Option Value)

/-- A missing key reads as an empty value. -/
def read (key : Bytes) : UInt64 × Value :=
  match get key with
  | none => (0, .empty)
  | some value => if value = .empty then (0, .empty) else (uvarint value, value)

def increment (count : UInt64) : UInt64 := count + 1

/-- Counting down stops at zero. -/
def decrement (count : UInt64) : UInt64 := if 0 < count then count - 1 else count

def adjust (userID category : Bytes) (step : UInt64 → UInt64) (tokens : List Bytes) :
    List (Write Value) :=
  tokens.map fun token =>
    let key := bayesTokenKey userID category token
    .set key (encodeBayesCount (step (read get key).1))

def bumpTrained (userID : Bytes) : Write Value :=
  let key := bayesTrainedKey userID
  .set key (encodeBayesCount ((read get key).1 + 1))

def planBayesTrain (cmd : RaftCommand) : Except Error (List (Write Value)) := do
  reject .notBayesCommand (isBayesSyntheticCommand cmd.key = false)
  let payload ← orError .parsingPayload (parseBayesPayload cmd.value)
  reject .missingUserID (payload.userID = [])
  reject .missingGuid (payload.guid = [])
  reject (.invalidCategory payload.category)
    (payload.category ≠ bayesSpam ∧ payload.category ≠ bayesHam)
  reject (.tooManyTokens payload.tokens.length) (maxBayesTokens < payload.tokens.length)
  let tokens := distinctTokens [] payload.tokens
  let markerKey := bayesMessageKey payload.userID payload.guid
  let marker := Write.set markerKey (.bytes payload.category)
  let learned := adjust get payload.userID payload.category increment tokens
  let previous := (read get markerKey).2
  if previous = .bytes payload.category then return []
  else if previous = .empty then return learned ++ [bumpTrained get payload.userID, marker]
  else
    -- a reclassification takes the old category's counts back first
    let undone :=
      if previous = .bytes bayesSpam then adjust get payload.userID bayesSpam decrement tokens
      else if previous = .bytes bayesHam then adjust get payload.userID bayesHam decrement tokens
      else []
    return undone ++ learned ++ [marker]

end Planning

def applyBayesTrainCommand (ps : PebbleStore) (cmd : RaftCommand) : PebbleStore × Option Error :=
  commitSyncBatch ps (planBayesTrain (get ps) cmd)

/-- The marker is the last write, so a repeated training finds its own category
and plans nothing. -/
theorem planBayesTrain_settles (cmd : RaftCommand) :
    Settles fun ps => planBayesTrain (get ps) cmd := by
  intro ps batch again planned replanned
  simp only [planBayesTrain, bind_ok, reject_ok, orError_ok] at planned replanned
  obtain ⟨-, -, payload, parsed, -, -, -, -, -, category, -, -, planned⟩ := planned
  obtain ⟨-, -, same, reparsed, -, -, -, -, -, -, -, -, replanned⟩ := replanned
  cases parsed.symm.trans reparsed
  generalize markerEq : bayesMessageKey payload.userID payload.guid = markerKey at *
  have named : Value.bytes payload.category ≠ .empty := by
    intro empty
    rw [Value.bytes.inj empty] at category
    exact category (by decide)
  -- a store that holds the marker makes the command plan nothing
  have quiet : ∀ store : PebbleStore, get store markerKey = some (.bytes payload.category) →
      (read (get store) markerKey).2 = .bytes payload.category := by
    intro store stored
    simp [read, stored, named]
  have marked : ∀ writes : List (Write Value),
      get (commit ps (writes ++ [.set markerKey (.bytes payload.category)])) markerKey =
        some (.bytes payload.category) := by
    intro writes
    simp
  split_ifs at planned with known new
  · cases planned
    rw [commit_nil, if_pos known] at replanned
    cases replanned
    rfl
  · cases planned
    have stored := marked (adjust (get ps) payload.userID payload.category increment
      (distinctTokens [] payload.tokens) ++ [bumpTrained (get ps) payload.userID])
    rw [List.append_assoc, List.singleton_append] at stored
    rw [if_pos (quiet _ stored)] at replanned
    cases replanned
    rfl
  all_goals
    cases planned
    rw [if_pos (quiet _ (marked _))] at replanned
    cases replanned
    rfl

end Bongo.Bayes
