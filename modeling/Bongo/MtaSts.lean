import Bongo.ByteSearch
import Bongo.Histories
import Bongo.Literals
import Bongo.Runes

/-!
The policies of a recipient's domain under MTA-STS, as `PolicyFor` finds them: the
TXT record names a policy, the cache has it or it is fetched. The record is looked
up before the cache is, and a fetch that fails leaves nothing to fall back on.
-/

namespace Bongo.MtaSts

open ByteKeys Histories Literals Runes

structure Policy where
  mode : Bytes
  mx : List Bytes
  maxAge : Int
  deriving DecidableEq

inductive Refusal where
  | fetch
  | missingVersion
  | invalidMode (mode : Bytes)
  deriving DecidableEq

def recordID (txt : Bytes) : Option Bytes :=
  ((txt.splitOn 59).map trimSpace).findSome? fun part =>
    if hasPrefix part (ascii "id=") then some (trimSpace (part.drop 3)) else none

/-- Empty where the lookup fails, and where no record has an `id`. -/
def stsRecordID : Option (List Bytes) → Bytes
  | none => []
  | some txts =>
    ((txts.filter fun txt => (index (ascii "v=STSv1") txt).isSome).findSome? recordID).getD []

section Parsing

variable (table : FoldTable)

def readLine (read : Bool × Policy) (line : Bytes) : Bool × Policy :=
  match cut 58 (trimSpace (line.rdropWhile (· == 13))) with
  | none => read
  | some (key, val) =>
    let key := trimSpace (table.lowerText key)
    let val := trimSpace val
    if key = ascii "version" then (read.1 || table.equalFold val (ascii "STSv1"), read.2)
    else if key = ascii "mode" then (read.1, { read.2 with mode := table.lowerText val })
    else if key = ascii "mx" then
      if val = [] then read else (read.1, { read.2 with mx := read.2.mx ++ [val] })
    else if key = ascii "max_age" then
      (read.1, { read.2 with maxAge := (parseInt val).getD read.2.maxAge })
    else read

def parseMTASTSPolicy (body : Bytes) : Except Refusal Policy :=
  let read := (body.splitOn 10).foldl (readLine table) (false, ⟨[], [], 0⟩)
  if read.1 = false then .error .missingVersion
  else if read.2.mode ∈ [ascii "enforce", ascii "testing", ascii "none"] then .ok read.2
  else .error (.invalidMode read.2.mode)

end Parsing

/-! Times and durations in nanoseconds. -/

def second : Int := 1000000000

def maxCacheTTL : Int := 7 * 24 * 3600 * second

/-- The duration is a 64-bit product. -/
def ttl (maxAge : Int) : Int :=
  let product := Int.bmod (maxAge * second) (2 ^ 64)
  let ttl := if product ≤ 0 then 3600 * second else product
  if maxCacheTTL < ttl then maxCacheTTL else ttl

structure Entry where
  policy : Policy
  id : Bytes
  expires : Int
  deriving DecidableEq

/-- One call: what the lookup answers, the clock when the cache is read, what the
fetch brings, and the clock when the policy is stored. -/
structure Call where
  txts : Option (List Bytes)
  checked : Int
  body : Option Bytes
  stored : Int

section Cache

variable (table : FoldTable)

def cached (cache : Option Entry) (call : Call) : Option Policy :=
  (cache.filter fun ent => ent.id = stsRecordID call.txts ∧ call.checked < ent.expires).map
    (·.policy)

def fetchPolicy (call : Call) : Except Refusal Policy :=
  match call.body with
  | none => .error .fetch
  | some body => parseMTASTSPolicy table body

def policyFor (cache : Option Entry) (call : Call) :
    Except Refusal (Option Policy) × Option Entry :=
  if stsRecordID call.txts = [] then (.ok none, cache)
  else match cached cache call with
    | some policy => (.ok (some policy), cache)
    | none =>
      match fetchPolicy table call with
      | .error refusal => (.error refusal, cache)
      | .ok policy =>
        (.ok (some policy), some ⟨policy, stsRecordID call.txts, call.stored + ttl policy.maxAge⟩)

/-! What was fetched, beside the cache. -/

structure Fetched where
  policy : Policy
  id : Bytes
  time : Int

structure World where
  cache : Option Entry
  fetched : List Fetched

def start : World := ⟨none, []⟩

def World.answer (world : World) (call : Call) : Except Refusal (Option Policy) :=
  (policyFor table world.cache call).1

def fetches (cache : Option Entry) (call : Call) : List Fetched :=
  if stsRecordID call.txts = [] then []
  else match cached cache call, fetchPolicy table call with
    | none, .ok policy => [⟨policy, stsRecordID call.txts, call.stored⟩]
    | _, _ => []

def step (world : World) (call : Call) : World :=
  ⟨(policyFor table world.cache call).2, fetches table world.cache call ++ world.fetched⟩

/-- How long a policy is to be trusted. -/
def span (maxAge : Int) : Int :=
  if maxAge ≤ 0 then 3600 * second else min (maxAge * second) maxCacheTTL

def Fetched.expires (found : Fetched) : Int := found.time + span found.policy.maxAge

/-- The cache has the policy fetched last, for as long as it is to be trusted. -/
def Kept (world : World) : Prop :=
  world.cache = world.fetched.head?.map fun found => ⟨found.policy, found.id, found.expires⟩

def Lasting (world : World) (now : Int) : Prop :=
  ∃ found ∈ world.fetched, 1 ≤ found.policy.maxAge ∧ now < found.expires

structure Upheld (world : World) (call : Call) : Prop where
  lasts : Lasting world call.checked → ∃ found ∈ (step table world call).fetched.head?,
      world.answer table call = .ok (some found.policy)
  expires : Kept (step table world call)
  renews : ∀ policy, world.answer table call = .ok (some policy) →
    fetches table world.cache call = [] →
    ∃ found ∈ world.fetched.head?, found.policy = policy ∧ call.checked < found.expires

/-- The policy fetched last is named by the record and not too old. -/
def Current (world : World) (call : Call) : Prop :=
  ∃ found ∈ world.fetched.head?, found.id = stsRecordID call.txts ∧ call.checked < found.expires

/-- The product in 64 bits is on the same side of zero and of the longest time. -/
def Unwrapped (maxAge : Int) : Prop :=
  let product := Int.bmod (maxAge * second) (2 ^ 64)
  if maxAge ≤ 0 then product ≤ 0 ∨ product = 3600 * second
  else maxAge * second ≤ maxCacheTTL ∨ maxCacheTTL ≤ product

structure Reached (world : World) (call : Call) : Prop where
  found : Lasting world call.checked → stsRecordID call.txts ≠ [] ∧
    (Current world call ∨ ∃ policy, fetchPolicy table call = .ok policy)
  fits : stsRecordID call.txts ≠ [] → ¬ Current world call →
    ∀ policy, fetchPolicy table call = .ok policy → Unwrapped policy.maxAge

end Cache

theorem ttl_eq_span_iff (maxAge : Int) : ttl maxAge = span maxAge ↔ Unwrapped maxAge := by
  have short : maxAge * second ≤ maxCacheTTL → 0 < maxAge →
      Int.bmod (maxAge * second) (2 ^ 64) = maxAge * second := by
    intro fits positive
    unfold maxCacheTTL second at *
    exact Int.bmod_eq_of_le (by omega) (by omega)
  unfold ttl span Unwrapped
  generalize Int.bmod (maxAge * second) (2 ^ 64) = product at *
  unfold maxCacheTTL second at *
  dsimp only
  split_ifs <;> omega

section Steps

variable {table : FoldTable} {world : World} {call : Call}

variable (kept : Kept world)
include kept

/-- The answer of the cache is the policy fetched last. -/
theorem Kept.cached_iff (policy : Policy) :
    cached world.cache call = some policy ↔ ∃ found ∈ world.fetched.head?,
      found.policy = policy ∧ found.id = stsRecordID call.txts ∧ call.checked < found.expires := by
  rw [Kept] at kept
  rw [cached, kept]
  cases world.fetched.head? with
  | none => simp
  | some found => simp [Option.filter_eq_some_iff, and_comm]

theorem Kept.current_iff :
    Current world call ↔ ∃ policy, cached world.cache call = some policy := by
  simp only [kept.cached_iff, Current]
  constructor
  · exact fun ⟨found, last, named⟩ => ⟨found.policy, found, last, rfl, named⟩
  · exact fun ⟨_, found, last, _, named⟩ => ⟨found, last, named⟩

theorem answered_iff :
    (∃ found ∈ (step table world call).fetched.head?,
        world.answer table call = .ok (some found.policy)) ↔ stsRecordID call.txts ≠ [] ∧
      (Current world call ∨ ∃ policy, fetchPolicy table call = .ok policy) := by
  rw [kept.current_iff]
  by_cases unnamed : stsRecordID call.txts = []
  · simp [World.answer, policyFor, unnamed]
  cases hit : cached world.cache call with
  | some policy =>
    obtain ⟨found, last, same, -⟩ := (kept.cached_iff policy).mp hit
    simp_all [World.answer, policyFor, step, fetches]
  | none =>
    cases brought : fetchPolicy table call <;>
      simp [World.answer, policyFor, step, fetches, unnamed, hit, brought]

theorem kept_step_iff :
    Kept (step table world call) ↔ (stsRecordID call.txts ≠ [] → ¬ Current world call →
      ∀ policy, fetchPolicy table call = .ok policy → Unwrapped policy.maxAge) := by
  rw [kept.current_iff]
  rw [Kept] at kept ⊢
  by_cases unnamed : stsRecordID call.txts = []
  · simpa [policyFor, step, fetches, unnamed] using kept
  cases hit : cached world.cache call with
  | some policy => simpa [policyFor, step, fetches, unnamed, hit] using kept
  | none =>
    cases brought : fetchPolicy table call with
    | error refusal => simpa [policyFor, step, fetches, unnamed, hit, brought] using kept
    | ok policy =>
      simp [policyFor, step, fetches, unnamed, hit, brought, Fetched.expires, ttl_eq_span_iff]

/-- Without a fetch only the cache can answer. -/
theorem Kept.renews {policy : Policy} (said : world.answer table call = .ok (some policy))
    (unfetched : fetches table world.cache call = []) :
    ∃ found ∈ world.fetched.head?, found.policy = policy ∧ call.checked < found.expires := by
  have hit : cached world.cache call = some policy := by
    unfold World.answer policyFor at said
    unfold fetches at unfetched
    split at said
    · cases said
    cases hit : cached world.cache call <;> cases brought : fetchPolicy table call <;> simp_all
  obtain ⟨found, last, same, -, fresh⟩ := (kept.cached_iff policy).mp hit
  exact ⟨found, last, same, fresh⟩

theorem upheld_iff_reached :
    Upheld table world call ↔ Reached table world call := by
  constructor
  · exact fun upheld => ⟨fun lasting => (answered_iff kept).mp (upheld.lasts lasting),
      (kept_step_iff kept).mp upheld.expires⟩
  · exact fun reached => ⟨fun lasting => (answered_iff kept).mpr (reached.found lasting),
      (kept_step_iff kept).mpr reached.fits, fun _ => kept.renews⟩

end Steps

/-- Every policy that was fetched lasts as long as it should, and no longer, in
exactly the histories in which the record is found, with the policy of the cache or
one that can be fetched, whenever a policy is to last, and no time wraps. -/
theorem policies_last_iff (table : FoldTable) (calls : List Call) :
    Along (step table) (Upheld table) start calls ↔
      Along (step table) (Reached table) start calls := by
  constructor
  · exact along_strengthen (fun world call (_ : Kept world) upheld => upheld.expires)
      (fun world call kept upheld => (upheld_iff_reached kept).mp upheld) rfl
  · exact along_strengthen (fun world call (kept : Kept world) reached =>
      (kept_step_iff kept).mpr reached.fits)
      (fun world call kept reached => (upheld_iff_reached kept).mpr reached) rfl

/-- A policy for a day; the name server is out of reach a second later. And a `max_age`
whose nanoseconds overflow is kept for an hour. -/
theorem policy_lost :
    (run (step asciiFolds) start [⟨some [ascii "v=STSv1; id=7"], 0, some
        (ascii "version: STSv1\nmode: enforce\nmx: *.home.test\nmax_age: 86400\n"), 0⟩]).answer
      asciiFolds ⟨none, second, none, second⟩ = .ok none ∧
    span 86400 = 86400 * second ∧ ttl 9223372037 = 3600 * second := by
  decide

end Bongo.MtaSts
