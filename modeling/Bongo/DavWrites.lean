import Bongo.Histories
import Bongo.Literals

/-!
Conditional PUTs of one object over CalDAV and CardDAV. A PUT reads the stored record,
compares it with the conditions of the request, does other work and then replaces the
whole record with a replicated write that has no condition of its own. A scheduling
PUT of an event replaces it once more afterwards. Web edits and deletions come at any time.

The revision counts the writes of the object; it is not part of the program. All that
may refuse a PUT besides its conditions (access, components, subscriptions,
scheduling, quota) is an answer of the environment. The digest of the ETags, the decoder
and encoder of the calendar format are parameters.
-/

namespace Bongo.Dav

open ByteKeys Histories Literals

inductive Kind where
  | event
  | task
  | contact
  deriving DecidableEq

structure Object where
  raw : Bytes
  createdAt : Int
  updatedAt : Int
  fields : Bytes
  deriving DecidableEq

structure Platform where
  digest : Bytes → Bytes
  /-- The encoding in which an event without raw data is served. -/
  synthesise : Object → Bytes

section Conditions

variable (platform : Platform)

def contentETagValue (content : Bytes) (fallback : Int) : Bytes :=
  if content = [] then 116 :: formatInt fallback else encodeHex ((platform.digest content).take 16)

def etag (kind : Kind) (object : Object) : Bytes :=
  match kind with
  | .event =>
    if object.raw = [] then contentETagValue platform (platform.synthesise object) 0
    else contentETagValue platform object.raw object.updatedAt
  | .task => contentETagValue platform object.raw object.updatedAt
  | .contact => contentETagValue platform object.raw object.updatedAt

inductive Match where
  | unset
  | wildcard
  | tag (value : Bytes)
  | malformed
  deriving DecidableEq

structure Options where
  ifMatch : Match
  ifNoneMatch : Match
  deriving DecidableEq

/-- Whether the conditions let a PUT replace what it read: `want` is its ETag. -/
def checkPreconditions (opts : Options) (want : Option Bytes) : Bool :=
  (match opts.ifNoneMatch with
    | .unset => true
    | .wildcard => want.isNone
    | .tag _ | .malformed => false) &&
  (match opts.ifMatch with
    | .unset => true
    | .wildcard => want.isSome
    | .tag value => want == some value
    | .malformed => false)

end Conditions

/-! PUTs in flight. -/

structure Request where
  opts : Options
  /-- The raw data and the other fields of the new record, given the one read. -/
  content : Option Object → Bytes × Bytes
  /-- Whether scheduling follows the write. -/
  schedules : Bool

inductive Stage where
  | checked
  /-- Written; what it wrote, and what was there before. -/
  | saved (written : Object) (replaced : Option Object)

structure Flight where
  id : Nat
  request : Request
  existing : Option Object
  seen : Nat
  stage : Stage

/-- A PUT answered with success: what its write replaced, and for the second write of a
scheduling PUT what it had written and what that write replaced. -/
structure Ack where
  opts : Options
  replaced : Option Object
  seen : Nat
  second : Option (Object × Option Object)

structure World where
  object : Option Object
  revision : Nat := 0
  flights : List Flight := []
  acks : List Ack := []

/-- How a replicated write ends; one that fails may have taken effect. -/
inductive Outcome where
  | done
  | failed (landed : Bool)

inductive Event where
  /-- The reads and checks of a PUT; `fault`: reading the object fails. -/
  | begin (id : Nat) (request : Request) (admitted : Bool) (fault : Bool)
  | refuse (id : Nat)
  | write (id : Nat) (now : Int) (outcome : Outcome)
  /-- The end of a scheduling PUT, with the raw data to rewrite if any. -/
  | schedule (id : Nat) (rewritten : Option (Bytes × Outcome)) (now : Int)
  | edit (object : Object)
  | delete

section Steps

variable (platform : Platform) (kind : Kind)

/-- What a PUT takes to be stored. A failed read counts as no object for events and
contacts; for tasks it is an error. -/
def readObject (world : World) (fault : Bool) : Option (Option Object) :=
  if fault then
    match kind with
    | .task => none
    | .event | .contact => some none
  else some world.object

def World.without (world : World) (id : Nat) : World :=
  { world with flights := world.flights.filter fun flight => flight.id ≠ id }

def World.put (world : World) (object : Option Object) : World :=
  { world with object := object, revision := world.revision + 1 }

def World.acknowledge (world : World) (ack : Ack) : World :=
  { world with acks := ack :: world.acks }

def begin (world : World) (id : Nat) (request : Request) (admitted fault : Bool) : World :=
  if world.flights.any fun flight => flight.id = id then world
  else match readObject kind world fault with
    | none => world
    | some existing =>
      if admitted && checkPreconditions request.opts (existing.map (etag platform kind)) then
        { world with
          flights := ⟨id, request, existing, world.revision, .checked⟩ :: world.flights }
      else world

/-- Create stamps both times, Update keeps the time of creation. -/
def newRecord (flight : Flight) (now : Int) : Object :=
  let (raw, fields) := flight.request.content flight.existing
  { raw := raw
    createdAt := (flight.existing.map Object.createdAt).getD now
    updatedAt := now
    fields := fields }

def write (world : World) (flight : Flight) (now : Int) (outcome : Outcome) : World :=
  let object := newRecord flight now
  let rest := world.without flight.id
  match outcome with
  | .failed landed => if landed then rest.put (some object) else rest
  | .done =>
    if kind = .event ∧ flight.request.schedules = true then
      { rest.put (some object) with
        flights := { flight with stage := .saved object world.object } :: rest.flights }
    else
      (rest.put (some object)).acknowledge
        ⟨flight.request.opts, world.object, flight.seen, none⟩

/-- The second write of a scheduling PUT is best effort. -/
def schedule (world : World) (flight : Flight) (written : Object) (replaced : Option Object)
    (rewritten : Option (Bytes × Outcome)) (now : Int) : World :=
  let rest := world.without flight.id
  let ack : Ack := ⟨flight.request.opts, replaced, flight.seen, none⟩
  let second : Ack := { ack with second := some (written, world.object) }
  match rewritten with
  | none => rest.acknowledge ack
  | some (_, .failed false) => rest.acknowledge ack
  | some (raw, _) =>
    (rest.put (some { written with raw := raw, updatedAt := now })).acknowledge second

def step (world : World) : Event → World
  | .begin id request admitted fault => begin platform kind world id request admitted fault
  | .refuse id => world.without id
  | .write id now outcome =>
    match world.flights.find? fun flight => flight.id = id with
    | some flight =>
      match flight.stage with
      | .checked => write kind world flight now outcome
      | .saved _ _ => world
    | none => world
  | .schedule id rewritten now =>
    match world.flights.find? fun flight => flight.id = id with
    | some flight =>
      match flight.stage with
      | .checked => world
      | .saved written replaced => schedule world flight written replaced rewritten now
    | none => world
  | .edit object => world.put (some object)
  | .delete => world.put none

end Steps

section Property

variable (platform : Platform) (kind : Kind)

/-- What the conditions of a PUT promise about the version its write replaced. A second
write replaces the PUT's own version. -/
structure Ack.Sound (ack : Ack) : Prop where
  matched : ∀ value, ack.opts.ifMatch = .tag value →
    ∃ object, ack.replaced = some object ∧ etag platform kind object = value
  present : ack.opts.ifMatch = .wildcard → ack.replaced ≠ none
  absent : ack.opts.ifNoneMatch = .wildcard → ack.replaced = none
  second : ∀ written replaced, ack.second = some (written, replaced) → replaced = some written

/-- Every answered PUT kept its conditions, and of those that read one version at most one
was answered. -/
structure Sound (world : World) : Prop where
  acks : ∀ ack ∈ world.acks, ack.Sound platform kind
  once : (world.acks.map Ack.seen).Nodup

def Event.writes : Event → Bool
  | .write _ _ _ | .edit _ | .delete => true
  | .schedule _ rewritten _ => rewritten.isSome
  | .begin _ _ _ _ | .refuse _ => false

def Event.owner : Event → Option Nat
  | .write id _ _ | .schedule id _ _ => some id
  | _ => none

/-- No read fails that would count as no object, and nothing is written to the object while
another PUT is between its read and its last write. -/
def Undisturbed (world : World) (event : Event) : Prop :=
  (match event with
    | .begin _ _ _ fault => kind = .task ∨ fault = false
    | _ => True) ∧
  (event.writes = true → ∀ flight ∈ world.flights, event.owner = some flight.id)

instance (world : World) : (event : Event) → Decidable (Undisturbed kind world event)
  | .begin _ _ _ _ => inferInstanceAs (Decidable ((_ = _ ∨ _ = _) ∧ (_ = _ → ∀ _ ∈ _, _ = _)))
  | .refuse _ | .write _ _ _ | .schedule _ _ _ | .edit _ | .delete =>
    inferInstanceAs (Decidable (True ∧ (_ = _ → ∀ _ ∈ _, _ = _)))

end Property

section Invariant

variable (platform : Platform) (kind : Kind)

def Fits (opts : Options) (object : Option Object) : Prop :=
  checkPreconditions opts (object.map (etag platform kind)) = true

def Flight.isSaved (flight : Flight) : Bool :=
  match flight.stage with
  | .checked => false
  | .saved _ _ => true

structure Kept (world : World) : Prop where
  sound : Sound platform kind world
  older : ∀ ack ∈ world.acks, ack.seen < world.revision
  /-- A PUT that has read but not written still sees the object it read. -/
  checked : ∀ flight ∈ world.flights, flight.stage = .checked →
    flight.seen = world.revision ∧ flight.existing = world.object ∧
      Fits platform kind flight.request.opts flight.existing
  saved : ∀ flight ∈ world.flights, ∀ written replaced, flight.stage = .saved written replaced →
    flight.seen < world.revision ∧ (∀ ack ∈ world.acks, ack.seen < flight.seen) ∧
      world.object = some written ∧ Fits platform kind flight.request.opts replaced
  single : ∀ first ∈ world.flights, ∀ second ∈ world.flights,
    first.isSaved = true → second.isSaved = true → first.id = second.id

variable {platform} {kind}

theorem fits_sound {opts : Options} {object : Option Object} {seen : Nat}
    {second : Option (Object × Option Object)} (fits : Fits platform kind opts object)
    (own : ∀ written replaced, second = some (written, replaced) → replaced = some written) :
    Ack.Sound platform kind ⟨opts, object, seen, second⟩ where
  matched := fun value given => by
    cases object with
    | none => simp [Fits, checkPreconditions, show opts.ifMatch = .tag value from given] at fits
    | some found =>
      refine ⟨found, rfl, ?_⟩
      simp only [Fits, checkPreconditions, show opts.ifMatch = .tag value from given,
        Bool.and_eq_true, Option.map_some, beq_iff_eq, Option.some.injEq] at fits
      exact fits.2
  present := fun given => by
    cases object with
    | none => simp [Fits, checkPreconditions, show opts.ifMatch = .wildcard from given] at fits
    | some found => simp
  absent := fun given => by
    cases object with
    | none => rfl
    | some found =>
      simp [Fits, checkPreconditions, show opts.ifNoneMatch = .wildcard from given] at fits
  second := own

variable {world : World}

theorem Sound.acknowledge {ack : Ack} (sound : Sound platform kind world)
    (good : ack.Sound platform kind) (newer : ∀ other ∈ world.acks, other.seen < ack.seen) :
    Sound platform kind (world.acknowledge ack) where
  acks := List.forall_mem_cons.mpr ⟨good, sound.acks⟩
  once := by
    refine List.nodup_cons.mpr ⟨fun member => ?_, sound.once⟩
    obtain ⟨other, listed, same⟩ := List.mem_map.mp member
    exact absurd same (Nat.ne_of_lt (newer other listed))

/-- With nothing in flight any write keeps the invariant. -/
theorem Kept.idle (sound : Sound platform kind world)
    (older : ∀ ack ∈ world.acks, ack.seen < world.revision) (empty : world.flights = []) :
    Kept platform kind world where
  sound := sound
  older := older
  checked := fun flight member => by simp [empty] at member
  saved := fun flight member => by simp [empty] at member
  single := fun flight member => by simp [empty] at member

theorem Kept.without (kept : Kept platform kind world) (id : Nat) :
    Kept platform kind (world.without id) where
  sound := ⟨kept.sound.acks, kept.sound.once⟩
  older := kept.older
  checked := fun flight member => kept.checked flight (List.mem_filter.mp member).1
  saved := fun flight member => kept.saved flight (List.mem_filter.mp member).1
  single := fun first member second other =>
    kept.single first (List.mem_filter.mp member).1 second (List.mem_filter.mp other).1

theorem Kept.begin {id : Nat} {request : Request} {admitted fault : Bool}
    (kept : Kept platform kind world) (readable : kind = .task ∨ fault = false) :
    Kept platform kind (begin platform kind world id request admitted fault) := by
  unfold Dav.begin
  split
  · exact kept
  split
  · exact kept
  rename_i existing read
  -- A read that counts is of the object as it stands.
  have current : existing = world.object := by
    rcases readable with rfl | rfl
    · cases fault with
      | true => cases read
      | false => exact (Option.some.inj read).symm
    · exact (Option.some.inj read).symm
  split
  · rename_i passed
    rw [Bool.and_eq_true] at passed
    exact {
      sound := ⟨kept.sound.acks, kept.sound.once⟩
      older := kept.older
      checked := List.forall_mem_cons.mpr
        ⟨fun _ => ⟨rfl, current, passed.2⟩, kept.checked⟩
      saved := List.forall_mem_cons.mpr
        ⟨fun _ _ stage => (by cases stage), kept.saved⟩
      single := List.forall_mem_cons.mpr ⟨fun _ _ saved => (by cases saved),
        fun first member => List.forall_mem_cons.mpr
          ⟨fun _ saved => (by cases saved), kept.single first member⟩⟩ }
  · exact kept

theorem without_empty {id : Nat} (alone : ∀ flight ∈ world.flights, flight.id = id) :
    (world.without id).flights = [] :=
  List.filter_eq_nil_iff.mpr fun flight member => by simp [alone flight member]

theorem Kept.write {flight : Flight} {now : Int} {outcome : Outcome}
    (kept : Kept platform kind world) (member : flight ∈ world.flights)
    (stage : flight.stage = .checked) (alone : ∀ other ∈ world.flights, other.id = flight.id) :
    Kept platform kind (write kind world flight now outcome) := by
  obtain ⟨seen, existing, fits⟩ := kept.checked flight member stage
  rw [existing] at fits
  have empty := without_empty alone
  have later : ∀ ack ∈ world.acks, ack.seen < world.revision + 1 :=
    fun ack listed => Nat.lt_succ_of_lt (kept.older ack listed)
  unfold Dav.write
  cases outcome with
  | failed landed =>
    cases landed with
    | true => exact Kept.idle ⟨kept.sound.acks, kept.sound.once⟩ later empty
    | false => exact kept.without flight.id
  | done =>
    simp only
    split
    · refine {
        sound := ⟨kept.sound.acks, kept.sound.once⟩
        older := later
        checked := ?_
        saved := ?_
        single := ?_ }
      · rw [empty]
        exact List.forall_mem_singleton.mpr nofun
      · rw [empty]
        refine List.forall_mem_singleton.mpr fun written replaced stage => ?_
        cases stage
        refine ⟨?_, ?_, rfl, fits⟩
        · exact seen ▸ Nat.lt_succ_self _
        · intro ack listed
          exact seen ▸ kept.older ack listed
      · rw [empty]
        exact List.forall_mem_singleton.mpr
          (List.forall_mem_singleton.mpr fun _ _ => rfl)
    · have newer : ∀ ack ∈ world.acks, ack.seen < flight.seen :=
        fun ack listed => seen ▸ kept.older ack listed
      refine Kept.idle (Sound.acknowledge ⟨kept.sound.acks, kept.sound.once⟩
        (fits_sound fits fun _ _ none => by cases none) newer) ?_ empty
      exact List.forall_mem_cons.mpr ⟨seen ▸ Nat.lt_succ_self _, later⟩

theorem Kept.schedule {flight : Flight} {written : Object} {replaced : Option Object}
    {rewritten : Option (Bytes × Outcome)} {now : Int} (kept : Kept platform kind world)
    (member : flight ∈ world.flights) (stage : flight.stage = .saved written replaced)
    (alone : rewritten.isSome = true → ∀ other ∈ world.flights, other.id = flight.id) :
    Kept platform kind (schedule world flight written replaced rewritten now) := by
  obtain ⟨seen, newer, object, fits⟩ := kept.saved flight member written replaced stage
  -- The answer without a second write leaves the other PUTs, none of which has written.
  have plain : Kept platform kind
      ((world.without flight.id).acknowledge
        ⟨flight.request.opts, replaced, flight.seen, none⟩) := by
    have rest := kept.without flight.id
    exact {
      sound := rest.sound.acknowledge (fits_sound fits fun _ _ none => by cases none) newer
      older := List.forall_mem_cons.mpr ⟨seen, kept.older⟩
      checked := rest.checked
      saved := fun other listed other' replaced' stage' => by
        obtain ⟨inside, different⟩ := List.mem_filter.mp listed
        have same := kept.single other inside flight member
          (by simp [Flight.isSaved, stage']) (by simp [Flight.isSaved, stage])
        simp [same] at different
      single := rest.single }
  have again : ∀ raw, rewritten.isSome = true → Kept platform kind
      (((world.without flight.id).put
        (some { written with raw := raw, updatedAt := now })).acknowledge
          ⟨flight.request.opts, replaced, flight.seen, some (written, world.object)⟩) := by
    intro raw some
    have good : Ack.Sound platform kind
        ⟨flight.request.opts, replaced, flight.seen, Option.some (written, world.object)⟩ := by
      refine fits_sound fits fun first second pair => ?_
      cases pair
      exact object
    refine Kept.idle (Sound.acknowledge ⟨kept.sound.acks, kept.sound.once⟩ good newer) ?_
      (without_empty (alone some))
    exact List.forall_mem_cons.mpr ⟨Nat.lt_succ_of_lt seen,
      fun ack listed => Nat.lt_succ_of_lt (kept.older ack listed)⟩
  cases rewritten with
  | none => exact plain
  | some pair =>
    obtain ⟨raw, outcome⟩ := pair
    cases outcome with
    | done => exact again raw rfl
    | failed landed => cases landed with
      | true => exact again raw rfl
      | false => exact plain

theorem Kept.put {object : Option Object} (kept : Kept platform kind world)
    (empty : world.flights = []) : Kept platform kind (world.put object) :=
  Kept.idle ⟨kept.sound.acks, kept.sound.once⟩
    (fun ack listed => Nat.lt_succ_of_lt (kept.older ack listed)) empty

theorem Kept.step {event : Event} (kept : Kept platform kind world)
    (quiet : Undisturbed kind world event) :
    Kept platform kind (step platform kind world event) := by
  cases event with
  | begin id request admitted fault => exact kept.begin quiet.1
  | refuse id => exact kept.without id
  | write id now outcome =>
    simp only [Dav.step]
    split
    · rename_i flight found
      have member := List.mem_of_find?_eq_some found
      have alone : ∀ other ∈ world.flights, other.id = flight.id := by
        have matched := List.find?_some found
        intro other listed
        have owner : id = other.id := Option.some.inj (quiet.2 rfl other listed)
        rw [← owner, of_decide_eq_true matched]
      split
      · rename_i stage
        exact kept.write member stage alone
      · exact kept
    · exact kept
  | schedule id rewritten now =>
    simp only [Dav.step]
    split
    · rename_i flight found
      have member := List.mem_of_find?_eq_some found
      have alone : rewritten.isSome = true → ∀ other ∈ world.flights, other.id = flight.id := by
        have matched := List.find?_some found
        intro some other listed
        have owner : id = other.id := Option.some.inj (quiet.2 some other listed)
        rw [← owner, of_decide_eq_true matched]
      split
      · exact kept
      · rename_i written replaced stage
        exact kept.schedule member stage alone
    · exact kept
  | edit object | delete =>
    refine kept.put (List.eq_nil_iff_forall_not_mem.mpr fun flight member => ?_)
    cases quiet.2 rfl flight member

end Invariant

/-- Whatever is stored at first: in every history in which nothing is written between the
read and the last write of a PUT, and no read fails unnoticed, every answered PUT replaced what
its conditions ask for. -/
theorem puts_conditional (platform : Platform) (kind : Kind) (object : Option Object)
    (events : List Event)
    (quiet : Along (step platform kind) (Undisturbed kind) { object := object } events)
    (reached : World) (passed : Passes (step platform kind) { object := object } events reached) :
    Sound platform kind reached := by
  have initial : Kept platform kind { object := object } :=
    Kept.idle ⟨nofun, List.nodup_nil⟩
      (nofun) rfl
  exact (passes_invariant (fun _ _ kept quiet => Kept.step kept quiet) initial quiet passed).sound

def samplePlatform : Platform where
  digest := id
  synthesise object := object.fields

def sampleObject : Object := ⟨ascii "first", 1, 1, []⟩

def samplePut (text : String) : Request where
  opts := ⟨.tag (etag samplePlatform .event sampleObject), .unset⟩
  content _ := (ascii text, [])
  schedules := false

def racingPuts : List Event :=
  [.begin 1 (samplePut "second") true false, .begin 2 (samplePut "third") true false,
    .write 1 2 .done, .write 2 3 .done]

/-- Both PUTs read the first version before either writes; both are answered, and the
second replaces the version of the first. -/
theorem racing_puts_lose_update :
    ¬ Sound samplePlatform .event
      (run (step samplePlatform .event) { object := some sampleObject } racingPuts) := by
  intro sound
  have twice : (run (step samplePlatform .event) { object := some sampleObject }
      racingPuts).acks.map Ack.seen = [0, 0] := by
    decide
  have once := sound.once
  rw [twice] at once
  exact absurd once (by decide)

def orderedPuts : List Event :=
  [.begin 1 (samplePut "second") true false, .write 1 2 .done,
    .begin 2 (samplePut "third") true false, .write 2 3 .done]

/-- One after the other, the second is refused. -/
theorem puts_conditional_ordered :
    Along (step samplePlatform .event) (Undisturbed .event) { object := some sampleObject }
        orderedPuts ∧
      Sound samplePlatform .event
        (run (step samplePlatform .event) { object := some sampleObject } orderedPuts) ∧
      (run (step samplePlatform .event) { object := some sampleObject } orderedPuts).acks.length =
        1 := by
  have quiet : Along (step samplePlatform .event) (Undisturbed .event)
      { object := some sampleObject } orderedPuts := by
    decide
  exact ⟨quiet, puts_conditional samplePlatform .event (some sampleObject) orderedPuts quiet _
    ⟨orderedPuts, [], (List.append_nil _).symm, rfl⟩, by decide⟩

end Bongo.Dav
