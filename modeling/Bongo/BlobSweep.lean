import Bongo.BlobStore
import Bongo.Histories
import Bongo.Scans

/-!
The collection of orphaned blobs on one node. A sweep gathers the blobs that mail,
queue and spool refer to by reading one of them after another, plans the removal
of old blobs that two sweeps in a row found unreferred to, gathers the references
once more and removes what is left. Writers store blobs and commit references to
them at any moment in between.
-/

namespace Bongo.BlobSweep

open ByteKeys BlobStore Scans

/-! What the sweep runs beside: committed records, the blob store and its writers. -/
section World

inductive Place where
  | mail
  | pending
  | bounced
  | incoming
  | processing
  | deliver
  | quarantine
  | error
  deriving DecidableEq

def spoolScanDirs : List Place := [.incoming, .processing, .deliver, .quarantine, .error]

/-- The order in which references are collected; the spool is read twice. -/
def scanOrder : List Place := [.mail, .pending, .bounced] ++ (spoolScanDirs ++ spoolScanDirs)

theorem mem_scanOrder (place : Place) : place ∈ scanOrder := by
  cases place <;> decide

/-- A mail record, a queue entry or an envelope, with every blob it names. -/
structure Entry where
  place : Place
  hashes : List Bytes
  deriving DecidableEq

def Entry.named (entry : Entry) : List Bytes := entry.hashes.filter (· ≠ [])

/-- A call of `Put` or `PutReader`, by what it has done so far. -/
inductive Put where
  /-- `touchIfExists` has read the clock and not yet taken the lock. -/
  | checking (data : Bytes) (now : Int)
  | writing (data : Bytes)
  /-- The temporary file is complete since `mtime`. -/
  | written (data : Bytes) (mtime : Int)
  | rechecking (data : Bytes) (mtime now : Int)
  | placing (data : Bytes) (mtime : Int)
  | done (hash : Bytes) (time : Int)
  deriving DecidableEq

structure World where
  clock : Int
  blobs : Store
  entries : List Entry
  puts : List Put

def World.contents (w : World) (place : Place) : List Bytes :=
  (w.entries.filter (·.place = place)).flatMap Entry.named

def World.Referenced (w : World) (hash : Bytes) : Prop := ∃ entry ∈ w.entries, hash ∈ entry.named

instance (w : World) (hash : Bytes) : Decidable (w.Referenced hash) :=
  inferInstanceAs (Decidable (∃ entry ∈ w.entries, hash ∈ entry.named))

variable (digest : Digest)

def advance (clock : Int) (bs : Store) : Put → Store × Put
  | .checking data now =>
    match touchIfExists bs (digest.hex data) now with
    | .ok (true, touched) => (touched, .done (digest.hex data) clock)
    | _ => (bs, .writing data)
  | .writing data => (bs, .written data clock)
  | .written data mtime => (bs, .rechecking data mtime clock)
  | .rechecking data mtime now =>
    match touchIfExists bs (digest.hex data) now with
    | .ok (true, touched) => (touched, .done (digest.hex data) clock)
    | _ => (bs, .placing data mtime)
  | .placing data mtime =>
    -- the rename replaces a file another call has put there meanwhile
    (bs.set (digest.hex data) (some ⟨data, mtime⟩), .done (digest.hex data) clock)
  | .done hash time => (bs, .done hash time)

inductive Action where
  | tick (elapsed : Nat)
  | put (data : Bytes)
  | putReader (data : Bytes)
  | advance (call : Nat)
  | commit (entry : Entry)
  | move (index : Nat) (place : Place)
  | drop (index : Nat)
  deriving DecidableEq

def World.act (w : World) : Action → World
  | .tick elapsed => { w with clock := w.clock + elapsed }
  | .put data => { w with puts := w.puts ++ [.checking data w.clock] }
  | .putReader data => { w with puts := w.puts ++ [.writing data] }
  | .advance call =>
    match w.puts[call]? with
    | none => w
    | some put =>
      let next := BlobSweep.advance digest w.clock w.blobs put
      { w with blobs := next.1, puts := w.puts.set call next.2 }
  | .commit entry => { w with entries := entry :: w.entries }
  | .move index place =>
    { w with entries := w.entries.modify index fun entry => { entry with place := place } }
  | .drop index => { w with entries := w.entries.eraseIdx index }

end World

def planBlobSweep (referenced : List Bytes) (blobMTimes : List (Bytes × Int)) (prev : List Bytes)
    (cutoff : Int) : List Bytes × List Bytes :=
  let current := (blobMTimes.filter fun blob =>
    !(referenced.contains blob.1 || cutoff < blob.2)).map
    Prod.fst
  (current, current.filter prev.contains)

def reconfirmSweep (toDelete fresh : List Bytes) : List Bytes × List Bytes :=
  (toDelete.filter (!fresh.contains ·), toDelete.filter fresh.contains)

/-- The body of the loop in `deleteSweptBlobs`. A dry run removes nothing, and an
error is only logged. -/
def deleteSweptBlob (dryRun : Bool) (bs : Store) (hash : Bytes) (cutoff : Int) : Store :=
  if dryRun then bs
  else
    match deleteIfNotModifiedSince bs hash cutoff with
    | .ok (_, blobs) => blobs
    | .error _ => bs

inductive Phase where
  | idle (prev : List Bytes)
  | collecting (prev : List Bytes) (scan : Scan Place Bytes)
  | listing (prev referenced hashes : List Bytes) (mtimes : List (Bytes × Int))
  | revalidating (current toDelete : List Bytes) (cutoff : Int) (scan : Scan Place Bytes)
  | deleting (current survivors : List Bytes) (cutoff : Int)
  deriving DecidableEq

inductive Turn where
  | start (leader : Bool)
  | read
  /-- Reading a place, or listing the store, fails. -/
  | fail
  /-- The names `List` returns; it reads directory by directory, so they need not
  be the blobs of any one moment. -/
  | list (hashes : List Bytes)
  | stat
  | plan
  | confirm
  | delete
  deriving DecidableEq

/-- One turn of the sweep, with the blobs that are left after it. -/
def turn (minAge : Int) (dryRun : Bool) (w : World) : Phase → Turn → Phase × Store
  | .idle prev, .start leader =>
    (if leader then .collecting prev (.begin scanOrder) else .idle [], w.blobs)
  | .collecting prev scan, .read => (.collecting prev (scan.read w.contents), w.blobs)
  | .collecting _ _, .fail => (.idle [], w.blobs)
  | .collecting prev scan, .list hashes =>
    if scan.rest = [] then (.listing prev scan.found hashes [], w.blobs)
    else (.collecting prev scan, w.blobs)
  | .listing _ _ _ _, .fail => (.idle [], w.blobs)
  | .listing prev referenced (hash :: hashes) mtimes, .stat =>
    -- a blob that cannot be looked at is passed over
    match w.blobs hash with
    | none => (.listing prev referenced hashes mtimes, w.blobs)
    | some blob => (.listing prev referenced hashes (mtimes ++ [(hash, blob.mtime)]), w.blobs)
  | .listing prev referenced [] mtimes, .plan =>
    let cutoff := w.clock - minAge
    let plan := planBlobSweep referenced mtimes prev cutoff
    if plan.2 = [] then (.idle plan.1, w.blobs)
    else (.revalidating plan.1 plan.2 cutoff (.begin scanOrder), w.blobs)
  | .revalidating current toDelete cutoff scan, .read =>
    (.revalidating current toDelete cutoff (scan.read w.contents), w.blobs)
  | .revalidating current _ _ _, .fail => (.idle current, w.blobs)
  | .revalidating current toDelete cutoff scan, .confirm =>
    if scan.rest = [] then
      (.deleting current (reconfirmSweep toDelete scan.found).1 cutoff, w.blobs)
    else (.revalidating current toDelete cutoff scan, w.blobs)
  | .deleting current [] _, .delete => (.idle current, w.blobs)
  | .deleting current (hash :: survivors) cutoff, .delete =>
    (.deleting current survivors cutoff, deleteSweptBlob dryRun w.blobs hash cutoff)
  | phase, _ => (phase, w.blobs)

section Runs

structure State where
  world : World
  phase : Phase

inductive Event where
  | act (action : Action)
  | turn (turn : Turn)
  deriving DecidableEq

variable (digest : Digest) (minAge : Int) (dryRun : Bool)

def step (s : State) : Event → State
  | .act action => { s with world := s.world.act digest action }
  | .turn turn =>
    let next := BlobSweep.turn minAge dryRun s.world s.phase turn
    { world := { s.world with blobs := next.2 }, phase := next.1 }

def Put.covers (minAge clock : Int) (hash : Bytes) : Put → Bool
  | .done stored time => stored = hash && clock ≤ time + minAge
  | _ => false

/-- A reference may be committed within the minimum age after its blob was put, or
by copying one that is committed. -/
def Vouched (w : World) (hash : Bytes) : Prop :=
  (∃ put ∈ w.puts, put.covers minAge w.clock hash = true) ∨ w.Referenced hash

def Place.spool : Place → Bool
  | .mail | .pending | .bounced => false
  | _ => true

def Place.movesTo (source target : Place) : Bool :=
  source ≠ .mail && target ≠ .mail && source.spool == target.spool

def Admissible (s : State) : Event → Prop
  | .act (.commit entry) => ∀ hash ∈ entry.named, Vouched minAge s.world hash
  | .act (.move index place) =>
    ∀ entry ∈ s.world.entries[index]?, entry.place.movesTo place = true
  | _ => True

instance (w : World) (hash : Bytes) : Decidable (Vouched minAge w hash) :=
  inferInstanceAs (Decidable ((∃ put ∈ w.puts, put.covers minAge w.clock hash = true) ∨ _))

instance (s : State) : (event : Event) → Decidable (Admissible minAge s event)
  | .act (.commit entry) =>
    inferInstanceAs (Decidable (∀ hash ∈ entry.named, Vouched minAge s.world hash))
  | .act (.move index place) =>
    inferInstanceAs (Decidable
      (∀ entry ∈ s.world.entries[index]?, entry.place.movesTo place = true))
  | .act (.tick _) | .act (.put _) | .act (.putReader _) | .act (.advance _) | .act (.drop _)
  | .turn _ => isTrue trivial

def Spares (s : State) (event : Event) : Prop :=
  ∀ hash, s.world.blobs hash ≠ none →
    (step digest minAge dryRun s event).world.blobs hash = none → ¬ s.world.Referenced hash

def Put.stamp : Put → Option (Bytes × Int)
  | .checking data now => some (data, now)
  | .rechecking data _ now => some (data, now)
  | .placing data mtime => some (data, mtime)
  | _ => none

def Young (w : World) (cutoff : Int) (hash : Bytes) : Prop :=
  ∃ blob ∈ w.blobs hash, cutoff < blob.mtime

/-- What an action must not do beside a sweep, as far as files and their times go:
a new reference finds its blob younger than the minimum age, and no call sets a
file's time back. -/
def Prompt (w : World) : Action → Prop
  | .commit entry => ∀ hash ∈ entry.named, w.Referenced hash ∨ Young w (w.clock - minAge) hash
  | .advance call =>
    ∀ put ∈ w.puts[call]?, ∀ stamp ∈ put.stamp,
      ∀ blob ∈ w.blobs (digest.hex stamp.1), blob.mtime ≤ stamp.2
  | _ => True

/-- While the references are gathered for the second time, no action takes a
candidate that stays referred to past the scan. -/
def Orderly (s : State) : Event → Prop
  | .act action =>
    Prompt digest minAge s.world action ∧
      match s.phase with
      | .revalidating _ toDelete _ scan =>
        ∀ hash ∈ toDelete, (s.world.act digest action).Referenced hash →
          ¬ Crosses s.world.contents (s.world.act digest action).contents scan hash
      | _ => True
  | .turn _ => True

instance (w : World) (cutoff : Int) (hash : Bytes) : Decidable (Young w cutoff hash) :=
  inferInstanceAs (Decidable (∃ blob ∈ w.blobs hash, cutoff < blob.mtime))

instance (w : World) : (action : Action) → Decidable (Prompt digest minAge w action)
  | .commit entry =>
    inferInstanceAs (Decidable
      (∀ hash ∈ entry.named, w.Referenced hash ∨ Young w (w.clock - minAge) hash))
  | .advance call =>
    inferInstanceAs (Decidable (∀ put ∈ w.puts[call]?, ∀ stamp ∈ put.stamp,
      ∀ blob ∈ w.blobs (digest.hex stamp.1), blob.mtime ≤ stamp.2))
  | .tick _ | .put _ | .putReader _ | .move _ _ | .drop _ => isTrue trivial

instance (s : State) : (event : Event) → Decidable (Orderly digest minAge s event)
  | .act action =>
    match s with
    | ⟨w, .revalidating _ toDelete _ scan⟩ =>
      inferInstanceAs (Decidable (Prompt digest minAge w action ∧ ∀ hash ∈ toDelete,
        (w.act digest action).Referenced hash →
          ¬ Crosses w.contents (w.act digest action).contents scan hash))
    | ⟨w, .idle _⟩ | ⟨w, .collecting _ _⟩ | ⟨w, .listing _ _ _ _⟩ | ⟨w, .deleting _ _ _⟩ =>
      inferInstanceAs (Decidable (Prompt digest minAge w action ∧ True))
  | .turn _ => isTrue trivial

end Runs

variable {action : Action}

section Actions

variable {digest : Digest} {minAge : Int} {w : World} {hash : Bytes} {cutoff : Int}

theorem held_iff : Held w.contents hash ↔ w.Referenced hash := by
  constructor
  · rintro ⟨place, there⟩
    obtain ⟨entry, listed, named⟩ := List.mem_flatMap.mp there
    exact ⟨entry, (List.mem_filter.mp listed).1, named⟩
  · rintro ⟨entry, listed, named⟩
    refine ⟨entry.place, List.mem_flatMap.mpr ⟨entry, ?_, named⟩⟩
    exact List.mem_filter.mpr ⟨listed, by simp⟩

theorem young_set {bs : Store} {stored : Bytes} {blob : Blob}
    (later : ∀ old, w.blobs stored = some old → old.mtime ≤ blob.mtime)
    (young : Young w cutoff hash) (same : bs = w.blobs.set stored (some blob)) :
    ∃ found, bs hash = some found ∧ cutoff < found.mtime := by
  subst same
  obtain ⟨old, there, recent⟩ := young
  by_cases here : hash = stored
  · subst here
    exact ⟨blob, set_self _ _ _, lt_of_lt_of_le recent (later old there)⟩
  · exact ⟨old, by rw [set_other _ _ here, there], recent⟩

/-- A call changes at most the file it stamps, and gives it the stamp. -/
theorem advance_store (digest : Digest) (clock : Int) (bs : Store) (put : Put) :
    (advance digest clock bs put).1 = bs ∨
      ∃ data time blob, put.stamp = some (data, time) ∧ blob.mtime = time ∧
        (advance digest clock bs put).1 = bs.set (digest.hex data) (some blob) := by
  have touching : ∀ data now fallback, (match touchIfExists bs (digest.hex data) now with
        | .ok (true, touched) => (touched, Put.done (digest.hex data) clock)
        | _ => (bs, fallback)).1 = bs ∨
      ∃ blob : Blob, blob.mtime = now ∧ (match touchIfExists bs (digest.hex data) now with
          | .ok (true, touched) => (touched, Put.done (digest.hex data) clock)
          | _ => (bs, fallback)).1 = bs.set (digest.hex data) (some blob) := by
    intro data now fallback
    cases there : bs (digest.hex data) with
    | none => exact Or.inl (by simp [touchIfExists, digest.valid, there])
    | some blob =>
      refine Or.inr ⟨{ blob with mtime := now }, rfl, ?_⟩
      simp [touchIfExists, digest.valid, there]
  cases put with
  | checking data now =>
    rcases touching data now (.writing data) with same | ⟨blob, time, changed⟩
    · exact Or.inl same
    · exact Or.inr ⟨data, now, blob, rfl, time, changed⟩
  | rechecking data mtime now =>
    rcases touching data now (.placing data mtime) with same | ⟨blob, time, changed⟩
    · exact Or.inl same
    · exact Or.inr ⟨data, now, blob, rfl, time, changed⟩
  | placing data mtime => exact Or.inr ⟨data, mtime, ⟨data, mtime⟩, rfl, rfl, rfl⟩
  | writing data | written data mtime | done stored time => exact Or.inl rfl

theorem act_clock (digest : Digest) (w : World) (action : Action) :
    w.clock ≤ (w.act digest action).clock := by
  cases action with
  | tick elapsed => exact Int.le_add_of_nonneg_right (Int.natCast_nonneg elapsed)
  | advance call =>
    simp only [World.act]
    split <;> exact le_refl _
  | _ => exact le_refl _

theorem act_young (prompt : Prompt digest minAge w action) (young : Young w cutoff hash) :
    Young (w.act digest action) cutoff hash := by
  cases action with
  | advance call =>
    cases at_ : w.puts[call]? with
    | none => simpa only [World.act, at_] using young
    | some put =>
      simp only [World.act, at_]
      rcases advance_store digest w.clock w.blobs put with
        same | ⟨data, time, blob, stamp, mtime, changed⟩
      · rw [same]
        exact young
      · refine young_set (fun old there => ?_) young changed
        rw [mtime]
        exact prompt put at_ (data, time) stamp old there
  | _ => exact young

/-- A blob that is referred to after an action was before, or is young. -/
theorem act_referenced (prompt : Prompt digest minAge w action) (past : cutoff + minAge ≤ w.clock)
    (referenced : (w.act digest action).Referenced hash) :
    w.Referenced hash ∨ Young w cutoff hash := by
  cases action with
  | advance call =>
    left
    simp only [World.act] at referenced
    split at referenced <;> exact referenced
  | commit entry =>
    obtain ⟨found, listed, named⟩ := referenced
    rcases List.mem_cons.mp listed with rfl | old
    · rcases prompt hash named with before | ⟨blob, there, recent⟩
      · exact Or.inl before
      · exact Or.inr ⟨blob, there, by omega⟩
    · exact Or.inl ⟨found, old, named⟩
  | move index place =>
    left
    obtain ⟨found, listed, named⟩ := referenced
    simp only [World.act] at listed
    obtain ⟨position, at_⟩ := List.mem_iff_getElem?.mp listed
    rw [List.getElem?_modify] at at_
    cases there : w.entries[position]? with
    | none => simp [there] at at_
    | some entry =>
      refine ⟨entry, List.mem_iff_getElem?.mpr ⟨position, there⟩, ?_⟩
      -- only the place of a record changes, not what it names
      simp only [there, Option.map_eq_map, Option.map_some, Option.some.injEq] at at_
      split at at_ <;> subst at_ <;> exact named
  | drop index =>
    obtain ⟨found, listed, named⟩ := referenced
    exact Or.inl ⟨found, (List.eraseIdx_subset listed), named⟩
  | _ => exact Or.inl referenced

end Actions

/-! The invariant of a sweep and the runs that keep it. -/
section Safety

variable {digest : Digest} {minAge : Int} {dryRun : Bool}

/-- From the plan on, a candidate that is referred to is young, or the second scan
has it still before it; what survives that scan is young or not referred to. -/
def Guarded (minAge : Int) (s : State) : Prop :=
  match s.phase with
  | .revalidating _ toDelete cutoff scan =>
    cutoff + minAge ≤ s.world.clock ∧ ∀ hash ∈ toDelete, s.world.Referenced hash →
      Young s.world cutoff hash ∨ Covers s.world.contents scan hash
  | .deleting _ survivors cutoff =>
    cutoff + minAge ≤ s.world.clock ∧ ∀ hash ∈ survivors, s.world.Referenced hash →
      Young s.world cutoff hash
  | _ => True

variable {s : State}

theorem guarded_act (guarded : Guarded minAge s) (orderly : Orderly digest minAge s (.act action)) :
    Guarded minAge (step digest minAge dryRun s (.act action)) := by
  obtain ⟨w, phase⟩ := s
  obtain ⟨prompt, behind⟩ := orderly
  have later := act_clock digest w action
  cases phase with
  | revalidating current toDelete cutoff scan =>
    obtain ⟨past, inv⟩ := guarded
    refine ⟨le_trans past later, fun hash candidate referenced => ?_⟩
    rcases act_referenced prompt past referenced with before | young
    · rcases inv hash candidate before with young | covers
      · exact Or.inl (act_young prompt young)
      · exact Or.inr (covers.keep (behind hash candidate referenced))
    · exact Or.inl (act_young prompt young)
  | deleting current survivors cutoff =>
    obtain ⟨past, inv⟩ := guarded
    refine ⟨le_trans past later, fun hash candidate referenced => ?_⟩
    rcases act_referenced prompt past referenced with before | young
    · exact act_young prompt (inv hash candidate before)
    · exact act_young prompt young
  | _ => trivial

/-- Removing a blob on condition of its age takes no young one. -/
theorem deleteSweptBlob_cases (dryRun : Bool) (bs : Store) (hash : Bytes) (cutoff : Int) :
    deleteSweptBlob dryRun bs hash cutoff = bs ∨
      (deleteSweptBlob dryRun bs hash cutoff = bs.set hash none ∧
        ∀ blob, bs hash = some blob → ¬ cutoff < blob.mtime) := by
  unfold deleteSweptBlob deleteIfNotModifiedSince
  cases dryRun with
  | true => exact Or.inl rfl
  | false =>
    by_cases invalid : isValidHash hash = false
    · exact Or.inl (by simp [invalid])
    cases there : bs hash with
    | none => exact Or.inl (by simp [invalid])
    | some blob =>
      by_cases young : cutoff < blob.mtime
      · exact Or.inl (by simp [invalid, young])
      · refine Or.inr ⟨by simp [invalid, young], fun found same => ?_⟩
        cases same
        exact young

/-- The blobs a turn leaves: all of them, or all but the survivor whose turn it is,
which is then an old one. -/
theorem turn_blobs (minAge : Int) (dryRun : Bool) (w : World) (phase : Phase) (next : Turn) :
    (turn minAge dryRun w phase next).2 = w.blobs ∨
      ∃ current hash survivors cutoff, phase = .deleting current (hash :: survivors) cutoff ∧
        turn minAge dryRun w phase next =
          (.deleting current survivors cutoff, w.blobs.set hash none) ∧
        ¬ Young w cutoff hash := by
  unfold turn
  split
  case h_12 current hash survivors cutoff =>
    rcases deleteSweptBlob_cases dryRun w.blobs hash cutoff with same | ⟨gone, old⟩
    · exact Or.inl same
    · refine Or.inr ⟨current, hash, survivors, cutoff, rfl, congrArg (Prod.mk _) gone, ?_⟩
      rintro ⟨blob, there, young⟩
      exact old blob there young
  all_goals
    left
    first
    | rfl
    | (split <;> rfl)
    | (dsimp only; split <;> rfl)

/-- Where a turn leads as long as it removes nothing. -/
theorem guarded_phase {w : World} {phase : Phase} (next : Turn)
    (guarded : Guarded minAge ⟨w, phase⟩) :
    Guarded minAge ⟨w, (turn minAge dryRun w phase next).1⟩ := by
  unfold turn
  split
  case h_7 prev referenced mtimes =>
    dsimp only
    split
    · trivial
    · -- the second scan begins with every place before it
      exact ⟨by simp, fun hash _ known =>
        Or.inr (covers_of_held mem_scanOrder (held_iff.mpr known))⟩
  case h_8 current toDelete cutoff scan =>
    refine ⟨guarded.1, fun hash candidate known => ?_⟩
    exact (guarded.2 hash candidate known).imp_right Covers.read
  case h_10 current toDelete cutoff scan =>
    split
    case isFalse => exact guarded
    case isTrue finished =>
      refine ⟨guarded.1, fun hash survivor known => ?_⟩
      obtain ⟨candidate, missed⟩ := List.mem_filter.mp survivor
      rcases guarded.2 hash candidate known with young | covers
      · exact young
      · simp [covers.found finished] at missed
  case h_12 current hash survivors cutoff =>
    exact ⟨guarded.1, fun other survivor => guarded.2 other (List.mem_cons_of_mem _ survivor)⟩
  case h_13 => exact guarded
  all_goals
    first
    | trivial
    | (split <;> trivial)

theorem guarded_turn {next : Turn} (guarded : Guarded minAge s) :
    Guarded minAge (step digest minAge dryRun s (.turn next)) := by
  obtain ⟨w, phase⟩ := s
  simp only [step]
  rcases turn_blobs minAge dryRun w phase next with
    same | ⟨current, hash, survivors, cutoff, rfl, removed, old⟩
  · rw [same]
    exact guarded_phase next guarded
  rw [removed]
  refine ⟨guarded.1, fun other survivor known => ?_⟩
  obtain ⟨blob, there, young⟩ :=
    guarded.2 other (List.mem_cons_of_mem _ survivor) known
  -- the one that was removed is not among the young
  have different : other ≠ hash := by
    rintro rfl
    exact old ⟨blob, there, young⟩
  exact ⟨blob, (set_other _ _ different).trans there, young⟩

theorem guarded_step {event : Event} (guarded : Guarded minAge s)
    (orderly : Orderly digest minAge s event) :
    Guarded minAge (step digest minAge dryRun s event) := by
  cases event with
  | act action => exact guarded_act guarded orderly
  | turn next => exact guarded_turn guarded

theorem act_blobs {w : World} {hash : Bytes} (action : Action) (there : w.blobs hash ≠ none) :
    (w.act digest action).blobs hash ≠ none := by
  cases action with
  | advance call =>
    simp only [World.act]
    split
    · exact there
    rename_i put _
    rcases advance_store digest w.clock w.blobs put with
      same | ⟨data, time, blob, _, _, changed⟩
    · simpa only [same] using there
    simp only [changed]
    by_cases here : hash = digest.hex data
    · simp [here]
    · rwa [set_other _ _ here]
  | _ => exact there

theorem guarded_spares {event : Event} (guarded : Guarded minAge s) :
    Spares digest minAge dryRun s event := by
  intro lost there gone known
  obtain ⟨w, phase⟩ := s
  cases event with
  | act action => exact act_blobs action there gone
  | turn next =>
    simp only [step] at gone
    rcases turn_blobs minAge dryRun w phase next with
      same | ⟨current, hash, survivors, cutoff, rfl, removed, old⟩
    · rw [same] at gone
      exact there gone
    rw [removed] at gone
    by_cases here : lost = hash
    · subst here
      exact old (guarded.2 lost List.mem_cons_self known)
    · exact there ((set_other _ _ here).symm.trans gone)

/-- Beside any number of sweeps, a run whose actions are prompt and take no
candidate's reference past the second scan loses no blob a record refers to. -/
theorem sweeps_spare_referenced (digest : Digest) (minAge : Int) (dryRun : Bool) (start : State)
    (prev : List Bytes) (events : List Event) (fresh : start.phase = .idle prev)
    (orderly : Histories.Along (step digest minAge dryRun) (Orderly digest minAge) start events) :
    Histories.Along (step digest minAge dryRun) (Spares digest minAge dryRun) start events := by
  have initial : Guarded minAge start := by
    simp [Guarded, fresh]
  exact Histories.along_strengthen (fun state event guarded held => guarded_step guarded held)
    (fun state event guarded _ => guarded_spares guarded) initial orderly

end Safety

/-! An envelope that is released from quarantine and quarantined again. -/

def sampleHash : Bytes := sampleDigest.hex [1]

def sampleStart (place : Place) : State where
  world :=
    { clock := 100
      blobs := fun hash => if hash = sampleHash then some ⟨[1], 0⟩ else none
      entries := [⟨place, [sampleHash]⟩]
      puts := [] }
  phase := .idle []

def reads (count : Nat) : List Event := List.replicate count (.turn .read)

/-- A rescan puts the envelope back into `incoming`. -/
def released : List Event := [.act (.move 0 .incoming)]

def quarantined : List Event := [.act (.move 0 .processing), .act (.move 0 .quarantine)]

/-- The envelope is sent to be rescanned each time `incoming` has just been read, and is
back in quarantine before that happens again. -/
def dodgedScan : List Event :=
  reads 4 ++ released ++ reads 4 ++ quarantined ++ reads 1 ++ released ++ reads 4

def collected : List Event := [.turn (.list [sampleHash]), .turn .stat, .turn .plan]

def untilRemoval : List Event :=
  [.turn (.start true)] ++ dodgedScan ++ collected ++ quarantined ++
    ([.turn (.start true)] ++ dodgedScan ++ collected) ++
    (quarantined ++ dodgedScan ++ [.turn .confirm])

/-- Each scan misses the envelope, and its blob is removed while it waits in the
spool. -/
theorem released_blob_deleted :
    Histories.Along (step sampleDigest 10 false) (Admissible 10) (sampleStart .quarantine)
      (untilRemoval ++ [.turn .delete]) ∧
    ¬ Histories.Along (step sampleDigest 10 false) (Spares sampleDigest 10 false)
      (sampleStart .quarantine) (untilRemoval ++ [.turn .delete]) := by
  refine ⟨by decide, fun spared => ?_⟩
  have last := Histories.along_at untilRemoval [] (.turn .delete) spared
  exact last sampleHash (by decide) (by decide) (by decide)

/-- Beside two sweeps, blob 2 is put and referred to by a mail record while the
envelope goes forward through the spool. Blob 3, which nothing refers to, is the
one that is removed. -/
def busyStart : State where
  world :=
    { clock := 100
      blobs := fun hash =>
        if hash = sampleHash then some ⟨[1], 0⟩
        else if hash = sampleDigest.hex [3] then some ⟨[3], 0⟩
        else none
      entries := [⟨.incoming, [sampleHash]⟩]
      puts := [] }
  phase := .idle []

def listed : List Event :=
  [.turn (.list [sampleHash, sampleDigest.hex [3]]), .turn .stat, .turn .stat, .turn .plan]

def busySweeps : List Event :=
  List.flatten
    [[.act (.put [2])], List.replicate 5 (.act (.advance 0)), [.act (.tick 5)],
      [.turn (.start true)], reads 6, [.act (.move 0 .processing)], reads 7, listed,
      [.act (.commit ⟨.mail, [sampleDigest.hex [2]]⟩)],
      [.turn (.start true)], reads 13, listed,
      reads 5, [.act (.move 1 .deliver)], reads 8, [.turn .confirm, .turn .delete]]

theorem sweeps_spare_referenced_busy :
    Histories.Along (step sampleDigest 10 false) (Admissible 10) busyStart busySweeps ∧
    Histories.Along (step sampleDigest 10 false) (Orderly sampleDigest 10) busyStart busySweeps ∧
    (Histories.run (step sampleDigest 10 false) busyStart busySweeps).world.blobs
      (sampleDigest.hex [3]) = none ∧
    Histories.Along (step sampleDigest 10 false) (Spares sampleDigest 10 false) busyStart
      busySweeps := by
  have orderly : Histories.Along (step sampleDigest 10 false) (Orderly sampleDigest 10)
      busyStart busySweeps := by decide
  exact ⟨by decide, orderly, by decide,
    sweeps_spare_referenced sampleDigest 10 false busyStart [] busySweeps rfl orderly⟩

end Bongo.BlobSweep
