import Bongo.Histories
import Bongo.Spool

/-!
Runs of the spool. Whoever holds an envelope in memory, the poller, the channel
or a worker, has a claim on its file; claims are on different files, each of them
in `processing`, and no file loses a flag. What the runs promise follows from
that ledger.
-/

namespace Bongo.Spool

open ByteKeys

section Ledger

abbrev Claim := Bytes × Option UInt32

structure Kept (files : Files) (claims : List Claim) (enqueued : List Bytes)
    (seen : List Record) : Prop where
  named : ∀ dir id env, files dir id = some env → env.id = id
  once : ∀ id dir other, files dir id ≠ none → files other id ≠ none → dir = other
  stored : ∀ id, id ∈ enqueued ↔ ∃ dir, files dir id ≠ none
  apart : (claims.map Prod.fst).Nodup
  backed : ∀ claim ∈ claims, ∃ env, files .processing claim.1 = some env ∧
    ∀ flags ∈ claim.2, Within env.flags flags
  recorded : ∀ entry ∈ seen, ∃ dir env, files dir entry.1 = some env ∧ Within entry.2 env.flags

variable {files : Files} {claims : List Claim} {enqueued : List Bytes} {seen : List Record}
  {id : Bytes} {env : Envelope} {source target : Dir}

theorem Kept.perm {others : List Claim} (kept : Kept files claims enqueued seen)
    (same : claims.Perm others) : Kept files others enqueued seen where
  named := kept.named
  once := kept.once
  stored := kept.stored
  apart := (same.map Prod.fst).nodup kept.apart
  backed claim member := kept.backed claim (same.mem_iff.mpr member)
  recorded := kept.recorded

theorem Kept.sublist {fewer : List Claim} (kept : Kept files claims enqueued seen)
    (sub : fewer.Sublist claims) : Kept files fewer enqueued seen where
  named := kept.named
  once := kept.once
  stored := kept.stored
  apart := kept.apart.sublist (sub.map Prod.fst)
  backed claim member := kept.backed claim (sub.mem member)
  recorded := kept.recorded

variable {flags : Option UInt32}

theorem Kept.unclaimed (kept : Kept files ((id, flags) :: claims) enqueued seen) :
    ∀ claim ∈ claims, claim.1 ≠ id := by
  intro claim member same
  have apart := kept.apart
  rw [List.map_cons, List.nodup_cons] at apart
  exact apart.1 (List.mem_map.mpr ⟨claim, member, same⟩)

/-- A file outside `processing` is nobody's. -/
theorem Kept.unclaimed_outside (kept : Kept files claims enqueued seen)
    (there : files source id = some env) (outside : source ≠ .processing) :
    ∀ claim ∈ claims, claim.1 ≠ id := by
  intro claim member same
  obtain ⟨held, inProcessing, _⟩ := kept.backed claim member
  rw [same] at inProcessing
  exact outside (kept.once id _ _ (by simp [there]) (by simp [inProcessing]))

theorem moved_other {other : Bytes} (dir : Dir) (different : other ≠ id) :
    files.moved id source target env dir other = files dir other := if_neg different

@[simp] theorem moved_target : files.moved id source target env target id = some env := by
  simp [Files.moved]

section

variable (kept : Kept files claims enqueued seen)
include kept

/-- A file that is in one directory is in the target after the rename, and nowhere
else. -/
theorem Kept.moved_here (there : files source id = some env) {dir : Dir}
    (found : files.moved id source target env dir id ≠ none) : dir = target := by
  by_contra elsewhere
  simp only [Files.moved, if_true, elsewhere, if_false] at found
  split at found
  · exact found rfl
  · rename_i other
    exact other (kept.once id _ _ found (by simp [there]))

theorem Kept.moved (there : files source id = some env) (free : ∀ claim ∈ claims, claim.1 ≠ id) :
    Kept (files.moved id source target env) claims enqueued seen where
  named dir other found same := by
    by_cases here : other = id
    · subst here
      have found' : files.moved other source target env dir other ≠ none := by simp [same]
      rw [kept.moved_here there found', moved_target, Option.some.injEq] at same
      rw [← same]
      exact kept.named _ _ _ there
    · rw [moved_other dir here] at same
      exact kept.named dir other found same
  once other dir again first second := by
    by_cases here : other = id
    · subst here
      rw [kept.moved_here there first, kept.moved_here there second]
    · rw [moved_other _ here] at first second
      exact kept.once other dir again first second
  stored other := by
    by_cases here : other = id
    · subst here
      refine iff_of_true ((kept.stored other).mpr ⟨source, by simp [there]⟩) ⟨target, ?_⟩
      simp
    · simp only [moved_other _ here]
      exact kept.stored other
  apart := kept.apart
  backed claim member := by
    rw [moved_other _ (free claim member)]
    exact kept.backed claim member
  recorded entry member := by
    obtain ⟨dir, old, found, within⟩ := kept.recorded entry member
    by_cases here : entry.1 = id
    · rw [here] at found ⊢
      refine ⟨target, env, moved_target, ?_⟩
      have same := kept.once id dir source (by simp [found]) (by simp [there])
      rw [same, there, Option.some.injEq] at found
      rw [found]
      exact within
    · exact ⟨dir, old, by rw [moved_other _ here, found], within⟩

/-- A rename that may fail keeps the ledger either way. -/
theorem Kept.move (ok : Bool) (free : ∀ claim ∈ claims, claim.1 ≠ id) :
    Kept (files.move ok id source target).1 claims enqueued seen := by
  unfold Files.move Files.rename
  cases there : files source id with
  | none => cases ok <;> exact kept
  | some env =>
    cases ok with
    | false => exact kept
    | true => exact kept.moved there free

end

/-- The holder of a file lets go of it, wherever it goes and whether or not it gets
there. -/
theorem Kept.retire (ok : Bool) (kept : Kept files ((id, flags) :: claims) enqueued seen) :
    Kept (files.move ok id source target).1 claims enqueued seen :=
  (kept.sublist (List.sublist_cons_self _ _)).move ok kept.unclaimed

theorem Kept.acquire (kept : Kept files claims enqueued seen) (ok : Bool)
    (done : (files.move ok id .incoming .processing).2 = true) :
    Kept (files.move ok id .incoming .processing).1 ((id, none) :: claims) enqueued seen := by
  unfold Files.move Files.rename at done ⊢
  cases there : files .incoming id with
  | none => cases ok <;> simp [there] at done
  | some env =>
    cases ok with
    | false => simp at done
    | true =>
      have free := kept.unclaimed_outside there (by decide)
      have after : Kept (files.moved id .incoming .processing env) claims enqueued seen :=
        kept.moved there free
      refine { after with apart := ?_, backed := ?_ }
      · rw [List.map_cons, List.nodup_cons]
        refine ⟨?_, kept.apart⟩
        rintro member
        obtain ⟨claim, held, same⟩ := List.mem_map.mp member
        exact free claim held same
      · exact List.forall_mem_cons.mpr ⟨⟨env, moved_target, by simp⟩, after.backed⟩

/-- The holder of a file comes to know of more flags. -/
theorem Kept.learn {known : UInt32} (kept : Kept files ((id, flags) :: claims) enqueued seen)
    (within : ∀ env, files .processing id = some env →
      (∀ old ∈ flags, Within env.flags old) → Within env.flags known) :
    Kept files ((id, some known) :: claims) enqueued seen := by
  refine { kept with apart := kept.apart, backed := ?_ }
  intro claim member
  rcases List.mem_cons.mp member with rfl | held
  · obtain ⟨env, there, old⟩ := kept.backed (id, flags) List.mem_cons_self
    refine ⟨env, there, ?_⟩
    rintro other same
    cases same
    exact within env there old
  · exact kept.backed claim (List.mem_cons_of_mem _ held)

theorem put_self : files.put source env source env.id = some env := if_pos ⟨rfl, rfl⟩

theorem put_other {dir : Dir} {other : Bytes} (different : ¬ (dir = source ∧ other = env.id)) :
    files.put source env dir other = files dir other := if_neg different

theorem Kept.write (kept : Kept files ((env.id, some env.flags) :: claims) enqueued seen) :
    Kept (files.put .processing env) ((env.id, some env.flags) :: claims) enqueued
      ((env.id, env.flags) :: seen) := by
  obtain ⟨old, there, within⟩ := kept.backed _ List.mem_cons_self
  have present : ∀ dir id, files.put .processing env dir id ≠ none ↔ files dir id ≠ none := by
    intro dir id
    by_cases here : dir = .processing ∧ id = env.id
    · obtain ⟨rfl, rfl⟩ := here
      simp [put_self, there]
    · rw [put_other here]
  refine ⟨?_, ?_, ?_, kept.apart, ?_, ?_⟩
  · intro dir id found same
    by_cases here : dir = .processing ∧ id = env.id
    · obtain ⟨rfl, rfl⟩ := here
      rw [put_self, Option.some.injEq] at same
      rw [same]
    · rw [put_other here] at same
      exact kept.named dir id found same
  · intro id dir other first second
    exact kept.once id dir other ((present dir id).mp first) ((present other id).mp second)
  · intro id
    simp only [present]
    exact kept.stored id
  · intro claim member
    rcases List.mem_cons.mp member with rfl | held
    · refine ⟨env, put_self, ?_⟩
      rintro flags same
      cases same
      exact within_refl _
    · rw [put_other (fun here => kept.unclaimed claim held here.2)]
      exact kept.backed claim (List.mem_cons_of_mem _ held)
  · intro entry member
    rcases List.mem_cons.mp member with rfl | before
    · exact ⟨.processing, env, put_self, within_refl _⟩
    obtain ⟨dir, found, same, less⟩ := kept.recorded entry before
    by_cases here : dir = .processing ∧ entry.1 = env.id
    · obtain ⟨rfl, named⟩ := here
      rw [named, there, Option.some.injEq] at same
      subst same
      refine ⟨.processing, env, by rw [named, put_self], ?_⟩
      exact less.trans (within env.flags rfl)
    · exact ⟨dir, found, by rw [put_other here, same], less⟩

theorem Kept.enqueue (kept : Kept files claims enqueued seen) (new : env.id ∉ enqueued) :
    Kept (files.put .incoming env) claims (env.id :: enqueued) ((env.id, env.flags) :: seen) := by
  have absent : ∀ dir, files dir env.id = none := by
    intro dir
    by_contra there
    exact new ((kept.stored env.id).mpr ⟨dir, there⟩)
  have elsewhere : ∀ dir id, id ≠ env.id → files.put .incoming env dir id = files dir id :=
    fun dir id different => put_other fun here => different here.2
  have only : ∀ dir, files.put .incoming env dir env.id ≠ none → dir = .incoming := by
    intro dir there
    by_contra different
    rw [put_other (fun here => different here.1)] at there
    exact there (absent dir)
  refine ⟨?_, ?_, ?_, kept.apart, ?_, ?_⟩
  · intro dir id found same
    by_cases here : id = env.id
    · subst here
      rw [only dir (by simp [same]), put_self, Option.some.injEq] at same
      rw [same]
    · rw [elsewhere dir id here] at same
      exact kept.named dir id found same
  · intro id dir other first second
    by_cases here : id = env.id
    · subst here
      rw [only dir first, only other second]
    · rw [elsewhere _ id here] at first second
      exact kept.once id dir other first second
  · intro id
    by_cases here : id = env.id
    · subst here
      exact iff_of_true List.mem_cons_self ⟨.incoming, by simp [put_self]⟩
    · simp only [List.mem_cons, here, false_or, elsewhere _ id here]
      exact kept.stored id
  · intro claim member
    obtain ⟨held, there, within⟩ := kept.backed claim member
    have different : claim.1 ≠ env.id := by
      intro same
      rw [same, absent] at there
      cases there
    exact ⟨held, by rw [elsewhere _ _ different, there], within⟩
  · intro entry member
    rcases List.mem_cons.mp member with rfl | before
    · exact ⟨.incoming, env, put_self, within_refl _⟩
    obtain ⟨dir, found, same, less⟩ := kept.recorded entry before
    have different : entry.1 ≠ env.id := by
      intro named
      rw [named, absent] at same
      cases same
    exact ⟨dir, found, by rw [elsewhere _ _ different, same], less⟩

end Ledger

def Envelope.claim (env : Envelope) : Claim := (env.id, some env.flags)

def Worker.claims : Worker → List Claim
  | .idle => []
  | .between env _ | .running env _ _ | .saving env _ | .condemned env | .moving env _ =>
    [env.claim]

def Poller.claims : Poller → List Claim
  | .opened id => [(id, none)]
  | .holding env => [env.claim]
  | .resting | .found _ | .stopped => []

def State.claims (s : State) : List Claim :=
  s.poller.claims ++ (s.work.map Envelope.claim ++ s.workers.flatMap Worker.claims)

/-- The claims with one worker's taken out, put in front again after its step. -/
theorem claims_at {workers : List Worker} {index : Nat} {worker : Worker}
    (at_ : workers[index]? = some worker) :
    ∃ others : List Claim, (workers.flatMap Worker.claims).Perm (worker.claims ++ others) ∧
      ∀ next : Worker, ((workers.set index next).flatMap Worker.claims).Perm
        (next.claims ++ others) := by
  obtain ⟨bound, here⟩ := List.getElem?_eq_some_iff.mp at_
  refine ⟨(workers.take index).flatMap Worker.claims ++
    (workers.drop (index + 1)).flatMap Worker.claims, ?_, ?_⟩
  · have split : workers = workers.take index ++ worker :: workers.drop (index + 1) := by
      rw [← here, List.cons_getElem_drop_succ, List.take_append_drop]
    have spread := congrArg (List.flatMap Worker.claims) split
    rw [List.flatMap_append, List.flatMap_cons] at spread
    rw [spread]
    exact List.perm_append_comm_assoc _ _ _
  · intro next
    rw [List.set_eq_take_append_cons_drop, if_pos bound, List.flatMap_append, List.flatMap_cons]
    exact List.perm_append_comm_assoc _ _ _

/-- A stage is running only if its flag was not there. -/
def Worker.Fresh : Worker → Prop
  | .running env stage _ => hasFlag env.flags (flagsForStage stage).1 = false
  | _ => True

structure Inv (s : State) : Prop where
  kept : Kept s.files s.claims s.enqueued s.seen
  fresh : ∀ worker ∈ s.workers, worker.Fresh
  quiet : s.mode ≠ .up → s.claims = []

section Workers

variable {files : Files} {others : List Claim} {enqueued : List Bytes} {seen : List Record}

theorem hasFlag_zero (flags : UInt32) : hasFlag flags 0 = false := by simp [hasFlag]

/-- Whatever a worker does, the ledger is kept with its claim or without. -/
theorem Kept.worker (worker : Worker) (task : Task)
    (kept : Kept files (worker.claims ++ others) enqueued seen) :
    Kept (worker.step files task).2.1 ((worker.step files task).1.claims ++ others) enqueued
      ((worker.step files task).2.2 ++ seen) := by
  unfold Worker.step
  split
  case h_2 env stage stages readable =>
    dsimp only
    split
    · exact kept
    · split <;> exact kept
  case h_4 env stage stages verdict sets content =>
    have learned : Kept files ((judged stage env verdict sets content).claim :: others)
        enqueued seen :=
      Kept.learn kept fun old _ within => by
        exact (within env.flags rfl).trans (within_judged stage env verdict sets content)
    cases verdict <;> exact learned
  case h_5 env stages => exact Kept.write kept
  case h_7 env => exact Kept.write kept
  case h_9 env target ok => exact Kept.retire ok kept
  all_goals exact kept

theorem fresh_step (files : Files) {worker : Worker} (task : Task) (fresh : worker.Fresh) :
    (worker.step files task).1.Fresh := by
  unfold Worker.step
  split
  case h_2 env stage stages readable =>
    dsimp only
    split
    case isTrue => trivial
    case isFalse unchecked =>
      split
      · -- the stage was not skipped, so its flag is absent, or it has none
        by_cases none : (flagsForStage stage).1 = 0
        · simp [Worker.Fresh, none, hasFlag_zero]
        · simpa [Worker.Fresh, none] using unchecked
      · trivial
  case h_4 env stage stages verdict sets content => cases verdict <;> trivial
  case h_10 => exact fresh
  all_goals trivial

end Workers

section Steps

variable {s : State}

theorem move_failed {files : Files} {ok : Bool} {id : Bytes} {source target : Dir}
    (failed : (files.move ok id source target).2 = false) :
    (files.move ok id source target).1 = files := by
  unfold Files.move at failed ⊢
  split at failed
  · cases failed
  · rfl

theorem kept_poll (depth : Nat) (task : PollTask)
    (kept : Kept s.files s.claims s.enqueued s.seen) :
    Kept (pollStep depth s s.poller task).files (pollStep depth s s.poller task).claims
      (pollStep depth s s.poller task).enqueued (pollStep depth s s.poller task).seen := by
  obtain ⟨files, mode, cancelled, poller, work, workers, enqueued, seen⟩ := s
  cases poller with
  | resting =>
    cases task with
    | look names | stop =>
      simp only [pollStep]
      split <;> exact kept
    | _ => exact kept
  | found id =>
    cases task with
    | rename ok =>
      simp only [pollStep]
      cases done : (files.move ok id .incoming .processing).2 with
      | true => exact Kept.acquire kept ok done
      | false =>
        simp only [move_failed done]
        exact kept
    | _ => exact kept
  | opened id =>
    cases task with
    | read ok =>
      have rest : Kept files (work.map Envelope.claim ++ workers.flatMap Worker.claims)
          enqueued seen := kept.sublist (List.sublist_cons_self _ _)
      simp only [pollStep]
      split
      · rename_i env there
        -- the file is the one that was renamed, so it has the name it was found under
        have named := kept.named _ _ _ there
        subst named
        refine Kept.learn kept fun old found _ => ?_
        have same : env = old := Option.some.inj (there.symm.trans found)
        rw [same]
        exact within_refl _
      · exact rest
    | _ => exact kept
  | holding env =>
    cases task with
    | send =>
      simp only [pollStep]
      split
      · refine kept.perm ?_
        -- the poller's claim goes to the end of the channel
        simp only [State.claims, List.map_append, List.append_assoc]
        exact List.perm_append_comm_assoc _ _ _
      · exact kept
    | giveBack ok =>
      simp only [pollStep]
      split
      · exact Kept.retire ok kept
      · exact kept
    | _ => exact kept
  | stopped => exact kept

theorem fresh_poll (s : State) (depth : Nat) (task : PollTask) :
    (pollStep depth s s.poller task).workers = s.workers ∧
      (pollStep depth s s.poller task).mode = s.mode := by
  unfold pollStep
  split
  case h_1 => split <;> exact ⟨rfl, rfl⟩
  case h_3 => split <;> exact ⟨rfl, rfl⟩
  case h_4 => split <;> exact ⟨rfl, rfl⟩
  case h_5 => split <;> exact ⟨rfl, rfl⟩
  case h_6 => split <;> exact ⟨rfl, rfl⟩
  all_goals exact ⟨rfl, rfl⟩

/-- A worker's claim can be looked at first. -/
theorem claims_worker {index : Nat} {worker : Worker} (at_ : s.workers[index]? = some worker) :
    ∃ others : List Claim, s.claims.Perm (worker.claims ++ others) ∧
      ∀ next : Worker, (s.poller.claims ++ (s.work.map Envelope.claim ++
        (s.workers.set index next).flatMap Worker.claims)).Perm (next.claims ++ others) := by
  obtain ⟨others, before, after⟩ := claims_at at_
  have rotate : ∀ (some rest : List Claim), some.Perm rest →
      ∀ front middle : List Claim, (front ++ (middle ++ some)).Perm (front ++ (middle ++ rest)) :=
    fun some rest same front middle => (same.append_left middle).append_left front
  have bring : ∀ claims : List Claim,
      (s.poller.claims ++ (s.work.map Envelope.claim ++ (claims ++ others))).Perm
        (claims ++ (s.poller.claims ++ (s.work.map Envelope.claim ++ others))) := by
    intro claims
    exact ((List.perm_append_comm_assoc _ _ _).append_left _).trans
      (List.perm_append_comm_assoc _ _ _)
  exact ⟨_, (rotate _ _ before _ _).trans (bring _),
    fun next => (rotate _ _ (after next) _ _).trans (bring _)⟩

def Admissible (s : State) : Event → Prop
  | .enqueue env _ => env.id ∉ s.enqueued
  | _ => True

instance (s : State) : (event : Event) → Decidable (Admissible s event)
  | .enqueue env _ => inferInstanceAs (Decidable (env.id ∉ s.enqueued))
  | .cancel | .poll _ | .take _ | .work _ _ | .crash _ | .recover _ => isTrue trivial

theorem inv_up (stages : List Bytes) (depth : Nat) (event : Event) (inv : Inv s)
    (up : s.mode = .up) (admissible : Admissible s event) :
    Inv (upStep stages depth s event) := by
  have loud : ∀ {other : State}, other.mode = s.mode → other.mode ≠ .up → other.claims = [] :=
    fun same down => absurd (same.trans up) down
  unfold upStep
  split
  case h_1 env => exact ⟨inv.kept.enqueue admissible, inv.fresh, loud rfl⟩
  case h_2 => exact ⟨inv.kept, inv.fresh, loud rfl⟩
  case h_3 task =>
    obtain ⟨workers, mode⟩ := fresh_poll s depth task
    exact ⟨kept_poll depth task inv.kept, by rw [workers]; exact inv.fresh, loud mode⟩
  case h_4 index =>
    split
    · rename_i env work waiting idle
      obtain ⟨others, before, after⟩ := claims_at idle
      refine ⟨?_, ?_, loud rfl⟩
      · refine inv.kept.perm ?_
        -- the first claim of the channel becomes the worker's
        have handed : (received stages s.cancelled env).claims = [env.claim] := by
          unfold received
          split <;> rfl
        have placed := after (received stages s.cancelled env)
        rw [handed] at placed
        simp only [State.claims, waiting]
        refine List.Perm.append_left _ ?_
        have swapped : (env.claim :: work.map Envelope.claim ++ others).Perm
            (work.map Envelope.claim ++ ([env.claim] ++ others)) :=
          List.perm_append_comm_assoc [env.claim] (work.map Envelope.claim) others
        exact (before.append_left (env.claim :: work.map Envelope.claim)).trans
          (swapped.trans (placed.symm.append_left (work.map Envelope.claim)))
      · intro worker member
        rcases List.mem_or_eq_of_mem_set member with old | rfl
        · exact inv.fresh worker old
        · unfold received
          split <;> trivial
    · exact inv
  case h_5 index task =>
    split
    · exact inv
    rename_i worker here
    obtain ⟨others, before, after⟩ := claims_worker here
    refine ⟨?_, ?_, loud rfl⟩
    · exact ((inv.kept.perm before).worker worker task).perm (after _).symm
    intro other member
    rcases List.mem_or_eq_of_mem_set member with old | rfl
    · exact inv.fresh other old
    · exact fresh_step s.files task
        (inv.fresh worker (List.mem_of_getElem? here))
  case h_6 => exact inv

theorem inv_step (stages : List Bytes) (depth workers : Nat) {event : Event} (inv : Inv s)
    (admissible : Admissible s event) : Inv (step stages depth workers s event) := by
  unfold step
  split
  case h_1 names =>
    -- nothing in memory survives a crash
    exact ⟨inv.kept.sublist (List.nil_sublist _), by simp, fun _ => rfl⟩
  case h_2 ok mode =>
    have silent := inv.quiet (by simp [mode])
    have same : State.claims { s with
        mode := .up, workers := List.replicate workers .idle } = [] := by
      simp only [State.claims, List.append_eq_nil_iff] at silent ⊢
      refine ⟨silent.1, silent.2.1, ?_⟩
      simp [Worker.claims]
    refine ⟨?_, ?_, fun _ => same⟩
    · rw [same, ← silent]
      exact inv.kept
    · intro worker member
      rw [List.eq_of_mem_replicate member]
      trivial
  case h_3 ok name names mode =>
    have silent := inv.quiet (by simp [mode])
    refine ⟨?_, inv.fresh, fun _ => silent⟩
    have kept := inv.kept
    rw [silent] at kept
    have moved : Kept (s.files.move ok name .processing .incoming).1 [] s.enqueued s.seen :=
      kept.move ok (by simp)
    rw [← silent] at moved
    exact moved
  case h_4 => exact inv_up stages depth _ inv (by assumption) admissible
  case h_5 => exact inv

theorem inv_start : Inv start where
  kept :=
    { named := by simp [start]
      once := by simp [start]
      stored := by simp [start]
      apart := List.nodup_nil
      backed := by simp [start, State.claims, Poller.claims]
      recorded := by simp [start] }
  fresh := by simp [start]
  quiet _ := rfl

/-- In one directory each; no two workers on one envelope; and no stage is run on an
envelope whose file ever had the stage's flag. -/
structure Sound (s : State) : Prop where
  conserved : ∀ id ∈ s.enqueued, ∃! dir, s.files dir id ≠ none
  exclusive : ∀ (i j : Nat) (first second : Worker), i ≠ j → s.workers[i]? = some first →
    s.workers[j]? = some second → ∀ left ∈ first.claims, ∀ right ∈ second.claims, left.1 ≠ right.1
  unrepeated : ∀ env stage stages, .running env stage stages ∈ s.workers →
    ∀ entry ∈ s.seen, entry.1 = env.id → hasFlag entry.2 (flagsForStage stage).1 = false

theorem Inv.exclusive (inv : Inv s) (i j : Nat) (first second : Worker) (different : i ≠ j)
    (atFirst : s.workers[i]? = some first) (atSecond : s.workers[j]? = some second) :
    ∀ left ∈ first.claims, ∀ right ∈ second.claims, left.1 ≠ right.1 := by
  intro left held right other same
  have apart := inv.kept.apart
  rw [State.claims, List.map_append, List.map_append] at apart
  have workers := (apart.of_append_right).of_append_right
  rw [List.map_flatMap, List.nodup_flatMap] at workers
  have disjoint := List.pairwise_iff_getElem.mp workers.2
  obtain ⟨boundFirst, isFirst⟩ := List.getElem?_eq_some_iff.mp atFirst
  obtain ⟨boundSecond, isSecond⟩ := List.getElem?_eq_some_iff.mp atSecond
  have inFirst : left.1 ∈ first.claims.map Prod.fst := List.mem_map_of_mem held
  have inSecond : left.1 ∈ second.claims.map Prod.fst := same ▸ List.mem_map_of_mem other
  rcases Nat.lt_or_gt_of_ne different with before | after
  · have apart := disjoint i j boundFirst boundSecond before
    rw [isFirst, isSecond] at apart
    exact apart inFirst inSecond
  · have apart := disjoint j i boundSecond boundFirst after
    rw [isFirst, isSecond] at apart
    exact apart inSecond inFirst

theorem Inv.unrepeated (inv : Inv s) (env : Envelope) (stage : Bytes) (stages : List Bytes)
    (running : .running env stage stages ∈ s.workers) (entry : Record) (member : entry ∈ s.seen)
    (about : entry.1 = env.id) : hasFlag entry.2 (flagsForStage stage).1 = false := by
  have claimed : env.claim ∈ s.claims := by
    refine List.mem_append_right _ (List.mem_append_right _ ?_)
    exact List.mem_flatMap.mpr ⟨_, running, List.mem_singleton.mpr rfl⟩
  obtain ⟨held, there, within⟩ := inv.kept.backed _ claimed
  obtain ⟨dir, found, same, less⟩ := inv.kept.recorded entry member
  -- the record is of the very file the worker holds
  have here : dir = .processing :=
    inv.kept.once env.id dir .processing (by rw [← about]; simp [same])
      (by simpa [Envelope.claim] using fun none => by simp [Envelope.claim, none] at there)
  rw [here, about] at same
  have equal : found = held := Option.some.inj (same.symm.trans there)
  have absent : hasFlag env.flags (flagsForStage stage).1 = false := inv.fresh _ running
  by_contra present
  rw [Bool.not_eq_false] at present
  have carried := within env.flags rfl _ (equal ▸ less _ present)
  rw [absent] at carried
  cases carried

theorem Inv.sound (inv : Inv s) : Sound s where
  conserved id member := by
    obtain ⟨dir, there⟩ := (inv.kept.stored id).mp member
    exact ⟨dir, there, fun other also => inv.kept.once id other dir also there⟩
  exclusive := inv.exclusive
  unrepeated := inv.unrepeated

end Steps

/-- Whatever the order of enqueuing, polling, working, shutting down, crashing and
recovering, and whichever file operations fail, every state the spool passes
through is sound. -/
theorem spool_sound (stages : List Bytes) (depth workers : Nat) (events : List Event)
    (admissible : Histories.Along (step stages depth workers) Admissible start events)
    (reached : State) (passed : Histories.Passes (step stages depth workers) start events reached) :
    Sound reached :=
  (Histories.passes_invariant (fun _ _ inv held => inv_step stages depth workers inv held)
    inv_start admissible passed).sound

def sampleStages : List Bytes := [ascii "antispam", ascii "deliver"]

def sampleEnvelope (id : String) : Envelope := ⟨ascii id, 0, []⟩

def polled (names : List Bytes) : List Event :=
  [.poll (.look names), .poll (.rename true), .poll (.read true), .poll .send]

/-- Two workers start on two messages and the first has passed its first stage when
the process crashes; after the recovery that stage is skipped. -/
def crashedRun : List Event :=
  List.flatten
    [[.recover true, .enqueue (sampleEnvelope "a") true, .enqueue (sampleEnvelope "b") true],
      polled [ascii "b", ascii "a"], [.take 0], polled [ascii "b"], [.take 1],
      [.work 0 (.consider true), .work 1 (.consider true)],
      [.work 0 (.finish (.done .tag 0 [])), .work 0 (.write true)],
      [.crash [ascii "a", ascii "b"], .recover true, .recover true, .recover true],
      polled [ascii "a", ascii "b"], [.take 1, .work 1 (.consider true), .work 1 (.consider true)]]

theorem spool_sound_crashed :
    Histories.Along (step sampleStages 5 2) Admissible start crashedRun ∧
    (Histories.run (step sampleStages 5 2) start crashedRun).workers =
      [.idle, .running ⟨ascii "a", 9, []⟩ (ascii "deliver") []] ∧
    Sound (Histories.run (step sampleStages 5 2) start crashedRun) := by
  have admissible : Histories.Along (step sampleStages 5 2) Admissible start crashedRun := by
    decide
  exact ⟨admissible, by decide,
    spool_sound sampleStages 5 2 crashedRun admissible _ ⟨crashedRun, [], by simp, rfl⟩⟩

end Bongo.Spool
