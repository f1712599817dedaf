import Bongo.Histories

/-!
The cap on connections of one address. A connection asks for its slot at its first read or
write, inside a once; closing it waits for that once and gives the slot back one time. `Phase`
says how far a connection is, and each event is a step that nothing else can divide.
-/

namespace Bongo.ConnLimit

open Histories

structure PerIPLimiter (IP : Type) where
  max : Int
  n : IP → Option Nat

/-- `fresh`: the once is unused; `entered`: it runs, and the slot is not asked for yet;
`closing`: one `Close` has won the swap and not released yet. -/
inductive Phase where
  | fresh
  | entered
  | held
  | closing
  | closed
  | refused
  deriving DecidableEq

/-- A connection that is not TCP has no address. -/
structure LimitConn (IP : Type) where
  ip : Option IP
  phase : Phase

structure World (IP : Type) where
  limiter : PerIPLimiter IP
  conns : List (LimitConn IP)

inductive Event (IP : Type) where
  | accept (ip : Option IP)
  | setMax (max : Int)
  | use (place : Nat)
  | acquire (place : Nat)
  | close (place : Nat)
  | release (place : Nat)

variable {IP : Type} [DecidableEq IP]

/-- `l.n[k]`: a missing entry counts as zero. -/
def PerIPLimiter.count (l : PerIPLimiter IP) (ip : IP) : Nat := (l.n ip).getD 0

def PerIPLimiter.acquire (l : PerIPLimiter IP) : Option IP → Bool × PerIPLimiter IP
  | none => (true, l)
  | some ip =>
    if l.max ≤ 0 then (true, l)
    else if l.max ≤ l.count ip then (false, l)
    else (true, { l with n := Function.update l.n ip (some (l.count ip + 1)) })

def PerIPLimiter.release (l : PerIPLimiter IP) : Option IP → PerIPLimiter IP
  | none => l
  | some ip =>
    if 0 < l.count ip then
      let left := if l.count ip - 1 = 0 then none else some (l.count ip - 1)
      { l with n := Function.update l.n ip left }
    else l

def World.put (world : World IP) (place : Nat) (conn : LimitConn IP) (phase : Phase) : World IP :=
  { world with conns := world.conns.set place { conn with phase := phase } }

/-- The connection at `place`, if it exists, moves on from the phase it is in. -/
def World.move (world : World IP) (place : Nat) (next : LimitConn IP → World IP) : World IP :=
  (world.conns[place]?.map next).getD world

/-- A `Close` before the first read uses the once up; one during it waits. -/
def step (world : World IP) : Event IP → World IP
  | .accept ip => { world with conns := world.conns ++ [⟨ip, .fresh⟩] }
  | .setMax max => { world with limiter := { world.limiter with max := max } }
  | .use place => world.move place fun conn =>
    if conn.phase = .fresh then world.put place conn .entered else world
  | .acquire place => world.move place fun conn =>
    if conn.phase = .entered then
      let asked := world.limiter.acquire conn.ip
      { world.put place conn (if asked.1 then .held else .refused) with limiter := asked.2 }
    else world
  | .close place => world.move place fun conn =>
    if conn.phase = .fresh then world.put place conn .refused
    else if conn.phase = .held then world.put place conn .closing
    else world
  | .release place => world.move place fun conn =>
    if conn.phase = .closing then
      { world.put place conn .closed with limiter := world.limiter.release conn.ip }
    else world

def LimitConn.opens (ip : IP) (conn : LimitConn IP) : Bool :=
  conn.ip = some ip && (conn.phase = .held || conn.phase = .closing)

/-- The connections of an address that were admitted and are not closed yet. -/
def World.opened (world : World IP) (ip : IP) : Nat := world.conns.countP (·.opens ip)

def entries (counts : IP → Nat) (ip : IP) : Option Nat :=
  if counts ip = 0 then none else some (counts ip)

/-- The count is that of the open connections, and there is no entry without one. -/
def Balanced (world : World IP) : Prop := world.limiter.n = entries world.opened

/-- An address asks for a slot only while there is a cap. -/
def Capped (world : World IP) : Event IP → Prop
  | .acquire place => ∀ conn, world.conns[place]? = some conn → conn.phase = .entered →
      conn.ip ≠ none → 0 < world.limiter.max
  | _ => True

/-- A connection that is admitted under a cap finds fewer others open. -/
def Within (world : World IP) : Event IP → Prop
  | .acquire place => ∀ conn ip, world.conns[place]? = some conn → conn.phase = .entered →
      conn.ip = some ip → 0 < world.limiter.max →
      (world.limiter.acquire conn.ip).1 = true → world.opened ip < world.limiter.max
  | _ => True

def start (max : Int) : World IP := ⟨⟨max, fun _ => none⟩, []⟩

section Moves

variable {world : World IP} {place : Nat} {conn : LimitConn IP}
  (there : world.conns[place]? = some conn)
include there

theorem opened_put (phase : Phase) (ip : IP) :
    (world.put place conn phase).opened ip + (if conn.opens ip then 1 else 0) =
      world.opened ip + if (LimitConn.mk conn.ip phase).opens ip then 1 else 0 := by
  obtain ⟨inside, rfl⟩ := List.getElem?_eq_some_iff.mp there
  have least := List.boole_getElem_le_countP (p := (·.opens ip)) inside
  rw [World.opened, World.put, List.countP_set inside, World.opened]
  omega

theorem opened_same {phase : Phase}
    (same : ∀ ip, (LimitConn.mk conn.ip phase).opens ip = conn.opens ip) :
    (world.put place conn phase).opened = world.opened := by
  funext ip
  have moved := opened_put there phase ip
  rw [same] at moved
  exact Nat.add_right_cancel moved

variable {own : IP} (named : conn.ip = some own)
include named

/-- A connection that becomes open counts for its own address only. -/
theorem opened_held (entered : conn.phase = .entered) :
    (world.put place conn .held).opened =
      Function.update world.opened own (world.opened own + 1) := by
  funext ip
  have moved := opened_put there .held ip
  by_cases mine : ip = own
  · subst mine
    simpa [LimitConn.opens, named, entered] using moved
  · simpa [LimitConn.opens, named, entered, mine, Ne.symm mine] using moved

theorem opened_closed (closing : conn.phase = .closing) :
    world.opened = Function.update (world.put place conn .closed).opened own
      ((world.put place conn .closed).opened own + 1) := by
  funext ip
  have moved := opened_put there .closed ip
  by_cases mine : ip = own
  · subst mine
    simpa [LimitConn.opens, named, closing] using moved.symm
  · simpa [LimitConn.opens, named, closing, mine, Ne.symm mine] using moved.symm

end Moves

variable {world : World IP} {event : Event IP}

theorem entries_update (counts : IP → Nat) (own : IP) (count : Nat) :
    entries (Function.update counts own count) =
      Function.update (entries counts) own (if count = 0 then none else some count) := by
  funext ip
  by_cases mine : ip = own
  · subst mine
    simp [entries]
  · simp [entries, mine]

section Steps

variable (balanced : Balanced world)
include balanced

theorem Balanced.count (ip : IP) : world.limiter.count ip = world.opened ip := by
  rw [PerIPLimiter.count, balanced, entries]
  split
  case isTrue none => exact none.symm
  case isFalse => rfl

theorem Balanced.move {place : Nat} {next : LimitConn IP → World IP}
    (moves : ∀ conn, world.conns[place]? = some conn → Balanced (next conn)) :
    Balanced (world.move place next) := by
  rw [World.move]
  cases there : world.conns[place]? with
  | none => exact balanced
  | some conn => exact moves conn there

variable {place : Nat} {conn : LimitConn IP} (there : world.conns[place]? = some conn)
include there

theorem Balanced.put {phase : Phase}
    (same : ∀ ip, (LimitConn.mk conn.ip phase).opens ip = conn.opens ip) :
    Balanced (world.put place conn phase) :=
  balanced.trans (congrArg entries (opened_same there same).symm)

theorem Balanced.acquire (entered : conn.phase = .entered)
    (capped : conn.ip ≠ none → 0 < world.limiter.max) :
    Balanced { world.put place conn
        (if (world.limiter.acquire conn.ip).1 then .held else .refused) with
      limiter := (world.limiter.acquire conn.ip).2 } := by
  cases named : conn.ip with
  | none => exact balanced.put there (by simp [LimitConn.opens, named])
  | some own =>
    rw [PerIPLimiter.acquire, if_neg (not_le.mpr (capped (by simp [named])))]
    split
    case isTrue full => exact balanced.put there (by simp [LimitConn.opens, entered])
    case isFalse free =>
      refine Eq.trans ?_ (congrArg entries (opened_held there named entered).symm)
      rw [entries_update, if_neg (Nat.succ_ne_zero _), ← balanced, ← balanced.count]

theorem Balanced.release (closing : conn.phase = .closing) :
    Balanced { world.put place conn .closed with
      limiter := world.limiter.release conn.ip } := by
  cases named : conn.ip with
  | none => exact balanced.put there (by simp [LimitConn.opens, named])
  | some own =>
    have opened := opened_closed there named closing
    have count := balanced.count own
    have stored : world.limiter.n = _ := balanced
    rw [opened, Function.update_self] at count
    rw [opened, entries_update] at stored
    rw [PerIPLimiter.release, if_pos (by omega), count, Nat.add_sub_cancel, stored]
    exact (Function.update_idem _ _ _).trans (Function.update_eq_self own _)

omit there

theorem step_balanced (capped : Capped world event) : Balanced (step world event) := by
  cases event with
  | accept ip =>
    refine balanced.trans (congrArg entries (funext fun other => ?_))
    have fresh : LimitConn.opens other ⟨ip, .fresh⟩ = false := by simp [LimitConn.opens]
    rw [World.opened, World.opened, step, List.countP_append, List.countP_singleton, fresh]
    rfl
  | setMax max => exact balanced
  | use place =>
    refine balanced.move fun conn there => ?_
    split_ifs with fresh
    · exact balanced.put there (by simp [LimitConn.opens, fresh])
    · exact balanced
  | close place =>
    refine balanced.move fun conn there => ?_
    split_ifs with fresh held
    · exact balanced.put there (by simp [LimitConn.opens, fresh])
    · exact balanced.put there (by simp [LimitConn.opens, held])
    · exact balanced
  | acquire place =>
    refine balanced.move fun conn there => ?_
    split_ifs with entered
    · exact balanced.acquire there entered (capped conn there entered)
    · exact balanced
  | release place =>
    refine balanced.move fun conn there => ?_
    split_ifs with closing
    · exact balanced.release there closing
    · exact balanced

/-- A grant without a cap takes no slot, and the count falls behind. -/
theorem capped_of_balanced (after : Balanced (step world event)) : Capped world event := by
  cases event with
  | acquire place =>
    intro conn there entered named
    by_contra uncapped
    obtain ⟨own, named⟩ := Option.ne_none_iff_exists'.mp named
    rw [step, World.move, there, Option.map_some, Option.getD_some, if_pos entered, named,
      PerIPLimiter.acquire, if_pos (not_lt.mp uncapped)] at after
    have opened := congrFun (opened_held there named entered) own
    have count : world.limiter.count own = (world.put place conn .held).opened own :=
      after.count own
    rw [opened, Function.update_self, balanced.count] at count
    omega
  | accept _ | setMax _ | use _ | close _ | release _ => trivial

theorem within_of_balanced : Within world event := by
  cases event with
  | acquire place =>
    intro conn ip there entered named positive granted
    rw [named, PerIPLimiter.acquire, if_neg (not_le.mpr positive)] at granted
    split_ifs at granted with full
    rw [← balanced.count]
    exact not_le.mp full
  | accept _ | setMax _ | use _ | close _ | release _ => trivial

end Steps

/-- In a run the counts are right throughout exactly when no address asks for a slot while
the cap is switched off, and then no connection is admitted over the cap. -/
theorem counts_exact_iff (max : Int) (events : List (Event IP)) :
    ((∀ reached, Passes step (start max) events reached → Balanced reached) ↔
      Along step Capped (start max) events) ∧
      (Along step Capped (start max) events → Along step Within (start max) events) := by
  have begun : Balanced (start max : World IP) := rfl
  refine ⟨⟨?_, fun capped reached passed => ?_⟩, fun capped => ?_⟩
  · generalize (start max : World IP) = world at begun
    intro throughout
    induction events generalizing world with
    | nil => trivial
    | cons event rest ih =>
      have next := throughout (step world event) ⟨[event], rest, rfl, rfl⟩
      refine ⟨capped_of_balanced begun next, ih _ next ?_⟩
      rintro reached ⟨before, after, rfl, rfl⟩
      exact throughout _ ⟨event :: before, after, rfl, rfl⟩
  · exact passes_invariant (fun _ _ => step_balanced) begun capped passed
  · exact along_strengthen (fun _ _ => step_balanced)
      (fun _ _ balanced _ => within_of_balanced balanced) begun capped

/-- One connection under the cap, one while it is off. The first to close takes the entry
with it. -/
def switchedOff : List (Event Unit) :=
  [.accept (some ()), .use 0, .acquire 0, .setMax 0, .accept (some ()), .use 1, .acquire 1,
    .setMax 1, .close 1, .release 1, .accept (some ()), .use 2, .acquire 2]

/-- With a cap of one, the third connection is admitted while the first is open. -/
theorem admitted_over_cap :
    (run step (start 1) (switchedOff.take 7)).limiter.count () = 1 ∧
      (run step (start 1) (switchedOff.take 7)).opened () = 2 ∧
      (run step (start 1) switchedOff).opened () = 2 := by
  decide

end Bongo.ConnLimit
