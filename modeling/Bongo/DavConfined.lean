import Bongo.DavObjects
import Mathlib.Data.Fintype.EquivFin

/-!
What a user reaches through the calendar server. Whatever a request returns, stores or
removes is in the user's own key space or in one calendar that is granted to the user, and an
object of a subscribed calendar is never touched. It fails on one kind of stored
data: an event PUT takes an event that cannot be read for an absent one, so the check
which calendar it is in does not happen.
-/

namespace Bongo.CalDav

open ByteKeys KeyValue Acl

variable (store : Store)

/-- What stands at a place; the outer `none` is a record that cannot be read. -/
def stored (place : Place) : Option (Option Object) :=
  match place.kind with
  | .event => (getEvent store place.owner place.guid).map (Option.map .event)
  | .task => (getTaskRecord store place.owner place.guid).map (Option.map .task)

/-- The user holds an accepted grant on the calendar, at a level that covers `need`. -/
def Granted (owner calendar user need : Bytes) : Prop :=
  ∃ grant, get store (grantKey owner calendar user) = some (.grant grant) ∧
    grant.state = grantStateAccepted ∧ levelSatisfies grant.level need = true

def Subscribed (owner calendar : Bytes) : Prop :=
  calendar ≠ [] ∧ ∃ record, get store (calendarKey owner calendar) = some (.calendar record) ∧
    isSubscribed record = true

/-- In the user's own key space, or in one granted calendar before and after. -/
def Confined (user : Bytes) : Effect → Prop
  | .returned owner object => owner = user ∨ Granted store owner object.calendar user grantLevelRead
  | .put place object => place.owner = user ∨
      Granted store place.owner object.calendar user grantLevelWrite ∧
        ∃ before, stored store place = some before ∧
          ∀ old, before = some old → old.calendar = object.calendar
  | .removed place => place.owner = user ∨ ∃ object, stored store place = some (some object) ∧
        Granted store place.owner object.calendar user grantLevelWrite
  | .calendar owner _ => owner = user

def Spares : Effect → Prop
  | .put place _ | .removed place => ∀ object, stored store place = some (some object) →
      ¬ Subscribed store place.owner object.calendar
  | _ => True

/-- A generated guid is not in use. -/
def Request.Fresh (user : Bytes) : Request → Prop
  | .put _ request => KeyValue.get store (calendarKey user request.fresh) = none
  | _ => True

/-- A shared collection through which the user can store an event at the guid. -/
structure Exposed (backend : Backend) (user owner calendar guid : Bytes) : Prop where
  grants : backend.grants = true
  home : PathName user
  foreign : owner ≠ user
  valid : uuidParses owner = true
  segment : slash ∉ calendar ∧ calendar ≠ []
  name : slash ∉ guid ∧ guid ≠ []
  writes : calendarAccessLevel store owner calendar user = some grantLevelWrite
  editable : calendarIsSubscribed store owner calendar = some false
  takes : calendarAllows (getCalendar store owner calendar) componentEvent = true
  free : guidIsTask store backend owner guid = some false

def Legible (backend : Backend) (user : Bytes) : Prop :=
  ∀ owner calendar guid, Exposed store backend user owner calendar guid →
    getEvent store owner guid ≠ none

variable {store}

/-! Grants and subscriptions. -/

theorem write_of_levelSatisfies {level : Bytes}
    (satisfied : levelSatisfies level grantLevelWrite = true) : level = grantLevelWrite := by
  unfold levelSatisfies at satisfied
  by_cases write : level = grantLevelWrite
  · exact write
  have rank : ∀ held, calendarLevelRank level = some held → held ≤ 2 := by
    intro held ranked
    unfold calendarLevelRank at ranked
    split_ifs at ranked
    all_goals
      cases ranked
      decide
  have top : calendarLevelRank grantLevelWrite = some 3 := by decide
  rw [top] at satisfied
  cases held : calendarLevelRank level with
  | none => simp [held] at satisfied
  | some value =>
    have low := rank value held
    simp only [held, decide_eq_true_eq] at satisfied
    omega

theorem granted_of_access {owner calendar user level need : Bytes}
    (access : calendarAccessLevel store owner calendar user = some level)
    (satisfied : levelSatisfies level need = true) : Granted store owner calendar user need := by
  -- The empty level satisfies nothing.
  have denied : some [] ≠ some level := by
    rintro ⟨⟩
    simp [levelSatisfies, show calendarLevelRank [] = none by decide] at satisfied
  unfold calendarAccessLevel at access
  split at access
  · exact absurd access denied
  split at access
  · exact absurd access denied
  · exact absurd access denied
  · rename_i grant found
    split at access
    · exact absurd access denied
    rename_i accepted
    split at access
    · exact absurd access denied
    · cases access
      simp only [not_or, not_not] at accepted
      exact ⟨grant, found, accepted.1, satisfied⟩
  · cases access

theorem Subscribed.read {owner calendar : Bytes} (subscribed : Subscribed store owner calendar) :
    calendarIsSubscribed store owner calendar = some true := by
  obtain ⟨present, record, found, feed⟩ := subscribed
  rw [calendarIsSubscribed, if_neg present, found]
  exact congrArg some feed

theorem not_subscribed {owner calendar : Bytes}
    (read : calendarIsSubscribed store owner calendar = some false) :
    ¬ Subscribed store owner calendar := by
  intro subscribed
  rw [subscribed.read] at read
  cases read

section Resolving

variable {backend : Backend} {user : Bytes} {target : Target}

structure Reached (store : Store) (backend : Backend) (user : Bytes) (target : Target) :
    Prop where
  valid : target.path.Valid
  home : target.path.user = user
  own : target.shared = false → target.keyOwner = user
  foreign : target.shared = true → backend.grants = true ∧ target.path.owner ≠ user ∧
    target.keyOwner = target.path.owner
  level : target.shared = true → ∃ level,
    calendarAccessLevel store target.path.owner target.calendar user = some level ∧
      levelSatisfies level grantLevelRead = true ∧
        (target.canWrite = true → level = grantLevelWrite)
  editable : target.canWrite = true →
    calendarIsSubscribed store target.keyOwner target.calendar = some false

theorem access_ok {path : DavPath} (granted : access store backend user path = .ok target) :
    target.path = path ∧ (path.shared = false → target.keyOwner = user) ∧
      (path.shared = true → backend.grants = true ∧ path.owner ≠ user ∧
        target.keyOwner = path.owner ∧
        calendarAccessLevel store path.owner path.calendar user = some target.level ∧
        levelSatisfies target.level grantLevelRead = true) := by
  unfold access at granted
  split at granted
  · rename_i shared
    split at granted
    · cases granted
    rename_i served
    simp only [Bool.or_eq_true, Bool.not_eq_true', decide_eq_true_eq, not_or,
      Bool.not_eq_false] at served
    split at granted
    · cases granted
    rename_i level read
    split at granted
    · rename_i enough
      cases granted
      exact ⟨rfl, by simp [shared], fun _ => ⟨served.1, served.2, rfl, read, enough⟩⟩
    · cases granted
  · rename_i own
    cases granted
    exact ⟨rfl, fun _ => rfl, fun shared => absurd shared own⟩

theorem readOnlyIfSubscribed_ok {before : Target}
    (done : readOnlyIfSubscribed store before = .ok target) :
    target.path = before.path ∧ target.keyOwner = before.keyOwner ∧
      (target.canWrite = true → target.level = before.level ∧
        calendarIsSubscribed store target.keyOwner target.calendar = some false) := by
  unfold readOnlyIfSubscribed at done
  split at done
  · cases done
  · cases done
    refine ⟨rfl, rfl, fun writes => ?_⟩
    exact absurd writes (by simp [Target.canWrite, show levelSatisfies grantLevelRead
      grantLevelWrite = false by decide])
  · rename_i read
    cases done
    exact ⟨rfl, rfl, fun _ => ⟨rfl, read⟩⟩

theorem resolve_reached {path : Bytes} {want : PathKind}
    (wanted : want = .collection ∨ want = .object)
    (resolved : resolve store backend user path want = .ok target) :
    Reached store backend user target ∧ target.path.kind = want := by
  unfold resolve at resolved
  split at resolved
  · cases resolved
  split at resolved
  · cases resolved
  rename_i parsed found
  split at resolved
  · cases resolved
  rename_i kind
  split at resolved
  · cases resolved
  rename_i home
  split at resolved
  · cases resolved
  rename_i before granted
  simp only [not_not] at kind
  have valid : parsed.Valid := by
    rcases parseDAVPath_valid found with root | valid
    · rw [kind] at root
      rcases wanted with rfl | rfl
      · cases root
      · cases root
    · exact valid
  have same : parsed.user = user := by
    by_contra other
    exact home ⟨valid.named.ne_nil, other⟩
  obtain ⟨rfl, own, foreign⟩ := access_ok granted
  obtain ⟨kept, owner, writes⟩ := readOnlyIfSubscribed_ok resolved
  have shared : target.shared = before.path.shared := by rw [Target.shared, kept]
  have calendar : target.calendar = before.path.calendar := by
    rw [Target.calendar, kept]
  refine ⟨⟨kept ▸ valid, kept ▸ same, ?_, ?_, ?_, fun write => (writes write).2⟩, kept ▸ kind⟩
  · intro mine
    rw [owner, own (shared ▸ mine)]
  · intro theirs
    obtain ⟨grants, other, keys, -, -⟩ := foreign (shared ▸ theirs)
    exact ⟨grants, kept ▸ other, by rw [owner, keys, kept]⟩
  intro theirs
  obtain ⟨-, -, -, read, enough⟩ := foreign (shared ▸ theirs)
  refine ⟨before.level, by rw [kept, calendar, read], enough, fun write => ?_⟩
  rw [← (writes write).1]
  exact write_of_levelSatisfies write

theorem Reached.reads (reached : Reached store backend user target)
    (shared : target.shared = true) :
    Granted store target.keyOwner target.calendar user grantLevelRead := by
  obtain ⟨level, access, enough, -⟩ := reached.level shared
  rw [(reached.foreign shared).2.2]
  exact granted_of_access access enough

theorem Reached.writes (reached : Reached store backend user target)
    (shared : target.shared = true) (write : target.canWrite = true) :
    Granted store target.keyOwner target.calendar user grantLevelWrite := by
  obtain ⟨level, access, -, top⟩ := reached.level shared
  rw [(reached.foreign shared).2.2]
  refine granted_of_access access ?_
  rw [top write]
  decide

end Resolving

section Reading

variable {backend : Backend} {user path : Bytes} {target : Target} {object : Object}
  {effect : Effect}

theorem getTask_ok (found : getTask store target = .ok (some object))
    (shared : target.shared = true) : object.calendar = target.calendar := by
  unfold getTask at found
  repeat' split at found
  all_goals cases found
  rename_i inside
  simpa [shared, Object.calendar] using inside

theorem findEvent_ok (found : findEvent store target = .ok object)
    (shared : target.shared = true) : object.calendar = target.calendar := by
  unfold findEvent at found
  repeat' split at found
  all_goals cases found
  rename_i inside
  simpa [shared, Object.calendar] using inside

theorem findObject_ok (found : findObject store backend target = .ok object)
    (shared : target.shared = true) : object.calendar = target.calendar := by
  unfold findObject at found
  simp only at found
  split at found
  · split at found
    · cases found
    · rename_i task
      cases found
      exact getTask_ok task shared
    · split at found
      · exact findEvent_ok found shared
      · cases found
  · exact findEvent_ok found shared

theorem listTasks_calendar (listed : object ∈ listTasks store target) :
    object.calendar = target.calendar := by
  obtain ⟨task, -, kept⟩ := List.mem_filterMap.mp listed
  obtain ⟨same, ⟨⟩⟩ := Option.ite_none_right_eq_some.mp kept
  exact same

theorem listEvents_calendar (listed : object ∈ listEvents store target) :
    object.calendar = target.calendar := by
  obtain ⟨event, -, kept⟩ := List.mem_filterMap.mp listed
  obtain ⟨same, ⟨⟩⟩ := Option.ite_none_right_eq_some.mp kept
  exact same

theorem Reached.returned (reached : Reached store backend user target)
    (inside : target.shared = true → object.calendar = target.calendar) :
    Confined store user (.returned target.keyOwner object) := by
  cases shared : target.shared with
  | false => exact .inl (reached.own shared)
  | true =>
    refine .inr ?_
    rw [inside shared]
    exact reached.reads shared

theorem get_confined
    (served : effect ∈ (getCalendarObject store backend user path).1) :
    Confined store user effect ∧ Spares store effect := by
  unfold getCalendarObject at served
  split at served
  · cases served
  rename_i target resolved
  obtain ⟨reached, -⟩ := resolve_reached (.inr rfl) resolved
  split at served
  · cases served
  rename_i object found
  split at served
  · cases List.mem_singleton.mp served
    exact ⟨reached.returned (findObject_ok found), trivial⟩
  · cases served

theorem list_confined
    (served : effect ∈ (listCalendarObjects store backend user path).1) :
    Confined store user effect ∧ Spares store effect := by
  unfold listCalendarObjects at served
  split at served
  · cases served
  rename_i target resolved
  obtain ⟨reached, -⟩ := resolve_reached (.inl rfl) resolved
  obtain ⟨object, listed, rfl⟩ := List.mem_map.mp served
  refine ⟨reached.returned fun _ => ?_, trivial⟩
  rcases List.mem_append.mp (List.mem_filter.mp listed).1 with task | event
  · exact listTasks_calendar (List.mem_ite_nil_right.mp task).2
  · exact listEvents_calendar (List.mem_ite_nil_right.mp event).2

end Reading

section Changes

variable {backend : Backend} {user path : Bytes} {target : Target} {place : Place}
  {object : Object} {request : Put} {effect : Effect}

theorem putChecks_ok {existing : Option Object}
    (passed : putChecks store target request existing = .ok ()) :
    (target.shared = true → ∀ old, existing = some old → old.calendar = target.calendar) ∧
      ∀ old, existing = some old →
        calendarIsSubscribed store target.keyOwner old.calendar = some false := by
  unfold putChecks at passed
  split at passed
  · cases passed
  rename_i inside
  split at passed
  · cases passed
  · cases passed
  rename_i read
  constructor
  · rintro shared old rfl
    simpa [shared] using inside
  · rintro old rfl
    exact read

/-- What storing at the target relies on: the object that stands there is covered, and
only an event PUT goes on without being able to read it. -/
structure Stores (store : Store) (backend : Backend) (target : Target) (place : Place)
    (object : Object) : Prop where
  owner : place.owner = target.keyOwner
  guid : place.guid = target.guid
  calendar : target.calendar ≠ [] → object.calendar = target.calendar
  inside : target.shared = true → ∀ old, stored store place = some (some old) →
    old.calendar = target.calendar
  editable : ∀ old, stored store place = some (some old) →
    calendarIsSubscribed store target.keyOwner old.calendar = some false
  unread : stored store place = none → getEvent store target.keyOwner target.guid = none ∧
    calendarAllows (calendarOf store target) componentEvent = true ∧
      guidIsTask store backend target.keyOwner target.guid = some false

theorem putTodo_stores
    (served : effect ∈ (putTodo store backend target request).1) :
    ∃ place object, effect = .put place object ∧ Stores store backend target place object := by
  unfold putTodo at served
  split at served
  · cases served
  · cases served
  split at served
  · cases served
  rename_i existing read
  split at served
  · cases served
  rename_i passed
  cases List.mem_singleton.mp served
  obtain ⟨inside, editable⟩ := putChecks_ok passed
  have found : stored store ⟨target.keyOwner, .task, target.guid⟩ =
      some (existing.map .task) := by simp [stored, read]
  refine ⟨_, _, rfl, rfl, rfl, fun _ => rfl, ?_, ?_, ?_⟩ <;> rw [found]
  · exact fun shared old present => inside shared old (Option.some.inj present)
  · exact fun old present => editable old (Option.some.inj present)
  · nofun

theorem putEvent_stores
    (takes : calendarAllows (calendarOf store target) componentEvent = true)
    (served : effect ∈ (putEvent store backend target request).1) :
    ∃ place object, effect = .put place object ∧ Stores store backend target place object := by
  unfold putEvent at served
  split at served
  · cases served
  · cases served
  rename_i free
  simp only at served
  split at served
  · cases served
  rename_i passed
  obtain ⟨inside, editable⟩ := putChecks_ok passed
  have stores : ∀ content, Stores store backend target ⟨target.keyOwner, .event, target.guid⟩
      (.event ⟨target.calendar, content⟩) := by
    intro content
    cases read : getEvent store target.keyOwner target.guid with
    | none =>
      refine ⟨rfl, rfl, fun present => by simp [Object.calendar, eventCalendar, present],
        ?_, ?_, fun _ => ⟨read, takes, free⟩⟩ <;> simp [stored, read]
    | some event =>
      rw [read] at inside editable
      refine ⟨rfl, rfl, fun present => by simp [Object.calendar, eventCalendar, present],
        ?_, ?_, ?_⟩ <;> simp only [stored, read, Option.map_some]
      · exact fun shared old present => inside shared old (Option.some.inj present)
      · exact fun old present => editable old (Option.some.inj present)
      · nofun
  split at served
  · rename_i content
    split at served
    · exact ⟨_, _, List.mem_singleton.mp served, stores _⟩
    · rcases List.mem_cons.mp served with rfl | second
      · exact ⟨_, _, rfl, stores _⟩
      · exact ⟨_, _, List.mem_singleton.mp second, stores _⟩
  · exact ⟨_, _, List.mem_singleton.mp served, stores _⟩

theorem putComponent_stores
    (served : effect ∈ (putComponent store backend target request).1) :
    ∃ place object, effect = .put place object ∧ Stores store backend target place object := by
  unfold putComponent at served
  split at served
  · simp only at served
    split at served
    · split at served
      · cases served
      rename_i takes
      split at served
      · cases served
      · exact putEvent_stores (by simpa using takes) served
    · split at served
      · split at served
        · cases served
        · split at served
          · cases served
          · exact putTodo_stores served
      · cases served
  · cases served

/-- In a shared collection, what is stored stays in the calendar of the grant. -/
theorem Stores.confined
    (stores : Stores store backend target place object)
    (reached : Reached store backend user target) (kind : target.path.kind = .object)
    (shared : target.shared = true) (write : target.canWrite = true)
    (legible : Legible store backend user) : Confined store user (.put place object) := by
  obtain ⟨valid, plain, present⟩ := reached.valid.shares shared
  obtain ⟨grants, other, keys⟩ := reached.foreign shared
  have calendar := stores.calendar present
  refine .inr ⟨?_, ?_⟩
  · rw [calendar, stores.owner]
    exact reached.writes shared write
  cases read : stored store place with
  | none =>
    -- An event that cannot be read: the condition on the store excludes it.
    obtain ⟨unread, takes, free⟩ := stores.unread read
    obtain ⟨level, access, -, top⟩ := reached.level shared
    refine absurd unread (legible target.keyOwner target.calendar target.guid ?_)
    exact {
      grants := grants
      home := reached.home ▸ reached.valid.named
      foreign := keys ▸ other
      valid := keys ▸ valid
      segment := ⟨plain, present⟩
      name := reached.valid.object kind
      writes := by rw [keys, access, top write]
      editable := reached.editable write
      takes := takes
      free := free }
  | some before =>
    refine ⟨before, rfl, ?_⟩
    rintro old rfl
    rw [calendar]
    exact stores.inside shared old read

theorem Stores.spares
    (stores : Stores store backend target place object) : Spares store (.put place object) := by
  intro old present
  rw [stores.owner]
  exact not_subscribed (stores.editable old present)

/-! The calendars that are created replace none that can be read. -/

theorem mem_listCalendars {userID guid : Bytes} {record : CalendarRecord}
    (found : get store (calendarKey userID guid) = some (.calendar record)) :
    (guid, record) ∈ listCalendars store userID := by
  refine List.mem_filterMap.mpr ⟨(calendarKey userID guid, .calendar record), ?_, ?_⟩
  · exact (mem_prefixScan store _ _ _).mpr ⟨List.prefix_append _ guid, found⟩
  · simp [calendarKey]

theorem ensureDefault_new {userID : Bytes} {entry : Bytes × CalendarRecord}
    {record : CalendarRecord} (fresh : get store (calendarKey userID request.fresh) = none)
    (created : entry ∈ (ensureDefault store userID request).1) :
    get store (calendarKey userID entry.1) ≠ some (.calendar record) := by
  intro found
  have listed := mem_listCalendars found
  -- A calendar is created under a name that the listing does not have.
  have unlisted : ∀ name, (listCalendars store userID).any (fun other => other.1 = name) = false →
      entry.1 ≠ name := by
    rintro name absent rfl
    simp only [List.any_eq_false, decide_eq_true_eq] at absent
    exact absent _ listed rfl
  have tasks : entry ∈ (if (!(listCalendars store userID).any (holdsFor componentTodo) &&
      !(listCalendars store userID).any fun other => other.1 = tasksCalendarGUID) &&
        request.tasksWritten then [(tasksCalendarGUID, (⟨[componentTodo], []⟩ : CalendarRecord))]
      else []) → False := by
    intro member
    split at member
    · rename_i missing
      cases List.mem_singleton.mp member
      simp only [Bool.and_eq_true, Bool.not_eq_true'] at missing
      exact unlisted tasksCalendarGUID missing.1.2 rfl
    · cases member
  unfold ensureDefault at created
  simp only at created
  split at created
  · cases created
  split at created
  · exact tasks created
  split at created
  · exact tasks created
  rcases List.mem_append.mp created with early | last
  · exact tasks early
  cases List.mem_singleton.mp last
  split at found
  · rw [fresh] at found
    cases found
  rename_i absent
  have free := unlisted defaultGUID (Bool.eq_false_iff.mpr absent)
  split at free
  · contradiction
  · exact free rfl

theorem get_withCalendars {userID key : Bytes} {created : List (Bytes × CalendarRecord)}
    (apart : ∀ entry ∈ created, calendarKey userID entry.1 ≠ key) :
    get (withCalendars store userID created) key = get store key := by
  induction created with
  | nil => rfl
  | cons entry rest ih =>
    rw [withCalendars, get_set, if_neg (apart entry (by simp))]
    exact ih fun other member => apart other (List.mem_cons_of_mem entry member)

theorem stored_withCalendars (created : List (Bytes × CalendarRecord)) :
    stored (withCalendars store place.owner created) place = stored store place := by
  have event : get (withCalendars store place.owner created) (eventKey place.owner place.guid) =
      get store (eventKey place.owner place.guid) := by
    refine get_withCalendars fun entry _ same => ?_
    simp [calendarKey, calendarPrefix, eventKey, eventPrefix, ascii] at same
  have task : get (withCalendars store place.owner created) (taskKey place.owner place.guid) =
      get store (taskKey place.owner place.guid) := by
    refine get_withCalendars fun entry _ same => ?_
    simp [calendarKey, calendarPrefix, taskKey, taskPrefix, ascii] at same
  simp [stored, getEvent, getTaskRecord, event, task]

theorem Subscribed.kept {owner calendar : Bytes}
    (fresh : get store (calendarKey owner request.fresh) = none)
    (subscribed : Subscribed store owner calendar) :
    Subscribed (withCalendars store owner (ensureDefault store owner request).1) owner
      calendar := by
  obtain ⟨present, record, found, feed⟩ := subscribed
  refine ⟨present, record, ?_, feed⟩
  rw [get_withCalendars, found]
  intro entry created same
  exact ensureDefault_new fresh created (same ▸ found)

theorem putOwn_confined (own : target.keyOwner = user)
    (fresh : get store (calendarKey user request.fresh) = none)
    (served : effect ∈ (putOwn store backend target request).1) :
    Confined store user effect ∧ Spares store effect := by
  have created : effect ∈ (ensureDefault store target.keyOwner request).1.map (fun entry =>
      Effect.calendar target.keyOwner entry.1) →
        Confined store user effect ∧ Spares store effect := by
    intro member
    obtain ⟨entry, -, rfl⟩ := List.mem_map.mp member
    exact ⟨own, trivial⟩
  unfold putOwn at served
  simp only at served
  split at served
  · exact created served
  split at served
  · exact created served
  rcases List.mem_append.mp served with early | late
  · exact created early
  -- The checks ran on the store with the new calendars in it.
  obtain ⟨place, object, rfl, stores⟩ := putComponent_stores late
  have owner : place.owner = user := stores.owner.trans own
  refine ⟨.inl owner, ?_⟩
  intro old present subscribed
  have spares := stores.spares old
  rw [own, ← owner, stored_withCalendars] at spares
  exact spares present (subscribed.kept (owner ▸ fresh))

theorem put_confined
    (legible : Legible store backend user)
    (fresh : get store (calendarKey user request.fresh) = none)
    (served : effect ∈ (putCalendarObject store backend user path request).1) :
    Confined store user effect ∧ Spares store effect := by
  unfold putCalendarObject at served
  split at served
  · cases served
  split at served
  · cases served
  rename_i target resolved
  obtain ⟨reached, kind⟩ := resolve_reached (.inr rfl) resolved
  split at served
  · cases served
  rename_i write
  split at served
  · rename_i shared
    obtain ⟨place, object, rfl, stores⟩ := putComponent_stores served
    exact ⟨stores.confined reached kind shared (by simpa using write) legible, stores.spares⟩
  · rename_i own
    exact putOwn_confined (reached.own (by simpa using own)) fresh served

/-- A removed object was read first, in the calendar of the target when that is shared. -/
structure Removes (store : Store) (target : Target) (place : Place) : Prop where
  owner : place.owner = target.keyOwner
  found : ∃ object, stored store place = some (some object) ∧
    (target.shared = true → object.calendar = target.calendar) ∧
      calendarIsSubscribed store target.keyOwner object.calendar = some false

theorem deleteTask_removes {served : Served}
    (handled : deleteTask store target = some served) (member : effect ∈ served.1) :
    ∃ place, effect = .removed place ∧ Removes store target place := by
  unfold deleteTask at handled
  split at handled
  · cases handled
    cases member
  · cases handled
  rename_i task read
  split at handled
  · cases handled
  rename_i inside
  split at handled
  · cases handled
    cases member
  · cases handled
    cases member
  rename_i editable
  cases handled
  cases List.mem_singleton.mp member
  refine ⟨_, rfl, rfl, .task task, by simp [stored, read], fun shared => ?_, editable⟩
  simpa [shared, Object.calendar] using inside

theorem deleteEvent_removes (member : effect ∈ (deleteEvent store target).1) :
    ∃ place, effect = .removed place ∧ Removes store target place := by
  unfold deleteEvent at member
  split at member
  · cases member
  · cases member
  rename_i event read
  split at member
  · cases member
  rename_i inside
  split at member
  · cases member
  · cases member
  rename_i editable
  cases List.mem_singleton.mp member
  refine ⟨_, rfl, rfl, .event event, by simp [stored, read], fun shared => ?_, editable⟩
  simpa [shared, Object.calendar] using inside

theorem Removes.confined (removes : Removes store target place)
    (reached : Reached store backend user target) (write : target.canWrite = true) :
    Confined store user (.removed place) ∧ Spares store (.removed place) := by
  obtain ⟨object, found, inside, editable⟩ := removes.found
  constructor
  · cases shared : target.shared with
    | false => exact .inl (removes.owner.trans (reached.own shared))
    | true =>
      refine .inr ⟨object, found, ?_⟩
      rw [inside shared, removes.owner]
      exact reached.writes shared write
  · intro old present
    rw [found] at present
    cases present
    rw [removes.owner]
    exact not_subscribed editable

theorem delete_confined
    (served : effect ∈ (deleteCalendarObject store backend user path).1) :
    Confined store user effect ∧ Spares store effect := by
  unfold deleteCalendarObject at served
  split at served
  · cases served
  rename_i target resolved
  obtain ⟨reached, -⟩ := resolve_reached (.inr rfl) resolved
  split at served
  · cases served
  rename_i write
  have confined : (∃ place, effect = .removed place ∧ Removes store target place) →
      Confined store user effect ∧ Spares store effect := by
    rintro ⟨place, rfl, removes⟩
    exact removes.confined reached (by simpa using write)
  simp only at served
  split at served
  · split at served
    · rename_i answered handled
      exact confined (deleteTask_removes handled served)
    · split at served
      · exact confined (deleteEvent_removes served)
      · cases served
  · exact confined (deleteEvent_removes served)

end Changes

/-! The condition is necessary: an event that cannot be read is replaced. -/
section Replacing

variable {backend : Backend} {user owner calendar guid : Bytes}

theorem exists_fresh (store : Store) (user : Bytes) :
    ∃ name, get store (calendarKey user name) = none := by
  classical
  -- The keys in use are finitely many, the names are not.
  obtain ⟨name, unused⟩ := Infinite.exists_notMem_finset
    ((scanKeys store (calendarPrefix user)).map (List.drop (calendarPrefix user).length)).toFinset
  refine ⟨name, ?_⟩
  by_contra used
  obtain ⟨value, found⟩ := Option.ne_none_iff_exists'.mp used
  refine unused (List.mem_toFinset.mpr (List.mem_map.mpr ⟨calendarKey user name, ?_, ?_⟩))
  · exact (mem_scanKeys store _ _).mpr ⟨List.prefix_append _ name, value, found⟩
  · simp [calendarKey]

def plainPut (fresh : Bytes) : Put where
  children := [componentEvent]
  content := []
  encodes := true
  refusal _ := none
  rewritten := none
  storageLow := false
  tasksWritten := true
  defaultWritten := true
  fresh := fresh

def exposedTarget (user owner calendar guid : Bytes) : Target where
  path := { kind := .object, user := user, calSeg := sharedSegment owner calendar, guid := guid
            owner := owner, calendar := calendar }
  user := user
  keyOwner := owner
  level := grantLevelWrite

variable (exposed : Exposed store backend user owner calendar guid)
include exposed

theorem Exposed.shared :
    (exposedTarget user owner calendar guid).shared = true := by
  refine decide_eq_true fun blank => ?_
  have width := uuid_length exposed.valid
  rw [show owner = [] from blank] at width
  cases width

theorem Exposed.resolves :
    resolve store backend user (objectPath user (sharedSegment owner calendar) guid) .object =
      .ok (exposedTarget user owner calendar guid) := by
  have parsed : parseDAVPath (objectPath user (sharedSegment owner calendar) guid) =
      some (exposedTarget user owner calendar guid).path := by
    rw [parse_objectPath exposed.home (pathName_shared exposed.valid exposed.segment.1)
      exposed.name.1 exposed.name.2,
      collection_shared exposed.valid exposed.segment.1 exposed.segment.2]
    rfl
  have kind : (exposedTarget user owner calendar guid).path.kind = .object := rfl
  have home : (exposedTarget user owner calendar guid).path.user = user := rfl
  have shared : (exposedTarget user owner calendar guid).path.shared = true := exposed.shared
  have reads : levelSatisfies grantLevelWrite grantLevelRead = true := by decide
  have granted : access store backend user (exposedTarget user owner calendar guid).path =
      .ok (exposedTarget user owner calendar guid) := by
    rw [access, if_pos shared]
    simp [exposedTarget, exposed.grants, exposed.foreign, exposed.writes, reads]
  have editable : readOnlyIfSubscribed store (exposedTarget user owner calendar guid) =
      .ok (exposedTarget user owner calendar guid) := by
    simp [readOnlyIfSubscribed, exposedTarget, Target.calendar, exposed.editable]
  rw [resolve, if_neg exposed.home.ne_nil, parsed]
  simp [kind, home, granted, editable]

theorem Exposed.replaces (unread : getEvent store owner guid = none) (fresh : Bytes) :
    .put ⟨owner, .event, guid⟩ (.event ⟨calendar, []⟩) ∈
      (serve store backend user (.put (objectPath user (sharedSegment owner calendar) guid)
        (plainPut fresh))).1 := by
  have shared := exposed.shared
  have writes : (exposedTarget user owner calendar guid).canWrite = true := by
    simp [Target.canWrite, exposedTarget, show levelSatisfies grantLevelWrite grantLevelWrite = true
      by decide]
  have kinds : putComponents [componentEvent] = [componentEvent] := by decide
  have takes : calendarAllows (calendarOf store (exposedTarget user owner calendar guid))
      componentEvent = true := exposed.takes
  have free : guidIsTask store backend (exposedTarget user owner calendar guid).keyOwner
      (exposedTarget user owner calendar guid).guid = some false := exposed.free
  have absent : getEvent store (exposedTarget user owner calendar guid).keyOwner
      (exposedTarget user owner calendar guid).guid = none := unread
  simp only [serve, putCalendarObject, exposed.resolves, shared, putComponent, takes, putEvent,
    free, absent, putChecks]
  exact List.mem_singleton.mpr rfl

end Replacing

/-- A request is confined and spares subscriptions in exactly the stores in which every
event that a write grant of the user exposes can be read. -/
theorem serve_confined (store : Store) (backend : Backend) (user : Bytes) :
    (∀ request : Request, request.Fresh store user →
      ∀ effect ∈ (serve store backend user request).1,
        Confined store user effect ∧ Spares store effect) ↔
      Legible store backend user := by
  constructor
  · intro confined owner calendar guid exposed unread
    obtain ⟨fresh, unused⟩ := exists_fresh store user
    obtain ⟨own | ⟨-, before, read, -⟩, -⟩ :=
      confined (.put (objectPath user (sharedSegment owner calendar) guid) (plainPut fresh))
        unused _ (exposed.replaces unread fresh)
    · exact exposed.foreign own
    · simp [stored, unread] at read
  · intro legible request fresh effect served
    cases request with
    | get path => exact get_confined served
    | list path => exact list_confined served
    | put path request => exact put_confined legible fresh served
    | delete path => exact delete_confined served

/-! A write grant on one calendar, and an event of the owner that cannot be read. -/

def sampleOwner : Bytes := ascii "6f1c2b3a-0000-4000-8000-000000000001"

def sampleUser : Bytes := ascii "6f1c2b3a-0000-4000-8000-000000000002"

def sampleStore : Store :=
  set (set (set ∅ (calendarKey sampleOwner (ascii "work")) (.calendar ⟨[], []⟩))
    (grantKey sampleOwner (ascii "work") sampleUser)
      (.grant ⟨grantLevelWrite, grantStateAccepted⟩))
    (eventKey sampleOwner (ascii "e1")) .corrupt

def sampleBackend : Backend := ⟨true, true, fun _ => true⟩

def sampleRequest : Request :=
  .put (objectPath sampleUser (sharedSegment sampleOwner (ascii "work")) (ascii "e1"))
    (plainPut (ascii "new"))

/-- The event is replaced by one in the shared calendar. -/
theorem unread_event_replaced :
    sampleRequest.Fresh sampleStore sampleUser ∧
      ∃ effect ∈ (serve sampleStore sampleBackend sampleUser sampleRequest).1,
        ¬ Confined sampleStore sampleUser effect := by
  refine ⟨show get sampleStore (calendarKey sampleUser (ascii "new")) = none by decide,
    .put ⟨sampleOwner, .event, ascii "e1"⟩ (.event ⟨ascii "work", []⟩), by decide, ?_⟩
  rintro (own | ⟨-, before, read, -⟩)
  · exact absurd own (by decide)
  · have unread : stored sampleStore ⟨sampleOwner, .event, ascii "e1"⟩ = none := by decide
    rw [unread] at read
    cases read

end Bongo.CalDav
