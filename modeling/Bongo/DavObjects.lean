import Bongo.DavPaths

/-!
The calendar server over one store: reading, listing, storing and deleting calendar
objects. A request is resolved to the key space of one user and, for a shared collection,
to one calendar of that user; events and tasks are addressed by guid whatever
collection the path names.

Stored values stand for what their bytes decode to; a calendar record carries the guid
of its key, as every writer sets it. What can refuse a PUT besides access and
subscriptions (conditions, scheduling, quota) is an answer of the environment, which may
depend on the object read, and so is whether an object can be encoded.
-/

namespace Bongo.CalDav

open ByteKeys KeyValue Acl

structure EventRecord where
  calendarId : Bytes
  content : Bytes
  deriving DecidableEq

structure TaskRecord where
  calendarId : Bytes
  content : Bytes
  deriving DecidableEq

structure CalendarRecord where
  components : List Bytes
  sourceUrl : Bytes
  deriving DecidableEq

structure GrantRecord where
  level : Bytes
  state : Bytes
  deriving DecidableEq

/-- `corrupt` is what does not decode as the record its key asks for. -/
inductive Value where
  | empty
  | corrupt
  | event (record : EventRecord)
  | task (record : TaskRecord)
  | calendar (record : CalendarRecord)
  | grant (record : GrantRecord)
  deriving DecidableEq

abbrev Store := KeyValue.Store Value

/-! Keys and reads. In a read, the outer `none` is a failure and the inner one an absence. -/

def eventPrefix (userID : Bytes) : Bytes := ascii "/user/" ++ (userID ++ ascii "/event/")

def taskPrefix (userID : Bytes) : Bytes := ascii "/user/" ++ (userID ++ ascii "/task/")

def calendarPrefix (userID : Bytes) : Bytes := ascii "/user/" ++ (userID ++ ascii "/calendar/")

def eventKey (userID guid : Bytes) : Bytes := eventPrefix userID ++ guid

def taskKey (userID guid : Bytes) : Bytes := taskPrefix userID ++ guid

def calendarKey (userID guid : Bytes) : Bytes := calendarPrefix userID ++ guid

def grantKey (owner calendar grantee : Bytes) : Bytes :=
  aclKey aclKindCalendar owner calendar grantee

variable (store : Store)

def getEvent (userID guid : Bytes) : Option (Option EventRecord) :=
  match get store (eventKey userID guid) with
  | none | some .empty => some none
  | some (.event record) => some (some record)
  | some _ => none

def getTaskRecord (userID guid : Bytes) : Option (Option TaskRecord) :=
  match get store (taskKey userID guid) with
  | none | some .empty => some none
  | some (.task record) => some (some record)
  | some _ => none

/-- A record that cannot be read is no calendar. -/
def getCalendar (userID guid : Bytes) : Option CalendarRecord :=
  match get store (calendarKey userID guid) with
  | some (.calendar record) => some record
  | _ => none

def calendarExists (userID guid : Bytes) : Bool :=
  match get store (calendarKey userID guid) with
  | none | some .empty => false
  | some _ => true

def calendarIsSubscribed (userID calID : Bytes) : Option Bool :=
  if calID = [] then some false
  else match get store (calendarKey userID calID) with
    | none | some .empty => some false
    | some (.calendar record) => some (record.sourceUrl ≠ [])
    | some _ => none

def componentEvent : Bytes := ascii "VEVENT"

def componentTodo : Bytes := ascii "VTODO"

def componentTimezone : Bytes := ascii "VTIMEZONE"

def calendarComponents : Option CalendarRecord → List Bytes
  | none => [componentEvent]
  | some record => if record.components = [] then [componentEvent] else record.components

def calendarAllows (calendar : Option CalendarRecord) (component : Bytes) : Bool :=
  (calendarComponents calendar).contains component

def eventCalendar (event : EventRecord) : Bytes :=
  if event.calendarId = [] then ascii "default" else event.calendarId

/-! Grants. -/

def calendarLevelRank (level : Bytes) : Option Nat :=
  if level = grantLevelFreeBusy then some 1
  else if level = grantLevelRead then some 2
  else if level = grantLevelWrite then some 3
  else none

def levelSatisfies (level need : Bytes) : Bool :=
  match calendarLevelRank level, calendarLevelRank need with
  | some held, some want => want ≤ held
  | _, _ => false

def calendarAccessLevel (owner calendar grantee : Bytes) : Option Bytes :=
  if owner = [] ∨ calendar = [] ∨ grantee = [] then some []
  else match get store (grantKey owner calendar grantee) with
    | none | some .empty => some []
    | some (.grant grant) =>
      if grant.state ≠ grantStateAccepted ∨ calendarLevelRank grant.level = none then some []
      else if (get store (calendarKey owner calendar)).isNone then some [] else some grant.level
    | some _ => none

/-! Resolving a path. -/

inductive Failure where
  | status (code : Nat) (message : Bytes)
  | precondition (name : Bytes)
  | internal
  deriving DecidableEq

def httpErr (code : Nat) (message : String) : Failure := .status code (ascii message)

def notFound : Failure := httpErr 404 "not found"

def forbidden : Failure := httpErr 403 "forbidden"

def sharedReadOnly : Failure := httpErr 403 "this calendar is shared read-only"

def readOnlySubscription : Failure := httpErr 403 "this calendar is a read-only subscription"

inductive Object where
  | event (record : EventRecord)
  | task (record : TaskRecord)
  deriving DecidableEq

def Object.calendar : Object → Bytes
  | .event record => eventCalendar record
  | .task record => record.calendarId

structure Backend where
  grants : Bool
  tasks : Bool
  encodes : Object → Bool

structure Target where
  path : DavPath
  user : Bytes
  keyOwner : Bytes
  level : Bytes

def Target.shared (target : Target) : Bool := target.path.shared

def Target.calendar (target : Target) : Bytes := target.path.calendar

def Target.guid (target : Target) : Bytes := target.path.guid

def Target.canWrite (target : Target) : Bool := levelSatisfies target.level grantLevelWrite

variable (backend : Backend)

def access (user : Bytes) (path : DavPath) : Except Failure Target :=
  if path.shared then
    if !backend.grants || path.owner = user then .error notFound
    else match calendarAccessLevel store path.owner path.calendar user with
      | none => .error .internal
      | some level =>
        if levelSatisfies level grantLevelRead then .ok ⟨path, user, path.owner, level⟩
        else .error notFound
  else .ok ⟨path, user, user, grantLevelWrite⟩

/-- A subscription is read-only for everyone. -/
def readOnlyIfSubscribed (target : Target) : Except Failure Target :=
  match calendarIsSubscribed store target.keyOwner target.calendar with
  | none => .error .internal
  | some true => .ok { target with level := grantLevelRead }
  | some false => .ok target

def resolve (user path : Bytes) (want : PathKind) : Except Failure Target :=
  if user = [] then .error .internal
  else match parseDAVPath path with
    | none => .error notFound
    | some parsed =>
      if parsed.kind ≠ want then .error notFound
      else if parsed.user ≠ [] ∧ parsed.user ≠ user then .error forbidden
      else match access store backend user parsed with
        | .error failure => .error failure
        | .ok target =>
          if want = .collection ∨ want = .object then readOnlyIfSubscribed store target
          else .ok target

/-! What a request does. -/

inductive Kind where
  | event
  | task
  deriving DecidableEq

structure Place where
  owner : Bytes
  kind : Kind
  guid : Bytes
  deriving DecidableEq

/-- An object of a user's key space returned, stored or removed; a calendar created. -/
inductive Effect where
  | returned (owner : Bytes) (object : Object)
  | put (place : Place) (object : Object)
  | removed (place : Place)
  | calendar (owner guid : Bytes)
  deriving DecidableEq

abbrev Served := List Effect × Except Failure Unit

def refuse (failure : Failure) : Served := ([], .error failure)

def calendarOf (target : Target) : Option CalendarRecord :=
  getCalendar store target.keyOwner target.calendar

def allowsTodo (calendar : Option CalendarRecord) : Bool :=
  backend.tasks && calendarAllows calendar componentTodo

/-! GET. -/

def getTask (target : Target) : Except Failure (Option Object) :=
  match getTaskRecord store target.keyOwner target.guid with
  | none => .error .internal
  | some none => .ok none
  | some (some task) =>
    if target.shared && task.calendarId ≠ target.calendar then .ok none
    else .ok (some (.task task))

def findEvent (target : Target) : Except Failure Object :=
  match getEvent store target.keyOwner target.guid with
  | none => .error .internal
  | some none => .error notFound
  | some (some event) =>
    if target.shared && eventCalendar event ≠ target.calendar then .error notFound
    else .ok (.event event)

def findObject (target : Target) : Except Failure Object :=
  let calendar := calendarOf store target
  if allowsTodo backend calendar then
    match getTask store target with
    | .error failure => .error failure
    | .ok (some object) => .ok object
    | .ok none =>
      if calendarAllows calendar componentEvent then findEvent store target
      else .error notFound
  else findEvent store target

def getCalendarObject (user path : Bytes) : Served :=
  match resolve store backend user path .object with
  | .error failure => refuse failure
  | .ok target =>
    match findObject store backend target with
    | .error failure => refuse failure
    | .ok object =>
      if backend.encodes object then ([.returned target.keyOwner object], .ok ())
      else refuse .internal

/-! Listing. -/

/-- An empty value decodes to a record without fields. -/
def asEvent : Value → Option EventRecord
  | .event record => some record
  | .empty => some ⟨[], []⟩
  | _ => none

def asTask : Value → Option TaskRecord
  | .task record => some record
  | .empty => some ⟨[], []⟩
  | _ => none

def listTasks (target : Target) : List Object :=
  let tasks := (prefixScan store (taskPrefix target.keyOwner)).filterMap fun entry =>
    asTask entry.2
  tasks.filterMap fun task =>
    if task.calendarId = target.calendar then some (.task task) else none

def listEvents (target : Target) : List Object :=
  let events := (prefixScan store (eventPrefix target.keyOwner)).filterMap fun entry =>
    asEvent entry.2
  events.filterMap fun event =>
    if eventCalendar event = target.calendar then some (.event event) else none

def listCalendarObjects (user path : Bytes) : Served :=
  match resolve store backend user path .collection with
  | .error failure => refuse failure
  | .ok target =>
    let calendar := calendarOf store target
    let tasks := if allowsTodo backend calendar then listTasks store target else []
    let events := if calendarAllows calendar componentEvent then listEvents store target else []
    (((tasks ++ events).filter backend.encodes).map (.returned target.keyOwner), .ok ())

/-! PUT. -/

/-- What is sent, and what the environment answers while it is served. -/
structure Put where
  /-- The names of the components of the calendar that is sent. -/
  children : List Bytes
  content : Bytes
  encodes : Bool
  /-- Why conditions, scheduling or quota refuse, given the object stored. -/
  refusal : Option Object → Option Failure
  /-- What the scheduling rewrites the event to, if it does. -/
  rewritten : Option Bytes
  storageLow : Bool
  /-- Whether the writes of the Tasks and of the default calendar succeed. -/
  tasksWritten : Bool
  defaultWritten : Bool
  /-- A generated guid. -/
  fresh : Bytes

def putComponents (children : List Bytes) : List Bytes :=
  children.foldl (fun kinds name =>
    if name = componentTimezone || kinds.contains name then kinds else kinds ++ [name]) []

def listCalendars (userID : Bytes) : List (Bytes × CalendarRecord) :=
  (prefixScan store (calendarPrefix userID)).filterMap fun entry =>
    match entry.2 with
    | .calendar record => some (entry.1.drop (calendarPrefix userID).length, record)
    | .empty => some ([], ⟨[], []⟩)
    | _ => none

def isSubscribed (calendar : CalendarRecord) : Bool := calendar.sourceUrl ≠ []

def holdsFor (component : Bytes) (entry : Bytes × CalendarRecord) : Bool :=
  calendarAllows (some entry.2) component && !isSubscribed entry.2

def tasksCalendarGUID : Bytes := ascii "tasks"

def defaultGUID : Bytes := ascii "default"

/-- The calendars that are created for the user, and whether a default one is there. -/
def ensureDefault (userID : Bytes) (request : Put) : List (Bytes × CalendarRecord) × Bool :=
  let calendars := listCalendars store userID
  let guid := ((calendars.find? (holdsFor componentEvent)).map Prod.fst).getD []
  let missing := !calendars.any (holdsFor componentTodo) &&
    !calendars.any fun entry => entry.1 = tasksCalendarGUID
  let tasks : List (Bytes × CalendarRecord) :=
    if missing && request.tasksWritten then [(tasksCalendarGUID, ⟨[componentTodo], []⟩)] else []
  if missing && !request.tasksWritten && guid = [] then ([], false)
  else if guid ≠ [] then (tasks, true)
  else if !request.defaultWritten then (tasks, false)
  else
    let name := if calendars.any fun entry => entry.1 = defaultGUID then request.fresh
      else defaultGUID
    (tasks ++ [(name, ⟨[], []⟩)], true)

def withCalendars (userID : Bytes) : List (Bytes × CalendarRecord) → Store
  | [] => store
  | entry :: rest =>
    set (withCalendars userID rest) (calendarKey userID entry.1) (.calendar entry.2)

/-- Whether the object lives in a subscribed calendar; the stored calendar decides. -/
def inSubscription (owner : Bytes) : Option Object → Option Bool
  | none => some false
  | some object => calendarIsSubscribed store owner object.calendar

def putChecks (target : Target) (request : Put) (existing : Option Object) : Except Failure Unit :=
  if target.shared && existing.any fun object => object.calendar ≠ target.calendar then
    .error forbidden
  else match inSubscription store target.keyOwner existing with
    | none => .error .internal
    | some true => .error readOnlySubscription
    | some false =>
      match request.refusal existing with
      | some failure => .error failure
      | none => .ok ()

/-- The object that is stored is also what is answered. -/
def answer (object : Object) : Except Failure Unit :=
  if backend.encodes object then .ok () else .error .internal

def putTodo (target : Target) (request : Put) : Served :=
  match getEvent store target.keyOwner target.guid with
  | none => refuse .internal
  | some (some _) => refuse forbidden
  | some none =>
    match getTaskRecord store target.keyOwner target.guid with
    | none => refuse .internal
    | some existing =>
      match putChecks store target request (existing.map .task) with
      | .error failure => refuse failure
      | .ok _ =>
        let task := Object.task ⟨target.calendar, request.content⟩
        ([.put ⟨target.keyOwner, .task, target.guid⟩ task], answer backend task)

def guidIsTask (owner guid : Bytes) : Option Bool :=
  if backend.tasks then (getTaskRecord store owner guid).map Option.isSome else some false

/-- The stored event is read without looking at the error of the read. -/
def putEvent (target : Target) (request : Put) : Served :=
  match guidIsTask store backend target.keyOwner target.guid with
  | none => refuse .internal
  | some true => refuse forbidden
  | some false =>
    let existing := (getEvent store target.keyOwner target.guid).getD none
    match putChecks store target request (existing.map .event) with
    | .error failure => refuse failure
    | .ok _ =>
      let place : Place := ⟨target.keyOwner, .event, target.guid⟩
      let event := Object.event ⟨target.calendar, request.content⟩
      match request.rewritten with
      | some content =>
        if target.shared then ([.put place event], answer backend event)
        else
          let updated := Object.event ⟨target.calendar, content⟩
          ([.put place event, .put place updated], answer backend updated)
      | none => ([.put place event], answer backend event)

def putComponent (target : Target) (request : Put) : Served :=
  match putComponents request.children with
  | [component] =>
    let calendar := calendarOf store target
    if component = componentEvent then
      if !calendarAllows calendar componentEvent then
        refuse (.precondition (ascii "supported-calendar-component"))
      else if !request.encodes then refuse .internal
      else putEvent store backend target request
    else if component = componentTodo then
      if !allowsTodo backend calendar then
        refuse (.precondition (ascii "supported-calendar-component"))
      else if !request.encodes then refuse .internal
      else putTodo store backend target request
    else refuse (.precondition (ascii "supported-calendar-component"))
  | _ => refuse (.precondition (ascii "valid-calendar-object-resource"))

/-- In the user's own key space the calendars are created first, and the target must be
one of them. -/
def putOwn (target : Target) (request : Put) : Served :=
  let (created, ready) := ensureDefault store target.keyOwner request
  let effects := created.map fun entry => Effect.calendar target.keyOwner entry.1
  let store := withCalendars store target.keyOwner created
  if !ready then (effects, .error .internal)
  else if !calendarExists store target.keyOwner target.calendar then
    (effects, .error (httpErr 409 "calendar does not exist"))
  else
    let (rest, answer) := putComponent store backend target request
    (effects ++ rest, answer)

def putCalendarObject (user path : Bytes) (request : Put) : Served :=
  if request.storageLow then refuse (httpErr 507 "insufficient system storage")
  else match resolve store backend user path .object with
    | .error failure => refuse failure
    | .ok target =>
      if !target.canWrite then refuse sharedReadOnly
      else if target.shared then putComponent store backend target request
      else putOwn store backend target request

/-! DELETE. -/

/-- `none` when the guid is no task that the collection covers. -/
def deleteTask (target : Target) : Option Served :=
  match getTaskRecord store target.keyOwner target.guid with
  | none => some (refuse .internal)
  | some none => none
  | some (some task) =>
    if target.shared && task.calendarId ≠ target.calendar then none
    else match inSubscription store target.keyOwner (some (.task task)) with
      | none => some (refuse .internal)
      | some true => some (refuse readOnlySubscription)
      | some false => some ([.removed ⟨target.keyOwner, .task, target.guid⟩], .ok ())

def deleteEvent (target : Target) : Served :=
  match getEvent store target.keyOwner target.guid with
  | none => refuse .internal
  | some none => refuse notFound
  | some (some event) =>
    if target.shared && eventCalendar event ≠ target.calendar then refuse notFound
    else match inSubscription store target.keyOwner (some (.event event)) with
      | none => refuse .internal
      | some true => refuse readOnlySubscription
      | some false => ([.removed ⟨target.keyOwner, .event, target.guid⟩], .ok ())

def deleteCalendarObject (user path : Bytes) : Served :=
  match resolve store backend user path .object with
  | .error failure => refuse failure
  | .ok target =>
    if !target.canWrite then refuse sharedReadOnly
    else
      let calendar := calendarOf store target
      if allowsTodo backend calendar then
        match deleteTask store target with
        | some served => served
        | none =>
          if calendarAllows calendar componentEvent then deleteEvent store target
          else refuse notFound
      else deleteEvent store target

inductive Request where
  | get (path : Bytes)
  | list (path : Bytes)
  | put (path : Bytes) (request : Put)
  | delete (path : Bytes)

def serve (user : Bytes) : Request → Served
  | .get path => getCalendarObject store backend user path
  | .list path => listCalendarObjects store backend user path
  | .put path request => putCalendarObject store backend user path request
  | .delete path => deleteCalendarObject store backend user path

end Bongo.CalDav
