import Bongo.Ical

/-!
Expansion of a stored series into its occurrences. The rule is evaluated in the
zone of the event; EXDATEs take instants out, and an override, a VEVENT with a
RECURRENCE-ID, stands in the place of the occurrence it names. Both come from the
stored fields and from the stored iCalendar text.

A series is what an event fixes before the text is read, and the marks are what
the text adds. Overrides are kept in the order they were first written, where the
source has a map; the listing is sorted, and compared up to order.

Events of to-dos are left out.
-/

namespace Bongo.Recurrence

open ByteKeys CivilTime Runes Ical

structure Attendee where
  address : Bytes
  name : Bytes
  role : Bytes
  partstat : Bytes
  rsvp : Bool
  deriving DecidableEq

structure Event (Raw : Type) where
  guid : Bytes
  title : Bytes
  description : Bytes
  location : Bytes
  startTime : Int
  endTime : Int
  allDay : Bool
  rrule : Bytes
  exdates : List Bytes
  timezone : Bytes
  organizer : Bytes
  attendees : List Attendee
  sequence : Int
  status : Bytes
  transparent : Bool
  icalRaw : Option Raw
  recurrenceId : Bytes
  deriving DecidableEq

/-- The PARTSTAT of an address is the first in the list, the last the component
has. -/
structure Override where
  cancelled : Bool
  start : Int
  stop : Int
  allDay : Bool
  hasEnd : Bool
  title : Option Bytes
  description : Option Bytes
  location : Option Bytes
  partstats : List (Bytes × Bytes)

structure Series (Raw : Type) where
  event : Event Raw
  rule : Rule
  loc : Location

structure Marks where
  exInstants : List Int
  exDays : List Bytes
  overrides : List (Int × Override)

def Marks.none : Marks := ⟨[], [], []⟩

/-- A later override of a slot replaces the one before. -/
def Marks.put (marks : Marks) (key : Int) (found : Override) : Marks :=
  { marks with overrides := marks.overrides.filter (fun entry => entry.1 ≠ key) ++ [(key, found)] }

variable {Raw : Type} (platform : Platform Raw)

namespace Series

variable (series : Series Raw)

def allDay : Bool := series.event.allDay

def duration : Int := series.event.endTime - series.event.startTime

/-- The identity of an occurrence: its instant, or the midnight of its date. -/
def key (instant : Int) : Int :=
  if series.allDay then instant / 86400 * 86400 else instant

/-- A DATE or DATE-TIME property, in the zone of the series unless it says its
own. Unlike `propInstant` this takes the value as it stands. -/
def parseTime (prop : Property) : Option (Int × Bool) :=
  if platform.equalFold (prop.param .value) (ascii "DATE") || prop.value.length = 8 then
    (parseDate [] prop.value).map fun wall =>
      (if series.allDay then wall else series.loc.instant wall, true)
  else if hasSuffix prop.value [90] then
    (parseDateTime [90] prop.value).map fun wall => (wall, false)
  else
    let loc := (zone platform (prop.param .timezoneId)).getD series.loc
    (parseDateTime [] prop.value).map fun wall => (loc.instant wall, false)

def addExclusion (text tzid : Bytes) (marks : Marks) : Marks :=
  if text = [] then marks
  else
    let loc := (zone platform tzid).getD series.loc
    match parseExdate text loc with
    | none => marks
    | some (instant, true) =>
      let day := loc.wall instant / 86400
      if series.allDay then { marks with exInstants := day * 86400 :: marks.exInstants }
      else { marks with exDays := formatDate day :: marks.exDays }
    | some (instant, false) => { marks with exInstants := instant :: marks.exInstants }

def exdateLine (line : Property) (marks : Marks) : Marks :=
  (line.value.splitOn 44).foldl
    (fun marks text => series.addExclusion platform (trimSpace text) (line.param .timezoneId) marks)
    marks

def isCancelled (component : Component) : Bool :=
  match component.get .status with
  | none => false
  | some prop => platform.equalFold (trimSpace prop.value) (ascii "CANCELLED")

/-- The address an ATTENDEE value is read for, with or without its scheme. -/
def lineAddress (value : Bytes) : Bytes :=
  let value := trimSpace value
  normaliseAddress platform
    (if 7 ≤ value.length ∧ platform.equalFold (value.take 7) (ascii "mailto:") then value.drop 7
      else value)

def partstatLine (line : Property) : Option (Bytes × Bytes) :=
  let partstat := line.param .participationStatus
  let address := lineAddress platform line.value
  if partstat = [] ∨ address = [] then none else some (address, platform.upperText partstat)

def partstats (component : Component) : List (Bytes × Bytes) :=
  ((component.props .attendee).filterMap (partstatLine platform)).reverse

def textOf (component : Component) (name : PropName) : Option Bytes :=
  (component.get name).bind platform.readText

/-- When an override starts, and whether it is a date; without a readable DTSTART
the times of the series. -/
def overrideStart (component : Component) : Int × Int × Bool :=
  match (component.get .dateTimeStart).bind (series.parseTime platform) with
  | some (start, dateOnly) => (start, start + series.duration, dateOnly)
  | none => (series.event.startTime, series.event.endTime, series.allDay)

/-- The end an override gives itself. DURATION counts only without a DTEND. -/
def overrideEnd (component : Component) (start : Int) : Option Int :=
  match component.get .dateTimeEnd with
  | some prop => (series.parseTime platform prop).map (·.1)
  | none =>
    match component.get .duration with
    | some prop => (platform.readDuration prop).map (start + ·)
    | none => none

def parseOverride (component : Component) : Override :=
  if isCancelled platform component then
    ⟨true, 0, 0, false, false, none, none, none, []⟩
  else
    let (start, stop, dateOnly) := series.overrideStart platform component
    let ended := series.overrideEnd platform component start
    { cancelled := false, start := start, stop := ended.getD stop, allDay := dateOnly,
      hasEnd := ended.isSome,
      title := textOf platform component .summary,
      description := textOf platform component .description,
      location := textOf platform component .location,
      partstats := partstats platform component }

def readComponent (isMaster : Bool) (component : Component) (marks : Marks) : Marks :=
  if component.name ≠ .event then marks
  else if isMaster then
    (component.props .exceptionDates).foldl
      (fun marks line => series.exdateLine platform line marks) marks
  else
    match (component.get .recurrenceId).bind (series.parseTime platform) with
    | none => marks
    | some (instant, _) =>
      marks.put (series.key instant) (series.parseOverride platform component)

def readFrom (master : Option Nat) : Nat → List Component → Marks → Marks
  | _, [], marks => marks
  | position, component :: rest, marks =>
    readFrom master (position + 1) rest
      (series.readComponent platform (master = some position) component marks)

def readCalendar (calendar : Calendar) (marks : Marks) : Marks :=
  series.readFrom platform ((master platform calendar).map (·.1)) 0 calendar.children marks

/-- A text without either property name is not decoded. -/
def readIcal (raw : Option Raw) (marks : Marks) : Marks :=
  match raw with
  | none => marks
  | some raw =>
    if platform.mentions raw then
      match platform.decode raw with
      | none => marks
      | some calendar => series.readCalendar platform calendar marks
    else marks

def structuredMarks : Marks :=
  series.event.exdates.foldl (fun marks text => series.addExclusion platform text [] marks) .none

def marks : Marks := series.readIcal platform series.event.icalRaw (series.structuredMarks platform)

def excluded (marks : Marks) (instant : Int) : Bool :=
  marks.exInstants.contains (series.key instant) ||
    (!series.allDay && marks.exDays.contains (formatDate (series.loc.wall instant / 86400)))

def recurrenceID (key : Int) : Bytes :=
  if series.allDay then formatDate (key / 86400) else formatDateTime key ++ [90]

def occurrence (key start stop : Int) : Event Raw :=
  { series.event with
      icalRaw := none,
      exdates := [],
      startTime := start,
      endTime := stop,
      recurrenceId := series.recurrenceID key }

def answered (found : Override) (attendee : Attendee) : Attendee :=
  match found.partstats.lookup (normaliseAddress platform attendee.address) with
  | some partstat => { attendee with partstat := partstat }
  | none => attendee

def overrideOccurrence (key : Int) (found : Override) : Event Raw :=
  let stop := if found.hasEnd then found.stop else found.start + series.duration
  let plain := series.occurrence key found.start stop
  { plain with
      allDay := found.allDay,
      title := found.title.getD plain.title,
      description := found.description.getD plain.description,
      location := found.location.getD plain.location,
      attendees := plain.attendees.map (answered platform found) }

def overlaps (rangeStart rangeEnd start stop : Int) : Bool := start < rangeEnd && rangeStart < stop

def standing (marks : Marks) (rangeStart rangeEnd : Int) (instant : Int) : Bool :=
  overlaps rangeStart rangeEnd instant (instant + series.duration) &&
    !series.excluded marks instant && (marks.overrides.lookup (series.key instant)).isNone

def ruled (marks : Marks) (rangeStart rangeEnd : Int) : List (Event Raw) :=
  ((series.rule.between (rangeStart - series.duration) rangeEnd).filter
    (series.standing marks rangeStart rangeEnd)).map
    fun instant => series.occurrence (series.key instant) instant (instant + series.duration)

def overridden (marks : Marks) (rangeStart rangeEnd : Int) : List (Event Raw) :=
  ((marks.overrides.filter fun entry => !entry.2.cancelled).map
    fun entry => series.overrideOccurrence platform entry.1 entry.2).filter
    fun event => overlaps rangeStart rangeEnd event.startTime event.endTime

end Series

/-- The order of the listing. -/
def Event.Before (left right : Event Raw) : Prop :=
  left.startTime < right.startTime ∨
    left.startTime = right.startTime ∧ compare left.recurrenceId right.recurrenceId ≠ .gt

instance : DecidableRel (@Event.Before Raw) :=
  fun _ _ => inferInstanceAs (Decidable (_ ∨ _))

namespace Series

variable (series : Series Raw)

def instances (marks : Marks) (rangeStart rangeEnd : Int) : List (Event Raw) :=
  (series.ruled marks rangeStart rangeEnd ++
    series.overridden platform marks rangeStart rangeEnd).insertionSort Event.Before

/-- A canonical RECURRENCE-ID: a date for an all-day series, else a date-time in
UTC. -/
def parseRecurrenceID (rid : Bytes) : Option Int :=
  if rid.length = 8 then (if series.allDay then parseDate [] rid else none)
  else if rid.length = 16 then (if series.allDay then none else parseDateTime [90] rid)
  else none

def find (marks : Marks) (rid : Bytes) : Option (Event Raw) :=
  (series.parseRecurrenceID rid).bind fun instant =>
    match marks.overrides.lookup (series.key instant) with
    | some found =>
      if found.cancelled then none
      else some (series.overrideOccurrence platform (series.key instant) found)
    | none =>
      if series.excluded marks instant ∨ series.rule.between instant instant = [] then none
      else some (series.occurrence (series.key instant) instant (instant + series.duration))

end Series

def seriesZone (event : Event Raw) : Location :=
  if event.allDay then .utc else zoneOrUTC platform event.timezone

def newSeries (event : Event Raw) : Option (Series Raw) :=
  (platform.newRule event.rrule event.startTime (seriesZone platform event)).map
    fun rule => ⟨event, rule, seriesZone platform event⟩

def expandRecurrence (event : Event Raw) (rangeStart rangeEnd : Int) : Option (List (Event Raw)) :=
  if event.rrule = [] then some [event]
  else (newSeries platform event).map fun series =>
    series.instances platform (series.marks platform) rangeStart rangeEnd

section Reading

variable {platform} {A : Type} (series : Series Raw)

theorem lookup_none_iff (entries : List (Int × Override)) (key : Int) :
    entries.lookup key = none ↔ ∀ entry ∈ entries, entry.1 ≠ key := by
  rw [List.lookup_eq_none_iff]
  constructor
  · intro absent entry member same
    have different := absent entry member
    simp [same] at different
  · intro absent entry member
    simpa using fun same => absent entry member same.symm

theorem addExclusion_overrides (text tzid : Bytes) (marks : Marks) :
    (series.addExclusion platform text tzid marks).overrides = marks.overrides := by
  unfold Series.addExclusion
  split
  · rfl
  dsimp only
  split
  · rfl
  · split <;> rfl
  · rfl

theorem foldl_overrides (step : A → Marks → Marks)
    (keeps : ∀ value marks, (step value marks).overrides = marks.overrides) (values : List A)
    (marks : Marks) :
    (values.foldl (fun marks value => step value marks) marks).overrides = marks.overrides := by
  induction values generalizing marks with
  | nil => rfl
  | cons value values ih => rw [List.foldl_cons, ih, keeps]

theorem exdateLine_overrides (line : Property) (marks : Marks) :
    (series.exdateLine platform line marks).overrides = marks.overrides :=
  foldl_overrides
    (fun text marks =>
      series.addExclusion platform (trimSpace text) (line.param .timezoneId) marks)
    (fun _ marks => addExclusion_overrides series _ _ marks) _ marks

theorem structuredMarks_overrides : (series.structuredMarks platform).overrides = [] :=
  foldl_overrides (fun text marks => series.addExclusion platform text [] marks)
    (fun text marks => addExclusion_overrides series text [] marks) _ _

end Reading

section Slots

variable {platform} {known : Event Raw} {series : Series Raw}

/-- An all-day series is evaluated in UTC. -/
theorem newSeries_some (made : newSeries platform known = some series) :
    series.event = known ∧ series.loc = seriesZone platform known ∧
      platform.newRule known.rrule known.startTime (seriesZone platform known) =
        some series.rule := by
  obtain ⟨rule, found, rfl⟩ := Option.map_eq_some_iff.mp made
  exact ⟨rfl, rfl, found⟩

/-- The expansion reads a property as the editor does, if there is no white space around it. -/
theorem parseTime_eq (made : newSeries platform known = some series) (prop : Property) :
    series.parseTime platform prop =
      if trimSpace prop.value = prop.value then propInstant platform prop series.loc else none := by
  have graphic : ∀ time, series.parseTime platform prop = some time → Graphic prop.value := by
    intro time read
    unfold Series.parseTime at read
    split at read
    · obtain ⟨wall, parsed, -⟩ := Option.map_eq_some_iff.mp read
      exact (parseDate_some (by decide) parsed).1
    split at read
    all_goals
      obtain ⟨wall, parsed, -⟩ := Option.map_eq_some_iff.mp read
      exact (parseDateTime_some (by decide) parsed).1
  have midnight : ∀ wall, (if series.allDay then wall else series.loc.instant wall) =
      series.loc.instant wall := by
    intro wall
    split
    · rename_i allDay
      obtain ⟨rfl, zone, -⟩ := newSeries_some made
      have dated : series.event.allDay = true := allDay
      rw [zone, seriesZone, if_pos dated]
      rfl
    · rfl
  split
  · rename_i trimmed
    unfold Series.parseTime propInstant isDateProp
    simp only [trimmed, midnight]
  · rename_i padded
    cases read : series.parseTime platform prop with
    | none => rfl
    | some time => exact absurd (trimSpace_graphic prop.value (graphic time read)) padded

theorem parseRecurrenceID_recurrenceID {slot : Int} (own : series.key slot = slot)
    (printable : Printable slot) :
    series.parseRecurrenceID (series.recurrenceID slot) = some slot := by
  unfold Series.parseRecurrenceID Series.recurrenceID
  unfold Series.key at own
  obtain ⟨low, high⟩ := printable
  split at own
  · rename_i allDay
    simp only [allDay, if_true]
    rw [if_pos (formatDate_length (slot / 86400) (by omega) (by omega)),
      parseDate_formatDate (slot / 86400) (by omega) (by omega), own]
  · rename_i timed
    have length : (formatDateTime slot ++ [90]).length = 16 := by
      rw [List.length_append, formatDateTime_length ⟨low, high⟩]
      rfl
    simp only [timed, Bool.false_eq_true, if_false, length]
    exact parseDateTime_formatDateTime ⟨low, high⟩ [90] rfl

end Slots

end Bongo.Recurrence
