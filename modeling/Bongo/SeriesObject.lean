import Bongo.Recurrence

/-!
The iCalendar object of a stored series, opened to write an override into it: the
stored text, or the object built from the stored fields where there is no usable
one, and the VEVENT that stands for one occurrence.

The master is the first VEVENT without a RECURRENCE-ID; it is known by its position
among the children. The observances of a VTIMEZONE are left out, since nothing here
reads them.
-/

namespace Bongo.Recurrence

open ByteKeys CivilTime Runes Ical

variable {Raw : Type} (platform : Platform Raw)

def maxAttendees : Nat := 100

def maxNameRunes : Nat := 200

def tokenRune (rune : Nat) : Bool :=
  (65 ≤ rune && rune ≤ 90) || (48 ≤ rune && rune ≤ 57) || rune = 45

/-- An enumerated value in upper case, or nothing. -/
def token (text : Bytes) : Bytes :=
  let text := platform.upperText (trimSpace text)
  if (runesFrom 0 text).all tokenRune then text else []

def cleanName (text : Bytes) : Bytes :=
  let kept := (runesFrom 0 text).filter fun rune => !isControl rune && rune ≠ 34
  let text := trimSpace (kept.flatMap encodeRune)
  if maxNameRunes < (runesFrom 0 text).length then
    ((runesFrom 0 text).take maxNameRunes).flatMap encodeRune
  else text

def setParamIf (name : ParamName) (value : Bytes) (prop : Property) : Property :=
  if value = [] then prop else prop.setParam name value

def attendeeProp (attendee : Attendee) : Property :=
  let line := newProp (ascii "mailto:" ++ attendee.address)
  let line := setParamIf .commonName (cleanName attendee.name) line
  let line := setParamIf .role (token platform attendee.role) line
  let line := setParamIf .participationStatus (token platform attendee.partstat) line
  if attendee.rsvp then line.setParam .rsvp (ascii "TRUE") else line

def validStatus (status : Bytes) : Bool :=
  status = ascii "TENTATIVE" || status = ascii "CONFIRMED" || status = ascii "CANCELLED"

def setParticipants (event : Event Raw) (component : Component) : Component :=
  let component :=
    if validAddress platform event.organizer then
      component.set .organizer (newProp (ascii "mailto:" ++ event.organizer))
    else component
  let invited := (event.attendees.take maxAttendees).filter
    fun attendee => validAddress platform attendee.address
  let component := component.setAll .attendee (invited.map (attendeeProp platform))
  let component :=
    if 0 < event.sequence then component.set .sequence (newProp (itoa event.sequence))
    else component
  if validStatus (token platform event.status) then
    component.set .status (newProp (token platform event.status))
  else component

def validRrule (rule : Bytes) : Bool :=
  (runesFrom 0 rule).all (fun rune => 0x20 ≤ rune && rune ≠ 0x7F) && platform.ruleReads rule

/-- The instants the stored exclusions stand for: a date stands for each
occurrence that starts on it. -/
def excludedInstants (event : Event Raw) (loc : Location) (rule : Rule) : List Int :=
  (event.exdates.flatMap fun text =>
    match parseExdate text loc with
    | none => []
    | some (instant, false) => [instant]
    | some (instant, true) =>
      let dayStart := loc.instant (loc.wall instant / 86400 * 86400)
      rule.between dayStart (loc.instant (loc.wall dayStart + 86400) - 1)).dedup

def exdateProp (event : Event Raw) (loc : Location) (instant : Int) : Property :=
  if event.allDay then dateProp (instant / 86400) else dateTimeProp loc instant

def addRecurrence (event : Event Raw) (loc : Location) (component : Component) : Component :=
  if event.rrule = [] ∨ validRrule platform event.rrule = false then component
  else
    let loc := if event.allDay then .utc else loc
    let component := component.set .recurrenceRule (newProp event.rrule)
    match platform.newRule event.rrule event.startTime loc with
    | none => component
    | some rule =>
      component.setAll .exceptionDates
        (((excludedInstants event loc rule).insertionSort (· ≤ ·)).map (exdateProp event loc))

def emptyComponent (name : CompName) : Component := ⟨name, fun _ => [], []⟩

def setTextIf (name : PropName) (text : Bytes) (component : Component) : Component :=
  if text = [] then component else component.set name (platform.writeText text)

def synthVEvent (event : Event Raw) (loc : Location) (now : Int) : Component :=
  let component := (emptyComponent .event).set .uid (platform.writeText event.guid)
  let component := component.set .summary (platform.writeText event.title)
  let component := setTextIf platform .description event.description component
  let component := setTextIf platform .location event.location component
  let component :=
    if event.allDay then
      (component.set .dateTimeStart (dateProp (allDayDate event.startTime))).set .dateTimeEnd
        (dateProp (allDayDate event.endTime))
    else
      (component.set .dateTimeStart (dateTimeProp loc event.startTime)).set .dateTimeEnd
        (dateTimeProp loc event.endTime)
  let component := addRecurrence platform event loc component
  let component :=
    if event.transparent then
      component.set .transparency (platform.writeText (ascii "TRANSPARENT"))
    else component
  setParticipants platform event (component.set .dateTimeStamp (dateTimeProp .utc now))

structure SeriesCal where
  header : Bytes
  children : List Component
  master : Nat
  dtstart : Property
  loc : Location
  allDay : Bool

def newSeriesCal (calendar : Calendar) (event : Event Raw) : Option SeriesCal :=
  match master platform calendar with
  | some (position, false) =>
    (calendar.children[position]?).bind fun component =>
      (component.get .dateTimeStart).map fun dtstart =>
        { header := calendar.header, children := calendar.children, master := position,
          dtstart := dtstart, loc := seriesZone platform event, allDay := event.allDay }
  | _ => none

namespace SeriesCal

variable (opened : SeriesCal)

def calendar : Calendar := ⟨opened.header, opened.children⟩

def key (instant : Int) : Int :=
  if opened.allDay then instant / 86400 * 86400 else instant

def standsAt (slot : Int) (component : Component) : Bool :=
  match (component.get .recurrenceId).bind fun prop => propInstant platform prop opened.loc with
  | none => false
  | some (instant, _) => component.name = .event && opened.key instant = opened.key slot

def overrideAt (slot : Int) : Option Nat := opened.children.findIdx? (opened.standsAt platform slot)

end SeriesCal

def SeriesCal.read (opened : SeriesCal) (series : Series Raw) : Marks :=
  series.readCalendar platform opened.calendar (series.structuredMarks platform)

/-- The form of a RECURRENCE-ID in which replies, schedule states and sequence numbers
are compared. -/
def recurrenceKey (prop : Property) : Option Bytes :=
  (propInstant platform prop .utc).map fun (instant, dateOnly) =>
    if dateOnly then formatDate (instant / 86400) else formatDateTime instant ++ [90]

section Masters

variable {platform} {children : List Component} {position found : Nat}

/-- The master is a VEVENT, also where it is only an override; else it has no
RECURRENCE-ID. -/
theorem masterFrom_event {fallback : Bool} {best : Option (Nat × Option Int)}
    (read : masterFrom platform position best children = some (found, fallback)) :
    (∃ offset component, found = position + offset ∧ children[offset]? = some component ∧
      component.name = .event ∧ (fallback = false → component.get .recurrenceId = none)) ∨
      fallback = true ∧ ∃ value, best = some value ∧ found = value.1 := by
  induction children generalizing position best with
  | nil =>
    cases best with
    | none => cases read
    | some value =>
      obtain ⟨rfl, rfl⟩ := Prod.mk.inj (Option.some.inj read)
      exact Or.inr ⟨rfl, value, rfl, rfl⟩
  | cons component rest ih =>
    have later : ∀ best, masterFrom platform (position + 1) best rest = some (found, fallback) →
        (∃ offset other, found = position + offset ∧ (component :: rest)[offset]? = some other ∧
          other.name = .event ∧ (fallback = false → other.get .recurrenceId = none)) ∨
          fallback = true ∧ ∃ value, best = some value ∧ found = value.1 := by
      intro best there
      refine (ih there).imp_left ?_
      rintro ⟨offset, other, place, at_, shape⟩
      exact ⟨offset + 1, other, by omega, at_, shape⟩
    unfold masterFrom at read
    split at read
    · rename_i event
      split at read
      · rename_i absent
        obtain ⟨rfl, -⟩ := Prod.mk.inj (Option.some.inj read)
        exact Or.inl ⟨0, component, rfl, rfl, event, fun _ => absent⟩
      rcases later _ read with inside | ⟨only, value, same, place⟩
      · exact Or.inl inside
      -- The best so far is this component or the one before.
      have here : value.1 = position → ∃ offset other, found = position + offset ∧
          (component :: rest)[offset]? = some other ∧ other.name = .event ∧
          (fallback = false → other.get .recurrenceId = none) := fun own =>
        ⟨0, component, place.trans own, rfl, event, fun plain => by cases only.symm.trans plain⟩
      split at same
      · exact Or.inl (here (by rw [← Option.some.inj same]))
      rename_i former
      split at same
      · exact Or.inl (here (by rw [← Option.some.inj same]))
      · exact Or.inr ⟨only, former, rfl, place.trans (by rw [← Option.some.inj same])⟩
    · exact later _ read

theorem masterFrom_found (read : masterFrom platform 0 none children = some (found, false)) :
    ∃ component, children[found]? = some component ∧ component.name = .event ∧
      component.get .recurrenceId = none := by
  rcases masterFrom_event read with ⟨offset, component, place, there, event, plain⟩ | ⟨no, -⟩
  · rw [Nat.zero_add] at place
    exact ⟨component, place ▸ there, event, plain rfl⟩
  · cases no

theorem newSeriesCal_some {calendar : Calendar} {known : Event Raw}
    {start : SeriesCal}
    (opened : newSeriesCal platform calendar known = some start) :
    start.calendar = calendar ∧ master platform calendar = some (start.master, false) ∧
      start.loc = seriesZone platform known ∧ start.allDay = known.allDay := by
  unfold newSeriesCal at opened
  split at opened
  · rename_i position found
    obtain ⟨component, -, here⟩ := Option.bind_eq_some_iff.mp opened
    obtain ⟨dtstart, -, rfl⟩ := Option.map_eq_some_iff.mp here
    exact ⟨rfl, found, rfl, rfl⟩
  · cases opened

end Masters

/-! Two stored series to evaluate on. -/

def sampleFolds : FoldTable := asciiFolds

def sampleRule (instants : List Int) : Rule where
  between start stop := instants.filter fun instant => start ≤ instant ∧ instant ≤ stop
  within start stop instant := by
    by_cases inside : start ≤ instant ∧ instant ≤ stop
    · rw [if_pos inside, List.count_filter (by simpa using inside), List.count_filter (by simp)]
    · rw [if_neg inside, List.count_eq_zero]
      intro member
      exact inside (by simpa using (List.mem_filter.mp member).2)

/-- Central European time around the end of summer time on 25 October 2026, with the
choice `time.Date` makes for the hour that comes twice. -/
def sampleZone : Zone where
  name := ascii "Europe/Berlin"
  wall instant := if instant < 1792890000 then instant + 7200 else instant + 3600
  instant wall :=
    if wall < 1792890000 then wall - 7200
    else if wall - 3600 < 1792890000 then wall - 7200 else wall - 3600

def sampleMarked (component : Component) : Bool :=
  component.name = .event &&
    !((component.props .exceptionDates).isEmpty && (component.props .recurrenceId).isEmpty)

/-- Objects are stored as they are, and every rule is daily for two days. -/
def samplePlatform : Platform Calendar :=
  { sampleFolds with
    decode := some
    encode := some
    mentions := fun calendar => calendar.children.any sampleMarked
    writeText := newProp
    readText := fun prop => some prop.value
    readDuration := fun _ => none
    ruleReads := fun _ => true
    newRule := fun _ start _ => some (sampleRule [start, start + 86400])
    loadLocation := fun name => if name = ascii "Europe/Berlin" then some (.zone sampleZone) else
      none
    windowsZones := fun _ => none
    parseAddress := fun _ => true }

def sampleLine (address partstat : String) : Property :=
  (newProp (ascii "mailto:" ++ ascii address)).setParam .participationStatus (ascii partstat)

def sampleMaster (status : List Property) (dtstart dtend : Property) : Component :=
  ((((emptyComponent .event).setAll .status status).set .dateTimeStart dtstart).set .dateTimeEnd
    dtend).setAll .attendee
    [sampleLine "bob@example.org" "NEEDS-ACTION", sampleLine "eve@example.org" "ACCEPTED"]

def sampleEvent (start : Int) (timezone : Bytes) (master : Component) : Event Calendar :=
  { guid := ascii "standup", title := ascii "Standup", description := [], location := [],
    startTime := start, endTime := start + 3600, allDay := false,
    rrule := ascii "FREQ=DAILY;COUNT=2", exdates := [], timezone := timezone,
    organizer := ascii "ann@example.org",
    attendees :=
      [⟨ascii "bob@example.org", [], [], ascii "NEEDS-ACTION", true⟩,
        ⟨ascii "eve@example.org", [], [], ascii "ACCEPTED", false⟩],
    sequence := 0, status := [], transparent := false,
    icalRaw := some ⟨[], [master]⟩, recurrenceId := [] }

def morningEvent : Event Calendar :=
  sampleEvent 1904893200 [] (sampleMaster [] (dateTimeProp .utc 1904893200)
    (dateTimeProp .utc 1904896800))

def nightEvent : Event Calendar :=
  sampleEvent 1792796400 (ascii "Europe/Berlin") (sampleMaster []
    (dateTimeProp (.zone sampleZone) 1792796400) (dateTimeProp (.zone sampleZone) 1792800000))

end Bongo.Recurrence
