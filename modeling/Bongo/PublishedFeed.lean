import Bongo.SeriesObject

/-!
The published feed of a calendar: one VCALENDAR made of the stored objects, each object
shown as it is stored or, where its details are not for the reader, reduced to the times
it occupies.

An object is the VEVENTs of its stored text, or one VEVENT made from its fields where
there is no text or none that decodes. The codec, the zone database and the rule
library are parameters, as before; so are the observances of a generated VTIMEZONE and the
order in which the properties of a component are gone through.
-/

namespace Bongo.Feed

open ByteKeys CivilTime Runes Ical Recurrence

structure Publisher (Raw : Type) extends Platform Raw where
  /-- The UNTIL of a rule, if it reads and has one. -/
  ruleUntil : Bytes → Option Int
  /-- The observances of a zone within a span. -/
  observances : Zone → Int → Int → Bytes
  /-- The names of the properties of a component, in some order. -/
  names : Component → List PropName
  /-- A text is written without a zone. -/
  writeText_zone : ∀ text, (writeText text).params .timezoneId = []

structure Stored (Raw : Type) extends Event Raw where
  createdAt : Int
  updatedAt : Int

variable {Raw : Type} (publisher : Publisher Raw)

section Reducing

def propClass : PropName := .other (ascii "CLASS")

def propTimezoneID : PropName := .other (ascii "TZID")

def busyKept : PropName → Bool
  | .uid | .dateTimeStamp | .dateTimeStart | .dateTimeEnd | .duration | .recurrenceRule
  | .recurrenceDates | .exceptionDates | .recurrenceId => true
  | _ => false

/-- `Props.Text`, with nothing for a property that is absent or does not read. -/
def propText (component : Component) (name : PropName) : Bytes :=
  ((component.get name).bind publisher.readText).getD []

def isPrivateClass (component : Component) : Bool :=
  let text := publisher.upperText (propText publisher component propClass)
  text = ascii "PRIVATE" || text = ascii "CONFIDENTIAL"

def isHidden (component : Component) : Bool :=
  publisher.equalFold (propText publisher component .transparency) (ascii "TRANSPARENT") ||
    publisher.equalFold (propText publisher component .status) (ascii "CANCELLED")

def isOverride (component : Component) : Bool := (component.get .recurrenceId).isSome

/-- A UTC value against a zoned master is written in the zone of the master. -/
def inMasterZone (start : Option Property) (rid ex : Property) : Property :=
  match start with
  | none => ex
  | some start =>
    let tzid := start.param .timezoneId
    if hasSuffix rid.value [90] && rid.param .timezoneId = [] && tzid ≠ [] then
      match zone publisher.toPlatform tzid, parseDateTime [90] rid.value with
      | some loc, some instant =>
        (⟨ex.params, formatDateTime (loc.wall instant)⟩ : Property).setParam .timezoneId tzid
      | _, _ => ex
    else ex

def exdateFor (start : Option Property) (rid : Option Property) : Option Property :=
  rid.bind fun rid =>
    if rid.value = [] then none
    else
      let ex := setParamIf .value (rid.param .value) (newProp rid.value)
      let ex := setParamIf .timezoneId (rid.param .timezoneId) ex
      some (inMasterZone publisher start rid ex)

def withoutPeople (component : Component) : Component :=
  { (component.del .attendee).del .organizer with inner := [] }

def busyForm (component : Component) : Component :=
  let kept := withoutPeople component
  ({ kept with props := fun name => if busyKept name then kept.props name else [] } : Component).set
    .summary (publisher.writeText (ascii "Busy"))

def reduces (busy undecodable masterPrivate : Bool) (component : Component) : Bool :=
  busy || undecodable || isPrivateClass publisher component ||
    (isOverride component && masterPrivate)

variable (reduce : Component → Bool)

def leftOut (component : Component) : Bool := reduce component && isHidden publisher component

def shownForm (component : Component) : Component :=
  if reduce component then busyForm publisher component else withoutPeople component

/-- The occurrences of overrides that are left out are excluded from the master. -/
def addExdates (dropped : List Component) (master : Component) : Component :=
  master.setAll .exceptionDates (master.props .exceptionDates ++ dropped.filterMap fun component =>
    exdateFor publisher (master.get .dateTimeStart) (component.get .recurrenceId))

/-- The components in order; `pending` while the master has not come. -/
def publishFrom (dropped : List Component) : Bool → List Component → List Component
  | _, [] => []
  | pending, component :: rest =>
    if leftOut publisher reduce component then
      publishFrom dropped (pending && isOverride component) rest
    else if pending && !isOverride component then
      addExdates publisher dropped (shownForm publisher reduce component) ::
        publishFrom dropped false rest
    else shownForm publisher reduce component :: publishFrom dropped pending rest

def masterPrivate (vevents : List Component) : Bool :=
  (vevents.find? fun component => !isOverride component).any (isPrivateClass publisher)

def publishTransform (busy : Bool) (vevents : List Component) (undecodable : Bool) :
    List Component :=
  let reduce := reduces publisher busy undecodable (masterPrivate publisher vevents)
  publishFrom publisher reduce
    (vevents.filter fun component => leftOut publisher reduce component && isOverride component)
    true vevents

end Reducing

section Assembling

def referencedTZIDs (component : Component) : List Bytes :=
  (((publisher.names component).flatMap fun name =>
    (component.props name).flatMap fun prop => prop.params .timezoneId).dedup).mergeSort
      fun left right => decide (left ≤ right)

structure ZoneSpan where
  loc : Zone
  start : Int
  stop : Int

def addYears (years instant : Int) : Int :=
  let date := civil (instant / 86400)
  dayNumber { date with year := date.year + years } * 86400 + instant % 86400

def maxSeriesSpanYears : Int := 50

def seriesSpan (event : Event Raw) : Int × Int :=
  let decade := addYears 10 event.startTime
  let stop := match publisher.ruleUntil event.rrule with
    | some limit => if decade < limit then limit + 86400 else decade
    | none => decade
  (addYears (-1) event.startTime, min stop (addYears maxSeriesSpanYears event.startTime))

def writtenZone (event : Event Raw) : Option ZoneSpan :=
  if event.allDay then none
  else match zone publisher.toPlatform event.timezone with
    | some (.zone data) =>
      let (start, stop) := seriesSpan publisher event
      some ⟨data, start, stop⟩
    | _ => none

def ZoneSpan.widen (span other : ZoneSpan) : ZoneSpan :=
  ⟨span.loc, min span.start other.start, max span.stop other.stop⟩

def addSpan (spans : Bytes → Option ZoneSpan) (event : Event Raw) : Bytes → Option ZoneSpan :=
  if event.icalRaw.isSome || event.rrule = [] then spans
  else match writtenZone publisher event with
    | none => spans
    | some span =>
      match spans event.timezone with
      | none => Function.update spans event.timezone (some span)
      | some found => Function.update spans event.timezone (some (found.widen span))

/-- The zones that the recurring events without a stored text are written in. -/
def exportZoneSpans (events : List (Stored Raw)) : Bytes → Option ZoneSpan :=
  events.foldl (fun spans stored => addSpan publisher spans stored.toEvent) fun _ => none

def vTimezone (span : ZoneSpan) : Component :=
  ⟨.timezone, fun name => if name = propTimezoneID then [publisher.writeText span.loc.name] else [],
    publisher.observances span.loc span.start span.stop⟩

/-- The last VTIMEZONE with the TZID. -/
def definition (children : List Component) (tzid : Bytes) : Option Component :=
  children.reverse.find? fun child =>
    child.name = .timezone && (child.get propTimezoneID).any fun prop => prop.value = tzid

def veventsOf (children : List Component) : List Component :=
  children.filter fun child => child.name = .event

abbrev Piece := Component × List (Bytes × Component)

variable (transform : List Component → Bool → List Component) (stamp : Stored Raw → Int)

def decodedPieces (children : List Component) : List Piece :=
  (transform (veventsOf children) false).map fun component =>
    (component, (referencedTZIDs publisher component).filterMap fun tzid =>
      (definition children tzid).map fun found => (tzid, found))

def fieldPieces (spans : Bytes → Option ZoneSpan) (stored : Stored Raw) (undecodable : Bool) :
    List Piece :=
  let span := if stored.rrule ≠ [] && !stored.allDay then spans stored.timezone else none
  let loc := match span with
    | some span => Location.zone span.loc
    | none => .utc
  let component := synthVEvent publisher.toPlatform stored.toEvent loc (stamp stored)
  match transform [component] undecodable with
  | [] => []
  | shown :: _ => [(shown, span.toList.map fun span => (span.loc.name, vTimezone publisher span))]

def pieces (spans : Bytes → Option ZoneSpan) (stored : Stored Raw) : List Piece :=
  match stored.icalRaw with
  | none => fieldPieces publisher transform stamp spans stored false
  | some raw =>
    match publisher.decode raw with
    | some calendar => decodedPieces publisher transform calendar.children
    | none => fieldPieces publisher transform stamp spans stored true

structure Assembly where
  zones : List (Bytes × Component)
  vevents : List Component

/-- The first definition of a TZID wins. -/
def addZone (zones : List (Bytes × Component)) (entry : Bytes × Component) :
    List (Bytes × Component) :=
  if zones.any fun other => other.1 = entry.1 then zones else zones ++ [entry]

def Assembly.add (assembly : Assembly) (piece : Piece) : Assembly :=
  ⟨piece.2.foldl addZone assembly.zones, assembly.vevents ++ [piece.1]⟩

def buildCalendarICS (events : List (Stored Raw)) : Calendar :=
  let spans := exportZoneSpans publisher events
  let assembly := (events.flatMap (pieces publisher transform stamp spans)).foldl Assembly.add
    ⟨[], []⟩
  ⟨ascii "VERSION:2.0;PRODID:-//Bongo//Calendar//EN",
    assembly.zones.map Prod.snd ++ assembly.vevents⟩

/-- The stamp of the feed does not change between requests. -/
def feedStamp (stored : Stored Raw) : Int := max stored.updatedAt stored.createdAt

def feed (busy : Bool) (events : List (Stored Raw)) : Calendar :=
  buildCalendarICS publisher (publishTransform publisher busy) feedStamp events

end Assembling

end Bongo.Feed
