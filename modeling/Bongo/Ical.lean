import Bongo.CivilTime
import Bongo.ByteSearch
import Bongo.Runes

/-!
iCalendar objects as the calendar code handles them, and the helpers of
`icalevent` and `imip` that read and write single properties: the instant of a
DATE or DATE-TIME property, the value form of a series, the master VEVENT, and
the answer of an attendee.

A component maps a property name to its properties in document order. The text
of an object is the codec's matter; so are escaping, DURATION values and the
instants of a recurrence rule. They are parameters, as are the zone database,
the Unicode tables and the address parser.
-/

namespace Bongo.Ical

open ByteKeys CivilTime Runes

inductive PropName where
  | recurrenceRule
  | recurrenceDates
  | exceptionDates
  | exceptionRule
  | recurrenceId
  | dateTimeStart
  | dateTimeEnd
  | duration
  | summary
  | description
  | location
  | status
  | transparency
  | organizer
  | attendee
  | sequence
  | dateTimeStamp
  | lastModified
  | uid
  | other (name : Bytes)
  deriving DecidableEq

inductive ParamName where
  | value
  | timezoneId
  | participationStatus
  | rsvp
  | commonName
  | role
  | other (name : Bytes)
  deriving DecidableEq

inductive CompName where
  | event
  | timezone
  | other (name : Bytes)
  deriving DecidableEq

/-- A property without its name. A parameter may have several values. -/
structure Property where
  params : ParamName → List Bytes
  value : Bytes

/-- `Params.Get`: the first value, or nothing. -/
def Property.param (prop : Property) (name : ParamName) : Bytes := (prop.params name).headD []

def Property.setParam (prop : Property) (name : ParamName) (value : Bytes) : Property :=
  { prop with params := Function.update prop.params name [value] }

def newProp (value : Bytes) : Property := ⟨fun _ => [], value⟩

/-- `inner` stands for the components within, which are only copied. -/
structure Component where
  name : CompName
  props : PropName → List Property
  inner : Bytes

def Component.get (component : Component) (name : PropName) : Option Property :=
  (component.props name).head?

def Component.setAll (component : Component) (name : PropName) (props : List Property) :
    Component :=
  { component with props := Function.update component.props name props }

def Component.set (component : Component) (name : PropName) (prop : Property) : Component :=
  component.setAll name [prop]

def Component.del (component : Component) (name : PropName) : Component :=
  component.setAll name []

@[simp] theorem Component.setAll_self (component : Component) (name : PropName)
    (props : List Property) : (component.setAll name props).props name = props := by
  simp [Component.setAll, Function.update_self]

theorem Component.setAll_ne (component : Component) {name other : PropName}
    (different : other ≠ name) (props : List Property) :
    (component.setAll name props).props other = component.props other := by
  simp [Component.setAll, Function.update_of_ne different]

/-- `header` stands for the properties of the calendar itself. -/
structure Calendar where
  header : Bytes
  children : List Component

/-- A zone other than `time.UTC`: the wall clock an instant has, and the instant
`time.Date` takes for a wall clock. A wall clock may come twice, or never. -/
structure Zone where
  name : Bytes
  wall : Int → Int
  instant : Int → Int

inductive Location where
  | utc
  | zone (data : Zone)

def Location.wall : Location → Int → Int
  | .utc, instant => instant
  | .zone data, instant => data.wall instant

def Location.instant : Location → Int → Int
  | .utc, wall => wall
  | .zone data, wall => data.instant wall

/-- A recurrence rule. `Between` lists the instants of the rule within its
bounds, both included, each as often as the rule has it. -/
structure Rule where
  between : Int → Int → List Int
  within : ∀ start stop instant, (between start stop).count instant =
    if start ≤ instant ∧ instant ≤ stop then (between instant instant).count instant else 0

theorem Rule.mem_between (rule : Rule) (start stop instant : Int) :
    instant ∈ rule.between start stop ↔
      start ≤ instant ∧ instant ≤ stop ∧ instant ∈ rule.between instant instant := by
  rw [← List.count_pos_iff, rule.within, ← and_assoc, ← List.count_pos_iff]
  split
  · rename_i inside
    simp [inside]
  · rename_i outside
    simp [outside]

/-- `Raw` is the type of stored iCalendar texts. `mentions` says that one holds
`EXDATE` or `RECURRENCE-ID` in any case. -/
structure Platform (Raw : Type) extends FoldTable where
  decode : Raw → Option Calendar
  encode : Calendar → Option Raw
  mentions : Raw → Bool
  writeText : Bytes → Property
  readText : Property → Option Bytes
  readDuration : Property → Option Int
  ruleReads : Bytes → Bool
  newRule : Bytes → Int → Location → Option Rule
  loadLocation : Bytes → Option Location
  windowsZones : Bytes → Option Bytes
  parseAddress : Bytes → Bool

variable {Raw : Type} (platform : Platform Raw)

def zoneByte (byte : UInt8) : Bool :=
  (97 ≤ byte && byte ≤ 122) || (65 ≤ byte && byte ≤ 90) || (48 ≤ byte && byte ≤ 57) ||
    byte = 95 || byte = 43 || byte = 45 || byte = 47

def zoneNameShape (name : Bytes) : Bool :=
  (index (ascii "..") name).isNone && !hasPrefix name [47] && name.all zoneByte

def zone (name : Bytes) : Option Location :=
  if name = [] ∨ name = ascii "Local" ∨ 64 < name.length then none
  else
    (if zoneNameShape name then platform.loadLocation name else none).or
      ((platform.windowsZones name).bind platform.loadLocation)

def zoneOrUTC (name : Bytes) : Location := (zone platform name).getD .utc

def isDateProp (prop : Property) : Bool :=
  platform.equalFold (prop.param .value) (ascii "DATE") || (trimSpace prop.value).length = 8

/-- The instant of a DATE or DATE-TIME property, and whether it is a date. -/
def propInstant (prop : Property) (loc : Location) : Option (Int × Bool) :=
  let value := trimSpace prop.value
  if isDateProp platform prop then
    (parseDate [] value).map fun wall => (loc.instant wall, true)
  else if hasSuffix value [90] then
    (parseDateTime [90] value).map fun wall => (wall, false)
  else
    let loc := (zone platform (prop.param .timezoneId)).getD loc
    (parseDateTime [] value).map fun wall => (loc.instant wall, false)

def dateProp (day : Int) : Property := (newProp (formatDate day)).setParam .value (ascii "DATE")

/-- `SetDateTime` of an instant in a location. -/
def dateTimeProp : Location → Int → Property
  | .utc, instant => newProp (formatDateTime instant ++ [90])
  | .zone data, instant =>
    (newProp (formatDateTime (data.wall instant))).setParam .timezoneId data.name

/-- The day of an all-day time: the nearest midnight. -/
def allDayDate (unix : Int) : Int := (unix + 43200) / 86400

def zeroTime : Int := -62135596800

def eventStart (component : Component) : Option Int :=
  match component.get .dateTimeStart with
  | none => some zeroTime
  | some prop => (propInstant platform prop .utc).map (·.1)

def parseExdate (text : Bytes) (loc : Location) : Option (Int × Bool) :=
  ((parseDateTime [90] text).map fun wall => (wall, false)).or <|
  ((parseDateTime [] text).map fun wall => (loc.instant wall, false)).or <|
  ((parseDate [] text).map fun wall => (loc.instant wall, true)).or <|
  (parseDate [45] text).map fun wall => (loc.instant wall, true)

/-- When an override stands: its RECURRENCE-ID, or else its start. -/
def overrideInstant (component : Component) (rid : Property) : Option Int :=
  ((propInstant platform rid .utc).map (·.1)).or (eventStart platform component)

def earlier : Option Int → Option Int → Bool
  | none, _ => false
  | some _, none => true
  | some time, some best => time < best

/-- The position of the master from `position` on, and whether it is only an
override; `best` is the earliest override so far. -/
def masterFrom (position : Nat) (best : Option (Nat × Option Int)) :
    List Component → Option (Nat × Bool)
  | [] => best.map fun found => (found.1, true)
  | component :: rest =>
    if component.name = .event then
      match component.get .recurrenceId with
      | none => some (position, false)
      | some rid =>
        let time := overrideInstant platform component rid
        let best := match best with
          | none => (position, time)
          | some found => if earlier time found.2 then (position, time) else found
        masterFrom (position + 1) (some best) rest
    else masterFrom (position + 1) best rest

def master (calendar : Calendar) : Option (Nat × Bool) :=
  masterFrom platform 0 none calendar.children

def isControl (rune : Nat) : Bool := rune < 0x20 || (0x7F ≤ rune && rune < 0xA0)

def validAddress (text : Bytes) : Bool :=
  text ≠ [] && text.length ≤ 254 && (runesFrom 0 text).all (fun rune => !isControl rune) &&
    !text.contains 34 && platform.parseAddress text && text.contains 64

def normaliseAddress (address : Bytes) : Bytes := platform.lowerText (trimSpace address)

def itoa (number : Int) : Bytes :=
  if number < 0 then 45 :: padded 1 number.natAbs else padded 1 number.natAbs

end Bongo.Ical
