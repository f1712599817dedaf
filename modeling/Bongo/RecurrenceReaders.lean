import Bongo.SeriesObject

/-!
Which occurrence a RECURRENCE-ID names. The expansion files an override under the
instant it reads in the zone of the series, the web editor looks for it with a
reader of its own in the same zone, and replies, schedule states and sequence
numbers go by a key that is read in UTC.
-/

namespace Bongo.Recurrence

open ByteKeys CivilTime Runes Ical

variable {Raw : Type} (platform : Platform Raw) (prop : Property)

/-- The wall clock a property spells. -/
def spelled : Option Int :=
  let value := trimSpace prop.value
  if isDateProp platform prop then parseDate [] value
  else if hasSuffix value [90] then parseDateTime [90] value
  else parseDateTime [] value

def readIn (loc : Location) : Location :=
  if isDateProp platform prop then loc
  else if hasSuffix (trimSpace prop.value) [90] then .utc
  else (zone platform (prop.param .timezoneId)).getD loc

theorem propInstant_eq (loc : Location) :
    propInstant platform prop loc = (spelled platform prop).map fun wall =>
      ((readIn platform prop loc).instant wall, isDateProp platform prop) := by
  unfold propInstant spelled readIn
  split
  · rename_i date
    simp only [date]
  · rename_i timed
    simp only [timed]
    split <;> rfl

/-- The text of the key, which is read in UTC. -/
def keyText (wall : Int) : Bytes :=
  let instant := (readIn platform prop .utc).instant wall
  if isDateProp platform prop then formatDate (instant / 86400)
  else formatDateTime instant ++ [90]

theorem recurrenceKey_eq :
    recurrenceKey platform prop = (spelled platform prop).map (keyText platform prop) := by
  rw [recurrenceKey, propInstant_eq, Option.map_map]
  rfl

/-- The expansion files the component's override under the key. -/
def files (series : Series Raw) (key : Int) (component : Component) : Bool :=
  component.name = .event && ((component.get .recurrenceId).bind (series.parseTime platform)).map
    (fun time => series.key time.1) = some key

/-- Where the override stands that the expansion keeps under the key, the last one filed. -/
def filed (series : Series Raw) (key : Int) : List Component → Option Nat
  | [] => none
  | component :: rest => ((filed series key rest).map (· + 1)).or
      (if files platform series key component then some 0 else none)

/-- All readers take the property of the component for the same occurrence, or for none, and
take this component for the override of it. -/
structure ReadAlike (series : Series Raw) (start : SeriesCal) (position : Nat)
    (component : Component) : Prop where
  key : recurrenceKey platform prop = (series.parseTime platform prop).map fun time =>
    series.recurrenceID (series.key time.1)
  stands : ∀ slot, start.standsAt platform slot component = true ↔
    ∃ time ∈ series.parseTime platform prop, series.key time.1 = series.key slot
  found : ∀ time ∈ series.parseTime platform prop, start.overrideAt platform time.1 = some position
  kept : ∀ time ∈ series.parseTime platform prop,
    filed platform series (series.key time.1) start.children = some position ∧
    (start.read platform series).overrides.lookup (series.key time.1) =
      some (series.parseOverride platform component)

/-- No VEVENT before the position is found at the slot, and none after it is filed there. -/
structure Single (series : Series Raw) (start : SeriesCal) (position : Nat) (slot : Int) :
    Prop where
  first : ∀ other component, start.children[other]? = some component → other < position →
    start.standsAt platform slot component = false
  last : ∀ other component, start.children[other]? = some component → position < other →
    files platform series (series.key slot) component = false

/-- The value has no white space around it, is a date in an all-day series only, and ends in Z,
has a TZID that loads or stands where the zone of the series is at UTC; and no second VEVENT
stands at its slot. -/
def Settled (series : Series Raw) (start : SeriesCal) (position : Nat) : Prop :=
  ∀ wall ∈ spelled platform prop, (trimSpace prop.value = prop.value ∧
    isDateProp platform prop = series.allDay ∧
    (hasSuffix prop.value [90] = true ∨
      (Ical.zone platform (prop.param .timezoneId)).isSome = true ∨
      series.loc.instant wall = wall)) ∧
    Single platform series start position ((readIn platform prop series.loc).instant wall)

variable {platform prop}

theorem spelled_printable {wall : Int} (read : spelled platform prop = some wall) :
    Printable wall := by
  unfold spelled at read
  dsimp only at read
  split at read
  · exact (parseDate_some (by decide) read).2.2.1
  split at read
  · exact (parseDateTime_some (by decide) read).2.2
  · exact (parseDateTime_some (by decide) read).2.2

theorem notMem_formatDate (day : Int) : (90 : UInt8) ∉ formatDate day := by
  have digits : ∀ width number, (90 : UInt8) ∉ decimal width number := fun width number member =>
    absurd (List.all_eq_true.mp (decimal_digits width number) 90 member) (by decide)
  have year : (90 : UInt8) ∉ yearText (civil day).year := by
    unfold yearText padded
    split <;> split <;> simp [digits]
  simp [formatDate, year, digits]

section Filing

variable (series : Series Raw) (master : Option Nat) (key : Int)

theorem lookup_put (marks : Marks) (other : Int) (found : Override) :
    (marks.put other found).overrides.lookup key =
      if key = other then some found else marks.overrides.lookup key := by
  rw [Marks.put, List.lookup_append, List.lookup_cons, List.lookup_nil]
  by_cases same : key = other
  · subst same
    have gone : (marks.overrides.filter fun entry => entry.1 ≠ key).lookup key = none :=
      (lookup_none_iff _ _).mpr fun entry member => of_decide_eq_true (List.mem_filter.mp member).2
    rw [gone, if_pos rfl, beq_self_eq_true]
    rfl
  · rw [if_neg same, beq_false_of_ne same]
    induction marks.overrides with
    | nil => rfl
    | cons entry rest ih =>
      rw [List.filter_cons, List.lookup_cons]
      by_cases here : entry.1 = other
      · rw [here, beq_false_of_ne same, ← ih]
        simp
      · rw [if_pos (decide_eq_true here), List.lookup_cons]
        cases key == entry.1 with
        | true => rfl
        | false => exact ih

theorem lookup_readComponent (isMaster : Bool) (component : Component) (marks : Marks) :
    (series.readComponent platform isMaster component marks).overrides.lookup key =
      if isMaster = false ∧ files platform series key component = true then
        some (series.parseOverride platform component)
      else marks.overrides.lookup key := by
  unfold Series.readComponent files
  by_cases event : component.name = .event
  · cases isMaster with
    | true =>
      simp only [event, not_true_eq_false, if_false, if_true, Bool.true_eq_false, false_and, ne_eq]
      rw [foldl_overrides (series.exdateLine platform)
        (fun line marks => exdateLine_overrides series line marks)]
    | false =>
      cases read : (component.get .recurrenceId).bind (series.parseTime platform) with
      | none => simp [event]
      | some time =>
        obtain ⟨instant, dateOnly⟩ := time
        simp [event, lookup_put, eq_comm]
  · simp [event]

/-- The expansion keeps what it read from the component filed last. -/
theorem lookup_readFrom {position : Nat} {children : List Component}
    (plain : ∀ (index : Nat) component, children[index]? = some component →
      master = some (position + index) → component.get .recurrenceId = none) (marks : Marks) :
    (series.readFrom platform master position children marks).overrides.lookup key =
      match filed platform series key children with
      | some index => (children[index]?).map (series.parseOverride platform)
      | none => marks.overrides.lookup key := by
  induction children generalizing position marks with
  | nil => rfl
  | cons first rest ih =>
    have later : ∀ (index : Nat) component, rest[index]? = some component →
        master = some (position + 1 + index) → component.get .recurrenceId = none := by
      intro index component there same
      exact plain (index + 1) component there (by rw [same]; congr 1; omega)
    rw [Series.readFrom, ih later, filed]
    cases filed platform series key rest with
    | some index => rfl
    | none =>
      rw [lookup_readComponent]
      cases own : files platform series key first with
      | false => simp
      | true =>
        have other : master ≠ some position := by
          intro same
          simp [files, plain 0 first rfl same] at own
        simp [other]

theorem filed_eq_none (children : List Component) : filed platform series key children = none ↔
    ∀ component ∈ children, files platform series key component = false := by
  induction children with
  | nil => simp [filed]
  | cons first rest ih =>
    rw [filed, Option.or_eq_none_iff, Option.map_eq_none_iff, ih, List.forall_mem_cons, and_comm]
    simp

theorem filed_eq_some (children : List Component) (index : Nat) :
    filed platform series key children = some index ↔
      (∃ component, children[index]? = some component ∧
        files platform series key component = true) ∧
      ∀ (other : Nat) component, children[other]? = some component → index < other →
        files platform series key component = false := by
  induction children generalizing index with
  | nil => simp [filed]
  | cons first rest ih =>
    rw [filed]
    cases index with
    | zero =>
      have own : ((filed platform series key rest).map (· + 1)).or
          (if files platform series key first then some 0 else none) = some 0 ↔
          files platform series key first = true ∧ filed platform series key rest = none := by
        cases filed platform series key rest <;> simp
      rw [own, filed_eq_none]
      constructor
      · rintro ⟨here, later⟩
        refine ⟨⟨first, rfl, here⟩, fun other component there above => ?_⟩
        obtain ⟨other, rfl⟩ := Nat.exists_eq_succ_of_ne_zero above.ne'
        exact later component (List.mem_of_getElem? there)
      · rintro ⟨⟨_, ⟨⟩, here⟩, later⟩
        refine ⟨here, fun component member => ?_⟩
        obtain ⟨other, there⟩ := List.getElem?_of_mem member
        exact later (other + 1) component there (Nat.succ_pos other)
    | succ index =>
      have shift : ((filed platform series key rest).map (· + 1)).or
          (if files platform series key first then some 0 else none) = some (index + 1) ↔
          filed platform series key rest = some index := by
        cases filed platform series key rest <;> simp
      rw [shift, ih]
      refine and_congr_right fun _ => ⟨fun later other component there above => ?_,
        fun later other component there above =>
          later (other + 1) component there (Nat.succ_lt_succ above)⟩
      obtain ⟨other, rfl⟩ := Nat.exists_eq_succ_of_ne_zero (Nat.ne_zero_of_lt above)
      exact later other component there (Nat.lt_of_succ_lt_succ above)

end Filing

section Text

variable {known : Event Raw} {series : Series Raw} (made : newSeries platform known = some series)
include made

theorem keyText_iff {wall : Int} (read : spelled platform prop = some wall) :
    keyText platform prop wall =
        series.recurrenceID (series.key ((readIn platform prop series.loc).instant wall)) ↔
      isDateProp platform prop = series.allDay ∧ (readIn platform prop .utc).instant wall =
        (readIn platform prop series.loc).instant wall := by
  obtain ⟨event, zone, -⟩ := newSeries_some made
  unfold keyText Series.recurrenceID Series.key
  cases date : isDateProp platform prop with
  | true =>
    cases allDay : series.allDay with
    | true =>
      have dated : series.event.allDay = true := allDay
      have utc : series.loc = .utc := by rw [zone, seriesZone, ← event, if_pos dated]
      rw [utc]
      simp
    | false =>
      simp only [Bool.false_eq_true, if_false, false_and, iff_false, Bool.true_eq_false]
      intro same
      exact notMem_formatDate _ (same ▸ List.mem_append_right _ List.mem_cons_self)
  | false =>
    cases allDay : series.allDay with
    | true =>
      simp only [Bool.false_eq_true, if_false, false_and, iff_false]
      intro same
      exact notMem_formatDate _ (same ▸ List.mem_append_right _ List.mem_cons_self)
    | false =>
      simp only [Bool.false_eq_true, if_false, true_and, List.append_cancel_right_eq]
      refine ⟨fun same => ?_, fun same => by rw [same]⟩
      unfold readIn at same ⊢
      simp only [date, Bool.false_eq_true, if_false] at same ⊢
      split
      · rfl
      rename_i floating
      rw [if_neg floating, if_neg floating] at same
      cases found : Ical.zone platform (prop.param .timezoneId) with
      | some own => rfl
      | none =>
        rw [found] at same
        exact (formatDateTime_inj (spelled_printable read) same.symm).symm

theorem sameInstant_iff {wall : Int} (date : isDateProp platform prop = series.allDay)
    (trimmed : trimSpace prop.value = prop.value) :
    (readIn platform prop .utc).instant wall = (readIn platform prop series.loc).instant wall ↔
      hasSuffix prop.value [90] = true ∨
        (Ical.zone platform (prop.param .timezoneId)).isSome = true ∨
        series.loc.instant wall = wall := by
  obtain ⟨event, zone, -⟩ := newSeries_some made
  unfold readIn
  cases allDay : series.allDay with
  | true =>
    have dated : series.event.allDay = true := allDay
    have utc : series.loc = .utc := by rw [zone, seriesZone, ← event, if_pos dated]
    simp [utc, Location.instant]
  | false =>
    rw [date, allDay, trimmed]
    cases hasSuffix prop.value [90] with
    | true => simp
    | false =>
      cases Ical.zone platform (prop.param .timezoneId) with
      | some own => simp
      | none => simp [Location.instant, eq_comm]

/-- The readers agree exactly on the settled properties. -/
theorem readers_agree_iff (calendar : Calendar) {start : SeriesCal}
    (opened : newSeriesCal platform calendar known = some start) {position : Nat}
    {component : Component} (there : calendar.children[position]? = some component)
    (event : component.name = .event) (rid : component.get .recurrenceId = some prop) :
    ReadAlike platform prop series start position component ↔
      Settled platform prop series start position := by
  obtain ⟨same, found, loc, allDay⟩ := newSeriesCal_some opened
  obtain ⟨known_, zone, -⟩ := newSeries_some made
  have keys : ∀ instant, start.key instant = series.key instant := by
    intro instant
    rw [SeriesCal.key, Series.key, allDay, Series.allDay, known_]
  have children : start.children = calendar.children := congrArg Calendar.children same
  have here : start.children[position]? = some component := children ▸ there
  have time := parseTime_eq made prop
  rw [propInstant_eq] at time
  have stands : ∀ slot, start.standsAt platform slot component = true ↔
      ∃ wall ∈ spelled platform prop,
        series.key ((readIn platform prop series.loc).instant wall) = series.key slot := by
    intro slot
    simp only [SeriesCal.standsAt, rid, Option.bind_some, loc, ← zone, propInstant_eq, event, keys]
    cases spelled platform prop <;> simp
  have parsed : ∀ wall, spelled platform prop = some wall → trimSpace prop.value = prop.value →
      series.parseTime platform prop =
        some ((readIn platform prop series.loc).instant wall, isDateProp platform prop) := by
    intro wall read trimmed
    rw [time, if_pos trimmed, read]
    rfl
  constructor
  · rintro ⟨alike, -, first, kept⟩ wall read
    rw [recurrenceKey_eq, time, read] at alike
    split at alike
    · rename_i trimmed
      obtain ⟨date, instants⟩ := (keyText_iff made read).mp (Option.some.inj alike)
      refine ⟨⟨trimmed, date, (sameInstant_iff made date trimmed).mp instants⟩, ?_, ?_⟩
      · intro other component there before
        obtain ⟨_, _, absent⟩ :=
          List.findIdx?_eq_some_iff_getElem.mp (first _ (parsed wall read trimmed))
        obtain ⟨bound, rfl⟩ := List.getElem?_eq_some_iff.mp there
        exact Bool.eq_false_iff.mpr (absent other before)
      · exact ((filed_eq_some series _ _ _).mp (kept _ (parsed wall read trimmed)).1).2
    · cases alike
  intro settled
  have placed : ∀ slot, start.standsAt platform slot component = true ↔
      ∃ time ∈ series.parseTime platform prop, series.key time.1 = series.key slot := by
    intro slot
    rw [stands, time]
    cases read : spelled platform prop with
    | none => simp
    | some wall => simp [(settled wall read).1.1]
  have single : ∀ time ∈ series.parseTime platform prop,
      Single platform series start position time.1 := by
    intro found read
    rw [Option.mem_def, time, Option.ite_none_right_eq_some, Option.map_eq_some_iff] at read
    obtain ⟨-, wall, spelt, rfl⟩ := read
    exact (settled wall spelt).2
  refine ⟨?_, placed, ?_, ?_⟩
  · rw [recurrenceKey_eq]
    cases read : spelled platform prop with
    | none =>
      rw [time, read]
      simp
    | some wall =>
      obtain ⟨⟨trimmed, date, instants⟩, -⟩ := settled wall read
      rw [parsed wall read trimmed]
      exact congrArg some ((keyText_iff made read).mpr
        ⟨date, (sameInstant_iff made date trimmed).mpr instants⟩)
  · intro time read
    obtain ⟨bound, own⟩ := List.getElem?_eq_some_iff.mp here
    refine List.findIdx?_eq_some_iff_getElem.mpr ⟨bound, ?_, fun other before => ?_⟩
    · rw [own]
      exact (placed time.1).mpr ⟨time, read, rfl⟩
    · exact Bool.eq_false_iff.mp ((single time read).first other _
        (List.getElem?_eq_getElem (before.trans bound)) before)
  · intro time read
    have files : files platform series (series.key time.1) component = true := by
      simp [Recurrence.files, event, rid, Option.mem_def.mp read]
    have last := (filed_eq_some series (series.key time.1) start.children position).mpr
      ⟨⟨component, here, files⟩, (single time read).last⟩
    refine ⟨last, ?_⟩
    obtain ⟨own, at_, -, bare⟩ := masterFrom_found found
    have plain : ∀ (index : Nat) other, calendar.children[index]? = some other →
        (master platform calendar).map (·.1) = some (0 + index) →
        other.get .recurrenceId = none := by
      intro index other inside isMaster
      rw [found, Option.map_some, Option.some.injEq, Nat.zero_add] at isMaster
      rw [← isMaster, at_] at inside
      exact Option.some.inj inside ▸ bare
    rw [SeriesCal.read, same, Series.readCalendar, lookup_readFrom series _ _ plain, ← children,
      last]
    simp [here]

end Text

def nightSeries : Series Calendar :=
  ⟨nightEvent, sampleRule [1792796400, 1792796400 + 86400], .zone sampleZone⟩

def nightRid : Property := dateTimeProp (.zone sampleZone) 1792882800

def nightOverride : Component := (emptyComponent .event).set .recurrenceId nightRid

def nightCalendar : Calendar :=
  ⟨[], [sampleMaster [] (dateTimeProp .utc 0) (dateTimeProp .utc 0), nightOverride]⟩

/-- The second night, named in the zone of the series. -/
theorem readers_agree_iff_night :
    ∃ start, newSeriesCal samplePlatform nightCalendar nightEvent = some start ∧
      ReadAlike samplePlatform nightRid nightSeries start 1 nightOverride := by
  have made : newSeries samplePlatform nightEvent = some nightSeries := rfl
  refine ⟨_, rfl, (readers_agree_iff made nightCalendar rfl rfl rfl rfl).mpr ?_⟩
  intro wall read
  have spelt : spelled samplePlatform nightRid = some 1792890000 := by decide
  obtain rfl : wall = 1792890000 := Option.some.inj (read.symm.trans spelt)
  refine ⟨by decide, ?_, ?_⟩
  · intro other component there before
    obtain rfl : other = 0 := by omega
    cases there
    decide
  · intro other component there after
    obtain ⟨bound, -⟩ := List.getElem?_eq_some_iff.mp there
    exact absurd bound (Nat.not_lt.mpr after)

/-- Without a zone of its own the second night is filed under 23 hours of the day before, and the
key of an answer to it says one o'clock. -/
theorem floating_key_differs :
    newSeries samplePlatform nightEvent = some nightSeries ∧
      (nightSeries.parseTime samplePlatform (newProp (ascii "20261025T010000"))).map
          (fun time => nightSeries.recurrenceID (nightSeries.key time.1)) =
        some (ascii "20261024T230000Z") ∧
      recurrenceKey samplePlatform (newProp (ascii "20261025T010000")) =
        some (ascii "20261025T010000Z") :=
  ⟨rfl, by decide, by decide⟩

end Bongo.Recurrence
