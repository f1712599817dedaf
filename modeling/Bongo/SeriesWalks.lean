import Bongo.SeriesObject

/-!
The walks over a series: the listing of a range, the look-up of one occurrence and
the test whether the series is over, each compared with the occurrences that the
series has whatever the range; and the listing of all events of a range.
-/

namespace Bongo.Recurrence

open ByteKeys CivilTime Runes Ical

variable {Raw : Type} (platform : Platform Raw)

/-- `bounded` says that a rule has an UNTIL or a COUNT, and `after` is the first instant
of a rule after a time. -/
def seriesEndsBy (bounded : Bytes → Bool) (after : Rule → Int → Option Int) (event : Event Raw)
    (time : Int) : Bool :=
  if event.rrule = [] || !bounded event.rrule then false
  else
    match newSeries platform event with
    | none => false
    | some series =>
      (after series.rule (time - series.duration)).isNone &&
        (series.marks platform).overrides.all fun (_, found) => found.cancelled ||
          (if found.hasEnd then found.stop else found.start + series.duration) ≤ time

def eventsBetween (event : Event Raw) (start stop : Int) : List (Event Raw) :=
  -- A rule that cannot be read leaves the event as it stands.
  match if event.rrule = [] then none else expandRecurrence platform event start stop with
  | some expanded => expanded
  | none => if Series.overlaps start stop event.startTime event.endTime then [event] else []

/-- The stored events come in the order of their keys, each with its calendar; records
that cannot be read are passed over. -/
def listByDateRange (stored : List (Bytes × Event Raw)) (start stop : Int) (calendarID : Bytes) :
    List (Event Raw) :=
  ((stored.filter fun entry => calendarID = [] || entry.1 = calendarID).flatMap fun entry =>
    eventsBetween platform entry.2 start stop).insertionSort
    fun left right => left.startTime ≤ right.startTime

namespace Series

variable (series : Series Raw) (marks : Marks)

/-- An instant of the rule that is neither excluded nor replaced. -/
structure Stands (slot : Int) : Prop where
  ruled : slot ∈ series.rule.between slot slot
  kept : series.excluded marks slot = false
  free : marks.overrides.lookup (series.key slot) = none

def slotOccurrence (slot : Int) : Event Raw :=
  series.occurrence (series.key slot) slot (slot + series.duration)

/-- Listed for every range that it overlaps. -/
def Shown (rangeStart rangeEnd : Int) (event : Event Raw) : Prop :=
  overlaps rangeStart rangeEnd event.startTime event.endTime = true

inductive Occurs : Event Raw → Prop
  | slot {slot : Int} (stands : series.Stands marks slot) : Occurs (series.slotOccurrence slot)
  | override {key : Int} {found : Override} (entry : (key, found) ∈ marks.overrides)
      (live : found.cancelled = false) : Occurs (series.overrideOccurrence platform key found)

/-- A listing has each slot and each override in its range once. -/
structure Lists (rangeStart rangeEnd : Int) (listing : List (Event Raw)) (slots : List Int)
    (entries : List (Int × Override)) : Prop where
  listed : listing.Perm (slots.map series.slotOccurrence ++
    entries.map fun entry => series.overrideOccurrence platform entry.1 entry.2)
  once : slots.Nodup
  slots : ∀ slot, slot ∈ slots ↔
    series.Stands marks slot ∧ Shown rangeStart rangeEnd (series.slotOccurrence slot)
  single : (entries.map Prod.fst).Nodup
  entries : ∀ entry, entry ∈ entries ↔ entry ∈ marks.overrides ∧ entry.2.cancelled = false ∧
    Shown rangeStart rangeEnd (series.overrideOccurrence platform entry.1 entry.2)

variable {platform series marks}

theorem shown_iff (rangeStart rangeEnd : Int) (event : Event Raw) :
    Shown rangeStart rangeEnd event ↔ event.startTime < rangeEnd ∧ rangeStart < event.endTime := by
  rw [Shown, overlaps, Bool.and_eq_true, decide_eq_true_iff, decide_eq_true_iff]

theorem mem_slots (rangeStart rangeEnd slot : Int) :
    slot ∈ (series.rule.between (rangeStart - series.duration) rangeEnd).filter
        (series.standing marks rangeStart rangeEnd) ↔
      series.Stands marks slot ∧ Shown rangeStart rangeEnd (series.slotOccurrence slot) := by
  rw [List.mem_filter, Rule.mem_between]
  simp only [standing, Bool.and_eq_true, Bool.not_eq_true', Option.isNone_iff_eq_none]
  constructor
  · rintro ⟨⟨-, -, ruled⟩, ⟨shown, kept⟩, free⟩
    exact ⟨⟨ruled, kept, free⟩, shown⟩
  rintro ⟨⟨ruled, kept, free⟩, shown⟩
  refine ⟨⟨?_, ?_, ruled⟩, ⟨shown, kept⟩, free⟩
  all_goals
    have inside := (shown_iff _ _ _).mp shown
    simp only [slotOccurrence, occurrence] at inside
    omega

theorem instances_lists
    (once : ∀ slot, (series.rule.between slot slot).count slot ≤ 1)
    (single : (marks.overrides.map Prod.fst).Nodup) (rangeStart rangeEnd : Int) :
    ∃ slots entries, Lists platform series marks rangeStart rangeEnd
      (series.instances platform marks rangeStart rangeEnd) slots entries := by
  refine ⟨_, marks.overrides.filter fun entry => !entry.2.cancelled && overlaps rangeStart rangeEnd
    (series.overrideOccurrence platform entry.1 entry.2).startTime
    (series.overrideOccurrence platform entry.1 entry.2).endTime,
    ?_, ?_, mem_slots rangeStart rangeEnd, ?_, ?_⟩
  · refine (List.perm_insertionSort _ _).trans (List.Perm.append (.refl _) (.of_eq ?_))
    rw [overridden, List.filter_map, List.filter_filter]
    congr 2
    funext entry
    exact Bool.and_comm _ _
  · refine List.Nodup.filter _ (List.nodup_iff_count_le_one.mpr fun slot => ?_)
    rw [series.rule.within]
    split
    · exact once slot
    · exact Nat.zero_le 1
  · exact single.sublist (List.filter_sublist.map _)
  · intro entry
    simp [Shown]

theorem mem_instances {rangeStart rangeEnd : Int} {event : Event Raw} :
    event ∈ series.instances platform marks rangeStart rangeEnd ↔
      Occurs platform series marks event ∧ Shown rangeStart rangeEnd event := by
  rw [instances, List.mem_insertionSort, List.mem_append, ruled, List.mem_map]
  simp only [mem_slots rangeStart rangeEnd]
  constructor
  · rintro (⟨slot, ⟨stands, shown⟩, rfl⟩ | moved)
    · exact ⟨.slot stands, shown⟩
    · obtain ⟨made, shown⟩ := List.mem_filter.mp moved
      obtain ⟨⟨key, found⟩, entry, rfl⟩ := List.mem_map.mp made
      obtain ⟨entry, live⟩ := List.mem_filter.mp entry
      exact ⟨.override entry (Bool.not_eq_true' _ ▸ live), shown⟩
  · rintro ⟨occurs, shown⟩
    cases occurs with
    | slot stands => exact .inl ⟨_, ⟨stands, shown⟩, rfl⟩
    | override entry live =>
      refine .inr (List.mem_filter.mpr ⟨List.mem_map.mpr ⟨(_, _), ?_, rfl⟩, shown⟩)
      exact List.mem_filter.mpr ⟨entry, congrArg Bool.not live⟩

/-- Some range shows an occurrence, even one of no length. -/
theorem Occurs.listed {event : Event Raw} (occurs : Occurs platform series marks event) :
    event ∈ series.instances platform marks (event.endTime - 1) (event.startTime + 1) :=
  mem_instances.mpr ⟨occurs, (shown_iff _ _ _).mpr ⟨by omega, by omega⟩⟩

/-- Overrides stand at slots of the series, at most one at each. -/
structure Keyed (series : Series Raw) (marks : Marks) : Prop where
  single : (marks.overrides.map Prod.fst).Nodup
  own : ∀ entry ∈ marks.overrides, series.key entry.1 = entry.1

theorem key_key (instant : Int) : series.key (series.key instant) = series.key instant := by
  unfold key
  split
  · omega
  · rfl

theorem Keyed.put (keyed : Keyed series marks) (instant : Int) (found : Override) :
    Keyed series (marks.put (series.key instant) found) := by
  constructor
  · rw [Marks.put, List.map_append]
    refine (keyed.single.sublist (List.filter_sublist.map _)).append (List.nodup_singleton _) ?_
    intro key left right
    obtain ⟨entry, kept, rfl⟩ := List.mem_map.mp left
    exact of_decide_eq_true (List.mem_filter.mp kept).2 (List.mem_singleton.mp right)
  · refine List.forall_mem_append.mpr ⟨fun entry kept => keyed.own entry ?_, ?_⟩
    · exact (List.mem_filter.mp kept).1
    · exact List.forall_mem_singleton.mpr (key_key instant)

theorem Keyed.readComponent (keyed : Keyed series marks) (isMaster : Bool)
    (component : Component) :
    Keyed series (series.readComponent platform isMaster component marks) := by
  unfold Series.readComponent
  split
  · exact keyed
  split
  · have same := foldl_overrides (series.exdateLine platform)
      (fun line marks => exdateLine_overrides series line marks) (component.props .exceptionDates)
      marks
    exact ⟨same ▸ keyed.single, same ▸ keyed.own⟩
  · split
    · exact keyed
    · exact keyed.put _ _

theorem Keyed.readFrom {children : List Component} {position : Nat} (master : Option Nat)
    (keyed : Keyed series marks) :
    Keyed series (series.readFrom platform master position children marks) := by
  induction children generalizing position marks with
  | nil => exact keyed
  | cons component rest ih => exact ih (keyed.readComponent _ component)

theorem marks_keyed : Keyed series (series.marks platform) := by
  have structured : Keyed series (series.structuredMarks platform) := by
    constructor <;> simp [structuredMarks_overrides]
  unfold Series.marks Series.readIcal
  split
  · exact structured
  split
  · split
    · exact structured
    · exact structured.readFrom _
  · exact structured

theorem Keyed.lookup {entries : List (Int × Override)} {key : Int} {found : Override}
    (single : (entries.map Prod.fst).Nodup) (entry : (key, found) ∈ entries) :
    entries.lookup key = some found := by
  induction entries with
  | nil => cases entry
  | cons first rest ih =>
    rw [List.map_cons, List.nodup_cons] at single
    rcases List.mem_cons.mp entry with rfl | later
    · exact List.lookup_cons_self
    · have apart : key ≠ first.1 := fun same =>
        single.1 (same ▸ List.mem_map_of_mem later)
      rw [List.lookup_cons, beq_false_of_ne apart]
      exact ih single.2 later

/-- The instants that identifiers of the series can spell. -/
structure Spelled (series : Series Raw) (marks : Marks) : Prop where
  slots : ∀ slot ∈ series.rule.between slot slot, Printable slot
  entries : ∀ entry ∈ marks.overrides, Printable entry.1

theorem find_occurs (keyed : Keyed series marks) (spelled : Spelled series marks)
    (dated : ∀ slot ∈ series.rule.between slot slot, series.key slot = slot) {event : Event Raw}
    (occurs : Occurs platform series marks event) :
    series.find platform marks event.recurrenceId = some event := by
  cases occurs with
  | @slot slot stands =>
    have own := dated slot stands.ruled
    have read := parseRecurrenceID_recurrenceID own (spelled.slots slot stands.ruled)
    have there := List.ne_nil_of_mem stands.ruled
    rw [slotOccurrence, occurrence, find, own, read, Option.bind_some, stands.free]
    simp only [stands.kept, Bool.false_eq_true, there, or_self, if_false, own]
    rfl
  | @override key found entry live =>
    have own := keyed.own _ entry
    have read := parseRecurrenceID_recurrenceID own (spelled.entries _ entry)
    have there := Keyed.lookup keyed.single entry
    change series.find platform marks (series.recurrenceID key) = _
    rw [find, read, Option.bind_some, own, there]
    simp [live]

theorem occurs_of_find {rid : Bytes} {event : Event Raw}
    (found : series.find platform marks rid = some event) :
    Occurs platform series marks event := by
  obtain ⟨instant, -, there⟩ := Option.bind_eq_some_iff.mp found
  split at there
  · rename_i entry
    split at there
    · cases there
    · rename_i live
      obtain ⟨before, after, all, -⟩ := List.lookup_eq_some_iff.mp entry
      exact Option.some.inj there ▸ .override (all ▸ List.mem_append_right before
        List.mem_cons_self) (Bool.eq_false_iff.mpr live)
  · rename_i free
    split at there
    · cases there
    rename_i kept
    obtain ⟨kept, ruled⟩ := not_or.mp kept
    obtain ⟨slot, member⟩ := List.exists_mem_of_ne_nil _ ruled
    obtain ⟨low, high, -⟩ := (series.rule.mem_between _ _ _).mp member
    obtain rfl : slot = instant := by omega
    exact Option.some.inj there ▸ .slot ⟨member, Bool.eq_false_iff.mpr kept, free⟩

end Series

variable {event : Event Raw} {series : Series Raw}

theorem instances_of_endsBy {bounded : Bytes → Bool} {after : Rule → Int → Option Int}
    (last : ∀ time, after series.rule time = none →
      ∀ slot ∈ series.rule.between slot slot, slot ≤ time)
    (made : newSeries platform event = some series) {time : Int}
    (ended : seriesEndsBy platform bounded after event time = true) (rangeEnd : Int) :
    series.instances platform (series.marks platform) time rangeEnd = [] := by
  unfold seriesEndsBy at ended
  split at ended
  · cases ended
  rw [made] at ended
  obtain ⟨over_, moved⟩ := (Bool.and_eq_true _ _).mp ended
  refine List.eq_nil_iff_forall_not_mem.mpr fun listed member => ?_
  obtain ⟨occurs, shown⟩ := Series.mem_instances.mp member
  have late := ((Series.shown_iff _ _ _).mp shown).2
  cases occurs with
  | @slot slot stands =>
    have early := last _ (Option.isNone_iff_eq_none.mp over_) slot stands.ruled
    simp only [Series.slotOccurrence, Series.occurrence] at late
    omega
  | @override key found entry live =>
    have early := List.all_eq_true.mp moved _ entry
    simp only [live, Bool.false_or, decide_eq_true_iff] at early
    exact absurd late (not_lt.mpr early)

/-- The occurrences of an event whatever the range; a rule that cannot be read has the
event as its only one. -/
def EventOccurs (event occurrence : Event Raw) : Prop :=
  match if event.rrule = [] then none else newSeries platform event with
  | some series => Series.Occurs platform series (series.marks platform) occurrence
  | none => occurrence = event

theorem mem_eventsBetween (event occurrence : Event Raw) (start stop : Int) :
    occurrence ∈ eventsBetween platform event start stop ↔
      EventOccurs platform event occurrence ∧ Series.Shown start stop occurrence := by
  have single : occurrence ∈ (if Series.overlaps start stop event.startTime event.endTime
      then [event] else []) ↔ occurrence = event ∧ Series.Shown start stop occurrence := by
    split
    · rename_i inside
      rw [List.mem_singleton]
      exact ⟨fun same => ⟨same, same ▸ inside⟩, And.left⟩
    · rename_i outside
      exact iff_of_false List.not_mem_nil fun ⟨same, inside⟩ => outside (same ▸ inside)
  unfold eventsBetween EventOccurs
  by_cases plain : event.rrule = []
  · simpa only [plain, if_true] using single
  cases made : newSeries platform event with
  | none => simpa only [plain, if_false, expandRecurrence, made, Option.map_none] using single
  | some series =>
    simpa only [plain, if_false, expandRecurrence, made, Option.map_some] using Series.mem_instances

theorem mem_listByDateRange {stored : List (Bytes × Event Raw)} {start stop : Int}
    {calendarID : Bytes} {occurrence : Event Raw} :
    occurrence ∈ listByDateRange platform stored start stop calendarID ↔
      (∃ entry ∈ stored, (calendarID = [] ∨ entry.1 = calendarID) ∧
        EventOccurs platform entry.2 occurrence) ∧ Series.Shown start stop occurrence := by
  simp only [listByDateRange, List.mem_insertionSort, List.mem_flatMap, List.mem_filter,
    mem_eventsBetween, Bool.or_eq_true, decide_eq_true_iff]
  constructor
  · rintro ⟨entry, ⟨member, chosen⟩, occurs, shown⟩
    exact ⟨⟨entry, member, chosen, occurs⟩, shown⟩
  · rintro ⟨⟨entry, member, chosen, occurs⟩, shown⟩
    exact ⟨entry, ⟨member, chosen⟩, occurs, shown⟩

def sampleAfter (rule : Rule) (time : Int) : Option Int :=
  (rule.between (time + 1) 4000000000).head?

def farEvent : Event Calendar :=
  { morningEvent with startTime := 253402300800, endTime := 253402304400, icalRaw := none }

def reminder : Event Calendar :=
  { morningEvent with endTime := 1904893200, rrule := [], icalRaw := none }

end Bongo.Recurrence
