import Bongo.FeedAgreement

/-!
What a reader of the feed can tell. The feeds of two calendars that agree are the same up
to one thing: a reduced VEVENT keeps its time properties with every parameter, so
a parameter that is no part of a time reaches the reader.
-/

namespace Bongo.Feed

open ByteKeys CivilTime Runes Ical Recurrence

variable {Raw : Type} {publisher : Publisher Raw}

theorem addSpan_agree {busy : Bool} {left right : Stored Raw}
    (agree : ObjectsAgree publisher busy left right) (spans : Bytes → Option ZoneSpan) :
    addSpan publisher spans left.toEvent = addSpan publisher spans right.toEvent := by
  have skipped : ∀ stored : Stored Raw, stored.icalRaw.isSome = true →
      addSpan publisher spans stored.toEvent = spans := by
    intro stored present
    rw [addSpan, if_pos (by simp [present])]
  cases agree with
  | same _ _ => rfl
  | fields first second _ agree =>
    by_cases single : left.rrule = []
    · rw [addSpan, addSpan, if_pos (by simp [single]), if_pos (by simp [← agree.rrule, single])]
    have zones : writtenZone publisher left.toEvent = writtenZone publisher right.toEvent ∧
        (left.allDay = false → left.timezone = right.timezone) := by
      refine ⟨?_, agree.timezone single⟩
      rw [writtenZone, writtenZone, ← agree.allDay]
      split
      · rfl
      · rename_i timed
        rw [agree.timezone single (by simpa using timed), seriesSpan, seriesSpan, agree.rrule,
          agree.startTime]
    rw [addSpan, addSpan, if_neg (by simp [first, single]),
      if_neg (by simp [second, ← agree.rrule, single]), ← zones.1]
    cases written : writtenZone publisher left.toEvent with
    | none => rfl
    | some span =>
      have timed : left.allDay = false := by
        by_contra day
        rw [writtenZone, if_pos (by simpa using day)] at written
        cases written
      simp [zones.2 timed]
  | undecodable first second _ _ _ =>
    rw [skipped left (by simp [first]), skipped right (by simp [second])]
  | decoded first second _ _ _ =>
    rw [skipped left (by simp [first]), skipped right (by simp [second])]

theorem exportZoneSpans_agree {busy : Bool} {lefts rights : List (Stored Raw)}
    (agree : List.Forall₂ (ObjectsAgree publisher busy) lefts rights) :
    exportZoneSpans publisher lefts = exportZoneSpans publisher rights := by
  unfold exportZoneSpans
  generalize (fun _ => none : Bytes → Option ZoneSpan) = spans
  induction agree generalizing spans with
  | nil => rfl
  | cons head _ ih => rw [List.foldl_cons, List.foldl_cons, addSpan_agree head, ih]

def Mentions (component : Component) (tzid : Bytes) : Prop :=
  ∃ name, ∃ prop ∈ component.props name, tzid ∈ prop.params .timezoneId

variable {component : Component} {tzid : Bytes}

theorem mentions_of_referenced (referenced : tzid ∈ referencedTZIDs publisher component) :
    Mentions component tzid := by
  simp only [referencedTZIDs, List.mem_mergeSort, List.mem_dedup, List.mem_flatMap] at referenced
  obtain ⟨name, -, prop, member, zone⟩ := referenced
  exact ⟨name, prop, member, zone⟩

variable {prop : Property}

theorem mem_of_param {name : ParamName} (present : prop.param name ≠ []) :
    prop.param name ∈ prop.params name := by
  unfold Property.param at present ⊢
  cases values : prop.params name with
  | nil => simp [values] at present
  | cons value rest => simp

theorem setParamIf_zone {value : Bytes}
    (member : tzid ∈ (setParamIf .timezoneId value prop).params .timezoneId) :
    tzid ∈ prop.params .timezoneId ∨ value ≠ [] ∧ tzid = value := by
  unfold setParamIf at member
  split at member
  · exact .inl member
  · rename_i present
    simp only [Property.setParam, Function.update_self, List.mem_singleton] at member
    exact .inr ⟨present, member⟩

theorem inMasterZone_zone {start : Option Property} {rid ex : Property}
    (member : tzid ∈ (inMasterZone publisher start rid ex).params .timezoneId) :
    tzid ∈ ex.params .timezoneId ∨ ∃ found, start = some found ∧
      tzid ∈ found.params .timezoneId := by
  unfold inMasterZone at member
  cases start with
  | none => exact .inl member
  | some found =>
    simp only at member
    split at member
    · rename_i zoned
      simp only [Bool.and_eq_true, decide_eq_true_eq] at zoned
      split at member
      · simp only [Property.setParam, Function.update_self, List.mem_singleton] at member
        exact .inr ⟨found, rfl, member ▸ mem_of_param zoned.2⟩
      · exact .inl member
    · exact .inl member

/-- The zone of an added EXDATE is that of the override, or that of the master. -/
theorem exdateFor_zone {start rid : Option Property} {ex : Property}
    (made : exdateFor publisher start rid = some ex) (member : tzid ∈ ex.params .timezoneId) :
    (∃ found, rid = some found ∧ tzid ∈ found.params .timezoneId) ∨
      ∃ found, start = some found ∧ tzid ∈ found.params .timezoneId := by
  obtain ⟨found, rfl, built⟩ := Option.bind_eq_some_iff.mp made
  split at built
  · cases built
  cases built
  rcases inMasterZone_zone member with own | master
  · refine .inl ⟨found, rfl, ?_⟩
    rcases setParamIf_zone own with inner | ⟨present, rfl⟩
    · have plain : (setParamIf .value (found.param .value) (newProp found.value)).params
          .timezoneId = [] := by
        unfold setParamIf
        split
        · rfl
        · simp [Property.setParam, newProp]
      rw [plain] at inner
      cases inner
    · exact mem_of_param present
  · exact .inr master

variable {reduce : Component → Bool}

variable (publisher) in
theorem shownForm_uses (mentions : Mentions (shownForm publisher reduce component) tzid) :
    Uses reduce component tzid := by
  obtain ⟨name, prop, member, zone⟩ := mentions
  unfold shownForm at member
  split at member
  · rename_i reduced
    by_cases summary : name = .summary
    · -- The text that stands for the title has no zone.
      subst summary
      simp only [busyForm, Component.set, Component.setAll_self, List.mem_singleton] at member
      rw [member, publisher.writeText_zone] at zone
      cases zone
    · cases kept : busyKept name with
      | true =>
        rw [busyForm_props publisher component kept] at member
        exact ⟨name, fun _ => kept, prop, member, zone⟩
      | false =>
        simp [busyForm, Component.set, Component.setAll_ne _ summary, kept] at member
  · rename_i full
    have original : prop ∈ component.props name := by
      by_cases people : name = .attendee ∨ name = .organizer
      · rcases people with rfl | rfl
        · simp [withoutPeople, Component.del, Component.setAll] at member
        · simp [withoutPeople, Component.del] at member
      · simp only [not_or] at people
        simpa only [withoutPeople, Component.del, Component.setAll_ne _ people.1,
          Component.setAll_ne _ people.2] using member
    exact ⟨name, fun reduced => absurd reduced full, prop, original, zone⟩

theorem get_uses {name : PropName} (kept : busyKept name = true)
    (found : component.get name = some prop) (member : tzid ∈ prop.params .timezoneId) :
    Uses reduce component tzid :=
  ⟨name, fun _ => kept, prop, List.mem_of_mem_head? found, member⟩

/-- Every zone that an object shows is one that a VEVENT of it uses. -/
theorem publishFrom_uses {dropped all : List Component}
    (within : ∀ component ∈ dropped, component ∈ all) (mentions : Mentions component tzid) :
    ∀ (pending : Bool) (vevents : List Component), (∀ other ∈ vevents, other ∈ all) →
      component ∈ publishFrom publisher reduce dropped pending vevents →
        ∃ other ∈ all, Uses reduce other tzid := by
  intro pending vevents
  induction vevents generalizing pending with
  | nil =>
    intro _ member
    cases member
  | cons head rest ih =>
    intro members member
    have later := fun other found => members other (List.mem_cons_of_mem head found)
    rw [publishFrom] at member
    split at member
    · exact ih _ later member
    split at member
    · rcases List.mem_cons.mp member with rfl | tail
      · -- The master: its own properties, or an EXDATE added to it.
        obtain ⟨name, prop, found, zone⟩ := mentions
        by_cases exdates : name = .exceptionDates
        · subst exdates
          rw [addExdates, Component.setAll_self, List.mem_append] at found
          rcases found with own | added
          · exact ⟨head, members head (by simp), shownForm_uses publisher ⟨_, prop, own, zone⟩⟩
          obtain ⟨override, kept, made⟩ := List.mem_filterMap.mp added
          rcases exdateFor_zone made zone with
            ⟨rid, present, inside⟩ | ⟨start, present, inside⟩
          · exact ⟨override, within override kept, get_uses rfl present inside⟩
          · refine ⟨head, members head (by simp), shownForm_uses publisher ?_⟩
            exact ⟨_, start, List.mem_of_mem_head? present, inside⟩
        · rw [addExdates, Component.setAll_ne _ exdates] at found
          exact ⟨head, members head (by simp),
            shownForm_uses publisher ⟨name, prop, found, zone⟩⟩
      · exact ih _ later tail
    · rcases List.mem_cons.mp member with rfl | tail
      · exact ⟨head, members head (by simp), shownForm_uses publisher mentions⟩
      · exact ih _ later tail

section Whole

variable {busy : Bool} {left right : Stored Raw}

theorem publishTransform_uses {undecodable : Bool} {vevents : List Component}
    (member : component ∈ publishTransform publisher busy vevents undecodable)
    (mentions : Mentions component tzid) :
    ∃ other ∈ vevents, Uses (reducer publisher busy undecodable vevents) other tzid :=
  publishFrom_uses (fun _ kept => (List.mem_filter.mp kept).1) mentions true vevents
    (fun _ found => found) member

section

variable (spans : Bytes → Option ZoneSpan) (agree : ObjectsAgree publisher busy left right)
include spans agree

theorem pieces_same (params : SameParameters publisher busy left right) :
    pieces publisher (publishTransform publisher busy) feedStamp spans left =
      pieces publisher (publishTransform publisher busy) feedStamp spans right := by
  cases agree with
  | same _ _ => rfl
  | fields first second reduced agree =>
    simp only [pieces, first, second]
    exact agree.pieces spans (by simp [reduced])
  | undecodable first second leftFails rightFails agree =>
    simp only [pieces, first, second, leftFails, rightFails]
    exact agree.pieces spans (by simp)
  | decoded first second leftReads rightReads agree =>
    simp only [SameParameters, rawVEvents, first, second, Option.bind_some, leftReads,
      rightReads] at params
    simp only [pieces, first, second, leftReads, rightReads, decodedPieces]
    rw [← (publishTransform_eq_iff agree.vevents).mpr params]
    refine List.map_congr_left fun component member => ?_
    congr 1
    refine List.filterMap_congr fun tzid referenced => ?_
    -- The zones of what is shown are among those the objects agree in.
    obtain ⟨other, inside, uses⟩ :=
      publishTransform_uses member (mentions_of_referenced referenced)
    rw [agree.zones other inside tzid uses]

theorem parameters_of_pieces
    (same : (pieces publisher (publishTransform publisher busy) feedStamp spans left).map Prod.fst =
      (pieces publisher (publishTransform publisher busy) feedStamp spans right).map Prod.fst) :
    SameParameters publisher busy left right := by
  cases agree with
  | same plain _ => simp [SameParameters, rawVEvents, plain]
  | fields first second _ _ => simp [SameParameters, rawVEvents, first, second]
  | undecodable first second leftFails rightFails _ =>
    simp [SameParameters, rawVEvents, first, second, leftFails, rightFails]
  | decoded first second leftReads rightReads agree =>
    simp only [pieces, first, second, leftReads, rightReads, decodedPieces, List.map_map,
      Function.comp_def, List.map_id'] at same
    simp only [SameParameters, rawVEvents, first, second, Option.bind_some, leftReads, rightReads]
    exact (publishTransform_eq_iff agree.vevents).mp same

theorem pieces_length :
    (pieces publisher (publishTransform publisher busy) feedStamp spans left).length =
      (pieces publisher (publishTransform publisher busy) feedStamp spans right).length := by
  cases agree with
  | same _ _ => rfl
  | fields first second reduced agree =>
    simp only [pieces, first, second]
    rw [agree.pieces spans (by simp [reduced])]
  | undecodable first second leftFails rightFails agree =>
    simp only [pieces, first, second, leftFails, rightFails]
    rw [agree.pieces spans (by simp)]
  | decoded first second leftReads rightReads agree =>
    simp only [pieces, first, second, leftReads, rightReads, decodedPieces, List.length_map]
    exact publishFrom_length true agree.vevents

end

/-! VEVENTs and VTIMEZONEs are told apart by their names. -/

theorem publishFrom_name {dropped : List Component} {name : CompName} :
    ∀ (pending : Bool) (vevents : List Component), (∀ other ∈ vevents, other.name = name) →
      ∀ component ∈ publishFrom publisher reduce dropped pending vevents,
        component.name = name := by
  intro pending vevents
  induction vevents generalizing pending with
  | nil =>
    intro _ component member
    cases member
  | cons head rest ih =>
    intro named component member
    have later := fun other found => named other (List.mem_cons_of_mem head found)
    have shown : (shownForm publisher reduce head).name = name := by
      rw [← named head (by simp), shownForm]
      split
      · rfl
      · rfl
    rw [publishFrom] at member
    split at member
    · exact ih _ later component member
    split at member
    · rcases List.mem_cons.mp member with rfl | tail
      · exact shown
      · exact ih _ later component tail
    · rcases List.mem_cons.mp member with rfl | tail
      · exact shown
      · exact ih _ later component tail

theorem synthVEvent_name {platform : Platform Raw} (event : Event Raw) (loc : Location)
    (now : Int) : (synthVEvent platform event loc now).name = .event := by
  rw [synthVEvent, (setParticipants_unseen event _).name]
  change (if event.transparent then _ else _ : Component).name = _
  rw [(setIf_unseen (show busyKept .transparency = false from rfl) _ _).name]
  rw [(addRecurrence_unseen event loc _ (show occupies .recurrenceRule = false from rfl) rfl).name]
  have texts : (setTextIf platform .location event.location
      (setTextIf platform .description event.description
        (((emptyComponent .event).set .uid (platform.writeText event.guid)).set .summary
          (platform.writeText event.title)))).name = .event := by
    rw [(setTextIf_unseen (show busyKept .location = false from rfl) _ _).name,
      (setTextIf_unseen (show busyKept .description = false from rfl) _ _).name]
    rfl
  split
  · exact texts
  · exact texts

def Piece.Named (piece : Piece) : Prop :=
  piece.1.name = .event ∧ ∀ entry ∈ piece.2, entry.2.name = .timezone

theorem pieces_named (spans : Bytes → Option ZoneSpan) {stored : Stored Raw} :
    ∀ piece ∈ pieces publisher (publishTransform publisher busy) feedStamp spans stored,
      Piece.Named piece := by
  have fields : ∀ undecodable, ∀ piece ∈ fieldPieces publisher (publishTransform publisher busy)
      feedStamp spans stored undecodable, Piece.Named piece := by
    intro undecodable piece member
    unfold fieldPieces at member
    simp only at member
    split at member
    · cases member
    rename_i shown rest published
    cases List.mem_singleton.mp member
    constructor
    · refine publishFrom_name true _ ?_ shown (published ▸ List.mem_cons_self)
      intro other only
      rw [List.mem_singleton.mp only]
      exact synthVEvent_name _ _ _
    · intro entry zone
      obtain ⟨span, -, rfl⟩ := List.mem_map.mp zone
      rfl
  intro piece member
  unfold pieces at member
  split at member
  · exact fields false piece member
  split at member
  · obtain ⟨component, published, rfl⟩ := List.mem_map.mp member
    constructor
    · refine publishFrom_name true _ ?_ component published
      intro other found
      simpa using (List.mem_filter.mp found).2
    intro entry zone
    obtain ⟨tzid, -, made⟩ := List.mem_filterMap.mp zone
    obtain ⟨found, defined, rfl⟩ := Option.map_eq_some_iff.mp made
    have named := List.find?_some defined
    simp only [Bool.and_eq_true, decide_eq_true_eq] at named
    exact named.1
  · exact fields true piece member

theorem assembled_vevents (items : List Piece) (start : Assembly) :
    (items.foldl Assembly.add start).vevents = start.vevents ++ items.map Prod.fst := by
  induction items generalizing start with
  | nil => simp
  | cons piece rest ih =>
    rw [List.foldl_cons, ih, Assembly.add]
    simp

theorem addZone_named {zones entries : List (Bytes × Component)}
    (old : ∀ entry ∈ zones, entry.2.name = .timezone)
    (new : ∀ entry ∈ entries, entry.2.name = .timezone) :
    ∀ entry ∈ entries.foldl addZone zones, entry.2.name = .timezone := by
  induction entries generalizing zones with
  | nil => exact old
  | cons head rest ih =>
    refine ih ?_ fun entry member => new entry (List.mem_cons_of_mem head member)
    intro entry member
    unfold addZone at member
    split at member
    · exact old entry member
    · rcases List.mem_append.mp member with earlier | last
      · exact old entry earlier
      · exact new entry (by simp [List.mem_singleton.mp last])

theorem assembled_zones (items : List Piece) (named : ∀ piece ∈ items, Piece.Named piece)
    (start : Assembly) (old : ∀ entry ∈ start.zones, entry.2.name = .timezone) :
    ∀ entry ∈ (items.foldl Assembly.add start).zones, entry.2.name = .timezone := by
  induction items generalizing start with
  | nil => exact old
  | cons piece rest ih =>
    refine ih (fun other member => named other (List.mem_cons_of_mem piece member)) _ ?_
    exact addZone_named old (named piece (by simp)).2

/-- The VEVENTs of a feed can be read off it. -/
theorem feed_vevents (events : List (Stored Raw)) :
    veventsOf (feed publisher busy events).children =
      (events.flatMap (pieces publisher (publishTransform publisher busy) feedStamp
        (exportZoneSpans publisher events))).map Prod.fst := by
  have named : ∀ piece ∈ events.flatMap (pieces publisher (publishTransform publisher busy)
      feedStamp (exportZoneSpans publisher events)), Piece.Named piece := by
    intro piece member
    obtain ⟨stored, -, brought⟩ := List.mem_flatMap.mp member
    exact pieces_named _ piece brought
  simp only [feed, buildCalendarICS, veventsOf, List.filter_append, assembled_vevents,
    List.nil_append]
  rw [List.filter_eq_nil_iff.mpr, List.nil_append, List.filter_eq_self]
  · intro component member
    obtain ⟨piece, brought, rfl⟩ := List.mem_map.mp member
    simpa using (named piece brought).1
  · intro component member
    obtain ⟨entry, zone, rfl⟩ := List.mem_map.mp member
    rw [assembled_zones _ named ⟨[], []⟩ (by simp) entry zone]
    decide

theorem forall₂_of_flatMap {A B C : Type} {related : A → B → Prop} {first : A → List C}
    {second : B → List C} {lefts : List A} {rights : List B}
    (pairs : List.Forall₂ related lefts rights)
    (lengths : ∀ one other, related one other → (first one).length = (second other).length)
    (same : lefts.flatMap first = rights.flatMap second) :
    List.Forall₂ (fun one other => related one other ∧ first one = second other) lefts rights := by
  induction pairs with
  | nil => exact .nil
  | @cons one other _ _ head _ ih =>
    obtain ⟨here, later⟩ := List.append_inj same (lengths one other head)
    exact .cons ⟨head, here⟩ (ih later)

/-- Calendars that agree have the same feed exactly when the reduced VEVENTs that are shown
carry the same parameters on the properties they keep. -/
theorem feed_secret {lefts rights : List (Stored Raw)}
    (agree : List.Forall₂ (ObjectsAgree publisher busy) lefts rights) :
    feed publisher busy lefts = feed publisher busy rights ↔
      List.Forall₂ (SameParameters publisher busy) lefts rights := by
  have spans := exportZoneSpans_agree agree
  constructor
  · intro same
    have vevents := congrArg (fun calendar => veventsOf calendar.children) same
    simp only [feed_vevents, ← spans, List.map_flatMap] at vevents
    have objects := forall₂_of_flatMap agree (fun one other pair => by
      simpa using pieces_length (exportZoneSpans publisher lefts) pair) vevents
    exact objects.imp fun one other pair => parameters_of_pieces _ pair.1 pair.2
  · intro params
    have pieces : lefts.flatMap (pieces publisher (publishTransform publisher busy) feedStamp
        (exportZoneSpans publisher lefts)) = rights.flatMap (pieces publisher
          (publishTransform publisher busy) feedStamp (exportZoneSpans publisher rights)) := by
      rw [← spans]
      generalize exportZoneSpans publisher lefts = written
      clear spans
      induction agree with
      | nil => rfl
      | cons head _ ih =>
        cases params with
        | cons first rest =>
          rw [List.flatMap_cons, List.flatMap_cons, pieces_same written head first, ih rest]
    simp [feed, buildCalendarICS, pieces]

end Whole

/-! A private appointment, with a title and a note on its start. -/

def samplePublisher : Publisher Calendar where
  toFoldTable := asciiFolds
  decode := some
  encode := some
  mentions _ := true
  writeText := newProp
  readText prop := some prop.value
  readDuration _ := none
  ruleReads _ := false
  newRule _ _ _ := none
  loadLocation _ := none
  windowsZones _ := none
  parseAddress _ := false
  ruleUntil _ := none
  observances _ _ _ := []
  names component :=
    [.recurrenceRule, .recurrenceDates, .exceptionDates, .recurrenceId, .dateTimeStart,
      .dateTimeEnd, .duration, .summary, .description, .location, .status, .transparency,
      .organizer, .attendee, .sequence, .dateTimeStamp, .lastModified, .uid].filter
      fun name => !(component.props name).isEmpty
  writeText_zone _ := rfl

def sampleComponent (title note : Bytes) : Component where
  name := .event
  props
    | .uid => [newProp (ascii "u1")]
    | .summary => [newProp title]
    | .dateTimeStart =>
      [(newProp (ascii "20300513T090000Z")).setParam (.other (ascii "X-NOTE")) note]
    | _ => []
  inner := []

def sampleStored (title note : Bytes) : Stored Calendar where
  guid := ascii "u1"
  title := title
  description := []
  location := []
  startTime := 0
  endTime := 0
  allDay := false
  rrule := []
  exdates := []
  timezone := []
  organizer := []
  attendees := []
  sequence := 0
  status := []
  transparent := false
  icalRaw := some ⟨[], [sampleComponent title note]⟩
  recurrenceId := []
  createdAt := 0
  updatedAt := 0

theorem sample_alike (title title' note note' : Bytes) :
    Alike samplePublisher (sampleComponent title note) (sampleComponent title' note') where
  name := rfl
  hidden := rfl
  times name kept := by
    cases name
    case dateTimeStart => exact .cons ⟨rfl, fun _ => rfl, fun _ => rfl⟩ .nil
    case uid => exact .cons ⟨rfl, fun _ => rfl, fun _ => rfl⟩ .nil
    case summary => cases kept
    all_goals exact .nil

theorem sample_agree (title title' note note' : Bytes) :
    ObjectsAgree samplePublisher true (sampleStored title note) (sampleStored title' note') := by
  refine .decoded rfl rfl rfl rfl ⟨?_, ?_⟩
  · exact .cons (.reduced rfl rfl (sample_alike title title' note note')) .nil
  · intro component _ tzid _
    rfl

/-- The note reaches the reader of a busy feed. -/
theorem parameter_reaches_feed :
    List.Forall₂ (ObjectsAgree samplePublisher true)
        [sampleStored (ascii "Private") (ascii "oncology")]
        [sampleStored (ascii "Private") (ascii "lawyer")] ∧
      feed samplePublisher true [sampleStored (ascii "Private") (ascii "oncology")] ≠
        feed samplePublisher true [sampleStored (ascii "Private") (ascii "lawyer")] := by
  refine ⟨.cons (sample_agree _ _ _ _) .nil, fun same => ?_⟩
  have vevents := congrArg (fun calendar => veventsOf calendar.children) same
  have notes := congrArg (List.map fun component => (component.props .dateTimeStart).map
    fun prop => prop.params (.other (ascii "X-NOTE"))) vevents
  exact absurd notes (by decide +kernel)

/-- The title does not. -/
theorem feed_secret_title :
    feed samplePublisher true [sampleStored (ascii "Oncology") []] =
      feed samplePublisher true [sampleStored (ascii "Lawyer") []] := by
  refine (feed_secret (.cons (sample_agree _ _ _ _) .nil)).mpr (.cons ?_ .nil)
  refine .cons (fun _ _ name kept => ?_) .nil
  have same : (sampleComponent (ascii "Oncology") []).props name =
      (sampleComponent (ascii "Lawyer") []).props name := by
    cases name
    case summary => cases kept
    all_goals rfl
  rw [same]
  exact List.forall₂_same.mpr fun prop _ => rfl

end Bongo.Feed
