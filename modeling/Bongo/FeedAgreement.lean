import Bongo.PublishedFeed

/-!
When two calendars are the same to a reader of their feeds: the objects published in full
are the same, and those that are reduced have the same times. What two such objects are
published as differs in the parameters of the properties that a reduced VEVENT keeps, and in
nothing else.
-/

namespace Bongo.Feed

open ByteKeys CivilTime Runes Ical Recurrence

variable {Raw : Type} (publisher : Publisher Raw)

/-! Agreement. -/

def timed : PropName → Bool
  | .dateTimeStart | .dateTimeEnd | .recurrenceId | .recurrenceDates | .exceptionDates => true
  | _ => false

structure SameTime (name : PropName) (left right : Property) : Prop where
  value : left.value = right.value
  form : timed name = true → left.params .value = right.params .value
  zone : timed name = true → left.params .timezoneId = right.params .timezoneId

structure Alike (left right : Component) : Prop where
  name : left.name = right.name
  hidden : isHidden publisher left = isHidden publisher right
  times : ∀ name, busyKept name = true →
    List.Forall₂ (SameTime name) (left.props name) (right.props name)

inductive ComponentsAgree (reduceLeft reduceRight : Component → Bool) :
    Component → Component → Prop
  | full (component : Component) (left : reduceLeft component = false)
      (right : reduceRight component = false) :
      ComponentsAgree reduceLeft reduceRight component component
  | reduced {left right : Component} (first : reduceLeft left = true)
      (second : reduceRight right = true) (alike : Alike publisher left right) :
      ComponentsAgree reduceLeft reduceRight left right

def Uses (reduce : Component → Bool) (component : Component) (tzid : Bytes) : Prop :=
  ∃ name, (reduce component = true → busyKept name = true) ∧
    ∃ prop ∈ component.props name, tzid ∈ prop.params .timezoneId

def reducer (busy undecodable : Bool) (vevents : List Component) : Component → Bool :=
  reduces publisher busy undecodable (masterPrivate publisher vevents)

structure ChildrenAgree (busy : Bool) (left right : List Component) : Prop where
  vevents : List.Forall₂
    (ComponentsAgree publisher (reducer publisher busy false (veventsOf left))
      (reducer publisher busy false (veventsOf right))) (veventsOf left) (veventsOf right)
  zones : ∀ component ∈ veventsOf left, ∀ tzid,
    Uses (reducer publisher busy false (veventsOf left)) component tzid →
      definition left tzid = definition right tzid

/-- Events without a usable text that agree in what they may show. The zone matters
only where a series is written in it. -/
structure FieldsAgree (left right : Stored Raw) : Prop where
  guid : left.guid = right.guid
  stamp : feedStamp left = feedStamp right
  startTime : left.startTime = right.startTime
  endTime : left.endTime = right.endTime
  allDay : left.allDay = right.allDay
  rrule : left.rrule = right.rrule
  exdates : left.exdates = right.exdates
  timezone : left.rrule ≠ [] → left.allDay = false → left.timezone = right.timezone
  hidden : isHidden publisher (synthVEvent publisher.toPlatform left.toEvent .utc 0) =
    isHidden publisher (synthVEvent publisher.toPlatform right.toEvent .utc 0)

inductive ObjectsAgree (busy : Bool) : Stored Raw → Stored Raw → Prop
  | same (stored : Stored Raw) (plain : stored.icalRaw = none) (full : busy = false) :
      ObjectsAgree busy stored stored
  | fields {left right : Stored Raw} (first : left.icalRaw = none) (second : right.icalRaw = none)
      (reduced : busy = true) (agree : FieldsAgree publisher left right) :
      ObjectsAgree busy left right
  | undecodable {left right : Stored Raw} {leftRaw rightRaw : Raw}
      (first : left.icalRaw = some leftRaw) (second : right.icalRaw = some rightRaw)
      (leftFails : publisher.decode leftRaw = none)
      (rightFails : publisher.decode rightRaw = none)
      (agree : FieldsAgree publisher left right) : ObjectsAgree busy left right
  | decoded {left right : Stored Raw} {leftRaw rightRaw : Raw} {leftCal rightCal : Calendar}
      (first : left.icalRaw = some leftRaw) (second : right.icalRaw = some rightRaw)
      (leftReads : publisher.decode leftRaw = some leftCal)
      (rightReads : publisher.decode rightRaw = some rightCal)
      (agree : ChildrenAgree publisher busy leftCal.children rightCal.children) :
      ObjectsAgree busy left right

/-! The parameters that agreement leaves open. -/

def SameParams (reduce : Component → Bool) (left right : Component) : Prop :=
  reduce left = true → isHidden publisher left = false → ∀ name, busyKept name = true →
    List.Forall₂ (fun one other : Property => one.params = other.params)
      (left.props name) (right.props name)

def rawVEvents (stored : Stored Raw) : List Component :=
  match stored.icalRaw.bind publisher.decode with
  | some calendar => veventsOf calendar.children
  | none => []

def SameParameters (busy : Bool) (left right : Stored Raw) : Prop :=
  List.Forall₂ (SameParams publisher (reducer publisher busy false (rawVEvents publisher left)))
    (rawVEvents publisher left) (rawVEvents publisher right)

variable {publisher}

variable {name : PropName}

theorem props_eq_iff {left right : List Property}
    (times : List.Forall₂ (SameTime name) left right) :
    left = right ↔
      List.Forall₂ (fun one other : Property => one.params = other.params) left right := by
  induction times with
  | nil => simp
  | @cons one other rest others head _ ih =>
    rw [List.forall₂_cons, List.cons.injEq, ih]
    have same : one = other ↔ one.params = other.params := by
      cases one
      cases other
      rw [Property.mk.injEq, and_iff_left head.value]
    rw [same]

theorem get_sameTime {left right : Component}
    (times : List.Forall₂ (SameTime name) (left.props name) (right.props name)) :
    Option.Rel (SameTime name) (left.get name) (right.get name) := by
  unfold Component.get
  generalize left.props name = ones at times
  generalize right.props name = others at times
  cases times with
  | nil => exact .none
  | cons head _ => exact .some head

theorem Alike.override {left right : Component} (alike : Alike publisher left right) :
    isOverride left = isOverride right := by
  have rids := get_sameTime (alike.times .recurrenceId rfl)
  unfold isOverride
  generalize left.get .recurrenceId = one at rids
  generalize right.get .recurrenceId = other at rids
  cases rids with
  | none => rfl
  | some _ => rfl

theorem param_eq {left right : Property} {name : ParamName}
    (same : left.params name = right.params name) : left.param name = right.param name := by
  simp only [Property.param, same]

/-- An EXDATE shows the times it is made of and nothing else. -/
theorem exdateFor_alike {start start' rid rid' : Option Property}
    (starts : Option.Rel (SameTime .dateTimeStart) start start')
    (rids : Option.Rel (SameTime .recurrenceId) rid rid') :
    exdateFor publisher start rid = exdateFor publisher start' rid' := by
  cases rids with
  | none => rfl
  | @some one other same =>
    have form := param_eq (same.form rfl)
    have tzid := param_eq (same.zone rfl)
    simp only [exdateFor, Option.bind_some, same.value, form, tzid]
    have zoned : ∀ ex, inMasterZone publisher start one ex =
        inMasterZone publisher start' other ex := by
      intro ex
      cases starts with
      | none => rfl
      | some begins =>
        have home := param_eq (begins.zone rfl)
        simp only [inMasterZone, same.value, tzid, home]
    rw [zoned]

theorem withoutPeople_props (component : Component) (kept : busyKept name = true) :
    (withoutPeople component).props name = component.props name := by
  have attendee : name ≠ .attendee := by
    rintro rfl
    cases kept
  have organizer : name ≠ .organizer := by
    rintro rfl
    cases kept
  simp only [withoutPeople, Component.del, Component.setAll, Function.update_of_ne attendee,
    Function.update_of_ne organizer]

variable (publisher) in
theorem busyForm_props (component : Component) (kept : busyKept name = true) :
    (busyForm publisher component).props name = component.props name := by
  have other : name ≠ .summary := by
    rintro rfl
    cases kept
  simp only [busyForm, Component.set, Component.setAll, Function.update_of_ne other, kept, if_true,
    withoutPeople_props component kept]

theorem busyForm_eq_iff {left right : Component} (alike : Alike publisher left right) :
    busyForm publisher left = busyForm publisher right ↔ ∀ name, busyKept name = true →
        List.Forall₂ (fun one other : Property => one.params = other.params)
          (left.props name) (right.props name) := by
  constructor
  · intro same name kept
    have props := congrArg (fun component => component.props name) same
    simp only [busyForm_props publisher _ kept] at props
    exact (props_eq_iff (alike.times name kept)).mp props
  · intro params
    have props : ∀ name, (if busyKept name then (withoutPeople left).props name else []) =
        (if busyKept name then (withoutPeople right).props name else []) := by
      intro name
      cases kept : busyKept name with
      | false => rfl
      | true =>
        have same := (props_eq_iff (alike.times name kept)).mpr (params name kept)
        simp only [withoutPeople_props _ kept, same]
    simp only [busyForm, funext props]
    simp only [withoutPeople, Component.del, Component.setAll, alike.name]

variable {dropped dropped' : List Component}

theorem addExdates_eq_iff {left right : Component} (added : (dropped.filterMap fun component =>
        exdateFor publisher (left.get .dateTimeStart) (component.get .recurrenceId)) =
      dropped'.filterMap fun component =>
        exdateFor publisher (right.get .dateTimeStart) (component.get .recurrenceId)) :
    addExdates publisher dropped left = addExdates publisher dropped' right ↔ left = right := by
  simp only [addExdates, added]
  constructor
  · intro same
    obtain ⟨leftName, leftProps, leftInner⟩ := left
    obtain ⟨rightName, rightProps, rightInner⟩ := right
    simp only [Component.setAll, Component.mk.injEq] at same ⊢
    refine ⟨same.1, funext fun name => ?_, same.2.2⟩
    have props := congrFun same.2.1 name
    by_cases exdates : name = .exceptionDates
    · subst exdates
      exact List.append_cancel_right props
    · simpa only [Function.update_of_ne exdates] using props
  · intro same
    rw [same]

variable {busy undecodable : Bool}

section Objects

variable {reduceLeft reduceRight : Component → Bool} {left right : Component}

theorem sameTime_refl (name : PropName) (found : Option Property) :
    Option.Rel (SameTime name) found found := by
  cases found with
  | none => exact .none
  | some prop => exact .some ⟨rfl, fun _ => rfl, fun _ => rfl⟩

section

variable (agree : ComponentsAgree publisher reduceLeft reduceRight left right)
include agree

theorem ComponentsAgree.override : isOverride left = isOverride right := by
  cases agree with
  | full _ _ => rfl
  | reduced _ _ alike => exact alike.override

theorem ComponentsAgree.leftOut :
    leftOut publisher reduceLeft left = leftOut publisher reduceRight right := by
  cases agree with
  | full first second => simp only [Feed.leftOut, first, second]
  | reduced first second alike => simp only [Feed.leftOut, first, second, alike.hidden]

/-- The starts and the names of occurrences are times, also of components in full. -/
theorem ComponentsAgree.get (kept : busyKept name = true) :
    Option.Rel (SameTime name) (left.get name) (right.get name) := by
  cases agree with
  | full _ _ => exact sameTime_refl name _
  | reduced _ _ alike => exact get_sameTime (alike.times name kept)

theorem shownForm_start :
    Option.Rel (SameTime .dateTimeStart) ((shownForm publisher reduceLeft left).get .dateTimeStart)
      ((shownForm publisher reduceRight right).get .dateTimeStart) := by
  cases agree with
  | full first second =>
    simp only [shownForm, first, second]
    exact sameTime_refl _ _
  | reduced first second alike =>
    simp only [shownForm, first, second]
    exact get_sameTime (alike.times .dateTimeStart rfl)

theorem shownForm_eq_iff (shown : leftOut publisher reduceLeft left = false) :
    shownForm publisher reduceLeft left = shownForm publisher reduceRight right ↔
      SameParams publisher reduceLeft left right := by
  cases agree with
  | full first second => simp [shownForm, SameParams, first, second]
  | reduced first second alike =>
    have visible : isHidden publisher left = false := by
      simpa only [leftOut, first, Bool.true_and] using shown
    simp only [shownForm, SameParams, first, second, visible, forall_const]
    exact busyForm_eq_iff alike

end

variable (publisher) in
def droppedOverrides (reduce : Component → Bool) (vevents : List Component) : List Component :=
  vevents.filter fun component => leftOut publisher reduce component && isOverride component

variable {lefts rights : List Component}

theorem added_alike {start start' : Option Property}
    (agree : List.Forall₂ (ComponentsAgree publisher reduceLeft reduceRight) lefts rights)
    (starts : Option.Rel (SameTime .dateTimeStart) start start') :
    ((droppedOverrides publisher reduceLeft lefts).filterMap fun component =>
        exdateFor publisher start (component.get .recurrenceId)) =
      (droppedOverrides publisher reduceRight rights).filterMap fun component =>
        exdateFor publisher start' (component.get .recurrenceId) := by
  induction agree with
  | nil => rfl
  | @cons left right _ _ head _ ih =>
    have same : (leftOut publisher reduceLeft left && isOverride left) =
        (leftOut publisher reduceRight right && isOverride right) := by
      rw [head.leftOut, head.override]
    unfold droppedOverrides at ih ⊢
    cases drops : leftOut publisher reduceRight right && isOverride right with
    | false => rw [List.filter_cons_of_neg (by simp [same, drops]),
        List.filter_cons_of_neg (by simp [drops]), ih]
    | true =>
      have added : exdateFor publisher start (left.get .recurrenceId) =
          exdateFor publisher start' (right.get .recurrenceId) :=
        exdateFor_alike starts (head.get rfl)
      rw [List.filter_cons_of_pos (by simp [same, drops]),
        List.filter_cons_of_pos (by simp [drops]), List.filterMap_cons, List.filterMap_cons,
        added, ih]

theorem sameParams_of_leftOut (out : leftOut publisher reduceLeft left = true) :
    SameParams publisher reduceLeft left right := by
  intro _ visible
  rw [leftOut, visible, Bool.and_false] at out
  cases out

/-- Two objects that agree are published alike exactly when their parameters are the
same. The induction goes along both lists, the dropped overrides of the whole lists fixed. -/
theorem publishFrom_eq_iff
    (added : ∀ start start', Option.Rel (SameTime .dateTimeStart) start start' →
      (dropped.filterMap fun component =>
          exdateFor publisher start (component.get .recurrenceId)) =
        dropped'.filterMap fun component =>
          exdateFor publisher start' (component.get .recurrenceId)) (pending : Bool)
    (agree : List.Forall₂ (ComponentsAgree publisher reduceLeft reduceRight) lefts rights) :
    publishFrom publisher reduceLeft dropped pending lefts =
        publishFrom publisher reduceRight dropped' pending rights ↔
      List.Forall₂ (SameParams publisher reduceLeft) lefts rights := by
  induction agree generalizing pending with
  | nil => simp [publishFrom]
  | @cons left right _ _ head _ ih =>
    rw [publishFrom, publishFrom, ← head.leftOut, ← head.override, List.forall₂_cons]
    cases out : leftOut publisher reduceLeft left with
    | true =>
      simp only [if_true, ih, iff_and_self]
      exact fun _ => sameParams_of_leftOut out
    | false =>
      simp only [Bool.false_eq_true, if_false]
      split
      · rw [List.cons.injEq, ih, addExdates_eq_iff (added _ _ (shownForm_start head)),
          shownForm_eq_iff head out]
      · rw [List.cons.injEq, ih, shownForm_eq_iff head out]

theorem publishTransform_eq_iff
    (agree : List.Forall₂ (ComponentsAgree publisher (reducer publisher busy undecodable lefts)
      (reducer publisher busy undecodable rights)) lefts rights) :
    publishTransform publisher busy lefts undecodable =
        publishTransform publisher busy rights undecodable ↔
      List.Forall₂ (SameParams publisher (reducer publisher busy undecodable lefts))
        lefts rights :=
  publishFrom_eq_iff (fun _ _ starts => added_alike agree starts) true agree

theorem publishFrom_length (pending : Bool)
    (agree : List.Forall₂ (ComponentsAgree publisher reduceLeft reduceRight) lefts rights) :
    (publishFrom publisher reduceLeft dropped pending lefts).length =
      (publishFrom publisher reduceRight dropped' pending rights).length := by
  induction agree generalizing pending with
  | nil => rfl
  | @cons left right _ _ head _ ih =>
    rw [publishFrom, publishFrom, ← head.leftOut, ← head.override]
    split
    · exact ih _
    · split <;> simp only [List.length_cons, ih]

end Objects

section Fields

structure SameOn (shown : PropName → Bool) (left right : Component) : Prop where
  name : left.name = right.name
  props : ∀ name, shown name = true → left.props name = right.props name

variable {shown : PropName → Bool} {left right : Component}

section

variable (same : SameOn shown left right)
include same

theorem SameOn.setAll (name : PropName) (props : List Property) :
    SameOn shown (left.setAll name props) (right.setAll name props) where
  name := same.name
  props other visible := by
    by_cases equal : other = name
    · subst equal
      rw [Component.setAll_self, Component.setAll_self]
    · rw [Component.setAll_ne _ equal, Component.setAll_ne _ equal, same.props other visible]

/-- A property that is not shown may be written on either side. -/
theorem SameOn.writes (unseen : shown name = false) (props : List Property) :
    SameOn shown (left.setAll name props) right where
  name := same.name
  props other visible := by
    have different : other ≠ name := by
      rintro rfl
      rw [unseen] at visible
      cases visible
    rw [Component.setAll_ne _ different, same.props other visible]

theorem SameOn.symm : SameOn shown right left :=
  ⟨same.name.symm, fun name visible => (same.props name visible).symm⟩

theorem SameOn.writesBoth (unseen : shown name = false) (props others : List Property) :
    SameOn shown (left.setAll name props) (right.setAll name others) :=
  ((same.writes unseen props).symm.writes unseen others).symm

theorem SameOn.trans {other : Component} (next : SameOn shown right other) :
    SameOn shown left other :=
  ⟨same.name.trans next.name, fun name visible =>
    (same.props name visible).trans (next.props name visible)⟩

end

theorem SameOn.refl (component : Component) : SameOn shown component component :=
  ⟨rfl, fun _ _ => rfl⟩

variable {platform : Platform Raw}

section

variable {condition : Prop} [Decidable condition]

theorem setIf_unseen (unseen : shown name = false) (prop : Property) (component : Component) :
    SameOn shown (if condition then component.set name prop else component) component := by
  split
  · exact (SameOn.refl component).writes unseen _
  · exact .refl component

theorem setIf_same (same : SameOn shown left right) (name : PropName) (prop : Property) :
    SameOn shown (if condition then left.set name prop else left)
      (if condition then right.set name prop else right) := by
  split
  · exact same.setAll _ _
  · exact same

end

theorem setTextIf_unseen (unseen : shown name = false) (text : Bytes) (component : Component) :
    SameOn shown (setTextIf platform name text component) component := by
  unfold setTextIf
  split
  · exact .refl component
  · exact (SameOn.refl component).writes unseen _

/-- People, revision and status, none of them a time. -/
theorem setParticipants_unseen (event : Event Raw) (component : Component) :
    SameOn busyKept (setParticipants platform event component) component :=
  (setIf_unseen rfl _ _).trans <| (setIf_unseen rfl _ _).trans <|
    (setIf_unseen rfl _ _).writes rfl _

theorem setParticipants_same (event : Event Raw) (same : SameOn shown left right) :
    SameOn shown (setParticipants platform event left) (setParticipants platform event right) :=
  setIf_same (setIf_same ((setIf_same same _ _).setAll _ _) _ _) _ _

theorem addRecurrence_same {one other : Event Raw} (loc : Location)
    (rrule : one.rrule = other.rrule) (startTime : one.startTime = other.startTime)
    (allDay : one.allDay = other.allDay) (exdates : one.exdates = other.exdates)
    (same : SameOn shown left right) :
    SameOn shown (addRecurrence platform one loc left)
      (addRecurrence platform other loc right) := by
  have instants : excludedInstants one = excludedInstants other := by
    funext place rule
    simp only [excludedInstants, exdates]
  have props : exdateProp one = exdateProp other := by
    funext place instant
    simp only [exdateProp, allDay]
  simp only [addRecurrence, rrule, startTime, allDay, instants, props]
  split
  · exact same
  · split
    · exact same.setAll _ _
    · exact (same.setAll _ _).setAll _ _

theorem addRecurrence_unseen (event : Event Raw) (loc : Location) (component : Component)
    (rule : shown .recurrenceRule = false) (dates : shown .exceptionDates = false) :
    SameOn shown (addRecurrence platform event loc component) component := by
  unfold addRecurrence
  simp only
  split
  · exact .refl component
  · split
    · exact (SameOn.refl component).writes rule _
    · exact ((SameOn.refl component).writes rule _).writes dates _

variable {one other : Stored Raw}

/-- What the reduced form of a VEVENT made from fields shows is the times. -/
theorem synthVEvent_kept (agree : FieldsAgree publisher one other) (loc : Location) (now : Int) :
    SameOn busyKept (synthVEvent publisher.toPlatform one.toEvent loc now)
      (synthVEvent publisher.toPlatform other.toEvent loc now) := by
  -- The texts are not kept, so they are dropped on both sides first.
  have texts : ∀ component (stored : Stored Raw), SameOn busyKept
      (setTextIf publisher.toPlatform .location stored.location
        (setTextIf publisher.toPlatform .description stored.description
          (component.set .summary (publisher.writeText stored.title)))) component := by
    intro component stored
    exact (setTextIf_unseen rfl _ _).trans <| (setTextIf_unseen rfl _ _).trans <|
      (SameOn.refl component).writes rfl _
  have begun := (texts ((emptyComponent .event).set .uid (publisher.writeText one.guid)) one).trans
    (texts ((emptyComponent .event).set .uid (publisher.writeText one.guid)) other).symm
  rw [synthVEvent, synthVEvent]
  simp only [← agree.guid, ← agree.allDay, ← agree.startTime, ← agree.endTime]
  refine (setParticipants_unseen one.toEvent _).trans <| SameOn.trans ?_ <|
    (setParticipants_unseen other.toEvent _).symm
  refine SameOn.setAll ?_ _ _
  refine (setIf_unseen rfl _ _).trans <| SameOn.trans ?_ (setIf_unseen rfl _ _).symm
  refine addRecurrence_same loc agree.rrule agree.startTime agree.allDay agree.exdates ?_
  split <;> exact (begun.setAll _ _).setAll _ _

/-- The properties that say whether time is occupied. -/
def occupies : PropName → Bool
  | .transparency | .status => true
  | _ => false

/-- Whether it is hidden does not depend on the zone it is written in. -/
theorem synthVEvent_occupies (event : Event Raw) (loc loc' : Location) (now now' : Int) :
    SameOn occupies (synthVEvent platform event loc now)
      (synthVEvent platform event loc' now') := by
  rw [synthVEvent, synthVEvent]
  refine setParticipants_same event (SameOn.writesBoth ?_ rfl _ _)
  refine setIf_same ?_ _ _
  refine (addRecurrence_unseen event loc _ rfl rfl).trans <| SameOn.trans ?_ <|
    (addRecurrence_unseen event loc' _ rfl rfl).symm
  split
  · exact .refl _
  · exact ((SameOn.refl _).writesBoth rfl _ _).writesBoth rfl _ _

theorem isHidden_same (same : SameOn occupies left right) :
    isHidden publisher left = isHidden publisher right := by
  simp only [isHidden, propText, Component.get, same.props .transparency rfl,
    same.props .status rfl]

variable (agree : FieldsAgree publisher one other)
include agree

theorem FieldsAgree.alike (loc : Location) (now : Int) :
    Alike publisher (synthVEvent publisher.toPlatform one.toEvent loc now)
      (synthVEvent publisher.toPlatform other.toEvent loc now) where
  name := (synthVEvent_kept agree loc now).name
  hidden := by
    rw [isHidden_same (synthVEvent_occupies one.toEvent loc .utc now 0), agree.hidden,
      isHidden_same (synthVEvent_occupies other.toEvent .utc loc 0 now)]
  times name kept := by
    rw [(synthVEvent_kept agree loc now).props name kept]
    exact List.forall₂_same.mpr fun prop _ => ⟨rfl, fun _ => rfl, fun _ => rfl⟩

theorem FieldsAgree.published (loc : Location) (now : Int)
    (reduced : (busy || undecodable) = true) :
    publishTransform publisher busy [synthVEvent publisher.toPlatform one.toEvent loc now]
        undecodable =
      publishTransform publisher busy [synthVEvent publisher.toPlatform other.toEvent loc now]
        undecodable := by
  have reduces : ∀ masked component,
      reduces publisher busy undecodable masked component = true := by
    intro masked component
    simp only [Feed.reduces, reduced, Bool.true_or]
  refine (publishTransform_eq_iff (.cons ?_ .nil)).mpr (.cons ?_ .nil)
  · exact .reduced (reduces _ _) (reduces _ _) (agree.alike loc now)
  · intro _ _ name kept
    rw [(synthVEvent_kept agree loc now).props name kept]
    exact List.forall₂_same.mpr fun prop _ => rfl

theorem FieldsAgree.pieces (spans : Bytes → Option ZoneSpan)
    (reduced : (busy || undecodable) = true) :
    fieldPieces publisher (publishTransform publisher busy) feedStamp spans one undecodable =
      fieldPieces publisher (publishTransform publisher busy) feedStamp spans other
        undecodable := by
  have span : (if one.rrule ≠ [] && !one.allDay then spans one.timezone else none) =
      if other.rrule ≠ [] && !other.allDay then spans other.timezone else none := by
    rw [← agree.rrule, ← agree.allDay]
    split
    · rename_i zoned
      simp only [Bool.and_eq_true, decide_eq_true_eq, Bool.not_eq_true'] at zoned
      rw [agree.timezone zoned.1 zoned.2]
    · rfl
  simp only [fieldPieces, span, agree.stamp, agree.published _ _ reduced]

end Fields

end Bongo.Feed
