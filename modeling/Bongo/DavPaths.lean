import Bongo.Acl

/-!
The paths of the calendar server. A path names the home of a user, a collection in it and
an object in the collection; a collection with a name of its own form stands for a
calendar that another user shares. The path is split by hand at the slashes.
-/

namespace Bongo.CalDav

open ByteKeys

def slash : UInt8 := 47

def sharedPrefix : Bytes := ascii "shared-"

def uuidLen : Nat := 36

def sharedSegment (owner calID : Bytes) : Bytes := sharedPrefix ++ (owner ++ 45 :: calID)

def hexByte (byte : UInt8) : Bool :=
  (48 ≤ byte && byte ≤ 57) || (65 ≤ byte && byte ≤ 70) || (97 ≤ byte && byte ≤ 102)

/-- `uuid.Parse` of a text of 36 bytes. -/
def uuidParses (text : Bytes) : Bool :=
  text.length == uuidLen && (List.range uuidLen).all fun position =>
    if position = 8 ∨ position = 13 ∨ position = 18 ∨ position = 23 then
      text[position]? == some 45
    else (text[position]?).any hexByte

def parseSharedSegment (segment : Bytes) : Option (Bytes × Bytes) :=
  if hasPrefix segment sharedPrefix then
    let rest := trimPrefix segment sharedPrefix
    if rest.length ≤ uuidLen + 1 || rest[uuidLen]? != some 45 then none
    else
      let owner := rest.take uuidLen
      let calID := rest.drop (uuidLen + 1)
      if !uuidParses owner || calID.contains slash then none else some (owner, calID)
  else none

inductive PathKind where
  | root
  | principal
  | home
  | collection
  | object
  deriving DecidableEq

/-- The fields are empty where the kind of the path has none. -/
structure DavPath where
  kind : PathKind
  user : Bytes := []
  calSeg : Bytes := []
  guid : Bytes := []
  owner : Bytes := []
  calendar : Bytes := []
  deriving DecidableEq

def DavPath.shared (path : DavPath) : Bool := path.owner ≠ []

def trimSlashes (text : Bytes) : Bytes :=
  ((text.dropWhile (· == slash)).reverse.dropWhile (· == slash)).reverse

def calendarsName : Bytes := ascii "calendars"

def dotIcs : Bytes := ascii ".ics"

def trimIcs (name : Bytes) : Bytes :=
  if dotIcs.isSuffixOf name then name.take (name.length - dotIcs.length) else name

def blankName (name : Bytes) : Bool :=
  name = [] || name = [46] || name = [46, 46]

def collection (user segment : Bytes) : Option DavPath :=
  if hasPrefix segment sharedPrefix then
    (parseSharedSegment segment).map fun (owner, calendar) =>
      { kind := .collection, user := user, calSeg := segment, owner := owner
        calendar := calendar }
  else some { kind := .collection, user := user, calSeg := segment, calendar := segment }

def splitPath : List Bytes → Option DavPath
  | [user] => some { kind := .principal, user := user }
  | [user, second] =>
    if second = calendarsName then some { kind := .home, user := user } else none
  | [user, second, segment] => if second = calendarsName then collection user segment else none
  | [user, second, segment, name] =>
    if second ≠ calendarsName || trimIcs name = [] then none
    else (collection user segment).map fun path =>
      { path with kind := .object, guid := trimIcs name }
  | _ => none

/-- `none` is an invalid path. -/
def parseDAVPath (path : Bytes) : Option DavPath :=
  if hasPrefix path (ascii "/caldav") then
    let rest := trimSlashes (trimPrefix path (ascii "/caldav"))
    if rest = [] then some { kind := .root }
    else
      let parts := rest.splitOn slash
      if parts.any blankName then none else splitPath parts
  else none

def objectPath (userID calID guid : Bytes) : Bytes :=
  ascii "/caldav/" ++ (userID ++ (ascii "/calendars/" ++ (calID ++ (slash :: (guid ++ dotIcs)))))

/-! Paths that are served parse to what they were made from. -/

structure PathName (name : Bytes) : Prop where
  plain : slash ∉ name
  visible : blankName name = false

theorem PathName.ne_nil {name : Bytes} (named : PathName name) : name ≠ [] := by
  rintro rfl
  exact absurd named.visible (by decide)

theorem trimSlashes_cons {text : Bytes} (opens : ∀ byte, text.head? = some byte → byte ≠ slash)
    (closes : ∀ byte, text.getLast? = some byte → byte ≠ slash) :
    trimSlashes (slash :: text) = text := by
  have edge : ∀ bytes : Bytes, (∀ byte, bytes.head? = some byte → byte ≠ slash) →
      bytes.dropWhile (· == slash) = bytes := by
    intro bytes first
    cases bytes with
    | nil => rfl
    | cons byte rest => simp [first byte rfl]
  have front : (slash :: text).dropWhile (· == slash) = text := by
    rw [List.dropWhile_cons_of_pos (by simp), edge text opens]
  rw [trimSlashes, front, edge text.reverse (by simpa [List.head?_reverse] using closes),
    List.reverse_reverse]

theorem trimIcs_append (guid : Bytes) : trimIcs (guid ++ dotIcs) = guid := by
  have ends : dotIcs.isSuffixOf (guid ++ dotIcs) = true :=
    List.isSuffixOf_iff_suffix.mpr (List.suffix_append guid dotIcs)
  simp [trimIcs]

theorem dotIcs_plain : slash ∉ dotIcs := by decide

theorem visible_ics (guid : Bytes) : blankName (guid ++ dotIcs) = false := by
  have long : 4 ≤ (guid ++ dotIcs).length := by simp [dotIcs, ascii]
  unfold blankName
  simp only [Bool.or_eq_false_iff, decide_eq_false_iff_not]
  refine ⟨⟨?_, ?_⟩, ?_⟩
  all_goals
    intro same
    rw [same] at long
    exact absurd long (by decide)

variable {user segment : Bytes}

theorem parse_objectPath {guid : Bytes} (named : PathName user) (listed : PathName segment)
    (plain : slash ∉ guid) (present : guid ≠ []) :
    parseDAVPath (objectPath user segment guid) =
      (collection user segment).map fun path => { path with kind := .object, guid := guid } := by
  -- The text after the mount point, without its leading slash.
  let rest := user ++ slash :: (calendarsName ++ slash :: (segment ++ slash :: (guid ++ dotIcs)))
  have path : objectPath user segment guid = ascii "/caldav" ++ slash :: rest := rfl
  have opens : ∀ byte, rest.head? = some byte → byte ≠ slash := by
    intro byte first same
    obtain ⟨head, tail, rfl⟩ := List.exists_cons_of_ne_nil named.ne_nil
    have equal : head = byte := Option.some.inj first
    exact named.plain (by simp [equal, same])
  have closes : ∀ byte, rest.getLast? = some byte → byte ≠ slash := by
    intro byte last same
    have shape : rest = (user ++ slash :: (calendarsName ++ slash :: (segment ++ slash ::
        (guid ++ [46, 105, 99])))) ++ [115] := by
      simp [rest, dotIcs, ascii]
    rw [shape, List.getLast?_concat] at last
    cases last
    exact absurd same (by decide)
  have parts : rest.splitOn slash = [user, calendarsName, segment, guid ++ dotIcs] := by
    have name : slash ∉ guid ++ dotIcs := by simp [plain, dotIcs_plain]
    rw [List.splitOn_append_cons_self_of_not_mem named.plain,
      List.splitOn_append_cons_self_of_not_mem (by decide),
      List.splitOn_append_cons_self_of_not_mem listed.plain, List.splitOn_eq_singleton name]
  have some : rest ≠ [] := by simp [rest, named.ne_nil]
  have visible : [user, calendarsName, segment, guid ++ dotIcs].any blankName = false := by
    simp [named.visible, listed.visible, visible_ics,
      show blankName calendarsName = false by decide]
  have leads : hasPrefix (ascii "/caldav" ++ slash :: rest) (ascii "/caldav") = true := by
    simp [hasPrefix]
  rw [path, parseDAVPath, if_pos leads, trimPrefix_append, trimSlashes_cons opens closes]
  simp [if_neg some, parts, visible, splitPath, trimIcs_append, present]

variable {owner : Bytes}

theorem uuid_plain (valid : uuidParses owner = true) : slash ∉ owner := by
  intro member
  obtain ⟨position, bound, found⟩ := List.getElem_of_mem member
  simp only [uuidParses, Bool.and_eq_true, beq_iff_eq, List.all_eq_true, List.mem_range] at valid
  have checked := valid.2 position (valid.1 ▸ bound)
  rw [List.getElem?_eq_getElem bound, found] at checked
  split at checked
  · exact absurd checked (by decide)
  · exact absurd checked (by decide)

theorem uuid_length (valid : uuidParses owner = true) : owner.length = 36 := by
  simp only [uuidParses, Bool.and_eq_true, beq_iff_eq] at valid
  exact valid.1

variable {calID : Bytes}

theorem collection_shared (valid : uuidParses owner = true) (plain : slash ∉ calID)
    (present : calID ≠ []) :
    collection user (sharedSegment owner calID) =
      some { kind := .collection, user := user, calSeg := sharedSegment owner calID
             owner := owner, calendar := calID } := by
  have leads : hasPrefix (sharedSegment owner calID) sharedPrefix = true := by
    simp [sharedSegment]
  have width := uuid_length valid
  have size : 0 < calID.length := List.length_pos_iff.mpr present
  have parsed : parseSharedSegment (sharedSegment owner calID) = some (owner, calID) := by
    rw [parseSharedSegment, if_pos leads, sharedSegment, trimPrefix_append]
    have middle : (owner ++ 45 :: calID)[uuidLen]? = some 45 := by
      rw [List.getElem?_append_right (by simp [width, uuidLen])]
      simp [width, uuidLen]
    have long : ¬ (owner ++ 45 :: calID).length ≤ uuidLen + 1 := by
      simp [uuidLen]
      omega
    have first : (owner ++ 45 :: calID).take uuidLen = owner := List.take_left' width
    have second : (owner ++ 45 :: calID).drop (uuidLen + 1) = calID := by
      have split : owner ++ 45 :: calID = (owner ++ [45]) ++ calID := by simp
      rw [split]
      exact List.drop_left' (by simp [width, uuidLen])
    simp only [long, middle, first, second, valid]
    simp [plain]
  rw [collection, if_pos leads, parsed]
  rfl

theorem pathName_shared (valid : uuidParses owner = true) (plain : slash ∉ calID) :
    PathName (sharedSegment owner calID) where
  plain := by
    simp only [sharedSegment, List.mem_append, List.mem_cons, not_or]
    exact ⟨by decide, uuid_plain valid, by decide, plain⟩
  visible := by
    simp [blankName, sharedSegment, sharedPrefix, ascii]

theorem plain_of_split {separator : UInt8} (text : Bytes) :
    ∀ part ∈ text.splitOn separator, separator ∉ part := by
  induction text with
  | nil => simp [List.splitOn]
  | cons byte rest ih =>
    rw [List.splitOn_eq_splitOnP, List.splitOnP_cons_eq_if_modifyHead, ← List.splitOn_eq_splitOnP]
    obtain ⟨front, others, split⟩ :=
      List.exists_cons_of_ne_nil (List.splitOn_ne_nil separator rest)
    rw [split] at ih ⊢
    by_cases cut : byte = separator
    · simpa [cut] using ih
    intro part member
    simp only [beq_iff_eq, cut, if_false, List.modifyHead_cons, List.mem_cons] at member
    rcases member with rfl | later
    · simp only [List.mem_cons, not_or]
      exact ⟨Ne.symm cut, ih front (by simp)⟩
    · exact ih part (List.mem_cons_of_mem front later)

theorem parseSharedSegment_valid (parsed : parseSharedSegment segment = some (owner, calID)) :
    uuidParses owner = true ∧ slash ∉ calID ∧ calID ≠ [] := by
  unfold parseSharedSegment at parsed
  split at parsed
  · simp only at parsed
    split at parsed
    · cases parsed
    rename_i long
    split at parsed
    · cases parsed
    rename_i valid
    cases parsed
    simp only [Bool.or_eq_true, decide_eq_true_eq] at long
    simp only [Bool.or_eq_true, Bool.not_eq_true', List.contains_eq_mem, decide_eq_true_eq,
      not_or, Bool.not_eq_false] at valid
    refine ⟨valid.1, valid.2, ?_⟩
    intro blank
    have size := congrArg List.length blank
    simp only [List.length_drop, List.length_nil] at size
    omega
  · cases parsed

/-- What a collection or an object path can name. -/
structure DavPath.Valid (path : DavPath) : Prop where
  named : PathName path.user
  shares : path.shared = true →
    uuidParses path.owner = true ∧ slash ∉ path.calendar ∧ path.calendar ≠ []
  object : path.kind = .object → slash ∉ path.guid ∧ path.guid ≠ []

theorem collection_valid {path : DavPath} (named : PathName user)
    (made : collection user segment = some path) : path.Valid ∧ path.kind = .collection := by
  unfold collection at made
  split at made
  · obtain ⟨⟨owner, calendar⟩, parsed, rfl⟩ := Option.map_eq_some_iff.mp made
    exact ⟨⟨named, fun _ => parseSharedSegment_valid parsed, by simp⟩, rfl⟩
  · cases made
    exact ⟨⟨named, by simp [DavPath.shared], by simp⟩, rfl⟩

theorem slash_of_trimIcs {name : Bytes} (member : slash ∈ trimIcs name) : slash ∈ name := by
  unfold trimIcs at member
  split at member
  · exact List.mem_of_mem_take member
  · exact member

/-- Only the mount point itself has no user. -/
theorem parseDAVPath_valid {path : Bytes} {parsed : DavPath}
    (found : parseDAVPath path = some parsed) : parsed.kind = .root ∨ parsed.Valid := by
  unfold parseDAVPath at found
  split at found
  · simp only at found
    split at found
    · cases found
      exact .inl rfl
    split at found
    · cases found
    rename_i visible
    refine .inr ?_
    generalize cut : (trimSlashes (trimPrefix path (ascii "/caldav"))).splitOn slash = parts
      at found visible
    have names : ∀ part ∈ parts, PathName part := by
      intro part member
      refine ⟨plain_of_split _ part (cut ▸ member), ?_⟩
      simp only [List.any_eq_true, not_exists, not_and, Bool.not_eq_true] at visible
      exact visible part member
    -- One case for each number of segments.
    unfold splitPath at found
    split at found
    · rename_i user
      cases found
      exact ⟨names user (by simp), by simp [DavPath.shared], by simp⟩
    · rename_i user second
      split at found
      · cases found
        exact ⟨names user (by simp), by simp [DavPath.shared], by simp⟩
      · cases found
    · rename_i user second segment
      split at found
      · exact (collection_valid (names user (by simp)) found).1
      · cases found
    · rename_i user second segment name
      split at found
      · cases found
      rename_i kept
      obtain ⟨path, made, rfl⟩ := Option.map_eq_some_iff.mp found
      have valid := (collection_valid (names user (by simp)) made).1
      simp only [Bool.or_eq_true, decide_eq_true_eq, not_or] at kept
      have plain : slash ∉ trimIcs name :=
        fun member => (names name (by simp)).plain (slash_of_trimIcs member)
      exact ⟨valid.named, valid.shares, fun _ => ⟨plain, kept.2⟩⟩
    · cases found
  · cases found

end Bongo.CalDav
