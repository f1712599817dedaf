import Bongo.ByteSearch

/-!
Splitting a message into a skeleton and its attachments. `collect` looks for the
encoded bodies of attachments between the delimiter lines of nested multipart
regions, and `Split` cuts the message at the spans it found. What the header
parsers answer is left open, and so is the order in which an unstable sort puts
spans that begin at one place.
-/

namespace Bongo.Attsplit

open ByteKeys

def maxDepth : Nat := 16

def maxParts : Nat := 1000

structure Span where
  start : Nat
  stop : Nat
  contentType : Bytes
  filename : Bytes
  deriving DecidableEq

/-- A media type or disposition with its parameters; a missing one is empty. -/
structure Media where
  type : Bytes
  params : Bytes → Bytes

/-- What the code takes from the Go library: the header parsers, `sort.Slice`
by the start of a span, and the hash. -/
structure Library where
  contentType : Bytes → Media
  partHeaders : Bytes → Media × Media
  sortSpans : List Span → List Span
  sorted : ∀ spans, (sortSpans spans).Perm spans ∧
    (sortSpans spans).Pairwise fun left right => left.start ≤ right.start
  sum : Bytes → Bytes

/-! Finding the attachments. -/

def blankLine : Bytes := [13, 10, 13, 10]

/-- The delimiter lines from `position` on, with the number of delimiters seen
so far. Without a result there are too many. Each round begins behind the line
of the last, so that `be - bs` rounds suffice. -/
def delimiters (raw dashB : Bytes) (bs be : Nat) :
    Nat → Nat → Nat → Option (List Nat × Nat)
  | 0, _, seen => some ([], seen)
  | rounds + 1, position, seen =>
    if be ≤ position then some ([], seen)
    else match index dashB (slice raw position be) with
      | none => some ([], seen)
      | some offset =>
        let place := position + offset
        let hit := place = bs ∨ raw[place - 1]? = some 10
        if hit ∧ maxParts < seen + 1 then none
        else
          let seen := if hit then seen + 1 else seen
          let front := if hit then [place] else []
          match indexByte 10 (slice raw place be) with
          | none => some (front, seen)
          | some line =>
            (delimiters raw dashB bs be rounds (place + line + 1) seen).map
              fun more => (front ++ more.1, more.2)

/-- The line break before a delimiter belongs to it. -/
def bodyEnd (raw : Bytes) (partStart next : Nat) : Nat :=
  if partStart + 2 ≤ next ∧ raw[next - 2]? = some 13 ∧ raw[next - 1]? = some 10 then next - 2
  else if partStart + 1 ≤ next ∧ raw[next - 1]? = some 10 then next - 1
  else next

/-- What a region inside yields: spans and the number of delimiters seen. -/
abbrev Descend := Nat → Nat → Bytes → Nat → Option (List Span × Nat)

def isMultipart (media : Media) : Bool :=
  hasPrefix media.type (ascii "multipart/") && media.params (ascii "boundary") != []

def attachmentName (headers : Media × Media) : Bytes :=
  if headers.2.params (ascii "filename") = [] then headers.1.params (ascii "name")
  else headers.2.params (ascii "filename")

def isAttachment (headers : Media × Media) : Bool :=
  equalFold headers.2.type (ascii "attachment") || attachmentName headers != []

/-- The body of a part that is not a region itself: a span if it is an
attachment and large enough. -/
def leaf (headers : Media × Media) (minSize : Int) (start stop : Nat) : List Span :=
  if isAttachment headers ∧ minSize ≤ (stop : Int) - start then
    [⟨start, stop, headers.1.type, attachmentName headers⟩]
  else []

def part (library : Library) (raw : Bytes) (minSize : Int) (descend : Descend) (be first next : Nat)
    (seen : Nat) : Option (List Span × Nat) :=
  match indexByte 10 (slice raw first be) with
  | none => some ([], seen)
  | some line =>
    let partStart := first + line + 1
    let stop := bodyEnd raw partStart next
    if stop ≤ partStart then some ([], seen)
    else match index blankLine (slice raw partStart stop) with
      | none => some ([], seen)
      | some header =>
        let partBodyStart := partStart + header + 4
        let headers := library.partHeaders (slice raw partStart partBodyStart)
        if isMultipart headers.1 then
          descend partBodyStart stop (headers.1.params (ascii "boundary")) seen
        else some (leaf headers minSize partBodyStart stop, seen)

def parts (library : Library) (raw : Bytes) (minSize : Int) (descend : Descend) (be : Nat) :
    List Nat → Nat → Option (List Span × Nat)
  | first :: next :: rest, seen =>
    (part library raw minSize descend be first next seen).bind fun found =>
      (parts library raw minSize descend be (next :: rest) found.2).map fun more =>
        (found.1 ++ more.1, more.2)
  | _, seen => some ([], seen)

/-- The attachments of a region, by the number of levels that are left. No
result stands for a message over the limits. -/
def collect (library : Library) (raw : Bytes) (minSize : Int) : Nat → Descend
  | 0 => fun _ _ _ _ => none
  | levels + 1 => fun bs be boundary seen =>
    (delimiters raw (ascii "--" ++ boundary) bs be (be - bs) bs seen).bind fun found =>
      parts library raw minSize (collect library raw minSize levels) be found.1 found.2

def topHeaders (raw : Bytes) : Option (Nat × Bytes) :=
  (index blankLine raw).map fun header => (header + 4, raw.take (header + 4))

def spansOf (library : Library) (raw : Bytes) (minSize : Int) : List Span :=
  match topHeaders raw with
  | none => []
  | some (bodyStart, header) =>
    let media := library.contentType header
    if isMultipart media then
      ((collect library raw minSize maxDepth bodyStart raw.length
        (media.params (ascii "boundary")) 0).map Prod.fst).getD []
    else []

/-! Cutting the message. -/

structure Part where
  hash : Bytes
  contentType : Bytes
  filename : Bytes
  encoded : Bytes
  deriving DecidableEq

inductive Piece where
  | literal (text : Bytes)
  | attachment (index : Nat)
  deriving DecidableEq

structure Skeleton where
  pieces : List Piece
  parts : List Part
  deriving DecidableEq

/-- From `position` on, with `count` parts already cut out. A span that begins
before `position` is passed over. -/
def cutFrom (library : Library) (raw : Bytes) : List Span → Nat → Nat → Skeleton
  | [], position, _ =>
    ⟨if position < raw.length then [.literal (raw.drop position)] else [], []⟩
  | span :: rest, position, count =>
    if span.start < position then cutFrom library raw rest position count
    else
      let encoded := slice raw span.start span.stop
      let front : List Piece :=
        if position < span.start then [.literal (slice raw position span.start)] else []
      let tail := cutFrom library raw rest span.stop (count + 1)
      ⟨front ++ .attachment count :: tail.pieces,
        ⟨library.sum encoded, span.contentType, span.filename, encoded⟩ :: tail.parts⟩

def split (library : Library) (raw : Bytes) (minSize : Int) : Skeleton :=
  let skeleton := cutFrom library raw (library.sortSpans (spansOf library raw minSize)) 0 0
  if skeleton.pieces = [] then ⟨[.literal raw], skeleton.parts⟩ else skeleton

def Piece.bytes (parts : List Part) : Piece → Bytes
  | .literal text => text
  | .attachment index => ((parts[index]?).map Part.encoded).getD []

def Skeleton.reconstruct (skeleton : Skeleton) : Bytes :=
  skeleton.pieces.flatMap (Piece.bytes skeleton.parts)

/-! Spans lie the right way round, and there are no more of them than
delimiters. -/
section Collecting

variable {library : Library} {raw : Bytes} {minSize : Int}

/-- What a region yields, after so many delimiters. -/
structure Sound (seen : Nat) (found : List Span × Nat) : Prop where
  forward : ∀ span ∈ found.1, span.start ≤ span.stop
  counted : seen + found.1.length ≤ found.2
  limited : found.2 ≤ maxParts

theorem delimiters_count {dashB : Bytes} {bs be rounds position seen : Nat}
    {found : List Nat × Nat} (limited : seen ≤ maxParts)
    (scanned : delimiters raw dashB bs be rounds position seen = some found) :
    found.2 = seen + found.1.length ∧ found.2 ≤ maxParts := by
  induction rounds generalizing position seen found with
  | zero =>
    cases scanned
    exact ⟨rfl, limited⟩
  | succ rounds ih =>
    rw [delimiters] at scanned
    split at scanned
    next =>
      cases scanned
      exact ⟨rfl, limited⟩
    next =>
      split at scanned
      next =>
        cases scanned
        exact ⟨rfl, limited⟩
      next offset _ =>
        by_cases hit : position + offset = bs ∨ raw[position + offset - 1]? = some 10
        · simp only [hit, true_and, if_true] at scanned
          split at scanned
          next => cases scanned
          next few =>
            split at scanned
            next =>
              cases scanned
              exact ⟨rfl, Nat.not_lt.mp few⟩
            next =>
              obtain ⟨more, later, rfl⟩ := Option.map_eq_some_iff.mp scanned
              obtain ⟨counted, bounded⟩ := ih (Nat.not_lt.mp few) later
              refine ⟨?_, bounded⟩
              rw [counted, List.length_append, List.length_singleton]
              omega
        · simp only [hit, false_and, if_false] at scanned
          split at scanned
          next =>
            cases scanned
            exact ⟨rfl, limited⟩
          next =>
            obtain ⟨more, later, rfl⟩ := Option.map_eq_some_iff.mp scanned
            exact ih limited later

theorem leaf_span (headers : Media × Media) (minSize : Int) {start stop : Nat}
    (order : start ≤ stop) :
    (∀ span ∈ leaf headers minSize start stop, span.start ≤ span.stop) ∧
      (leaf headers minSize start stop).length ≤ 1 := by
  rw [leaf]
  split_ifs with attached
  · constructor
    · intro span member
      cases List.mem_singleton.mp member
      exact order
    · exact Nat.le_refl 1
  · exact ⟨List.forall_mem_nil _, Nat.zero_le 1⟩

/-- One part: at most one span, or what the region inside yields. -/
theorem part_sound {descend : Descend}
    (inside : ∀ bs be boundary seen found, seen ≤ maxParts →
      descend bs be boundary seen = some found → Sound seen found)
    {be first next seen : Nat} {found : List Span × Nat} (limited : seen ≤ maxParts)
    (scanned : part library raw minSize descend be first next seen = some found) :
    (∀ span ∈ found.1, span.start ≤ span.stop) ∧ seen + found.1.length ≤ found.2 + 1 ∧
      seen ≤ found.2 ∧ found.2 ≤ maxParts := by
  have nothing : (([], seen) : List Span × Nat) = found →
      (∀ span ∈ found.1, span.start ≤ span.stop) ∧ seen + found.1.length ≤ found.2 + 1 ∧
        seen ≤ found.2 ∧ found.2 ≤ maxParts := by
    rintro rfl
    exact ⟨List.forall_mem_nil _, Nat.le_succ _, Nat.le_refl _, limited⟩
  rw [part] at scanned
  split at scanned
  next => exact nothing (Option.some.inj scanned)
  next line _ =>
    simp only at scanned
    split at scanned
    next => exact nothing (Option.some.inj scanned)
    next wide =>
      split at scanned
      next => exact nothing (Option.some.inj scanned)
      next header blank =>
        split at scanned
        next =>
          have sound := inside _ _ _ _ _ limited scanned
          exact ⟨sound.forward, Nat.le_succ_of_le sound.counted,
            Nat.le_trans (Nat.le_add_right _ _) sound.counted, sound.limited⟩
        next =>
          cases scanned
          have fits := index_fits blank
          have short := slice_length_le raw (first + line + 1)
            (bodyEnd raw (first + line + 1) next)
          have four : blankLine.length = 4 := rfl
          obtain ⟨forward, one⟩ := leaf_span
            (library.partHeaders (slice raw (first + line + 1) (first + line + 1 + header + 4)))
            minSize
            (show first + line + 1 + header + 4 ≤ bodyEnd raw (first + line + 1) next by omega)
          exact ⟨forward, Nat.add_le_add_left one seen, Nat.le_refl _, limited⟩

theorem parts_sound {descend : Descend}
    (inside : ∀ bs be boundary seen found, seen ≤ maxParts →
      descend bs be boundary seen = some found → Sound seen found)
    {be : Nat} (delimiters : List Nat) {seen : Nat} {found : List Span × Nat}
    (limited : seen ≤ maxParts)
    (scanned : parts library raw minSize descend be delimiters seen = some found) :
    (∀ span ∈ found.1, span.start ≤ span.stop) ∧
      seen + found.1.length ≤ found.2 + delimiters.length ∧ found.2 ≤ maxParts := by
  induction delimiters generalizing seen found with
  | nil =>
    cases scanned
    exact ⟨List.forall_mem_nil _, Nat.le_refl _, limited⟩
  | cons first rest ih =>
    cases rest with
    | nil =>
      cases scanned
      exact ⟨List.forall_mem_nil _, Nat.le_succ _, limited⟩
    | cons next rest =>
      rw [parts] at scanned
      obtain ⟨here, first, scanned⟩ := Option.bind_eq_some_iff.mp scanned
      obtain ⟨more, later, rfl⟩ := Option.map_eq_some_iff.mp scanned
      obtain ⟨forward, one, grown, bounded⟩ := part_sound inside limited first
      obtain ⟨forwards, counted, final⟩ := ih bounded later
      refine ⟨?_, ?_, final⟩
      · intro span member
        exact (List.mem_append.mp member).elim (forward span) (forwards span)
      · simp only [List.length_append, List.length_cons] at counted ⊢
        omega

/-- Every region: by induction on the levels left, for a region inside. -/
theorem collect_sound (levels bs be : Nat) (boundary : Bytes) (seen : Nat)
    (found : List Span × Nat) (limited : seen ≤ maxParts)
    (scanned : collect library raw minSize levels bs be boundary seen = some found) :
    Sound seen found := by
  induction levels generalizing bs be boundary seen found with
  | zero => cases scanned
  | succ levels ih =>
    rw [collect] at scanned
    obtain ⟨lines, scan, scanned⟩ := Option.bind_eq_some_iff.mp scanned
    obtain ⟨counted, bounded⟩ := delimiters_count limited scan
    obtain ⟨forward, total, final⟩ := parts_sound ih lines.1 bounded scanned
    exact ⟨forward, by omega, final⟩

theorem spansOf_sound : (∀ span ∈ spansOf library raw minSize, span.start ≤ span.stop) ∧
    (spansOf library raw minSize).length ≤ maxParts := by
  have nothing : (∀ span ∈ ([] : List Span), span.start ≤ span.stop) ∧
      ([] : List Span).length ≤ maxParts :=
    ⟨List.forall_mem_nil _, Nat.zero_le _⟩
  rw [spansOf]
  split
  next => exact nothing
  next bodyStart header _ =>
    simp only
    split
    next =>
      cases found : collect library raw minSize maxDepth bodyStart raw.length
          ((library.contentType header).params (ascii "boundary")) 0 with
      | none => exact nothing
      | some result =>
        have sound := collect_sound _ _ _ _ _ _ (Nat.zero_le _) found
        have few := sound.counted
        exact ⟨sound.forward, by
          change result.1.length ≤ maxParts
          exact Nat.le_trans (by omega) sound.limited⟩
    next => exact nothing

end Collecting

section Tiling

variable (library : Library) (raw : Bytes)

theorem cutFrom_parts (spans : List Span) (position count : Nat) :
    (cutFrom library raw spans position count).parts.length ≤ spans.length := by
  induction spans generalizing position count with
  | nil => exact Nat.le_refl _
  | cons span rest ih =>
    rw [cutFrom]
    split
    next => exact Nat.le_succ_of_le (ih position count)
    next => exact Nat.succ_le_succ (ih span.stop (count + 1))

/-- Cut out behind other parts, the pieces and parts give back what stands from
the position on. -/
theorem cutFrom_bytes (spans : List Span) (position : Nat) (before : List Part)
    (forward : ∀ span ∈ spans, span.start ≤ span.stop) :
    (cutFrom library raw spans position before.length).pieces.flatMap (Piece.bytes
      (before ++ (cutFrom library raw spans position before.length).parts)) =
        raw.drop position := by
  induction spans generalizing position before with
  | nil =>
    rw [cutFrom]
    split
    next => simp [Piece.bytes]
    next past => simp [List.drop_eq_nil_of_le (Nat.not_lt.mp past)]
  | cons span rest ih =>
    have forwards : ∀ later ∈ rest, later.start ≤ later.stop :=
      fun later member => forward later (List.mem_cons_of_mem _ member)
    rw [cutFrom]
    split
    next => exact ih position before forwards
    next reached =>
      have order := forward span List.mem_cons_self
      have front : (if position < span.start then
          [Piece.literal (slice raw position span.start)] else []).flatMap
          (Piece.bytes (before ++ ⟨library.sum (slice raw span.start span.stop),
            span.contentType, span.filename, slice raw span.start span.stop⟩ ::
            (cutFrom library raw rest span.stop (before.length + 1)).parts)) =
          slice raw position span.start := by
        split
        next => simp [Piece.bytes]
        next here =>
          have same : span.start = position := by omega
          simp [slice, same]
      have tail := ih span.stop (before ++ [⟨library.sum (slice raw span.start span.stop),
        span.contentType, span.filename, slice raw span.start span.stop⟩]) forwards
      rw [List.length_append, List.length_singleton, List.append_assoc,
        List.singleton_append] at tail
      simp only [List.flatMap_append, List.flatMap_cons, front, tail]
      simp only [Piece.bytes, List.getElem?_append_right (Nat.le_refl _), Nat.sub_self,
        List.getElem?_cons_zero, Option.map_some, Option.getD_some]
      rw [slice_append_drop raw order, slice_append_drop raw (Nat.not_lt.mp reached)]

theorem split_reconstruct (minSize : Int) : (split library raw minSize).reconstruct = raw := by
  have spans := (library.sorted (spansOf library raw minSize)).1
  have forward : ∀ span ∈ library.sortSpans (spansOf library raw minSize), span.start ≤ span.stop :=
    fun span member => spansOf_sound.1 span (spans.mem_iff.mp member)
  have tiled := cutFrom_bytes library raw _ 0 [] forward
  rw [split]
  split_ifs
  · simp [Skeleton.reconstruct, Piece.bytes]
  · simpa [Skeleton.reconstruct] using tiled

theorem split_parts (minSize : Int) : (split library raw minSize).parts.length ≤ maxParts := by
  have spans := (library.sorted (spansOf library raw minSize)).1.length_eq
  have few := cutFrom_parts library raw (library.sortSpans (spansOf library raw minSize)) 0 0
  have limit : (spansOf library raw minSize).length ≤ maxParts := spansOf_sound.2
  have bound :
      (cutFrom library raw (library.sortSpans (spansOf library raw minSize)) 0 0).parts.length ≤
        maxParts := by omega
  rw [split]
  split_ifs
  · exact bound
  · exact bound

theorem cutFrom_index (spans : List Span) (position count index : Nat)
    (member : Piece.attachment index ∈ (cutFrom library raw spans position count).pieces) :
    index < count + (cutFrom library raw spans position count).parts.length := by
  induction spans generalizing position count with
  | nil =>
    rw [cutFrom] at member
    split at member
    next => cases List.mem_singleton.mp member
    next => exact absurd member List.not_mem_nil
  | cons span rest ih =>
    rw [cutFrom] at member ⊢
    split at member
    next early =>
      rw [if_pos early]
      exact ih position count member
    next reached =>
      rw [if_neg reached]
      simp only [List.length_cons]
      rcases List.mem_append.mp member with front | later
      · split at front
        next => cases List.mem_singleton.mp front
        next => exact absurd front List.not_mem_nil
      rcases List.mem_cons.mp later with here | later
      · cases here
        omega
      · have inner := ih span.stop (count + 1) later
        omega

end Tiling

end Bongo.Attsplit
