import Bongo.Attsplit

/-!
Stored messages. `PrepareSplit` turns a split message into what a record holds,
a skeleton, a layout and references to attachments; `FullRawMessage` reads such
a record back through a lookup of blobs by hash.
-/

namespace Bongo.RawMessage

open ByteKeys Attsplit

structure BlobRef where
  hash : Bytes
  size : Int
  contentType : Bytes
  filename : Bytes
  deriving DecidableEq

inductive SegmentKind where
  | unspecified
  | literal
  | attachment
  deriving DecidableEq

structure MessageSegment where
  kind : SegmentKind
  length : Int64
  attachmentIndex : Int32
  deriving DecidableEq

structure SplitMessage where
  skeleton : Bytes
  layout : List MessageSegment
  attachments : List BlobRef
  encoded : List Bytes
  deriving DecidableEq

/-- The fields of a record that hold the message. -/
structure MailMeta where
  rawMessage : Option BlobRef
  attachments : List BlobRef
  layout : List MessageSegment

/-! Preparing. -/

def literalBytes : Piece → Bytes
  | .literal text => text
  | .attachment _ => []

/-- The index is cut to 32 bits. -/
def segment : Piece → MessageSegment
  | .literal text => ⟨.literal, Int64.ofNat text.length, 0⟩
  | .attachment index => ⟨.attachment, 0, Int32.ofNat index⟩

def blobRef (part : Attsplit.Part) : BlobRef :=
  ⟨part.hash, part.encoded.length, part.contentType, part.filename⟩

/-- `simple` is the answer of `mimesafe.Check`: the message is in its limits. -/
def prepareSplit (library : Library) (simple : Bytes → Bool) (raw : Bytes) (minSize : Int) :
    Option SplitMessage :=
  if minSize ≤ 0 then none
  else if !simple raw then none
  else
    let skeleton := split library raw minSize
    if skeleton.parts = [] then none
    else
      some ⟨skeleton.pieces.flatMap literalBytes, skeleton.pieces.map segment,
        skeleton.parts.map blobRef, skeleton.parts.map Attsplit.Part.encoded⟩

/-! Reading back. -/

/-- The errors of `FullRawMessage`, with what their texts name. `sliceOutOfRange` is
none of its own: the slice expression panics. -/
inductive ReadError (ε : Type) where
  | missingRawMessage
  | blob (fault : ε)
  | skeletonBlob (fault : ε)
  | literalOutOfRange (segment : Nat)
  | sliceOutOfRange
  | attachmentOutOfRange (index : Int)
  | attachmentBlob (index : Nat) (fault : ε)
  | unknownKind (segment : Nat)
  | notConsumed (offset size : Nat)

variable {ε : Type}

abbrev Cache := List (Nat × Bytes)

def fetch (get : Bytes → Except ε Bytes) (attachments : List BlobRef) (cache : Cache)
    (index : Nat) :
    Except (ReadError ε) (Bytes × Cache) :=
  match cache.lookup index, attachments[index]? with
  | some bytes, _ => .ok (bytes, cache)
  | none, none => .error (.attachmentOutOfRange index)
  | none, some ref =>
    match get ref.hash with
    | .error fault => .error (.attachmentBlob index fault)
    | .ok bytes => .ok (bytes, (index, bytes) :: cache)

/-- The loop over the layout, from segment `number` and skeleton offset `offset`
on. It gives the bytes to append and the offset at the end. -/
def assemble (get : Bytes → Except ε Bytes) (skeleton : Bytes) (attachments : List BlobRef) :
    List MessageSegment → Nat → Nat → Cache → Except (ReadError ε) (Bytes × Nat)
  | [], _, offset, _ => .ok ([], offset)
  | segment :: rest, number, offset, cache =>
    match segment.kind with
    | .literal =>
      -- The sum is one of 64 bits and may wrap around.
      let stop := (offset + segment.length.toInt).bmod (2 ^ 64)
      if segment.length.toInt < 0 ∨ (skeleton.length : Int) < stop then
        .error (.literalOutOfRange number)
      else if stop < offset then .error .sliceOutOfRange
      else do
        let (bytes, final) ← assemble get skeleton attachments rest (number + 1) stop.toNat cache
        .ok (slice skeleton offset stop.toNat ++ bytes, final)
    | .attachment =>
      let index := segment.attachmentIndex.toInt
      if index < 0 ∨ (attachments.length : Int) ≤ index then
        .error (.attachmentOutOfRange index)
      else do
        let (here, cache) ← fetch get attachments cache index.toNat
        let (bytes, final) ← assemble get skeleton attachments rest (number + 1) offset cache
        .ok (here ++ bytes, final)
    | .unspecified => .error (.unknownKind number)

def fullRawMessage (record : MailMeta) (get : Bytes → Except ε Bytes) :
    Except (ReadError ε) Bytes :=
  match record.rawMessage with
  | none => .error .missingRawMessage
  | some ref =>
    if record.layout = [] then (get ref.hash).mapError .blob
    else match get ref.hash with
      | .error fault => .error (.skeletonBlob fault)
      | .ok skeleton =>
        match assemble get skeleton record.attachments record.layout 0 0 [] with
        | .error fault => .error fault
        | .ok (bytes, final) =>
          if final = skeleton.length then .ok bytes
          else .error (.notConsumed final skeleton.length)

section Reading

variable {get : Bytes → Except ε Bytes} {attachments : List BlobRef} {cache : Cache}
  {index offset : Nat} {here text bytes skeleton : Bytes} {layout : List MessageSegment}

def Blob (get : Bytes → Except ε Bytes) (attachments : List BlobRef) (index : Nat) (here : Bytes) :
    Prop :=
  ∃ ref, attachments[index]? = some ref ∧ get ref.hash = .ok here

def Cached (get : Bytes → Except ε Bytes) (attachments : List BlobRef) (cache : Cache) : Prop :=
  ∀ index here, cache.lookup index = some here → Blob get attachments index here

section

variable (cached : Cached get attachments cache)
include cached

theorem Cached.cons (blob : Blob get attachments index here) :
    Cached get attachments ((index, here) :: cache) := by
  intro other found hit
  rw [List.lookup_cons] at hit
  split at hit
  next same => exact eq_of_beq same ▸ Option.some.inj hit ▸ blob
  next => exact cached other found hit

theorem fetch_blob (blob : Blob get attachments index here) :
    ∃ later, fetch get attachments cache index = .ok (here, later) ∧
      Cached get attachments later := by
  obtain ⟨ref, named, got⟩ := blob
  cases hit : cache.lookup index with
  | some found =>
    obtain ⟨other, same, again⟩ := cached index found hit
    cases named.symm.trans same
    cases got.symm.trans again
    exact ⟨cache, by rw [fetch, hit], cached⟩
  | none => exact ⟨_, by simp only [fetch, hit, named, got], cached.cons ⟨ref, named, got⟩⟩

theorem fetch_cases (index : Nat) :
    match fetch get attachments cache index with
    | .ok (here, later) => Blob get attachments index here ∧ Cached get attachments later
    | .error fault => fault ≠ .sliceOutOfRange := by
  unfold fetch
  cases hit : cache.lookup index with
  | some found => exact ⟨cached index found hit, cached⟩
  | none =>
    cases named : attachments[index]? with
    | none => exact nofun
    | some ref =>
      cases got : get ref.hash with
      | error fault => simp [got]
      | ok here => simpa only [got] using ⟨⟨ref, named, got⟩, cached.cons ⟨ref, named, got⟩⟩

end

/-- A skeleton and the message made of it, as a layout interleaves it with the
attachments. -/
inductive Interleaves (get : Bytes → Except ε Bytes) (attachments : List BlobRef) :
    List MessageSegment → Bytes → Bytes → Prop
  | nil : Interleaves get attachments [] [] []
  | literal {segment : MessageSegment} {layout text skeleton bytes} (kind : segment.kind = .literal)
      (length : segment.length.toInt = text.length)
      (later : Interleaves get attachments layout skeleton bytes) :
      Interleaves get attachments (segment :: layout) (text ++ skeleton) (text ++ bytes)
  | attachment {segment : MessageSegment} {layout here skeleton bytes} {index : Nat}
      (kind : segment.kind = .attachment) (named : segment.attachmentIndex.toInt = index)
        (blob : Blob get attachments index here)
      (later : Interleaves get attachments layout skeleton bytes) :
      Interleaves get attachments (segment :: layout) skeleton (here ++ bytes)

/-- The loop over the front of a layout that interleaves what is next in the skeleton. -/
theorem assemble_append (small : skeleton.length < 2 ^ 63) (within : offset ≤ skeleton.length)
    (laid : Interleaves get attachments layout text bytes) (more : List MessageSegment)
    (number : Nat) (cached : Cached get attachments cache) {rest : Bytes}
    (next : skeleton.drop offset = text ++ rest) :
    ∃ place later, Cached get attachments later ∧
      assemble get skeleton attachments (layout ++ more) number offset cache =
        (assemble get skeleton attachments more place (offset + text.length) later).map
          fun result => (bytes ++ result.1, result.2) := by
  induction laid generalizing number offset cache with
  | nil =>
    refine ⟨number, cache, cached, ?_⟩
    rw [List.nil_append, List.length_nil, Nat.add_zero]
    cases assemble get skeleton attachments more number offset cache <;> rfl
  | @literal segment layout first text bytes kind length _ ih =>
    have size := congrArg List.length next
    simp only [List.length_drop, List.length_append] at size
    rw [List.append_assoc] at next
    have stop : (offset + segment.length.toInt).bmod (2 ^ 64) = (offset + first.length : Nat) := by
      rw [length, Int.bmod_eq_of_le (by omega) (by omega), Nat.cast_add]
    have taken : slice skeleton offset (offset + first.length) = first := by
      rw [slice, List.drop_take, next, Nat.add_sub_cancel_left, List.take_left]
    have onward : skeleton.drop (offset + first.length) = text ++ rest := by
      rw [← List.drop_drop, next, List.drop_left]
    obtain ⟨place, later, kept, same⟩ := ih (by omega) (number + 1) cached onward
    refine ⟨place, later, kept, ?_⟩
    rw [List.cons_append, assemble, kind]
    simp only [stop, Int.toNat_natCast, taken, same]
    rw [if_neg (by omega), if_neg (by omega), List.length_append, ← Nat.add_assoc]
    cases assemble get skeleton attachments more place _ later with
    | error fault => rfl
    | ok result => simp [Except.map, bind, Except.bind]
  | @attachment segment layout here text bytes index kind named blob _ ih =>
    obtain ⟨after, fetched, cached⟩ := fetch_blob cached blob
    obtain ⟨place, later, kept, same⟩ := ih within (number + 1) cached next
    refine ⟨place, later, kept, ?_⟩
    have inside : index < attachments.length := by
      obtain ⟨ref, there, -⟩ := blob
      exact (List.getElem?_eq_some_iff.mp there).1
    rw [List.cons_append, assemble, kind]
    simp only [named, Int.toNat_natCast, fetched]
    rw [if_neg (by omega)]
    change (assemble get skeleton attachments (layout ++ more) (number + 1) offset after >>=
      fun result => Except.ok (here ++ result.1, result.2)) = _
    rw [same]
    cases assemble get skeleton attachments more place _ later with
    | error fault => rfl
    | ok result => simp [Except.map, bind, Except.bind]

/-- A literal that the loop comes to takes the offset past the greatest number. -/
def Overflows (get : Bytes → Except ε Bytes) (attachments : List BlobRef) (offset : Nat)
    (skeleton : Bytes) (layout : List MessageSegment) : Prop :=
  ∃ (before after : List MessageSegment) (segment : MessageSegment) (text bytes : Bytes),
    layout = before ++ segment :: after ∧ Interleaves get attachments before text bytes ∧
      text <+: skeleton ∧ segment.kind = .literal ∧
        2 ^ 63 ≤ (offset + text.length : Nat) + segment.length.toInt

/-- What a result of the loop says about the skeleton from the offset on. -/
structure Tells (get : Bytes → Except ε Bytes) (attachments : List BlobRef) (offset : Nat)
    (skeleton : Bytes) (layout : List MessageSegment)
    (result : Except (ReadError ε) (Bytes × Nat)) : Prop where
  ok : ∀ bytes final, result = .ok (bytes, final) → ∃ text, text <+: skeleton ∧
    final = offset + text.length ∧ Interleaves get attachments layout text bytes
  panics : result = .error .sliceOutOfRange → Overflows get attachments offset skeleton layout

theorem Tells.error {fault : ReadError ε} (own : fault ≠ .sliceOutOfRange) :
    Tells get attachments offset skeleton layout (.error fault) :=
  ⟨nofun, fun same => absurd (Except.error.inj same) own⟩

/-- A segment before the rest of the layout. -/
theorem Tells.cons {result : Except (ReadError ε) (Bytes × Nat)} (text : Bytes)
    (tells : Tells get attachments (offset + text.length) skeleton layout result)
    (segment : MessageSegment) (here : Bytes)
    (lays : ∀ {layout skeleton bytes}, Interleaves get attachments layout skeleton bytes →
      Interleaves get attachments (segment :: layout) (text ++ skeleton) (here ++ bytes)) :
    Tells get attachments offset (text ++ skeleton) (segment :: layout)
      (result >>= fun more => .ok (here ++ more.1, more.2)) := by
  cases result with
  | error fault =>
    refine ⟨nofun, fun same => ?_⟩
    obtain ⟨before, after, last, more, bytes, rfl, laid, next, kind, big⟩ :=
      tells.panics (congrArg Except.error (Except.error.inj same))
    refine ⟨segment :: before, after, last, _, _, rfl, lays laid, ?_, kind, ?_⟩
    · exact (List.prefix_append_right_inj text).mpr next
    · rwa [List.length_append, ← Nat.add_assoc]
  | ok more =>
    refine ⟨?_, nofun⟩
    rintro _ _ ⟨⟩
    obtain ⟨found, next, final, laid⟩ := tells.ok _ _ rfl
    refine ⟨_, (List.prefix_append_right_inj text).mpr next, ?_, lays laid⟩
    rw [final, List.length_append, Nat.add_assoc]

theorem assemble_tells (small : skeleton.length < 2 ^ 63) (layout : List MessageSegment)
    (number : Nat) (cached : Cached get attachments cache) (within : offset ≤ skeleton.length) :
    Tells get attachments offset (skeleton.drop offset) layout
      (assemble get skeleton attachments layout number offset cache) := by
  induction layout generalizing number offset cache with
  | nil =>
    constructor
    · rintro _ _ ⟨⟩
      exact ⟨[], List.nil_prefix, rfl, .nil⟩
    · rintro ⟨⟩
  | cons segment layout ih =>
    rw [assemble]
    cases kind : segment.kind with
    | unspecified => exact .error (by simp)
    | literal =>
      have high := segment.length.toInt_lt
      dsimp only
      split
      · exact .error (by simp)
      rename_i range
      by_cases fits : offset + segment.length.toInt < 2 ^ 63
      · rw [Int.bmod_eq_of_le (by omega) (by omega)] at range ⊢
        obtain ⟨count, length⟩ := Int.eq_ofNat_of_zero_le (show 0 ≤ segment.length.toInt by omega)
        have stop : (offset + segment.length.toInt).toNat = offset + count := by omega
        have taken : (slice skeleton offset (offset + count)).length = count := by
          rw [slice, List.length_drop, List.length_take]
          omega
        have cut : skeleton.drop offset =
            slice skeleton offset (offset + count) ++ skeleton.drop (offset + count) := by
          rw [slice, List.drop_take, Nat.add_sub_cancel_left, ← List.drop_drop,
            List.take_append_drop]
        rw [if_neg (by omega), stop, cut]
        have later := ih (number + 1) cached (show offset + count ≤ skeleton.length by omega)
        exact Tells.cons _ (taken.symm ▸ later) segment _ fun laid =>
          .literal kind (taken.symm ▸ length) laid
      · rw [if_pos (by rw [Int.bmod_def]; omega)]
        exact ⟨by simp, fun _ => ⟨[], layout, segment, [], [], rfl, .nil, List.nil_prefix, kind,
          not_lt.mp fits⟩⟩
    | attachment =>
      dsimp only
      split
      · exact .error (by simp)
      rename_i range
      obtain ⟨index, named⟩ :=
        Int.eq_ofNat_of_zero_le (show 0 ≤ segment.attachmentIndex.toInt by omega)
      rw [named, Int.toNat_natCast]
      have fetches := fetch_cases cached index
      generalize fetch get attachments cache index = fetched at fetches ⊢
      cases fetched with
      | error fault => exact .error fetches
      | ok found =>
        have later := ih (number + 1) fetches.2 within
        exact Tells.cons [] later segment found.1 fun laid => .attachment kind named fetches.1 laid

theorem assemble_overflows (small : skeleton.length < 2 ^ 63)
    (overflows : Overflows get attachments 0 skeleton layout) :
    assemble get skeleton attachments layout 0 0 [] = .error .sliceOutOfRange := by
  obtain ⟨before, after, segment, text, bytes, rfl, laid, ⟨rest, next⟩, kind, big⟩ := overflows
  obtain ⟨place, later, -, front⟩ := assemble_append small (Nat.zero_le _) laid (segment :: after) 0
    (show Cached get attachments [] from nofun) next.symm
  have size := congrArg List.length next
  rw [List.length_append] at size
  have high := segment.length.toInt_lt
  have stop : ((0 + text.length : Nat) + segment.length.toInt).bmod (2 ^ 64) =
      (0 + text.length : Nat) + segment.length.toInt - 2 ^ 64 := by
    rw [Int.bmod_def]
    omega
  rw [front, assemble, kind]
  rw [stop, if_neg (by omega), if_pos (by omega)]
  rfl

/-- No slice is out of range, and bytes that are returned have the whole skeleton in
them, once and in order. -/
def Safe (record : MailMeta) (get : Bytes → Except ε Bytes) : Prop :=
  match fullRawMessage record get with
  | .ok bytes => ∃ ref skeleton, record.rawMessage = some ref ∧ get ref.hash = .ok skeleton ∧
      (record.layout = [] ∧ bytes = skeleton ∨
        Interleaves get record.attachments record.layout skeleton bytes)
  | .error fault => fault ≠ .sliceOutOfRange

theorem fullRawMessage_safe_iff (record : MailMeta) (get : Bytes → Except ε Bytes)
    (small : ∀ hash bytes, get hash = .ok bytes → bytes.length < 2 ^ 63) :
    Safe record get ↔ ∀ ref skeleton, record.rawMessage = some ref → get ref.hash = .ok skeleton →
        ¬ Overflows get record.attachments 0 skeleton record.layout := by
  cases raw : record.rawMessage with
  | none => simp [Safe, fullRawMessage, raw]
  | some ref =>
    cases got : get ref.hash with
    | error fault =>
      refine iff_of_true ?_ ?_
      · by_cases plain : record.layout = []
        · simp [Safe, fullRawMessage, raw, plain, got, Except.mapError]
        · simp [Safe, fullRawMessage, raw, plain, got]
      · rintro _ skeleton ⟨⟩ found
        cases got.symm.trans found
    | ok skeleton =>
      have short := small _ _ got
      by_cases plain : record.layout = []
      · refine iff_of_true ?_ ?_
        · simp [Safe, fullRawMessage, raw, plain, got, Except.mapError]
        · rintro _ _ - - ⟨before, after, segment, -, -, same, -⟩
          simp [plain] at same
      have tells := assemble_tells short record.layout 0
        (show Cached get record.attachments [] from nofun) (Nat.zero_le _)
      constructor
      · rintro safe _ _ ⟨⟩ found overflows
        cases got.symm.trans found
        simp [Safe, fullRawMessage, raw, plain, got, assemble_overflows short overflows] at safe
      · intro fits
        have calm := fits ref skeleton rfl got
        unfold Safe fullRawMessage
        simp only [raw, plain, got]
        generalize assemble get skeleton record.attachments record.layout 0 0 [] = result at tells ⊢
        cases result with
        | error fault =>
          rintro rfl
          exact calm (tells.panics rfl)
        | ok found =>
          by_cases consumed : found.2 = skeleton.length
          · simp only [consumed]
            obtain ⟨text, next, final, laid⟩ := tells.ok _ _ rfl
            rw [consumed, Nat.zero_add] at final
            rw [next.eq_of_length final.symm] at laid
            exact ⟨ref, skeleton, rfl, got, .inr laid⟩
          · simp [consumed]

/-- The second length wraps the sum of the check around. -/
theorem long_literal_panics :
    fullRawMessage ⟨some ⟨[], 1, [], []⟩, [], [⟨.literal, 1, 0⟩, ⟨.literal, Int64.maxValue, 0⟩]⟩
      (fun _ => (.ok [65] : Except Unit Bytes)) = .error .sliceOutOfRange := rfl

/-- An attachment between two literals. -/
def attachedRecord : MailMeta :=
  ⟨some ⟨[], 2, [], []⟩, [⟨ascii "a", 1, [], []⟩],
    [⟨.literal, 1, 0⟩, ⟨.attachment, 0, 0⟩, ⟨.literal, 1, 0⟩]⟩

def attachedBlobs (hash : Bytes) : Except Unit Bytes :=
  .ok (if hash = [] then [65, 66] else [67])

theorem fullRawMessage_safe_iff_attached :
    Safe attachedRecord attachedBlobs ∧
      fullRawMessage attachedRecord attachedBlobs = .ok [65, 67, 66] := by
  refine ⟨(fullRawMessage_safe_iff attachedRecord attachedBlobs ?_).mpr ?_, rfl⟩
  · rintro hash _ ⟨⟩
    split <;> decide
  · rintro _ _ ⟨⟩ ⟨⟩ ⟨before, after, segment, text, bytes, same, -, inside, -, big⟩
    have every : ∀ segment ∈ attachedRecord.layout, segment.length.toInt ≤ 1 := by decide
    have short := every segment (by simp [same])
    have fits := inside.length_le
    simp only [if_true, List.length_cons, List.length_nil] at fits
    omega

end Reading

section RoundTrip

theorem index_survives {index : Nat} (small : index < maxParts) :
    (Int32.ofNat index).toInt = index := by
  apply Int32.toInt_ofNat_of_lt
  have limit : maxParts = 1000 := rfl
  omega

/-- The layout made from pieces interleaves their literal text with the parts. -/
theorem pieces_interleave {get : Bytes → Except ε Bytes} {parts : List Attsplit.Part}
    (few : parts.length ≤ maxParts)
    (blobs : ∀ (index : Nat) (part : Attsplit.Part), parts[index]? = some part → get part.hash =
      .ok part.encoded)
    (pieces : List Piece) (indexed : ∀ index, .attachment index ∈ pieces → index < parts.length)
    (small : (pieces.flatMap literalBytes).length < 2 ^ 63) :
    Interleaves get (parts.map blobRef) (pieces.map segment) (pieces.flatMap literalBytes)
      (pieces.flatMap (Piece.bytes parts)) := by
  induction pieces with
  | nil => exact .nil
  | cons piece rest ih =>
    rw [List.flatMap_cons, List.length_append] at small
    have later := ih (fun index member => indexed index (List.mem_cons_of_mem _ member)) (by omega)
    cases piece with
    | literal text =>
      have short : text.length < 2 ^ 63 := Nat.lt_of_le_of_lt (Nat.le_add_right _ _) small
      exact .literal rfl (Int64.toInt_ofNat_of_lt short) later
    | attachment index =>
      have inRange := indexed index List.mem_cons_self
      have named := List.getElem?_eq_getElem inRange
      have bytes : Piece.bytes parts (.attachment index) = parts[index].encoded := by
        rw [Piece.bytes, named]
        rfl
      rw [List.flatMap_cons, List.flatMap_cons, bytes]
      refine .attachment rfl (index_survives (Nat.lt_of_lt_of_le inRange few))
        ⟨blobRef parts[index], ?_, ?_⟩ later
      · rw [List.getElem?_map, named]
        rfl
      · exact blobs index _ named

variable {library : Library} {simple : Bytes → Bool} {raw : Bytes} {minSize : Int}
  {message : SplitMessage}

theorem split_pieces : (split library raw minSize).pieces ≠ [] := by
  rw [split]
  split_ifs with empty
  · exact List.cons_ne_nil _ _
  · exact empty

theorem split_index (index : Nat)
    (member : .attachment index ∈ (split library raw minSize).pieces) :
    index < (split library raw minSize).parts.length := by
  rw [split] at member ⊢
  split_ifs at member ⊢ with empty
  · cases List.mem_singleton.mp member
  · have bound := cutFrom_index library raw _ 0 0 index member
    rwa [Nat.zero_add] at bound

theorem prepareSplit_some (prepared : prepareSplit library simple raw minSize = some message) :
    message = ⟨(split library raw minSize).pieces.flatMap literalBytes,
      (split library raw minSize).pieces.map segment,
      (split library raw minSize).parts.map blobRef,
      (split library raw minSize).parts.map Attsplit.Part.encoded⟩ := by
  simp only [prepareSplit] at prepared
  split_ifs at prepared
  exact (Option.some.inj prepared).symm

/-- Reading a prepared message back, with any lookup that has its blobs. -/
theorem fullRawMessage_prepareSplit (library : Library) (simple : Bytes → Bool) (raw : Bytes)
    (small : raw.length < 2 ^ 63) (minSize : Int) (message : SplitMessage)
      (get : Bytes → Except ε Bytes) (skeleton : BlobRef)
    (prepared : prepareSplit library simple raw minSize = some message)
    (skeletonBlob : get skeleton.hash = .ok message.skeleton)
    (attachmentBlobs : ∀ (index : Nat) (ref : BlobRef) (bytes : Bytes),
      message.attachments[index]? = some ref → message.encoded[index]? = some bytes →
        get ref.hash = .ok bytes) :
    fullRawMessage ⟨some skeleton, message.attachments, message.layout⟩ get = .ok raw := by
  cases prepareSplit_some prepared
  have blobs : ∀ (index : Nat) (part : Attsplit.Part),
      (split library raw minSize).parts[index]? = some part → get part.hash = .ok part.encoded := by
    intro index part named
    apply attachmentBlobs index (blobRef part) part.encoded
    · rw [List.getElem?_map, named]
      rfl
    · rw [List.getElem?_map, named]
      rfl
  have whole := split_reconstruct library raw minSize
  rw [Skeleton.reconstruct] at whole
  have short : ((split library raw minSize).pieces.flatMap literalBytes).length < 2 ^ 63 := by
    refine Nat.lt_of_le_of_lt ?_ (whole ▸ small)
    rw [List.length_flatMap, List.length_flatMap]
    apply List.sum_le_sum
    intro piece _
    cases piece with
    | literal text => exact le_rfl
    | attachment index => exact Nat.zero_le _
  have interleaves := pieces_interleave (split_parts library raw minSize) blobs _ split_index short
  obtain ⟨place, later, -, assembled⟩ := assemble_append short (Nat.zero_le _) interleaves [] 0
    (show Cached get _ [] by simp [Cached]) (List.append_nil _).symm
  have laid : (split library raw minSize).pieces.map segment ≠ [] :=
    fun empty => split_pieces (List.map_eq_nil_iff.mp empty)
  rw [List.append_nil, Nat.zero_add] at assembled
  simp only [fullRawMessage, if_neg laid, skeletonBlob, assembled, assemble, Except.map, if_true,
    List.append_nil, whole]

/-! A message with two attachments, hashed to themselves. -/

def sampleLibrary : Library where
  contentType _ := ⟨ascii "multipart/mixed", fun key =>
    if key = ascii "boundary" then ascii "b" else []⟩
  partHeaders _ := (⟨ascii "text/plain", fun _ => []⟩, ⟨ascii "attachment", fun _ => []⟩)
  sortSpans := List.insertionSort fun left right => left.start ≤ right.start
  sorted spans := by
    constructor
    · exact List.perm_insertionSort _ spans
    have total : Std.Total fun left right : Span => left.start ≤ right.start :=
      ⟨fun left right => Nat.le_total left.start right.start⟩
    have transitive : IsTrans Span fun left right => left.start ≤ right.start :=
      ⟨fun _ _ _ => Nat.le_trans⟩
    exact List.pairwise_insertionSort _ spans
  sum := id

def sampleRaw : Bytes := ascii "H\r\n\r\n--b\r\nP\r\n\r\nfirst\r\n--b\r\nQ\r\n\r\nsecond\r\n--b--"

def sampleMessage : SplitMessage where
  skeleton := ascii "H\r\n\r\n--b\r\nP\r\n\r\n\r\n--b\r\nQ\r\n\r\n\r\n--b--"
  layout := [⟨.literal, 15, 0⟩, ⟨.attachment, 0, 0⟩, ⟨.literal, 12, 0⟩, ⟨.attachment, 0, 1⟩,
    ⟨.literal, 7, 0⟩]
  attachments := [⟨ascii "first", 5, ascii "text/plain", []⟩,
    ⟨ascii "second", 6, ascii "text/plain", []⟩]
  encoded := [ascii "first", ascii "second"]

theorem fullRawMessage_two_attachments :
    prepareSplit sampleLibrary (fun _ => true) sampleRaw 5 = some sampleMessage ∧
      fullRawMessage ⟨some ⟨sampleMessage.skeleton, 34, [], []⟩, sampleMessage.attachments,
        sampleMessage.layout⟩ (fun hash => (.ok hash : Except Unit Bytes)) = .ok sampleRaw := by
  have prepared : prepareSplit sampleLibrary (fun _ => true) sampleRaw 5 = some sampleMessage := by
    decide
  refine ⟨prepared, fullRawMessage_prepareSplit sampleLibrary (fun _ => true) sampleRaw (by decide)
    5 sampleMessage _ _ prepared rfl ?_⟩
  intro index ref bytes named stored
  match index with
  | 0 | 1 =>
    cases named
    cases stored
    rfl
  | _ + 2 => cases named

end RoundTrip

end Bongo.RawMessage
