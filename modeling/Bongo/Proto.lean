import Bongo.ByteKeys

/-!
The protobuf wire format: base-128 varints, tagged fields, and messages read
from and written to field lists. A reader keeps the last occurrence of a
scalar field and every occurrence of a repeated one, skips a field whose
number or wire type it does not know, and refuses string fields that are not
UTF-8. Groups are refused and the unknown fields of a message are not kept;
no message of a proto3 schema writes either.
-/

namespace Bongo.Proto

open ByteKeys

/-! Varints. The counter is the number of continuation bytes still allowed: nine
for 64 bits, the tenth byte then holds the single top bit. -/

def encodeVarint : Nat → Nat → Bytes
  | 0, number => [number.toUInt8]
  | more + 1, number =>
    if number < 128 then [number.toUInt8]
    else (number % 128 + 128).toUInt8 :: encodeVarint more (number / 128)

def decodeVarint : Nat → Bytes → Option (Nat × Bytes)
  | _, [] => none
  | 0, byte :: rest => if byte.toNat < 2 then some (byte.toNat, rest) else none
  | more + 1, byte :: rest =>
    if byte.toNat < 128 then some (byte.toNat, rest)
    else (decodeVarint more rest).map fun decoded =>
      (byte.toNat - 128 + 128 * decoded.1, decoded.2)

theorem toUInt8_toNat (number : Nat) (small : number < 256) :
    number.toUInt8.toNat = number := by
  simp [Nat.mod_eq_of_lt small]

theorem encodeVarint_ne_nil (more number : Nat) : encodeVarint more number ≠ [] := by
  cases more with
  | zero => simp [encodeVarint]
  | succ more =>
    rw [encodeVarint]
    split <;> simp

theorem decodeVarint_encodeVarint (more number : Nat) (rest : Bytes)
    (fits : number < 2 ^ (7 * more + 1)) :
    decodeVarint more (encodeVarint more number ++ rest) = some (number, rest) := by
  induction more generalizing number with
  | zero =>
    have bit : number < 2 := by simpa using fits
    have byte := toUInt8_toNat number (by omega)
    simp [encodeVarint, decodeVarint, byte, bit]
  | succ more ih =>
    rw [encodeVarint]
    by_cases short : number < 128
    · have byte := toUInt8_toNat number (by omega)
      simp [decodeVarint, short, byte]
    have byte := toUInt8_toNat (number % 128 + 128) (by omega)
    have smaller : number / 128 < 2 ^ (7 * more + 1) := by
      rw [Nat.div_lt_iff_lt_mul (by decide)]
      calc number < 2 ^ (7 * (more + 1) + 1) := fits
        _ = 2 ^ (7 * more + 1) * 128 := by
          rw [show 7 * (more + 1) + 1 = 7 * more + 1 + 7 by omega, Nat.pow_add]
    simp only [short, ↓reduceIte, List.cons_append, decodeVarint, byte, ih _ smaller]
    simp only [show ¬ number % 128 + 128 < 128 by omega, ↓reduceIte, Option.map_some,
      Option.some.injEq, Prod.mk.injEq, and_true]
    omega

inductive Wire where
  | varint (value : UInt64)
  | fixed64 (data : Bytes)
  | bytes (data : Bytes)
  | fixed32 (data : Bytes)
  deriving DecidableEq

structure Field where
  number : Nat
  wire : Wire
  deriving DecidableEq

abbrev Record := List Field

/-- Field numbers have 29 bits, and a byte string's length is a Go `int`. -/
def Field.encodable (field : Field) : Bool :=
  decide (0 < field.number ∧ field.number < 2 ^ 29) &&
    match field.wire with
    | .varint _ => true
    | .fixed64 data => data.length == 8
    | .bytes data => decide (data.length < 2 ^ 63)
    | .fixed32 data => data.length == 4

def encodeTag (number kind : Nat) : Bytes := encodeVarint 9 (number * 8 + kind)

def encodeField (field : Field) : Bytes :=
  match field.wire with
  | .varint value => encodeTag field.number 0 ++ encodeVarint 9 value.toNat
  | .fixed64 data => encodeTag field.number 1 ++ data
  | .bytes data => encodeTag field.number 2 ++ (encodeVarint 9 data.length ++ data)
  | .fixed32 data => encodeTag field.number 5 ++ data

def takeExactly (count : Nat) (data : Bytes) : Option (Bytes × Bytes) :=
  if count ≤ data.length then some (data.take count, data.drop count) else none

def decodePayload (kind : Nat) (data : Bytes) : Option (Wire × Bytes) :=
  if kind = 0 then
    (decodeVarint 9 data).map fun decoded => (.varint decoded.1.toUInt64, decoded.2)
  else if kind = 1 then
    (takeExactly 8 data).map fun parts => (.fixed64 parts.1, parts.2)
  else if kind = 2 then do
    let (length, rest) ← decodeVarint 9 data
    if length < 2 ^ 63 then
      (takeExactly length rest).map fun parts => (.bytes parts.1, parts.2)
    else none
  else if kind = 5 then
    (takeExactly 4 data).map fun parts => (.fixed32 parts.1, parts.2)
  else none

def decodeField (data : Bytes) : Option (Field × Bytes) := do
  let (tag, rest) ← decodeVarint 9 data
  if 0 < tag / 8 ∧ tag / 8 < 2 ^ 29 then
    (decodePayload (tag % 8) rest).map fun decoded => (⟨tag / 8, decoded.1⟩, decoded.2)
  else none

/-- Every field takes at least one byte, so the length of the input is
enough fuel. -/
def decodeFields : Nat → Bytes → Option Record
  | _, [] => some []
  | 0, _ :: _ => none
  | fuel + 1, data => do
      let (field, rest) ← decodeField data
      let others ← decodeFields fuel rest
      some (field :: others)

def encode (record : Record) : Bytes := record.flatMap encodeField

def decode (data : Bytes) : Option Record := decodeFields data.length data

theorem takeExactly_append (data rest : Bytes) :
    takeExactly data.length (data ++ rest) = some (data, rest) := by
  simp [takeExactly]

theorem decodeTag_encodeTag {number kind : Nat} (rest : Bytes) (small : number < 2 ^ 29)
    (kindSmall : kind < 8) :
    decodeVarint 9 (encodeTag number kind ++ rest) = some (number * 8 + kind, rest) :=
  decodeVarint_encodeVarint 9 _ rest (by omega)

theorem decodeField_tag {number kind : Nat} (rest : Bytes)
    (range : 0 < number ∧ number < 2 ^ 29) (kindSmall : kind < 8) :
    decodeField (encodeTag number kind ++ rest) =
      (decodePayload kind rest).map fun decoded => (⟨number, decoded.1⟩, decoded.2) := by
  have quotient : (number * 8 + kind) / 8 = number := by omega
  have remainder : (number * 8 + kind) % 8 = kind := by omega
  rw [decodeField, decodeTag_encodeTag rest range.2 kindSmall]
  simp only [Option.bind_eq_bind, Option.bind_some, quotient, remainder, range, and_self,
    ↓reduceIte]

theorem decodeField_encodeField {field : Field} (rest : Bytes)
    (valid : field.encodable = true) :
    decodeField (encodeField field ++ rest) = some (field, rest) := by
  obtain ⟨number, wire⟩ := field
  simp only [Field.encodable, Bool.and_eq_true, decide_eq_true_eq] at valid
  obtain ⟨range, shape⟩ := valid
  cases wire with
  | varint value =>
    have fits : value.toNat < 2 ^ (7 * 9 + 1) := value.toNat_lt
    simp only [encodeField, List.append_assoc]
    rw [decodeField_tag _ range (by omega)]
    simp [decodePayload, decodeVarint_encodeVarint 9 _ rest fits]
  | fixed64 data | fixed32 data =>
    simp only [encodeField, List.append_assoc]
    rw [decodeField_tag _ range (by omega)]
    have taken := takeExactly_append data rest
    rw [of_decide_eq_true shape] at taken
    simp [decodePayload, taken]
  | bytes data =>
    have size : data.length < 2 ^ 63 := by simpa using shape
    have fits : data.length < 2 ^ (7 * 9 + 1) := by omega
    simp only [encodeField, List.append_assoc]
    rw [decodeField_tag _ range (by omega)]
    simp only [decodePayload, decodeVarint_encodeVarint 9 _ _ fits, takeExactly_append, size,
      Option.bind_eq_bind, Option.bind_some, OfNat.ofNat_ne_zero, OfNat.ofNat_ne_one,
      ↓reduceIte, Option.map_some]

theorem encodeField_length (field : Field) : 0 < (encodeField field).length := by
  have tag : ∀ number kind, 0 < (encodeTag number kind).length := fun number kind =>
    List.length_pos_iff.mpr (encodeVarint_ne_nil 9 _)
  obtain ⟨number, wire⟩ := field
  cases wire <;> simp only [encodeField, List.length_append] <;>
    exact Nat.add_pos_left (tag _ _) _

theorem decodeFields_cons (fuel : Nat) {data : Bytes} (present : 0 < data.length) :
    decodeFields (fuel + 1) data = (decodeField data).bind fun decoded =>
        (decodeFields fuel decoded.2).bind fun others => some (decoded.1 :: others) := by
  cases data with
  | nil => simp at present
  | cons byte rest => rfl

theorem decodeFields_encode {record : Record} (fuel : Nat)
    (valid : record.all Field.encodable = true) (enough : (encode record).length ≤ fuel) :
    decodeFields fuel (encode record) = some record := by
  induction record generalizing fuel with
  | nil => cases fuel <;> rfl
  | cons field rest ih =>
    simp only [List.all_cons, Bool.and_eq_true] at valid
    simp only [encode, List.flatMap_cons, List.length_append] at ih enough ⊢
    have size := encodeField_length field
    cases fuel with
    | zero => omega
    | succ fuel =>
      rw [decodeFields_cons _ (by simp only [List.length_append]; omega),
        decodeField_encodeField _ valid.1]
      simp [ih fuel valid.2 (by omega)]

theorem decode_encode (record : Record) (valid : record.all Field.encodable = true) :
    decode (encode record) = some record :=
  decodeFields_encode _ valid le_rfl

theorem takeExactly_length {count : Nat} {data : Bytes} {parts : Bytes × Bytes}
    (taken : takeExactly count data = some parts) : parts.1.length = count := by
  rw [takeExactly] at taken
  split at taken
  case isTrue enough =>
    cases taken
    simpa using enough
  case isFalse => cases taken

theorem decodeField_encodable {data rest : Bytes} (field : Field)
    (decoded : decodeField data = some (field, rest)) : field.encodable = true := by
  simp only [decodeField, Option.bind_eq_bind, Option.bind_eq_some_iff] at decoded
  obtain ⟨⟨tag, tail⟩, -, decoded⟩ := decoded
  split at decoded
  case isFalse => cases decoded
  case isTrue range =>
    obtain ⟨⟨wire, left⟩, payload, same⟩ := Option.map_eq_some_iff.mp decoded
    cases same
    simp only [Field.encodable, range]
    simp only [decodePayload] at payload
    split_ifs at payload
    · obtain ⟨value, -, same⟩ := Option.map_eq_some_iff.mp payload
      cases same
      rfl
    · obtain ⟨parts, taken, same⟩ := Option.map_eq_some_iff.mp payload
      cases same
      simp [takeExactly_length taken]
    · simp only [Option.bind_eq_bind, Option.bind_eq_some_iff] at payload
      obtain ⟨⟨length, after⟩, -, payload⟩ := payload
      split at payload
      case isFalse => cases payload
      case isTrue small =>
        obtain ⟨parts, taken, same⟩ := Option.map_eq_some_iff.mp payload
        cases same
        simpa [takeExactly_length taken] using small
    · obtain ⟨parts, taken, same⟩ := Option.map_eq_some_iff.mp payload
      cases same
      simp [takeExactly_length taken]

theorem decodeFields_encodable (fuel : Nat) (data : Bytes) (record : Record)
    (decoded : decodeFields fuel data = some record) : record.all Field.encodable = true := by
  induction fuel generalizing data record with
  | zero =>
    cases data with
    | nil => cases decoded; rfl
    | cons byte rest => cases decoded
  | succ fuel ih =>
    cases data with
    | nil => cases decoded; rfl
    | cons byte rest =>
      rw [decodeFields_cons _ (by simp)] at decoded
      simp only [Option.bind_eq_some_iff, Option.some.injEq] at decoded
      obtain ⟨⟨field, after⟩, first, others, more, rfl⟩ := decoded
      simp [decodeField_encodable _ first, ih _ _ more]

section Fields

@[simp] def varintFrom (number : Nat) : UInt64 → Record → UInt64
  | found, [] => found
  | found, field :: rest =>
    match field.wire with
    | .varint value =>
      varintFrom number (if field.number = number then value else found) rest
    | _ => varintFrom number found rest

@[simp] def bytesFrom (number : Nat) : Bytes → Record → Bytes
  | found, [] => found
  | found, field :: rest =>
    match field.wire with
    | .bytes data => bytesFrom number (if field.number = number then data else found) rest
    | _ => bytesFrom number found rest

/-- A scalar field that does not occur has its proto3 default. -/
def varintAt (number : Nat) (record : Record) : UInt64 := varintFrom number 0 record

def bytesAt (number : Nat) (record : Record) : Bytes := bytesFrom number [] record

def repeatedAt (number : Nat) (record : Record) : List Bytes :=
  record.filterMap fun field =>
    match field.wire with
    | .bytes data => if field.number = number then some data else none
    | _ => none

/-- A scalar with its default value is not written. -/
def varintField (number : Nat) (value : UInt64) : Record :=
  if value = 0 then [] else [⟨number, .varint value⟩]

def bytesField (number : Nat) (data : Bytes) : Record :=
  if data = [] then [] else [⟨number, .bytes data⟩]

def repeatedField (number : Nat) (items : List Bytes) : Record :=
  items.map fun data => ⟨number, .bytes data⟩

variable (number other : Nat)

@[simp] theorem default_varint (value : UInt64) : (if value = 0 then 0 else value) = value := by
  split <;> simp_all

@[simp] theorem default_bytes (data : Bytes) : (if data = [] then [] else data) = data := by
  split <;> simp_all

@[simp] theorem varintFrom_append (found : UInt64) (left right : Record) :
    varintFrom number found (left ++ right) =
      varintFrom number (varintFrom number found left) right := by
  induction left generalizing found with
  | nil => rfl
  | cons field rest ih =>
    obtain ⟨key, wire⟩ := field
    cases wire <;> simp [ih]

@[simp] theorem varintFrom_varintField (found value : UInt64) :
    varintFrom number found (varintField other value) =
      if other = number ∧ value ≠ 0 then value else found := by
  by_cases zero : value = 0 <;> simp [varintField, zero]

@[simp] theorem varintFrom_bytesField (found : UInt64) (data : Bytes) :
    varintFrom number found (bytesField other data) = found := by
  by_cases empty : data = [] <;> simp [bytesField, empty]

@[simp] theorem varintFrom_repeatedField (found : UInt64) (items : List Bytes) :
    varintFrom number found (repeatedField other items) = found := by
  induction items with
  | nil => rfl
  | cons item rest ih => simpa [repeatedField] using ih

@[simp] theorem bytesFrom_append (found : Bytes) (left right : Record) :
    bytesFrom number found (left ++ right) =
      bytesFrom number (bytesFrom number found left) right := by
  induction left generalizing found with
  | nil => rfl
  | cons field rest ih =>
    obtain ⟨key, wire⟩ := field
    cases wire <;> simp [ih]

@[simp] theorem bytesFrom_varintField (found : Bytes) (value : UInt64) :
    bytesFrom number found (varintField other value) = found := by
  by_cases zero : value = 0 <;> simp [varintField, zero]

@[simp] theorem bytesFrom_bytesField (found data : Bytes) :
    bytesFrom number found (bytesField other data) =
      if other = number ∧ data ≠ [] then data else found := by
  by_cases empty : data = [] <;> simp [bytesField, empty]

theorem bytesFrom_repeatedField (found : Bytes) (items : List Bytes)
    (different : other ≠ number) :
    bytesFrom number found (repeatedField other items) = found := by
  induction items with
  | nil => rfl
  | cons item rest ih => simpa [repeatedField, different] using ih

@[simp] theorem repeatedAt_append (left right : Record) :
    repeatedAt number (left ++ right) = repeatedAt number left ++ repeatedAt number right := by
  simp [repeatedAt]

@[simp] theorem repeatedAt_varintField (value : UInt64) :
    repeatedAt number (varintField other value) = [] := by
  by_cases zero : value = 0 <;> simp [varintField, repeatedAt, zero]

theorem repeatedAt_bytesField (data : Bytes) (different : other ≠ number) :
    repeatedAt number (bytesField other data) = [] := by
  by_cases empty : data = [] <;> simp [bytesField, repeatedAt, empty, different]

theorem repeatedAt_repeatedField (items : List Bytes) :
    repeatedAt number (repeatedField other items) = if other = number then items else [] := by
  by_cases same : other = number <;>
    simp [repeatedField, repeatedAt, same]

/-- What a record yields at a number is one of its own fields or the default. -/
theorem bytesFrom_mem (found : Bytes) (record : Record) :
    bytesFrom number found record = found ∨
      ⟨number, .bytes (bytesFrom number found record)⟩ ∈ record := by
  induction record generalizing found with
  | nil => exact Or.inl rfl
  | cons field rest ih =>
    obtain ⟨key, wire⟩ := field
    cases wire with
    | bytes data =>
      simp only [bytesFrom]
      by_cases same : key = number
      · subst same
        simp only [↓reduceIte]
        rcases ih data with unchanged | member
        · right
          simp [unchanged]
        · exact Or.inr (List.mem_cons_of_mem _ member)
      · simp only [same]
        exact (ih found).imp id (List.mem_cons_of_mem _)
    | varint value | fixed64 data | fixed32 data => exact (ih found).imp id (List.mem_cons_of_mem _)

end Fields

/-! Messages. A schema lists its string fields and says how a message is laid
out as fields and read back; it carries the proofs that reading back is exact
and that a message read from a record holds nothing the record did not. -/
section Messages

def Field.utf8 (strings : List Nat) (field : Field) : Bool :=
  match field.wire with
  | .bytes data => !strings.contains field.number || validUTF8 data
  | _ => true

/-- Every field of `part` has a valid number and is a varint or occurs in `record`. -/
def Carried (record part : Record) : Prop :=
  ∀ field ∈ part, (0 < field.number ∧ field.number < 2 ^ 29) ∧
    ((∃ value, field.wire = .varint value) ∨ field ∈ record)

@[simp] theorem carried_append (record left right : Record) :
    Carried record (left ++ right) ↔ Carried record left ∧ Carried record right :=
  List.forall_mem_append

@[simp] theorem carried_varintField (record : Record) (number : Nat) (value : UInt64)
    (range : 0 < number ∧ number < 2 ^ 29) : Carried record (varintField number value) := by
  intro field member
  rw [varintField] at member
  split at member
  case isTrue => cases member
  case isFalse =>
    cases List.mem_singleton.mp member
    exact ⟨range, Or.inl ⟨value, rfl⟩⟩

@[simp] theorem carried_bytesField (record : Record) (number : Nat)
    (range : 0 < number ∧ number < 2 ^ 29) :
    Carried record (bytesField number (bytesAt number record)) := by
  intro field member
  rw [bytesField] at member
  split at member
  case isTrue => cases member
  case isFalse present =>
    cases List.mem_singleton.mp member
    exact ⟨range, Or.inr ((bytesFrom_mem number [] record).resolve_left present)⟩

@[simp] theorem carried_repeatedField (record : Record) (number : Nat)
    (range : 0 < number ∧ number < 2 ^ 29) :
    Carried record (repeatedField number (repeatedAt number record)) := by
  intro field member
  obtain ⟨data, listed, rfl⟩ := List.mem_map.mp member
  obtain ⟨source, present, found⟩ := List.mem_filterMap.mp listed
  refine ⟨range, Or.inr ?_⟩
  obtain ⟨key, wire⟩ := source
  cases wire with
  | bytes stored =>
    simp only [Option.ite_none_right_eq_some, Option.some.injEq] at found
    obtain ⟨rfl, rfl⟩ := found
    exact present
  | varint value => cases found
  | fixed64 stored => cases found
  | fixed32 stored => cases found

class Message (M : Type) where
  strings : List Nat
  fields : M → Record
  ofFields : Record → M
  ofFields_fields : ∀ message, ofFields (fields message) = message
  carried : ∀ record, Carried record (fields (ofFields record))

variable {M : Type} [Message M]

/-- A Go string or byte slice that fits in a field; a `string` field must also
be UTF-8. -/
def fits (data : Bytes) : Bool := decide (data.length < 2 ^ 63)

def writable (strings : List Nat) (record : Record) : Bool :=
  record.all fun field => field.encodable && field.utf8 strings

/-- Whether `proto.Marshal` accepts the message. -/
def marshalable (message : M) : Bool :=
  writable (Message.strings M) (Message.fields message)

def marshal (message : M) : Option Bytes :=
  if marshalable message then some (encode (Message.fields message)) else none

def unmarshal (M : Type) [Message M] (data : Bytes) : Option M := do
  let record ← decode data
  if record.all (Field.utf8 (Message.strings M)) then some (Message.ofFields record) else none

section Writable

variable (strings : List Nat) (number : Nat)

@[simp] theorem writable_append (left right : Record) :
    writable strings (left ++ right) = (writable strings left && writable strings right) :=
  List.all_append

theorem writable_varintField (value : UInt64) (range : 0 < number ∧ number < 2 ^ 29) :
    writable strings (varintField number value) = true := by
  by_cases zero : value = 0
  · simp [varintField, writable, zero]
  · simp only [varintField, zero, ↓reduceIte, writable, List.all_cons, Field.encodable, range,
      and_self, decide_true, Field.utf8, List.all_nil, Bool.and_self]

theorem writable_single (data : Bytes) (range : 0 < number ∧ number < 2 ^ 29) :
    writable strings [⟨number, .bytes data⟩] =
      (fits data && (!strings.contains number || validUTF8 data)) := by
  simp only [writable, List.all_cons, Field.encodable, range, and_self, decide_true,
    Bool.true_and, Field.utf8, List.all_nil, Bool.and_true, fits]

theorem writable_bytesField (data : Bytes) (range : 0 < number ∧ number < 2 ^ 29) :
    writable strings (bytesField number data) =
      (fits data && (!strings.contains number || validUTF8 data)) := by
  by_cases empty : data = []
  · subst empty
    simp [bytesField, writable, fits, validUTF8]
  · rw [bytesField, if_neg empty, writable_single strings number data range]

end Writable

theorem unmarshal_marshal (message : M) (data : Bytes)
    (marshaled : marshal message = some data) : unmarshal M data = some message := by
  rw [marshal] at marshaled
  split at marshaled
  case isFalse => cases marshaled
  case isTrue valid =>
    cases marshaled
    simp only [marshalable, writable, List.all_eq_true, Bool.and_eq_true] at valid
    have encodable : (Message.fields message).all Field.encodable = true :=
      List.all_eq_true.mpr fun field member => (valid field member).1
    have utf8 : (Message.fields message).all (Field.utf8 (Message.strings M)) = true :=
      List.all_eq_true.mpr fun field member => (valid field member).2
    simp only [unmarshal, decode_encode _ encodable, utf8, Message.ofFields_fields,
      Option.bind_eq_bind, Option.bind_some, ↓reduceIte]

/-- Whatever was read can be written again. -/
theorem marshalable_of_unmarshal (data : Bytes) (message : M)
    (parsed : unmarshal M data = some message) : marshalable message = true := by
  simp only [unmarshal, Option.bind_eq_bind, Option.bind_eq_some_iff] at parsed
  obtain ⟨record, decoded, parsed⟩ := parsed
  split at parsed
  case isFalse => cases parsed
  case isTrue utf8 =>
    cases parsed
    have encodable := decodeFields_encodable _ _ _ decoded
    rw [List.all_eq_true] at encodable utf8
    simp only [marshalable, writable, List.all_eq_true, Bool.and_eq_true]
    intro field member
    obtain ⟨range, ⟨value, varint⟩ | present⟩ := Message.carried record field member
    · simp only [Field.encodable, Field.utf8, varint, range, and_self, decide_true, Bool.and_self]
    · exact ⟨encodable field present, utf8 field present⟩

theorem marshal_of_marshalable (message : M) (valid : marshalable message = true) :
    marshal message = some (encode (Message.fields message)) := if_pos valid

end Messages

end Bongo.Proto
