import Bongo.Runes

/-!
The Sender Rewriting Scheme. `Forward` writes a sender, a day stamp and a check
value into the local part of an address on the forwarding domain; `Reverse`
parses such an address, compares the check value and the age, and gives the
address a bounce goes to. The check value is a keyed hash of the lower-cased
fields; here it is any function with results of the right form.
-/

namespace Bongo.Srs

open ByteKeys Runes

def stampAlphabet : Bytes := ascii "abcdefghijklmnopqrstuvwxyz234567"

def Graphic (byte : UInt8) : Prop := 0x21 ≤ byte ∧ byte ≤ 0x7E

instance (byte : UInt8) : Decidable (Graphic byte) := inferInstanceAs (Decidable (_ ∧ _))

/-- A codec with its key inside `check`, which gives the first eight characters
of the lower-case base32 text of the hash. Of `strings.TrimSpace` only that it
keeps texts between graphic characters is needed. -/
structure Codec where
  table : CaseTable
  trimSpace : Bytes → Bytes
  trimmed : ∀ text, (∀ byte, text.head? = some byte → Graphic byte) →
    (∀ byte, text.getLast? = some byte → Graphic byte) → trimSpace text = text
  check : Bytes → Bytes
  checkLength : ∀ message, (check message).length = 8
  checkLetters : ∀ message byte, byte ∈ check message → byte ∈ stampAlphabet
  maxAge : Nat

/-! Stamps. -/

def stamp (day : Nat) : Bytes :=
  [stampAlphabet.getD (day % 1024 / 32 % 32) 0, stampAlphabet.getD (day % 1024 % 32) 0]

def unstamp : Bytes → Option Nat
  | [high, low] => do
      let high ← stampAlphabet.idxOf? high
      let low ← stampAlphabet.idxOf? low
      some (high * 32 + low)
  | _ => none

def Codec.fresh (codec : Codec) (today : Nat) (tt : Bytes) : Bool :=
  match unstamp tt with
  | none => false
  | some issued => (today % 1024 + 1024 - issued) % 1024 ≤ codec.maxAge

/-! Addresses. -/

def domainByte (byte : UInt8) : Bool :=
  97 ≤ byte && byte ≤ 122 || 65 ≤ byte && byte ≤ 90 || 48 ≤ byte && byte ≤ 57 ||
    byte == 46 || byte == 45

def dotDot : Bytes → Bool
  | first :: second :: rest => first == 46 && second == 46 || dotDot (second :: rest)
  | _ => false

def validDomain (domain : Bytes) : Bool :=
  domain ≠ [] && domain.length ≤ 253 && domain.head? != some 46 && !dotDot domain &&
    domain.all domainByte

def localByte (byte : UInt8) : Bool :=
  0x20 < byte && byte != 0x7F && !(ascii "@<>\",;:\\").contains byte

def validLocal (text : Bytes) : Bool := text ≠ [] && text.all localByte

def trimSuffix (text tail : Bytes) : Bytes :=
  if hasSuffix text tail then text.take (text.length - tail.length) else text

/-- The local part and the domain around the last `@`, both non-empty. -/
def Codec.splitAddr (codec : Codec) (addr : Bytes) : Option (Bytes × Bytes) := do
  let addr := trimSuffix (trimPrefix (codec.trimSpace addr) (ascii "<")) (ascii ">")
  let (domain, name) ← cut 64 addr.reverse
  if name = [] ∨ domain = [] then none else some (name.reverse, domain.reverse)

def cutDouble : Bytes → Option (Bytes × Bytes)
  | first :: second :: rest =>
    if first = 61 ∧ second = 61 then some ([], rest)
    else (cutDouble (second :: rest)).map fun parts => (first :: parts.1, parts.2)
  | _ => none

def Codec.isSRS (codec : Codec) (name : Bytes) : Bool :=
  5 ≤ name.length && name[4]? == some 61 &&
    (codec.table.lowerText (name.take 4) == ascii "srs0" ||
      codec.table.lowerText (name.take 4) == ascii "srs1")

def isSRS0 (name : Bytes) : Bool := equalFold (name.take 5) (ascii "srs0=")

/-! The fields of an address. -/

inductive Kind where
  | srs0
  | srs1
  deriving DecidableEq

def Kind.tag : Kind → Bytes
  | .srs0 => ascii "srs0"
  | .srs1 => ascii "srs1"

/-- What the check value is over. `host` is the sender's domain or the first
hop, and `name` the local part or the rest of the first hop's address. -/
structure Fields where
  kind : Kind
  tt : Bytes
  host : Bytes
  name : Bytes
  fwd : Bytes
  deriving DecidableEq

/-- The bytes that the keyed hash is fed: each field in lower case, followed by
a NUL. -/
def Codec.fed (codec : Codec) (fields : Fields) : Bytes :=
  [fields.kind.tag, fields.tt, fields.host, fields.name, fields.fwd].flatMap
    fun field => codec.table.lowerText field ++ [0]

def Codec.mac (codec : Codec) (fields : Fields) : Bytes := codec.check (codec.fed fields)

def body (hash : Bytes) (fields : Fields) : Bytes :=
  match fields.kind with
  | .srs0 => hash ++ 61 :: (fields.tt ++ 61 :: (fields.host ++ 61 :: fields.name))
  | .srs1 => (hash ++ fields.tt) ++ 61 :: (fields.host ++ 61 :: 61 :: fields.name)

def lead : Kind → Bytes
  | .srs0 => ascii "SRS0="
  | .srs1 => ascii "SRS1="

def render (hash : Bytes) (fields : Fields) : Bytes :=
  (lead fields.kind ++ body hash fields) ++ 64 :: fields.fwd

def recovered (fields : Fields) : Bytes :=
  match fields.kind with
  | .srs0 => fields.name ++ 64 :: fields.host
  | .srs1 => ascii "SRS0=" ++ (fields.name ++ 64 :: fields.host)

/-! Forwarding. `none` stands for the error "cannot rewrite sender". -/

def Codec.wrap (codec : Codec) (today : Nat) (name domain fwd : Bytes) : Option Fields :=
  if isSRS0 name then some ⟨.srs1, stamp today, domain, name.drop 5, fwd⟩
  else do
    let (_, tail) ← cut 61 (name.drop 5)
    let (firstHop, rest) ← cutDouble tail
    if !validDomain firstHop || rest = [] then none
    else some ⟨.srs1, stamp today, codec.table.lowerText firstHop, rest, fwd⟩

def Codec.issue (codec : Codec) (today : Nat) (sender fwdDomain : Bytes) : Option Fields := do
  let (name, domain) ← codec.splitAddr sender
  let fwd := codec.table.lowerText (codec.trimSpace fwdDomain)
  if !validLocal name || !validDomain domain || !validDomain fwd then none
  else
    let domain := codec.table.lowerText domain
    if codec.isSRS name then codec.wrap today name domain fwd
    else some ⟨.srs0, stamp today, domain, name, fwd⟩

def Codec.forward (codec : Codec) (today : Nat) (sender fwdDomain : Bytes) : Option Bytes :=
  (codec.issue today sender fwdDomain).map fun fields => render (codec.mac fields) fields

/-! Reversing. `none` stands for the error "invalid address". -/

def Codec.parse0 (codec : Codec) (text fwd : Bytes) : Option (Bytes × Fields) := do
  let (hash, text) ← cut 61 text
  let (tt, text) ← cut 61 text
  let (domain, name) ← cut 61 text
  if hash.length ≠ 8 ∨ !validDomain domain ∨ name = [] then none
  else
    some (codec.table.lowerText hash,
      ⟨.srs0, codec.table.lowerText tt, codec.table.lowerText domain, name, fwd⟩)

def Codec.parse1 (codec : Codec) (text fwd : Bytes) : Option (Bytes × Fields) := do
  let (hash, tail) ← cut 61 text
  if hash.length ≠ 10 then none
  else
    let (firstHop, rest) ← cutDouble tail
    if !validDomain firstHop ∨ rest.count 61 < 3 then none
    else
      some (codec.table.lowerText (hash.take 8),
        ⟨.srs1, codec.table.lowerText (hash.drop 8), codec.table.lowerText firstHop, rest, fwd⟩)

def Codec.parse (codec : Codec) (rcpt : Bytes) : Option (Bytes × Fields) := do
  let (name, fwd) ← codec.splitAddr rcpt
  if !codec.isSRS name then none
  else
    let fwd := codec.table.lowerText fwd
    if isSRS0 name then codec.parse0 (name.drop 5) fwd else codec.parse1 (name.drop 5) fwd

def Codec.reverse (codec : Codec) (today : Nat) (rcpt : Bytes) : Option Bytes := do
  let (hash, fields) ← codec.parse rcpt
  if hash = codec.mac fields ∧ codec.fresh today fields.tt then some (recovered fields) else none

/-! What a bounce is for. -/

/-- The first hop and the rest that a sender of the scheme carries. -/
def carried (name domain : Bytes) : Option (Bytes × Bytes) :=
  if isSRS0 name then some (domain, name.drop 5)
  else do
    let (_, tail) ← cut 61 (name.drop 5)
    cutDouble tail

/-- Where a bounce must go: to the sender, or to the first hop's address for a
sender of the scheme. -/
def Codec.bounceAddress (codec : Codec) (sender : Bytes) : Option Bytes := do
  let (name, domain) ← codec.splitAddr sender
  if codec.isSRS name then
    let (firstHop, rest) ← carried name domain
    some (ascii "SRS0=" ++ (rest ++ 64 :: firstHop))
  else some (name ++ 64 :: domain)

/-- The sender is not of the scheme, or what it carries has the three separators
that an address of the first hop has. -/
def Codec.Reversible (codec : Codec) (sender : Bytes) : Prop :=
  ∀ name domain firstHop rest, codec.splitAddr sender = some (name, domain) →
    codec.isSRS name = true → carried name domain = some (firstHop, rest) → 3 ≤ rest.count 61

/-- On every later day and in whatever case, the address is reversed exactly
while it is young enough, and to the right place. -/
def Codec.RoundTrips (codec : Codec) (day : Nat) (sender address : Bytes) : Prop :=
  ∀ later, day ≤ later → ∀ rcpt, lower rcpt = lower address →
    ((codec.reverse later rcpt).isSome = true ↔ (later - day) % 1024 ≤ codec.maxAge) ∧
      ∀ result, codec.reverse later rcpt = some result →
        ∃ target, codec.bounceAddress sender = some target ∧ lower result = lower target

end Bongo.Srs
