import Bongo.ByteKeys

/-!
The validating resolver behind DANE. An answer is secure when a key of its signer
zone made its signature and the zone's keys lead back to the root anchors over DS
records. What was found out about a zone is kept, once it has been found out: the
depth of the recursion depends on the signers that the answers name.
-/

namespace Bongo.Dnssec

open ByteKeys

/-- A fully qualified name in lower case, as its labels from the leftmost on. -/
abbrev Name := List Bytes

def typeDS : Nat := 43

def typeRRSIG : Nat := 46

def typeDNSKEY : Nat := 48

structure Anchor where
  keyTag : Nat
  algorithm : Nat
  digestType : Nat
  digest : Bytes
  deriving DecidableEq

structure DNSKEY where
  owner : Name
  algorithm : Nat
  publicKey : Bytes
  deriving DecidableEq

structure DS extends Anchor where
  owner : Name
  deriving DecidableEq

structure RRSIG where
  owner : Name
  typeCovered : Nat
  keyTag : Nat
  signerName : Name
  inception : Nat
  expiration : Nat
  signature : Bytes
  deriving DecidableEq

inductive RR where
  | dnskey (key : DNSKEY)
  | ds (record : DS)
  | rrsig (sig : RRSIG)
  | other (owner : Name) (rrtype : Nat) (data : Bytes)
  deriving DecidableEq

def RR.owner : RR → Name
  | .dnskey key => key.owner
  | .ds record => record.owner
  | .rrsig sig => sig.owner
  | .other owner _ _ => owner

def RR.rrtype : RR → Nat
  | .dnskey _ => typeDNSKEY
  | .ds _ => typeDS
  | .rrsig _ => typeRRSIG
  | .other _ rrtype _ => rrtype

def dnskeys (answer : List RR) : List DNSKEY :=
  answer.filterMap fun
    | .dnskey key => some key
    | _ => none

def dsRecords (answer : List RR) : List DS :=
  answer.filterMap fun
    | .ds record => some record
    | _ => none

def recordsOfType (answer : List RR) (qtype : Nat) : List RR :=
  answer.filter fun rr => rr.rrtype = qtype

def rrsigsFor (answer : List RR) (covered : Nat) : List RRSIG :=
  answer.filterMap fun
    | .rrsig sig => if sig.typeCovered = covered then some sig else none
    | _ => none

def rootAnchors : List Anchor :=
  [⟨20326, 8, 2, ascii "E06D44B80B8F1D39A95C0B0D7C65D08458E880409BBC683457104237C7F8EC8D"⟩,
    ⟨38696, 8, 2, ascii "683D2D0ACB8C9B712A1948B27F741219298D0A450D612C483AF444A4C0FB2B16"⟩]

section Validator

/-- What the DNS library computes from a record; `toDS` gives the digest. -/
structure Library where
  keyTag : DNSKEY → Nat
  toDS : DNSKEY → Nat → Option Bytes
  validityPeriod : RRSIG → Int → Bool
  verify : RRSIG → DNSKEY → List RR → Bool

structure KeyCacheEntry where
  keys : List DNSKEY
  secure : Bool
  deriving DecidableEq

def KeyCacheEntry.insecure : KeyCacheEntry := ⟨[], false⟩

/-- The key cache, with the zones `resolveKeys` was called for beside it, the
latest first. -/
structure State where
  keyCache : Name → Option KeyCacheEntry
  resolved : List Name

def State.store (s : State) (zone : Name) (entry : KeyCacheEntry) : State :=
  { s with keyCache := fun other => if other = zone then some entry else s.keyCache other }

def State.enter (s : State) (zone : Name) : State := { s with resolved := zone :: s.resolved }

structure Reply where
  records : List RR
  secure : Bool
  deriving DecidableEq

variable (lib : Library)

def fits (key : DNSKEY) (anchor : Anchor) : Bool :=
  lib.keyTag key = anchor.keyTag && key.algorithm = anchor.algorithm &&
    match lib.toDS key anchor.digestType with
    | some digest => equalFold digest anchor.digest
    | none => false

/-- A key stands in the list once for every anchor it matches. -/
def matchAnchors (keys : List DNSKEY) (anchors : List Anchor) : List DNSKEY :=
  keys.flatMap fun key => (anchors.filter (fits lib key)).map fun _ => key

def matchDS (keys : List DNSKEY) (dsSet : List DS) : List DNSKEY :=
  matchAnchors lib keys (dsSet.map DS.toAnchor)

def signedByAny (keys : List DNSKEY) (sig : RRSIG) (rrs : List RR) : Bool :=
  keys.any fun key => lib.keyTag key = sig.keyTag && lib.verify sig key rrs

variable (query : Name → Nat → Option (List RR)) (now : Int)

def selfSigned (answer : List RR) (trusted : List DNSKEY) : KeyCacheEntry :=
  if (rrsigsFor answer typeDNSKEY).any fun sig =>
      lib.validityPeriod sig now &&
        signedByAny lib trusted sig ((dnskeys answer).map .dnskey) then
    ⟨dnskeys answer, true⟩
  else .insecure

variable (keysOf : State → Name → Option (KeyCacheEntry × State))

def validateRRSet (rrs : List RR) (sig : RRSIG) (s : State) : Option (Bool × State) :=
  if lib.validityPeriod sig now then
    match keysOf s sig.signerName with
    | none => none
    | some (signer, s) => some (signer.secure && signedByAny lib signer.keys sig rrs, s)
  else some (false, s)

def validateAny (rrs : List RR) : List RRSIG → State → Option (Bool × State)
  | [], s => some (false, s)
  | sig :: rest, s =>
    match validateRRSet lib now keysOf rrs sig s with
    | none => none
    | some (true, s) => some (true, s)
    | some (false, s) => validateAny rrs rest s

def validatedDS (s : State) (zone : Name) : Option (Option (List DS) × State) :=
  match query zone typeDS with
  | none => some (none, s)
  | some answer =>
    if dsRecords answer = [] then some (none, s)
    else
      match validateAny lib now keysOf ((dsRecords answer).map .ds)
          (rrsigsFor answer typeDS) s with
      | none => none
      | some (secure, s) => some (if secure then some (dsRecords answer) else none, s)

def resolveKeys (s : State) (zone : Name) : Option (KeyCacheEntry × State) :=
  match query zone typeDNSKEY with
  | none => some (.insecure, s.enter zone)
  | some answer =>
    if dnskeys answer = [] then some (.insecure, s.enter zone)
    else if zone = [] then
      some (selfSigned lib now answer (matchAnchors lib (dnskeys answer) rootAnchors), s.enter zone)
    else
      match validatedDS lib query now keysOf (s.enter zone) zone with
      | none => none
      | some (none, s) => some (.insecure, s)
      | some (some dsSet, s) =>
        some (selfSigned lib now answer (matchDS lib (dnskeys answer) dsSet), s)

/-- At most `depth` calls are open at once; there is no result when the recursion
goes deeper. -/
def validatedKeys : Nat → State → Name → Option (KeyCacheEntry × State)
  | 0, _, _ => none
  | depth + 1, s, zone =>
    match s.keyCache zone with
    | some entry => some (entry, s)
    | none =>
      match resolveKeys lib query now (validatedKeys depth) s zone with
      | none => none
      | some (entry, s) => some (entry, s.store zone entry)

/-- Without a reply the query failed. -/
def lookup (depth : Nat) (s : State) (name : Name) (qtype : Nat) :
    Option (Option Reply × State) :=
  match query name qtype with
  | none => some (none, s)
  | some answer =>
    if recordsOfType answer qtype = [] ∨ rrsigsFor answer qtype = [] then
      some (some ⟨recordsOfType answer qtype, false⟩, s)
    else
      match validateAny lib now (validatedKeys lib query now depth)
          (recordsOfType answer qtype) (rrsigsFor answer qtype) s with
      | none => none
      | some (secure, s) => some (some ⟨recordsOfType answer qtype, secure⟩, s)

def signatures (name : Name) (qtype : Nat) : List RRSIG :=
  match query name qtype with
  | none => []
  | some answer => rrsigsFor answer qtype

variable {query}

theorem signatures_eq {name : Name} {qtype : Nat} {answer : List RR}
    (asked : query name qtype = some answer) :
    signatures query name qtype = rrsigsFor answer qtype := by
  simp [signatures, asked]

end Validator

/-! What a call does, given what the calls below it do. -/
section Calls

variable (lib : Library) (query : Name → Nat → Option (List RR)) (now : Int)
  (keysOf : State → Name → Option (KeyCacheEntry × State))

theorem mem_matchAnchors {keys : List DNSKEY} {anchors : List Anchor} {key : DNSKEY}
    (member : key ∈ matchAnchors lib keys anchors) : key ∈ keys := by
  obtain ⟨other, present, copied⟩ := List.mem_flatMap.mp member
  obtain ⟨_, _, same⟩ := List.mem_map.mp copied
  exact same ▸ present

def SelfSigned (answer : List RR) (key : DNSKEY) : Prop :=
  ∃ sig ∈ rrsigsFor answer typeDNSKEY, lib.validityPeriod sig now = true ∧
    lib.verify sig key ((dnskeys answer).map .dnskey) = true

theorem selfSigned_secure {answer : List RR} {trusted : List DNSKEY}
    (secure : (selfSigned lib now answer trusted).secure = true) :
    (selfSigned lib now answer trusted).keys = dnskeys answer ∧
      ∃ key ∈ trusted, SelfSigned lib now answer key := by
  unfold selfSigned at secure ⊢
  split at secure
  case isFalse => cases secure
  case isTrue good =>
    rw [if_pos good]
    obtain ⟨sig, listed, passes⟩ := List.any_eq_true.mp good
    obtain ⟨current, signed⟩ := Bool.and_eq_true_iff.mp passes
    obtain ⟨key, trustedKey, verified⟩ := List.any_eq_true.mp signed
    exact ⟨rfl, key, trustedKey, sig, listed, current, (Bool.and_eq_true_iff.mp verified).2⟩

variable (cache : Name → Option KeyCacheEntry)

/-- The keys a zone is trusted for while `cache` is remembered: those remembered as
secure, or else those it publishes, signed by one of them that an anchor fits, or a DS
set which keys that its signer is trusted for have signed. -/
inductive Trusted : Name → List DNSKEY → Prop where
  | known {zone : Name} {entry : KeyCacheEntry} (cached : cache zone = some entry)
      (secure : entry.secure = true) : Trusted zone entry.keys
  | anchored {answer : List RR} (unknown : cache [] = none)
      (asked : query [] typeDNSKEY = some answer)
      (signed : (selfSigned lib now answer
        (matchAnchors lib (dnskeys answer) rootAnchors)).secure = true) :
      Trusted [] (dnskeys answer)
  | delegated {zone : Name} {answer dsAnswer : List RR} {sig : RRSIG} {keys : List DNSKEY}
      (unknown : cache zone = none) (below : zone ≠ [])
      (asked : query zone typeDNSKEY = some answer) (dsAsked : query zone typeDS = some dsAnswer)
      (listed : sig ∈ rrsigsFor dsAnswer typeDS) (valid : lib.validityPeriod sig now = true)
      (signer : Trusted sig.signerName keys)
      (attested : signedByAny lib keys sig ((dsRecords dsAnswer).map .ds) = true)
      (signed : (selfSigned lib now answer
        (matchDS lib (dnskeys answer) (dsRecords dsAnswer))).secure = true) :
      Trusted zone (dnskeys answer)

/-- A current signature was made with a key that its signer is trusted for. -/
def Attested (rrs : List RR) (sigs : List RRSIG) : Prop :=
  ∃ sig ∈ sigs, lib.validityPeriod sig now = true ∧
    ∃ keys, Trusted lib query now cache sig.signerName keys ∧ signedByAny lib keys sig rrs = true

/-- The entry holds just the keys the zone is trusted for. -/
def Exact (zone : Name) (entry : KeyCacheEntry) : Prop :=
  ∀ keys, Trusted lib query now cache zone keys ↔ entry.secure = true ∧ entry.keys = keys

/-- What trust in a zone that is not remembered rests on. -/
def Grounds (zone : Name) (answer : List RR) : Prop :=
  zone = [] ∧ (selfSigned lib now answer
    (matchAnchors lib (dnskeys answer) rootAnchors)).secure = true ∨
  zone ≠ [] ∧ ∃ dsAnswer, query zone typeDS = some dsAnswer ∧
    Attested lib query now cache ((dsRecords dsAnswer).map .ds) (rrsigsFor dsAnswer typeDS) ∧
    (selfSigned lib now answer (matchDS lib (dnskeys answer) (dsRecords dsAnswer))).secure = true

variable {cache} {zone : Name} {entry : KeyCacheEntry}

theorem exact_known (cached : cache zone = some entry) : Exact lib query now cache zone entry := by
  intro keys
  constructor
  · intro trusted
    cases trusted with
    | known found secure =>
      cases cached.symm.trans found
      exact ⟨secure, rfl⟩
    | anchored unknown | delegated unknown => cases cached.symm.trans unknown
  · rintro ⟨secure, rfl⟩
    exact .known cached secure

theorem trusted_iff (unknown : cache zone = none) (keys : List DNSKEY) :
    Trusted lib query now cache zone keys ↔ ∃ answer, query zone typeDNSKEY = some answer ∧
      dnskeys answer = keys ∧ Grounds lib query now cache zone answer := by
  constructor
  · intro trusted
    cases trusted with
    | known cached => cases unknown.symm.trans cached
    | anchored _ asked signed => exact ⟨_, asked, rfl, .inl ⟨rfl, signed⟩⟩
    | delegated _ below asked dsAsked listed valid signer attested signed =>
      exact ⟨_, asked, rfl, .inr ⟨below, _, dsAsked, ⟨_, listed, valid, _, signer, attested⟩,
        signed⟩⟩
  · rintro ⟨answer, asked, rfl, ⟨rfl, signed⟩ | ⟨below, dsAnswer, dsAsked,
      ⟨sig, listed, valid, keys, signer, attested⟩, signed⟩⟩
    · exact .anchored unknown asked signed
    · exact .delegated unknown below asked dsAsked listed valid signer attested signed

variable {s after : State} {inv : State → Prop}

/-- What the calls for the current signers keep is kept, and the signatures are tried
until one is attested. -/
theorem validateAny_spec {rrs : List RR} {sigs : List RRSIG}
    (keeps : ∀ sig ∈ sigs, lib.validityPeriod sig now = true → ∀ s entry after, inv s →
      keysOf s sig.signerName = some (entry, after) →
      inv after ∧ Exact lib query now cache sig.signerName entry)
    {found : Bool} (initial : inv s)
    (result : validateAny lib now keysOf rrs sigs s = some (found, after)) :
    inv after ∧ (found = true ↔ Attested lib query now cache rrs sigs) := by
  induction sigs generalizing s with
  | nil =>
    cases result
    exact ⟨initial, by simp [Attested]⟩
  | cons sig rest ih =>
    have restKeeps := fun other member => keeps other (List.mem_cons_of_mem sig member)
    rw [Attested, List.exists_mem_cons_iff, ← Attested]
    simp only [validateAny, validateRRSet] at result
    by_cases current : lib.validityPeriod sig now = true
    · rw [if_pos current] at result
      cases call : keysOf s sig.signerName with
      | none => simp only [call, reduceCtorEq] at result
      | some pair =>
        obtain ⟨entry, between⟩ := pair
        obtain ⟨kept, exact⟩ := keeps sig List.mem_cons_self current s entry between initial call
        have own : (∃ keys, Trusted lib query now cache sig.signerName keys ∧
            signedByAny lib keys sig rrs = true) ↔
            (entry.secure && signedByAny lib entry.keys sig rrs) = true := by
          simp [exact _, and_assoc]
        simp only [call] at result
        rw [own]
        cases good : entry.secure && signedByAny lib entry.keys sig rrs with
        | false =>
          simp only [good] at result
          simpa using ih restKeeps kept result
        | true =>
          simp only [good] at result
          obtain ⟨rfl, rfl⟩ := result
          exact ⟨kept, by simp [current]⟩
    · rw [if_neg current] at result
      simpa [current] using ih restKeeps initial result

theorem selfSigned_nil (answer : List RR) : (selfSigned lib now answer []).secure = false := by
  simp [selfSigned, signedByAny, KeyCacheEntry.insecure]

theorem exact_of_grounds (unknown : cache zone = none) {answer : List RR}
    (asked : query zone typeDNSKEY = some answer)
    (own : entry.secure = true → entry.keys = dnskeys answer)
    (grounds : entry.secure = true ↔ Grounds lib query now cache zone answer) :
    Exact lib query now cache zone entry := by
  intro keys
  simp only [trusted_iff lib query now unknown, asked, Option.some.injEq, exists_eq_left',
    ← grounds]
  exact and_comm.trans (and_congr_right fun secure => by rw [own secure])

theorem resolveKeys_spec (unknown : cache zone = none)
    (keeps : zone ≠ [] → ∀ sig ∈ signatures query zone typeDS,
      lib.validityPeriod sig now = true → ∀ s entry after, inv s →
        keysOf s sig.signerName = some (entry, after) →
        inv after ∧ Exact lib query now cache sig.signerName entry)
    (initial : inv (s.enter zone))
    (result : resolveKeys lib query now keysOf s zone = some (entry, after)) :
    inv after ∧ Exact lib query now cache zone entry := by
  unfold resolveKeys at result
  cases keyQuery : query zone typeDNSKEY with
  | none =>
    simp only [keyQuery] at result
    obtain ⟨rfl, rfl⟩ := result
    exact ⟨initial, fun keys => by
      simp [trusted_iff lib query now unknown, keyQuery, KeyCacheEntry.insecure]⟩
  | some answer =>
    have refused : ¬ Grounds lib query now cache zone answer →
        Exact lib query now cache zone .insecure :=
      fun none => exact_of_grounds lib query now unknown keyQuery nofun (iff_of_false nofun none)
    simp only [keyQuery] at result
    split_ifs at result with empty root
    · obtain ⟨rfl, rfl⟩ := result
      refine ⟨initial, refused ?_⟩
      simp [Grounds, matchDS, matchAnchors, empty, selfSigned_nil]
    · obtain ⟨rfl, rfl⟩ := result
      exact ⟨initial, exact_of_grounds lib query now unknown keyQuery
        (fun secure => (selfSigned_secure lib now secure).1) (by simp [Grounds, root])⟩
    · -- Below the root the DS set decides.
      unfold validatedDS at result
      cases dsQuery : query zone typeDS with
      | none =>
        simp only [dsQuery] at result
        obtain ⟨rfl, rfl⟩ := result
        exact ⟨initial, refused (by simp [Grounds, root, dsQuery])⟩
      | some dsAnswer =>
        rw [signatures_eq dsQuery] at keeps
        simp only [dsQuery] at result
        split_ifs at result with noDS
        · obtain ⟨rfl, rfl⟩ := result
          have none : matchDS lib (dnskeys answer) (dsRecords dsAnswer) = [] := by
            simp [matchDS, matchAnchors, noDS]
          exact ⟨initial, refused (by simp [Grounds, root, dsQuery, none, selfSigned_nil])⟩
        cases tried : validateAny lib now keysOf ((dsRecords dsAnswer).map .ds)
            (rrsigsFor dsAnswer typeDS) (s.enter zone) with
        | none => simp only [tried, reduceCtorEq] at result
        | some pair =>
          obtain ⟨found, between⟩ := pair
          obtain ⟨kept, attested⟩ := validateAny_spec lib query now keysOf (keeps root) initial
            tried
          cases found with
          | false =>
            simp only [tried] at result
            obtain ⟨rfl, rfl⟩ := result
            refine ⟨kept, refused ?_⟩
            simp [Grounds, root, dsQuery, ← attested]
          | true =>
            simp only [tried] at result
            obtain ⟨rfl, rfl⟩ := result
            exact ⟨kept, exact_of_grounds lib query now unknown keyQuery
              (fun secure => (selfSigned_secure lib now secure).1)
              (by simp [Grounds, root, dsQuery, ← attested])⟩

variable {keysOf}

/-- The keys were known, or they are resolved and remembered. -/
theorem validatedKeys_succ {depth : Nat} {zone : Name} {entry : KeyCacheEntry}
    (returned : validatedKeys lib query now (depth + 1) s zone = some (entry, after)) :
    s.keyCache zone = some entry ∧ after = s ∨ s.keyCache zone = none ∧ ∃ inner,
      resolveKeys lib query now (validatedKeys lib query now depth) s zone = some (entry, inner) ∧
        after = inner.store zone entry := by
  simp only [validatedKeys] at returned
  cases cached : s.keyCache zone with
  | some found =>
    simp only [cached] at returned
    obtain ⟨rfl, rfl⟩ := returned
    exact .inl ⟨rfl, rfl⟩
  | none =>
    simp only [cached] at returned
    cases resolved : resolveKeys lib query now (validatedKeys lib query now depth) s zone with
    | none => simp only [resolved, reduceCtorEq] at returned
    | some pair =>
      simp only [resolved] at returned
      obtain ⟨rfl, rfl⟩ := returned
      exact .inr ⟨rfl, _, rfl, rfl⟩

theorem lookup_spec (inv : State → Prop) (depth : Nat) {name : Name} {qtype : Nat}
    (keeps : ∀ sig ∈ signatures query name qtype, lib.validityPeriod sig now = true →
      ∀ s entry after, inv s →
        validatedKeys lib query now depth s sig.signerName = some (entry, after) →
        inv after ∧ Exact lib query now cache sig.signerName entry)
    {reply : Option Reply} (initial : inv s)
    (result : lookup lib query now depth s name qtype = some (reply, after)) :
    inv after ∧ reply.map Reply.records = (query name qtype).map (recordsOfType · qtype) ∧
      ∀ good, reply = some good → (good.secure = true ↔ good.records ≠ [] ∧
        ∃ answer, query name qtype = some answer ∧
          Attested lib query now cache good.records (rrsigsFor answer qtype)) := by
  unfold lookup at result
  cases asked : query name qtype with
  | none =>
    simp only [asked] at result
    obtain ⟨rfl, rfl⟩ := result
    exact ⟨initial, rfl, nofun⟩
  | some answer =>
    rw [signatures_eq asked] at keeps
    simp only [asked] at result
    split_ifs at result with nothing
    · obtain ⟨rfl, rfl⟩ := result
      refine ⟨initial, rfl, ?_⟩
      rintro _ ⟨⟩
      rcases nothing with empty | unsigned
      · simp [empty]
      · simp [unsigned, Attested]
    · cases tried : validateAny lib now (validatedKeys lib query now depth)
          (recordsOfType answer qtype) (rrsigsFor answer qtype) s with
      | none => simp only [tried, reduceCtorEq] at result
      | some pair =>
        simp only [tried] at result
        obtain ⟨rfl, rfl⟩ := result
        obtain ⟨kept, attested⟩ := validateAny_spec lib query now _ keeps initial tried
        refine ⟨kept, rfl, ?_⟩
        rintro _ ⟨⟩
        simp [attested, (not_or.mp nothing).1]

end Calls

end Bongo.Dnssec
