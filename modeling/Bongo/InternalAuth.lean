import Bongo.Histories
import Bongo.Literals

/-!
Requests between the nodes. A request carries a time stamp, a nonce and a MAC over
both, the method, the URI and a hash of the body. The receiver looks at the time
stamp, at the MAC, and last at a cache of the nonces it has seen; an entry of the
cache is to outlast the window in which the time stamp is accepted.

The digest and the keyed MAC are parameters. Instants are counted in nanoseconds,
time stamps in seconds.
-/

namespace Bongo.InternalAuth

set_option maxRecDepth 100000

open ByteKeys Histories Literals

inductive Purpose where
  | internalAuth
  | blobSync
  deriving DecidableEq

structure Platform where
  secret : Bytes
  digest : Bytes → Bytes
  /-- HMAC under the key that is derived from the secret for a purpose. -/
  mac : Purpose → Bytes → Bytes

def second : Int := 1000000000

def internalSkew : Int := 90 * second

def maxInternalBodyBytes : Nat := 1048576

def bar : UInt8 := 124

section Signing

inductive Method where
  | get
  | head
  | post
  | put
  | delete
  deriving DecidableEq

def Method.text : Method → Bytes
  | .get => ascii "GET"
  | .head => ascii "HEAD"
  | .post => ascii "POST"
  | .put => ascii "PUT"
  | .delete => ascii "DELETE"

variable (platform : Platform)

def bodyHash (body : Bytes) : Bytes := encodeBase64 (platform.digest body)

def signedPayload (ts : Int) (nonce method uri bodyHash : Bytes) : Bytes :=
  formatInt ts ++ bar :: (nonce ++ bar :: (method ++ bar :: (uri ++ bar :: bodyHash)))

/-- A request as far as the MAC covers it. -/
structure Signed where
  purpose : Purpose
  ts : Int
  nonce : Bytes
  method : Bytes
  uri : Bytes
  body : Bytes
  deriving DecidableEq

def Signed.payload (request : Signed) : Bytes :=
  signedPayload request.ts request.nonce request.method request.uri
    (bodyHash platform request.body)

def Signed.mac (request : Signed) : Bytes := platform.mac request.purpose (request.payload platform)

/-- What a caller signs: the clock, sixteen random bytes and its request. -/
structure Outgoing where
  purpose : Purpose
  ts : Int
  random : Bytes
  method : Method
  uri : Bytes
  body : Bytes

def Outgoing.signed (request : Outgoing) : Signed where
  purpose := request.purpose
  ts := request.ts
  nonce := encodeBase64 request.random
  method := request.method.text
  uri := request.uri
  body := request.body

def Outgoing.header (request : Outgoing) : Bytes :=
  ascii "ts=" ++ formatInt request.ts ++ ascii ",nonce=" ++ request.signed.nonce ++
    ascii ",sig=" ++ encodeBase64 (request.signed.mac platform)

end Signing

def trimSpace (text : Bytes) : Bytes :=
  ((text.dropWhile (· = 32)).reverse.dropWhile (· = 32)).reverse

def splitComma (text : Bytes) : List Bytes := (text.splitOn 44).map trimSpace

def cutKV (text : Bytes) : Option (Bytes × Bytes) :=
  (cut 61 text).map fun parts => (trimSpace parts.1, trimSpace parts.2)

structure Fields where
  ts : Bytes
  nonce : Bytes
  sig : Bytes
  deriving DecidableEq

/-- A later field of one name replaces an earlier one, and others are skipped. -/
def Fields.read (fields : Fields) (text : Bytes) : Fields :=
  match cutKV text with
  | none => fields
  | some (key, value) =>
    if key = ascii "ts" then { fields with ts := value }
    else if key = ascii "nonce" then { fields with nonce := value }
    else if key = ascii "sig" then { fields with sig := value }
    else fields

def readHeader (raw : Bytes) : Fields := (splitComma raw).foldl Fields.read ⟨[], [], []⟩

structure NonceCache where
  seen : Bytes → Option Int
  lastSweep : Int

/-- The zero time. -/
def NonceCache.empty : NonceCache := ⟨fun _ => none, -62135596800 * second⟩

def NonceCache.sweep (cache : NonceCache) (now : Int) : NonceCache :=
  if now - cache.lastSweep > internalSkew then
    ⟨fun nonce => (cache.seen nonce).filter fun expiry => ¬ now > expiry, now⟩
  else cache

def NonceCache.record (cache : NonceCache) (nonce : Bytes) (now : Int) : NonceCache :=
  { cache with seen := Function.update cache.seen nonce (some (now + 2 * internalSkew)) }

def NonceCache.fresh (cache : NonceCache) (nonce : Bytes) (now : Int) : Bool :=
  match cache.seen nonce with
  | none => true
  | some expiry => !decide (now < expiry)

def NonceCache.checkAndRecord (cache : NonceCache) (nonce : Bytes) (now : Int) :
    Bool × NonceCache :=
  let swept := cache.sweep now
  if swept.fresh nonce now then (true, swept.record nonce now) else (false, swept)

section Verifying

variable (platform : Platform)

inductive Body where
  | absent
  | bytes (content : Bytes)
  | broken
  deriving DecidableEq

structure Incoming where
  header : Bytes
  method : Bytes
  uri : Bytes
  contentLength : Int
  body : Body
  deriving DecidableEq

def Body.read : Body → Option Bytes
  | .absent => some []
  | .bytes content => if content.length > maxInternalBodyBytes then none else some content
  | .broken => none

def inWindow (ts now : Int) : Bool :=
  ¬ ts * second < now - internalSkew ∧ ¬ ts * second > now + internalSkew

/-- All checks before the nonce: the request as it was signed, if its MAC is right. -/
def authentic (purpose : Purpose) (request : Incoming) (now : Int) : Option Signed :=
  let fields := readHeader request.header
  if platform.secret = [] ∨ fields.ts = [] ∨ fields.nonce = [] ∨ fields.sig = [] then none
  else
    match parseInt fields.ts, decodeBase64 fields.sig, request.body.read with
    | some ts, some sig, some body =>
      let signed : Signed := ⟨purpose, ts, fields.nonce, request.method, request.uri, body⟩
      if ¬ inWindow ts now ∨ sig.length ≠ 32 ∨
          request.contentLength > maxInternalBodyBytes then none
      else if sig = signed.mac platform then some signed else none
    | _, _, _ => none

def verifyWithPurpose (purpose : Purpose) (request : Incoming) (now : Int) (cache : NonceCache) :
    Bool × NonceCache :=
  match authentic platform purpose request now with
  | none => (false, cache)
  | some signed => cache.checkAndRecord signed.nonce now

end Verifying

section Processes

variable (platform : Platform)

structure Process where
  cache : NonceCache
  clock : Int
  signed : List Signed
  accepted : List Signed

inductive Event where
  | sign (request : Outgoing)
  | receive (purpose : Purpose) (request : Incoming) (now : Int)

def started (clock : Int) : Process := ⟨.empty, clock, [], []⟩

def step (process : Process) : Event → Process
  | .sign request => { process with signed := process.signed ++ [request.signed] }
  | .receive purpose request now =>
    let verified := verifyWithPurpose platform purpose request now process.cache
    { process with
      cache := verified.2
      clock := now
      accepted := process.accepted ++
        if verified.1 then (authentic platform purpose request now).toList else [] }

def signature (request : Incoming) : Option Bytes := decodeBase64 (readHeader request.header).sig

/-- The clock does not go back, the URIs that are signed have no bar, and whoever sends
a MAC has taken it from a request that was signed. -/
def Ideal (process : Process) : Event → Prop
  | .sign request => bar ∉ request.uri
  | .receive _ request now =>
    process.clock ≤ now ∧ ∀ sig, signature request = some sig →
      ∀ purpose payload, sig = platform.mac purpose payload →
        ∃ known ∈ process.signed, sig = known.mac platform

/-- No request arrives at the very instant at which the entry of its nonce expires. -/
def OffExpiry (process : Process) : Event → Prop
  | .sign _ => True
  | .receive _ request now => process.cache.seen (readHeader request.header).nonce ≠ some now

instance (process : Process) (event : Event) : Decidable (OffExpiry process event) :=
  match event with
  | .sign _ => isTrue trivial
  | .receive _ _ _ => inferInstanceAs (Decidable (_ ≠ _))

end Processes

variable {request : Incoming} {purpose : Purpose} {now : Int} {signed : Signed}

section Payloads

variable {platform : Platform}

theorem payload_frames (ts : Int) (nonce method uri hash : Bytes) :
    signedPayload ts nonce method uri hash ++ [bar] =
      frames bar [formatInt ts, nonce, method, uri, hash] := by
  simp [signedPayload, frames]

theorem bar_notMem_formatInt (number : Int) : bar ∉ formatInt number := by
  intro member
  rcases mem_formatInt member with sign | digit
  · cases sign
  · exact absurd digit.2 (by decide)

theorem bar_notMem_base64 (data : Bytes) : bar ∉ encodeBase64 data := by
  intro member
  rcases mem_encodeText member with symbol | zero
  · exact absurd symbol (by decide)
  · cases zero

theorem bar_notMem_method (method : Method) : bar ∉ method.text := by
  cases method <;> decide

/-- A payload that was signed is read in one way only, whatever the other one is made of. -/
theorem signed_of_payload (hashes : Function.Injective platform.digest) {known : Outgoing}
    (clean : bar ∉ known.uri) {other : Signed}
    (purposes : other.purpose = known.purpose)
    (same : other.payload platform = known.signed.payload platform) : other = known.signed := by
  have framed : frames bar [formatInt other.ts, other.nonce, other.method, other.uri,
      bodyHash platform other.body] = frames bar [formatInt known.ts, encodeBase64 known.random,
        known.method.text, known.uri, bodyHash platform known.body] := by
    rw [← payload_frames, ← payload_frames]
    exact congrArg (· ++ [bar]) same
  have apart : ∀ field ∈ [formatInt known.ts, encodeBase64 known.random, known.method.text,
      known.uri, bodyHash platform known.body], bar ∉ field := by
    simp only [List.forall_mem_cons]
    exact ⟨bar_notMem_formatInt _, bar_notMem_base64 _, bar_notMem_method _, clean,
      bar_notMem_base64 _, nofun⟩
  have lengths : [formatInt other.ts, other.nonce, other.method, other.uri,
      bodyHash platform other.body].length = [formatInt known.ts, encodeBase64 known.random,
        known.method.text, known.uri, bodyHash platform known.body].length := rfl
  have fields := frames_inj bar _ _ lengths apart framed
  simp only [List.cons.injEq, and_true] at fields
  obtain ⟨stamps, nonces, methods, uris, bodies⟩ := fields
  have times := formatInt_inj stamps
  have contents := hashes (encodeBase64_injective bodies)
  obtain ⟨purpose, ts, nonce, method, uri, body⟩ := other
  dsimp only at purposes times nonces methods uris contents
  rw [purposes, times, nonces, methods, uris, contents]
  rfl

theorem authentic_some (found : authentic platform purpose request now = some signed) :
    inWindow signed.ts now = true ∧ signed.purpose = purpose ∧
      signed.nonce = (readHeader request.header).nonce ∧
      signature request = some (signed.mac platform) := by
  unfold authentic at found
  dsimp only at found
  split at found
  · cases found
  split at found
  · rename_i ts sig body stamp decoded read
    split at found
    · cases found
    rename_i checks
    split at found
    · rename_i right
      cases found
      refine ⟨?_, rfl, rfl, ?_⟩
      · by_contra outside
        exact checks (Or.inl outside)
      · rw [signature, decoded, right]
    · cases found
  · cases found

end Payloads

section Runs

variable {platform : Platform} {process : Process}

structure Kept (process : Process) : Prop where
  honest : ∀ known ∈ process.signed, ∃ request : Outgoing,
    bar ∉ request.uri ∧ known = request.signed
  signed : ∀ request ∈ process.accepted, request ∈ process.signed
  remembered : ∀ request ∈ process.accepted,
    (∃ expiry, process.cache.seen request.nonce = some expiry ∧
      request.ts * second + internalSkew ≤ expiry) ∨
    request.ts * second + internalSkew < process.clock
  once : process.accepted.Nodup

theorem kept_started (clock : Int) : Kept (started clock) where
  honest known member := by cases member
  signed request member := by cases member
  remembered request member := by cases member
  once := List.nodup_nil

/-- What is still good after a sweep is still there. -/
theorem sweep_seen {cache : NonceCache} {nonce : Bytes} {expiry : Int}
    (stored : cache.seen nonce = some expiry) (ahead : now ≤ expiry) :
    (cache.sweep now).seen nonce = some expiry := by
  unfold NonceCache.sweep
  split
  · change (cache.seen nonce).filter _ = some expiry
    rw [stored]
    simpa using ahead
  · exact stored

/-- The memory of the accepted requests through one look at the cache. -/
theorem remembered_check {request : Signed} {cache : NonceCache} {clock : Int} {nonce : Bytes}
    (later : clock ≤ now) (before : (∃ expiry, cache.seen request.nonce = some expiry ∧
        request.ts * second + internalSkew ≤ expiry) ∨
      request.ts * second + internalSkew < clock) :
    (∃ expiry, (cache.checkAndRecord nonce now).2.seen request.nonce = some expiry ∧
        request.ts * second + internalSkew ≤ expiry) ∨
      request.ts * second + internalSkew < now := by
  rcases before with ⟨expiry, stored, good⟩ | past
  · by_cases expired : expiry < now
    · exact Or.inr (lt_of_le_of_lt good expired)
    left
    have swept := sweep_seen stored (not_lt.mp expired)
    unfold NonceCache.checkAndRecord
    dsimp only
    split
    · by_cases same : request.nonce = nonce
      · refine ⟨now + 2 * internalSkew, ?_, ?_⟩
        · rw [NonceCache.record, same]
          exact Function.update_self _ _ _
        -- The entry was fresh, so it was at its expiry and is moved on.
        rename_i fresh
        rw [NonceCache.fresh, ← same, swept] at fresh
        simp only [Bool.not_eq_true', decide_eq_false_iff_not] at fresh
        have positive : 0 ≤ 2 * internalSkew := by decide
        omega
      · exact ⟨expiry, (Function.update_of_ne same _ _).trans swept, good⟩
    · exact ⟨expiry, swept, good⟩
  · exact Or.inr (lt_of_lt_of_le past later)

theorem inWindow_iff (ts now : Int) : inWindow ts now = true ↔
    now - internalSkew ≤ ts * second ∧ ts * second ≤ now + internalSkew := by
  simp [inWindow]

theorem authentic_signed (kept : Kept process)
    (macs : ∀ purpose payload other text, platform.mac purpose payload = platform.mac other text →
      purpose = other ∧ payload = text) (hashes : Function.Injective platform.digest)
    (ideal : Ideal platform process (.receive purpose request now))
    (found : authentic platform purpose request now = some signed) : signed ∈ process.signed := by
  obtain ⟨-, own, -, carried⟩ := authentic_some found
  obtain ⟨known, stored, same⟩ := ideal.2 _ carried signed.purpose (signed.payload platform) rfl
  obtain ⟨outgoing, clean, rfl⟩ := kept.honest known stored
  obtain ⟨purposes, payloads⟩ := macs _ _ _ _ same
  rw [signed_of_payload hashes clean purposes payloads]
  exact stored

/-- A request that was accepted is not fresh while its time stamp is in the window. -/
theorem not_accepted (kept : Kept process) (later : process.clock ≤ now)
    (off : OffExpiry process (.receive purpose request now))
    (found : authentic platform purpose request now = some signed)
    (passed : (process.cache.checkAndRecord signed.nonce now).1 = true) :
    signed ∉ process.accepted := by
  intro before
  obtain ⟨window, -, nonce, -⟩ := authentic_some found
  rw [inWindow_iff] at window
  rcases kept.remembered signed before with ⟨expiry, stored, good⟩ | past
  · have different : expiry ≠ now := by
      intro same
      rw [OffExpiry, ← nonce, stored, same] at off
      exact off rfl
    have ahead : now ≤ expiry := by omega
    have swept := sweep_seen stored ahead
    have fresh : (process.cache.sweep now).fresh signed.nonce now = true := by
      unfold NonceCache.checkAndRecord at passed
      dsimp only at passed
      split at passed
      · assumption
      · cases passed
    rw [NonceCache.fresh, swept] at fresh
    simp only [Bool.not_eq_true', decide_eq_false_iff_not] at fresh
    omega
  · omega

theorem kept_step
    (macs : ∀ purpose payload other text, platform.mac purpose payload = platform.mac other text →
      purpose = other ∧ payload = text)
    (hashes : Function.Injective platform.digest) (process : Process) (event : Event)
    (kept : Kept process)
    (admitted : Ideal platform process event ∧ OffExpiry process event) :
    Kept (step platform process event) := by
  obtain ⟨ideal, off⟩ := admitted
  cases event with
  | sign request =>
    refine ⟨?_, ?_, kept.remembered, kept.once⟩
    · exact List.forall_mem_append.mpr
        ⟨kept.honest, List.forall_mem_singleton.mpr ⟨request, ideal, rfl⟩⟩
    · intro other member
      exact List.mem_append_left _ (kept.signed other member)
  | receive purpose request now =>
    have later := ideal.1
    cases found : authentic platform purpose request now with
    | none =>
      -- Nothing is recorded, and time goes on.
      have same : step platform process (.receive purpose request now) =
          { process with clock := now } := by
        simp [step, verifyWithPurpose, found]
      rw [same]
      refine ⟨kept.honest, kept.signed, ?_, kept.once⟩
      intro other member
      rcases kept.remembered other member with stored | past
      · exact Or.inl stored
      · exact Or.inr (lt_of_lt_of_le past later)
    | some signed =>
      have known := authentic_signed kept macs hashes ideal found
      have verified : verifyWithPurpose platform purpose request now process.cache =
          process.cache.checkAndRecord signed.nonce now := by
        rw [verifyWithPurpose, found]
      cases passed : (process.cache.checkAndRecord signed.nonce now).1 with
      | false =>
        have same : step platform process (.receive purpose request now) = { process with
              cache := (process.cache.checkAndRecord signed.nonce now).2
              clock := now } := by
          simp [step, verified, passed]
        rw [same]
        exact ⟨kept.honest, kept.signed,
          fun other member => remembered_check later (kept.remembered other member), kept.once⟩
      | true =>
        have same : step platform process (.receive purpose request now) = { process with
              cache := (process.cache.checkAndRecord signed.nonce now).2
              clock := now
              accepted := process.accepted ++ [signed] } := by
          simp [step, verified, passed, found]
        have new := not_accepted kept later off found passed
        rw [same]
        refine ⟨kept.honest, ?_, ?_, ?_⟩
        · exact List.forall_mem_append.mpr
            ⟨kept.signed, List.forall_mem_singleton.mpr known⟩
        · intro other member
          rcases List.mem_append.mp member with before | last
          · exact remembered_check later (kept.remembered other before)
          obtain rfl := List.mem_singleton.mp last
          have window := (inWindow_iff _ _).mp (authentic_some found).1
          refine Or.inl ⟨now + 2 * internalSkew, ?_, by omega⟩
          unfold NonceCache.checkAndRecord at passed ⊢
          dsimp only at passed ⊢
          split at passed
          · rename_i fresh
            rw [if_pos fresh]
            exact Function.update_self _ _ _
          · cases passed
        · rw [List.nodup_append]
          refine ⟨kept.once, List.nodup_singleton _, ?_⟩
          intro other before last member
          obtain rfl := List.mem_singleton.mp member
          rintro rfl
          exact new before

/-- Only what was signed for the purpose is accepted, and each request once. -/
theorem accepted_signed_once (platform : Platform)
    (macs : ∀ purpose payload other text, platform.mac purpose payload = platform.mac other text →
      purpose = other ∧ payload = text)
    (hashes : Function.Injective platform.digest) (clock : Int) (events : List Event)
    (ideal : Along (step platform) (Ideal platform) (started clock) events)
    (off : Along (step platform) OffExpiry (started clock) events) :
    (∀ request ∈ (run (step platform) (started clock) events).accepted,
      request ∈ (run (step platform) (started clock) events).signed) ∧
    (run (step platform) (started clock) events).accepted.Nodup := by
  have kept := run_invariant (kept_step macs hashes) (kept_started clock) (along_and ideal off)
  exact ⟨kept.signed, kept.once⟩

end Runs

def sampleOutgoing : Outgoing where
  purpose := .internalAuth
  ts := 1000
  random := ascii "0123456789abcdef"
  method := .post
  uri := ascii "/internal/cluster/join"
  body := []

def samplePayload : Bytes := ascii "1000|MDEyMzQ1Njc4OWFiY2RlZg|POST|/internal/cluster/join|"

/-- A MAC without collisions that has thirty-two bytes for the sample. -/
def samplePlatform : Platform where
  secret := ascii "secret"
  digest body := body
  mac purpose payload :=
    if purpose = .internalAuth ∧ payload = samplePayload then List.replicate 32 0
    else 1 :: (if purpose = .internalAuth then 0 else 1) :: payload

def sampleIncoming : Incoming where
  header := sampleOutgoing.header samplePlatform
  method := ascii "POST"
  uri := ascii "/internal/cluster/join"
  contentLength := 0
  body := .absent

/-- The request reaches a process whose clock is ninety seconds behind, and once more
ninety seconds after its time stamp. -/
def sampleEdges : List Event :=
  [.sign sampleOutgoing, .receive .internalAuth sampleIncoming (910 * second),
    .receive .internalAuth sampleIncoming (1090 * second)]

theorem sampleMac_inj (purpose : Purpose) (payload : Bytes) (other : Purpose) (text : Bytes)
    (same : samplePlatform.mac purpose payload = samplePlatform.mac other text) :
    purpose = other ∧ payload = text := by
  have zeros : ∀ (head : UInt8) (rest : Bytes), List.replicate 32 (0 : UInt8) ≠ 1 :: head ::
    rest := by
    intro head rest equal
    cases (List.cons.inj equal).1
  have flag : ∀ {left right : Purpose}, (if left = .internalAuth then (0 : UInt8) else 1) =
      (if right = .internalAuth then 0 else 1) → left = right := by
    intro left right equal
    cases left <;> cases right <;> first | rfl | cases equal
  simp only [samplePlatform] at same
  by_cases left : purpose = .internalAuth ∧ payload = samplePayload <;>
    by_cases right : other = .internalAuth ∧ text = samplePayload
  · exact ⟨left.1.trans right.1.symm, left.2.trans right.2.symm⟩
  · rw [if_pos left, if_neg right] at same
    exact (zeros _ _ same).elim
  · rw [if_neg left, if_pos right] at same
    exact (zeros _ _ same.symm).elim
  · rw [if_neg left, if_neg right] at same
    obtain ⟨flags, rest⟩ := List.cons.inj (List.cons.inj same).2
    exact ⟨flag flags, rest⟩

/-- Whoever sends the sample has its MAC from the signed one. -/
theorem sample_ideal (process : Process) (later : process.clock ≤ now)
    (signed : sampleOutgoing.signed ∈ process.signed) :
    Ideal samplePlatform process (.receive .internalAuth sampleIncoming now) := by
  refine ⟨later, fun sig carried _ _ _ => ⟨sampleOutgoing.signed, signed, ?_⟩⟩
  have own : signature sampleIncoming = some (sampleOutgoing.signed.mac samplePlatform) := by
    decide
  exact Option.some.inj (carried.symm.trans own)

/-- Received at both edges of its window, one request is accepted twice. -/
theorem edges_accepted_twice :
    (∀ purpose payload other text, samplePlatform.mac purpose payload =
      samplePlatform.mac other text → purpose = other ∧ payload = text) ∧
    Along (step samplePlatform) (Ideal samplePlatform) (started 0) sampleEdges ∧
    (run (step samplePlatform) (started 0) sampleEdges).accepted =
      [sampleOutgoing.signed, sampleOutgoing.signed] := by
  have clean : bar ∉ sampleOutgoing.uri := by decide
  refine ⟨sampleMac_inj, ⟨clean, ?_, ?_, trivial⟩, by decide⟩
  · exact sample_ideal _ (by decide) (by decide)
  · exact sample_ideal _ (by decide) (by decide)

def sampleWithin : List Event :=
  [.sign sampleOutgoing, .receive .internalAuth sampleIncoming (911 * second),
    .receive .internalAuth sampleIncoming (1090 * second)]

theorem accepted_signed_once_within :
    (run (step samplePlatform) (started 0) sampleWithin).accepted.Nodup := by
  have clean : bar ∉ sampleOutgoing.uri := by decide
  refine (accepted_signed_once samplePlatform sampleMac_inj Function.injective_id 0 sampleWithin
    ⟨clean, ?_, ?_, trivial⟩ (by decide)).2
  · exact sample_ideal _ (by decide) (by decide)
  · exact sample_ideal _ (by decide) (by decide)

end Bongo.InternalAuth
