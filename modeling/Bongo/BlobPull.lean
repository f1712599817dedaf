import Bongo.BlobStore

/-!
Pulling a missing blob from the other members of the cluster. The members are
asked one after another; the first that answers both requests decides the pull,
and what it sends is stored under its own digest before that is compared with
the one asked for.
-/

namespace Bongo.BlobPull

open ByteKeys BlobStore

def maxBlobSyncBytes : Nat := 64 * 2 ^ 20

def statusOK : Nat := 200

/-- An answer to HEAD: its status, and whether its body closes without an error. -/
structure Head where
  status : Nat
  closes : Bool
  deriving DecidableEq

structure Response where
  status : Nat
  body : Stream
  closes : Bool
  deriving DecidableEq

/-- A member and what it answers for the blob; `none` where the request cannot be
made or fails. -/
structure Member where
  httpAddr : Bytes
  peerAddr : Bytes
  head : Option Head
  get : Option Response
  deriving DecidableEq

inductive PullError where
  | storing (cause : Error)
  | closing
  | mismatch (expected got : Bytes)
  | notFound (short : Bytes)
  deriving DecidableEq

def endpoint (peerTLS : Bool) (m : Member) : Option (Bytes × Bytes) :=
  if peerTLS then
    if m.peerAddr = [] then none else some (ascii "https", m.peerAddr)
  else if m.httpAddr = [] then none
  else some (ascii "http", m.httpAddr)

def shortHash (h : Bytes) : Bytes := if h.length ≤ 12 then h else h.take 12

def answer (peerTLS : Bool) (m : Member) : Option Response := do
  let _ ← endpoint peerTLS m
  let head ← m.head
  guard (head.status = statusOK)
  guard (head.closes = true)
  let resp ← m.get
  guard (resp.status = statusOK)
  return resp

/-- Times of the copy: when the temporary file is complete, and when the store
looks for the blob. -/
structure Times where
  written : Int
  now : Int

def received (resp : Response) : Stream := limitReader resp.body maxBlobSyncBytes

def keep (digest : Digest) (times : Times) (hash : Bytes) (resp : Response) (bs : Store) :
    Option PullError × Store :=
  match putReader digest bs times.written times.now (received resp) with
  | .error e => (some (.storing e), bs)
  | .ok (storedHash, _, stored) =>
    if resp.closes = false then (some .closing, stored)
    else if storedHash ≠ hash then
      -- a failure to delete is only logged
      (some (.mismatch hash storedHash),
        match delete stored storedHash with
        | .error _ => stored
        | .ok cleaned => cleaned)
    else (none, stored)

def pull (digest : Digest) (peerTLS : Bool) (times : Times) (hash : Bytes) :
    List Member → Store → Option PullError × Store
  | [], bs => (some (.notFound (shortHash hash)), bs)
  | m :: rest, bs =>
    match answer peerTLS m with
    | none => pull digest peerTLS times hash rest bs
    | some resp => keep digest times hash resp bs

section Property

variable (digest : Digest) (peerTLS : Bool) (times : Times) (hash : Bytes)

/-- The member answers both requests and sends, whole and within the limit, a
content with the digest asked for. -/
def Serves (m : Member) : Prop :=
  ∃ resp, answer peerTLS m = some resp ∧ resp.closes = true ∧ resp.body.broken = false ∧
    resp.body.bytes.length ≤ maxBlobSyncBytes ∧ digest.hex resp.body.bytes = hash

/-- What a pull with this outcome owes to the store it ran on; `served` says that
some member served the blob. -/
structure Decided (served : Prop) (bs : Store) (outcome : Option PullError × Store) : Prop where
  others : ∀ other blob, other ≠ hash → bs other = some blob →
    ∃ kept, outcome.2 other = some kept ∧ kept.data = blob.data
  genuine : ∀ blob, outcome.2 hash = some blob →
    digest.hex blob.data = hash ∨ ∃ old, bs hash = some old ∧ blob.data = old.data
  succeeds : served → outcome.1 = none ∧ outcome.2 hash ≠ none

def Sound (members : List Member) (bs : Store) : Prop :=
  Decided digest hash (∃ m ∈ members, Serves digest peerTLS hash m) bs
    (pull digest peerTLS times hash members bs)

/-- The answer is read to its end without a failure. -/
def Complete (resp : Response) : Prop := (received resp).broken = false ∧ resp.closes = true

/-- The first member that answers both requests sends the content; or no later
one would have sent it, and what was sent instead is not a blob of the store. -/
def Reliable (bs : Store) : List Member → Prop
  | [] => True
  | m :: rest =>
    match answer peerTLS m with
    | none => Reliable bs rest
    | some resp =>
      (Complete resp ∧ digest.hex (received resp).bytes = hash) ∨
        ((∀ later ∈ rest, ¬ Serves digest peerTLS hash later) ∧
          (Complete resp → bs (digest.hex (received resp).bytes) = none))

end Property

section Deciding

variable {digest : Digest} {peerTLS : Bool} {times : Times} {hash : Bytes}
  {resp : Response} {bs : Store}

theorem keep_broken (broken : (received resp).broken = true) :
    keep digest times hash resp bs = (some (.storing .writing), bs) := by
  simp [keep, putReader_broken broken]

/-- A whole answer ends in one of three ways, by how it closes and by its digest. -/
theorem keep_whole (digest : Digest) (times : Times) (hash : Bytes) (bs : Store)
    (whole : (received resp).broken = false) :
    ∃ blob : Blob, Settled bs (digest.hex (received resp).bytes) (received resp).bytes blob ∧
      keep digest times hash resp bs =
        if resp.closes = false then
          (some .closing, bs.set (digest.hex (received resp).bytes) (some blob))
        else if digest.hex (received resp).bytes ≠ hash then
          (some (.mismatch hash (digest.hex (received resp).bytes)),
            bs.set (digest.hex (received resp).bytes) none)
        else (none, bs.set (digest.hex (received resp).bytes) (some blob)) := by
  obtain ⟨blob, stored, settled⟩ :=
    putReader_stored digest bs times.written times.now (received resp) whole
  refine ⟨blob, settled, ?_⟩
  simp [keep, stored, delete_hex, set_set]

/-- A member that serves the blob delivers it when its turn comes. -/
theorem serves_answer {m : Member} (serves : Serves digest peerTLS hash m)
    (answered : answer peerTLS m = some resp) :
    Complete resp ∧ digest.hex (received resp).bytes = hash := by
  obtain ⟨same, found, closes, whole, short, content⟩ := serves
  rw [answered] at found
  cases found
  have uncut : received resp = resp.body := limitReader_short short whole
  exact ⟨⟨by rw [uncut]; exact whole, closes⟩, by rw [uncut]; exact content⟩

theorem serves_silent (digest : Digest) (hash : Bytes) {m : Member}
    (silent : answer peerTLS m = none) :
    ¬ Serves digest peerTLS hash m := by
  rintro ⟨resp, found, _⟩
  rw [silent] at found
  cases found

variable {served : Prop}

/-- A pull that fails and keeps the content of every file is right as long as
nobody serves the blob. -/
theorem Decided.failed (err : PullError) (after : Store)
    (others : ∀ other blob, other ≠ hash → bs other = some blob →
      ∃ kept, after other = some kept ∧ kept.data = blob.data)
    (genuine : ∀ blob, after hash = some blob →
      digest.hex blob.data = hash ∨ ∃ old, bs hash = some old ∧ blob.data = old.data) :
    Decided digest hash served bs (some err, after) ↔ ¬ served := by
  constructor
  · intro decided wanted
    cases (decided.succeeds wanted).1
  · intro nobody
    exact ⟨others, genuine, fun wanted => absurd wanted nobody⟩

theorem Decided.unchanged (err : PullError) :
    Decided digest hash served bs (some err, bs) ↔ ¬ served :=
  Decided.failed err bs (fun _ blob _ there => ⟨blob, there, rfl⟩)
    fun blob there => Or.inr ⟨blob, there, rfl⟩

/-- Removing what was sent is right exactly if it was not in the store before. -/
theorem Decided.mismatched {stored : Bytes} (err : PullError) (different : stored ≠ hash) :
    Decided digest hash served bs (some err, bs.set stored none) ↔ ¬ served ∧ bs stored = none := by
  constructor
  · intro decided
    refine ⟨?_, ?_⟩
    · intro wanted
      cases (decided.succeeds wanted).1
    cases there : bs stored with
    | none => rfl
    | some blob =>
      obtain ⟨kept, found, _⟩ := decided.others stored blob different there
      simp at found
  · rintro ⟨nobody, absent⟩
    have same : bs.set stored none = bs := by
      funext other
      by_cases here : other = stored
      · rw [here, set_self, absent]
      · exact set_other bs none here
    rw [same]
    exact (Decided.unchanged err).mpr nobody

/-- The deciding member, for every answer it may give. -/
theorem keep_decided (served : Prop) :
    Decided digest hash served bs (keep digest times hash resp bs) ↔
      (Complete resp ∧ digest.hex (received resp).bytes = hash) ∨
        (¬ served ∧ (Complete resp → bs (digest.hex (received resp).bytes) = none)) := by
  cases broken : (received resp).broken with
  | true =>
    rw [keep_broken broken, Decided.unchanged]
    simp [Complete, broken]
  | false =>
    obtain ⟨blob, settled, kept⟩ := keep_whole digest times hash bs broken
    rw [kept]
    cases closes : resp.closes with
    | false =>
      rw [if_pos rfl, Decided.failed .closing _ (fun other old _ => settled.keeps other)
        (fun found => settled.genuine)]
      simp [Complete, closes]
    | true =>
      have complete : Complete resp := ⟨broken, closes⟩
      rw [if_neg (by decide)]
      by_cases same : digest.hex (received resp).bytes = hash
      · rw [if_neg (not_not_intro same)]
        refine iff_of_true ⟨fun other old _ => settled.keeps other,
          fun found => settled.genuine, fun _ => ⟨rfl, ?_⟩⟩ (Or.inl ⟨complete, same⟩)
        simp [same]
      · rw [if_pos same, Decided.mismatched _ same]
        simp [complete, same]

end Deciding

/-- A pull keeps every other blob, stores nothing false under the hash and finds
the blob wherever it is served, exactly if the first member that answers sends
the blob, or sends something new and nobody after it has the blob. -/
theorem pull_sound_iff (digest : Digest) (peerTLS : Bool) (times : Times) (hash : Bytes)
    (members : List Member) (bs : Store) :
    Sound digest peerTLS times hash members bs ↔ Reliable digest peerTLS hash bs members := by
  unfold Sound
  induction members with
  | nil =>
    rw [pull, Decided.unchanged]
    simp [Reliable]
  | cons m rest ih =>
    cases answered : answer peerTLS m with
    | none =>
      have silent := serves_silent digest hash answered
      have elsewhere : (∃ member ∈ m :: rest, Serves digest peerTLS hash member) ↔
          ∃ member ∈ rest, Serves digest peerTLS hash member := by
        simp [silent]
      simp only [pull, Reliable, answered, elsewhere]
      exact ih
    | some resp =>
      simp only [pull, Reliable, answered]
      rw [keep_decided]
      -- the deciding member itself serves only what it delivers
      by_cases delivers : Complete resp ∧ digest.hex (received resp).bytes = hash
      · simp [delivers]
      · have idle : ¬ Serves digest peerTLS hash m :=
          fun serves => delivers (serves_answer serves answered)
        simp [delivers, idle]

/-! One blob of the store, sent in place of another. -/

def sending (data : Bytes) : Member :=
  ⟨ascii "10.0.0.1:80", [], some ⟨statusOK, true⟩, some ⟨statusOK, ⟨data, false⟩, true⟩⟩

def holding (data : Bytes) : Store :=
  fun hash => if hash = sampleDigest.hex data then some ⟨data, 0⟩ else none

/-- Asked for the blob of content 2, the first member sends content 1, which the
store holds: that blob is gone afterwards, and the second member, which has the
blob, is never asked. -/
theorem held_blob_deleted :
    (∀ left ∈ [[1], [2]], ∀ right ∈ [[1], [2]],
      sampleDigest.hex left = sampleDigest.hex right → left = right) ∧
    holding [1] (sampleDigest.hex [1]) = some ⟨[1], 0⟩ ∧
    Serves sampleDigest false (sampleDigest.hex [2]) (sending [2]) ∧
    (pull sampleDigest false ⟨1, 1⟩ (sampleDigest.hex [2]) [sending [1], sending [2]]
      (holding [1])).2 (sampleDigest.hex [1]) = none ∧
    (pull sampleDigest false ⟨1, 1⟩ (sampleDigest.hex [2]) [sending [1], sending [2]]
      (holding [1])).1 = some (.mismatch (sampleDigest.hex [2]) (sampleDigest.hex [1])) := by
  refine ⟨by decide, by decide, ?_, by decide, by decide⟩
  exact ⟨⟨statusOK, ⟨[2], false⟩, true⟩, by decide, rfl, rfl, by decide, rfl⟩

end Bongo.BlobPull
