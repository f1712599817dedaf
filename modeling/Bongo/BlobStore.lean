import Bongo.ByteKeys

/-!
The content-addressed blob store. A blob is a file named by the digest of its
content; a second copy of one that is there is not written, and only makes the
file young again.
-/

namespace Bongo.BlobStore

set_option maxRecDepth 100000

open ByteKeys

structure Blob where
  data : Bytes
  mtime : Int
  deriving DecidableEq

abbrev Store := Bytes → Option Blob

inductive Error where
  | invalidHash (hash : Bytes)
  | writing
  deriving DecidableEq

def isValidHash (h : Bytes) : Bool :=
  h.length == 64 && h.all fun c => !((c < 48 || 57 < c) && (c < 97 || 102 < c))

/-- The hexadecimal SHA-256 of a content. All that is used of it is the form of
its values. -/
structure Digest where
  hex : Bytes → Bytes
  valid : ∀ data, isValidHash (hex data) = true

def sampleDigest : Digest where
  hex data := List.replicate 63 48 ++ [48 + (data.headD 0) % 10]
  valid data := by
    have digit : ∀ byte : UInt8,
        isValidHash (List.replicate 63 48 ++ [48 + byte % 10]) = true := by decide
    exact digit _

def Store.set (bs : Store) (hash : Bytes) (file : Option Blob) : Store :=
  fun other => if other = hash then file else bs other

@[simp] theorem set_self (bs : Store) (hash : Bytes) (file : Option Blob) :
    bs.set hash file hash = file := if_pos rfl

theorem set_other (bs : Store) {hash other : Bytes} (file : Option Blob)
    (different : other ≠ hash) : bs.set hash file other = bs other := if_neg different

theorem set_set (bs : Store) (hash : Bytes) (first second : Option Blob) :
    (bs.set hash first).set hash second = bs.set hash second := by
  funext other
  by_cases same : other = hash
  · rw [same, set_self, set_self]
  · rw [set_other _ _ same, set_other _ _ same, set_other _ _ same]

/-- `now` is read before the lock is taken, so it may be older than the file's
own time. -/
def touchIfExists (bs : Store) (hash : Bytes) (now : Int) : Except Error (Bool × Store) :=
  if isValidHash hash = false then .error (.invalidHash hash)
  else
    match bs hash with
    | none => .ok (false, bs)
    | some blob => .ok (true, bs.set hash (some { blob with mtime := now }))

def deleteIfNotModifiedSince (bs : Store) (hash : Bytes) (cutoff : Int) :
    Except Error (Bool × Store) :=
  if isValidHash hash = false then .error (.invalidHash hash)
  else
    match bs hash with
    | none => .ok (false, bs)
    | some blob => if cutoff < blob.mtime then .ok (false, bs) else .ok (true, bs.set hash none)

def delete (bs : Store) (hash : Bytes) : Except Error Store :=
  if isValidHash hash = false then .error (.invalidHash hash) else .ok (bs.set hash none)

/-- What a reader yields: some bytes, and then either the end or a failure. -/
structure Stream where
  bytes : Bytes
  broken : Bool
  deriving DecidableEq

def limitReader (r : Stream) (n : Nat) : Stream :=
  if r.bytes.length < n then r else ⟨r.bytes.take n, false⟩

/-- The temporary file is complete at `written` and keeps that time when it is
renamed. -/
def putReader (digest : Digest) (bs : Store) (written now : Int) (r : Stream) :
    Except Error (Bytes × Nat × Store) :=
  if r.broken then .error .writing
  else
    let hash := digest.hex r.bytes
    match touchIfExists bs hash now with
    | .error e => .error e
    | .ok (true, touched) => .ok (hash, r.bytes.length, touched)
    | .ok (false, _) => .ok (hash, r.bytes.length, bs.set hash (some ⟨r.bytes, written⟩))

/-- `blob` may stand under `hash` once `data` has been stored there: it is new, or
it has the content of the file it takes the place of. -/
def Settled (bs : Store) (hash data : Bytes) (blob : Blob) : Prop :=
  (bs hash = none ∧ blob.data = data) ∨ ∃ old, bs hash = some old ∧ blob.data = old.data

section Lemmas

variable {digest : Digest} {bs : Store} {written now : Int} {r : Stream}

theorem limitReader_short {n : Nat} (short : r.bytes.length ≤ n) (whole : r.broken = false) :
    limitReader r n = r := by
  unfold limitReader
  split
  · rfl
  -- the limit falls on the last byte, where nothing is cut
  obtain ⟨bytes, broken⟩ := r
  cases whole
  rw [List.take_of_length_le short]

theorem putReader_broken (broken : r.broken = true) :
    putReader digest bs written now r = .error .writing := if_pos broken

theorem delete_hex (data : Bytes) :
    delete bs (digest.hex data) = .ok (bs.set (digest.hex data) none) := by
  rw [delete, digest.valid data]
  exact if_neg (by decide)

/-- A content that is there already is left as it is, but for its time. -/
theorem putReader_hit {blob : Blob} (whole : r.broken = false)
    (there : bs (digest.hex r.bytes) = some blob) :
    putReader digest bs written now r = .ok (digest.hex r.bytes, r.bytes.length,
      bs.set (digest.hex r.bytes) (some { blob with mtime := now })) := by
  simp [putReader, whole, touchIfExists, digest.valid, there]

theorem putReader_miss (whole : r.broken = false) (absent : bs (digest.hex r.bytes) = none) :
    putReader digest bs written now r = .ok (digest.hex r.bytes, r.bytes.length,
      bs.set (digest.hex r.bytes) (some ⟨r.bytes, written⟩)) := by
  simp [putReader, whole, touchIfExists, digest.valid, absent]

/-- However it goes, storing changes one file, and that one only if it was absent
or in its time. -/
theorem putReader_stored (digest : Digest) (bs : Store) (written now : Int) (r : Stream)
    (whole : r.broken = false) :
    ∃ blob : Blob, putReader digest bs written now r =
        .ok (digest.hex r.bytes, r.bytes.length, bs.set (digest.hex r.bytes) (some blob)) ∧
      Settled bs (digest.hex r.bytes) r.bytes blob := by
  cases there : bs (digest.hex r.bytes) with
  | none => exact ⟨_, putReader_miss whole there, Or.inl ⟨there, rfl⟩⟩
  | some old => exact ⟨_, putReader_hit whole there, Or.inr ⟨old, there, rfl⟩⟩

/-- Storing one blob disturbs no other file, nor the content of one that is there. -/
theorem Settled.keeps {hash data : Bytes} {blob old : Blob}
    (settled : Settled bs hash data blob) (other : Bytes) (there : bs other = some old) :
    ∃ kept, bs.set hash (some blob) other = some kept ∧ kept.data = old.data := by
  by_cases same : other = hash
  · subst same
    rcases settled with ⟨absent, _⟩ | ⟨before, present, content⟩
    · rw [there] at absent
      cases absent
    · rw [there] at present
      cases present
      exact ⟨blob, set_self _ _ _, content⟩
  · exact ⟨old, by rw [set_other _ _ same, there], rfl⟩

/-- Whatever is found under `wanted` after `data` was stored under its own digest
was there before or has the digest `wanted`. -/
theorem Settled.genuine {wanted data : Bytes} {blob found : Blob}
    (settled : Settled bs (digest.hex data) data blob)
    (there : bs.set (digest.hex data) (some blob) wanted = some found) :
    digest.hex found.data = wanted ∨ ∃ old, bs wanted = some old ∧ found.data = old.data := by
  by_cases same : wanted = digest.hex data
  · subst same
    rw [set_self] at there
    cases there
    rcases settled with ⟨_, content⟩ | earlier
    · exact Or.inl (by rw [content])
    · exact Or.inr earlier
  · rw [set_other _ _ same] at there
    exact Or.inr ⟨found, there, rfl⟩

end Lemmas

end Bongo.BlobStore
