import Bongo.Dnssec

/-!
How deep a lookup goes. The zone asked for next is the signer that a signature
names. While signers lie above the zones they sign for, the labels run out; a
signature that names a zone whose keys are still being looked for sends the
recursion round for ever, because a zone is remembered only when it is finished.
-/

namespace Bongo.Dnssec

open ByteKeys

variable (lib : Library) (query : Name → Nat → Option (List RR)) (now : Int)

variable {zone : Name}

section Upward

/-- The current signatures of an answer name the name asked for or a zone above it,
and those over a DS set a zone above the one it delegates. -/
structure Upward (name : Name) (qtype : Nat) : Prop where
  answer : ∀ sig ∈ signatures query name qtype, lib.validityPeriod sig now = true →
    sig.signerName <:+ name
  delegation : ∀ zone, zone <:+ name → zone ≠ [] → ∀ sig ∈ signatures query zone typeDS,
    lib.validityPeriod sig now = true → sig.signerName <:+ zone ∧ sig.signerName ≠ zone

variable {lib query now} {name : Name} {qtype : Nat}

variable (upward : Upward lib query now name qtype)
include upward

theorem Upward.shorter (above : zone <:+ name) (below : zone ≠ []) {sig : RRSIG}
    (listed : sig ∈ signatures query zone typeDS) (current : lib.validityPeriod sig now = true) :
    sig.signerName <:+ name ∧ sig.signerName.length < zone.length := by
  obtain ⟨suffix, different⟩ := upward.delegation zone above below sig listed current
  refine ⟨suffix.trans above, ?_⟩
  rcases Nat.lt_or_ge sig.signerName.length zone.length with less | more
  · exact less
  · exact absurd (suffix.eq_of_length_le more) different

end Upward

section Visits

/-- Between the two states the keys of `zones` were resolved, and each of them was
found in the cache from then on. -/
structure Visited (zones : List Name) (before after : State) : Prop where
  log : after.resolved = zones ++ before.resolved
  once : zones.Nodup
  fresh : ∀ zone ∈ zones, before.keyCache zone = none
  finished : ∀ zone ∈ zones, after.keyCache zone ≠ none
  kept : ∀ zone, before.keyCache zone ≠ none → after.keyCache zone ≠ none

theorem Visited.refl (s : State) : Visited [] s s where
  log := rfl
  once := List.nodup_nil
  fresh _ member := by cases member
  finished _ member := by cases member
  kept _ cached := cached

variable {after before : State}

theorem Visited.trans {first second : List Name} {between : State}
    (start : Visited first before between) (rest : Visited second between after) :
    Visited (second ++ first) before after where
  log := by rw [rest.log, start.log, List.append_assoc]
  once := by
    refine List.nodup_append.mpr ⟨rest.once, start.once, ?_⟩
    intro zone again other earlier same
    exact start.finished other earlier (same ▸ rest.fresh zone again)
  fresh := by
    intro zone member
    rcases List.mem_append.mp member with later | earlier
    · by_contra cached
      exact start.kept zone cached (rest.fresh zone later)
    · exact start.fresh zone earlier
  finished := by
    intro zone member
    rcases List.mem_append.mp member with later | earlier
    · exact rest.finished zone later
    · exact rest.kept zone (start.finished zone earlier)
  kept zone cached := rest.kept zone (start.kept zone cached)

/-- Resolving a zone visits it, and no zone below it, once. -/
theorem Visited.store {zones : List Name} (entry : KeyCacheEntry)
    (inner : Visited zones (before.enter zone) after) (fresh : before.keyCache zone = none)
    (other : zone ∉ zones) :
    Visited (zones ++ [zone]) before (after.store zone entry) where
  log := by
    change after.resolved = _
    rw [inner.log, State.enter, List.append_assoc, List.singleton_append]
  once := List.nodup_append.mpr ⟨inner.once, List.nodup_singleton zone, by
    intro left present right same equal
    rw [List.mem_singleton.mp same] at equal
    exact other (equal ▸ present)⟩
  fresh := List.forall_mem_append.mpr ⟨inner.fresh, List.forall_mem_singleton.mpr fresh⟩
  finished := by
    intro visited member
    rcases eq_or_ne visited zone with same | different
    · simp [State.store, same]
    rcases List.mem_append.mp member with earlier | last
    · simp only [State.store, if_neg different]
      exact inner.finished visited earlier
    · exact absurd (List.mem_singleton.mp last) different
  kept := by
    intro visited cached
    rcases eq_or_ne visited zone with same | different
    · simp [State.store, same]
    · simp only [State.store, if_neg different]
      exact inner.kept visited cached

variable {lib query now} {name : Name} {qtype : Nat}

/-- The visits below a limit, from a fixed state on. -/
def Below (limit : Nat) (start after : State) : Prop :=
  ∃ zones, Visited zones start after ∧ ∀ zone ∈ zones, zone.length < limit

theorem Below.trans {limit : Nat} {between : State} (start : Below limit before between)
    (rest : Below limit between after) : Below limit before after := by
  obtain ⟨first, visitedFirst, short⟩ := start
  obtain ⟨second, visitedSecond, shorter⟩ := rest
  exact ⟨second ++ first, visitedFirst.trans visitedSecond,
    List.forall_mem_append.mpr ⟨shorter, short⟩⟩

/-- What a lookup of the name adds to the cache it found. -/
structure Grown (lib : Library) (query : Name → Nat → Option (List RR)) (now : Int) (name : Name)
    (cache : Name → Option KeyCacheEntry) (s : State) : Prop where
  known : ∀ zone, s.keyCache zone = none → cache zone = none
  exact : ∀ zone entry, s.keyCache zone = some entry →
    cache zone = some entry ∨ zone <:+ name ∧ Exact lib query now cache zone entry

variable {cache : Name → Option KeyCacheEntry} {s : State}

theorem Grown.store {entry : KeyCacheEntry} (grown : Grown lib query now name cache s)
    (above : zone <:+ name) (exact : Exact lib query now cache zone entry) :
    Grown lib query now name cache (s.store zone entry) := by
  constructor
  · intro other unknown
    rcases eq_or_ne other zone with rfl | different
    · simp [State.store] at unknown
    · simp only [State.store, if_neg different] at unknown
      exact grown.known other unknown
  · intro other found present
    rcases eq_or_ne other zone with rfl | different
    · simp only [State.store, if_true, Option.some.injEq] at present
      exact .inr ⟨above, present ▸ exact⟩
    · simp only [State.store, if_neg different] at present
      exact grown.exact other found present

variable (upward : Upward lib query now name qtype)
include upward

theorem validatedKeys_spec {depth : Nat} (above : zone <:+ name) {entry : KeyCacheEntry}
    (grown : Grown lib query now name cache s)
    (returned : validatedKeys lib query now depth s zone = some (entry, after)) :
    Below (zone.length + 1) s after ∧ Grown lib query now name cache after ∧
      Exact lib query now cache zone entry := by
  induction depth generalizing zone s after entry with
  | zero => cases returned
  | succ depth ih =>
    rcases validatedKeys_succ lib query now returned with
      ⟨cached, rfl⟩ | ⟨unknown, inner, resolved, rfl⟩
    · refine ⟨⟨[], Visited.refl _, nofun⟩, grown, ?_⟩
      rcases grown.exact zone entry cached with found | ⟨-, exact⟩
      · exact exact_known lib query now found
      · exact exact
    -- The signers of the zone's DS set have fewer labels than the zone.
    have keeps : zone ≠ [] → ∀ sig ∈ signatures query zone typeDS,
        lib.validityPeriod sig now = true → ∀ between entry later,
          Below zone.length (s.enter zone) between ∧ Grown lib query now name cache between →
          validatedKeys lib query now depth between sig.signerName = some (entry, later) →
          (Below zone.length (s.enter zone) later ∧ Grown lib query now name cache later) ∧
            Exact lib query now cache sig.signerName entry := by
      rintro below sig listed current between entry later ⟨visits, grown⟩ called
      obtain ⟨signerAbove, less⟩ := upward.shorter above below listed current
      obtain ⟨⟨zones, visited, short⟩, more, exact⟩ := ih signerAbove grown called
      have further : Below zone.length between later :=
        ⟨zones, visited, fun other member => by have := short other member; omega⟩
      exact ⟨⟨visits.trans further, more⟩, exact⟩
    obtain ⟨⟨⟨zones, visited, short⟩, more⟩, exact⟩ := resolveKeys_spec lib query now _
      (grown.known zone unknown) keeps ⟨⟨[], Visited.refl _, nofun⟩, ⟨grown.known, grown.exact⟩⟩
      resolved
    have other : zone ∉ zones := fun member => Nat.lt_irrefl _ (short zone member)
    refine ⟨⟨zones ++ [zone], visited.store entry unknown other, ?_⟩, more.store above exact, exact⟩
    exact List.forall_mem_append.mpr
      ⟨fun reached member => Nat.lt_succ_of_lt (short reached member),
      List.forall_mem_singleton.mpr (Nat.lt_succ_self _)⟩

/-- A lookup visits zones, remembers what it found out about them, and gives a secure
reply just when its records are attested. -/
theorem lookup_visits {depth : Nat} {reply : Option Reply}
    (returned : lookup lib query now depth s name qtype = some (reply, after)) :
    ((∃ zones, Visited zones s after) ∧ Grown lib query now name s.keyCache after) ∧
      reply.map Reply.records = (query name qtype).map (recordsOfType · qtype) ∧
      ∀ good, reply = some good → (good.secure = true ↔ good.records ≠ [] ∧
        ∃ answer, query name qtype = some answer ∧
          Attested lib query now s.keyCache good.records (rrsigsFor answer qtype)) := by
  refine lookup_spec lib query now (fun later => (∃ zones, Visited zones s later) ∧
    Grown lib query now name s.keyCache later) depth ?_
    ⟨⟨[], Visited.refl s⟩, ⟨fun _ => id, fun _ _ => .inl⟩⟩ returned
  rintro sig listed current between entry later ⟨⟨first, visited⟩, grown⟩ called
  obtain ⟨⟨second, more, -⟩, grownOn, exact⟩ :=
    validatedKeys_spec upward (upward.answer sig listed current) grown called
  exact ⟨⟨⟨second ++ first, visited.trans more⟩, grownOn⟩, exact⟩

end Visits

section Rings

variable {keysOf : State → Name → Option (KeyCacheEntry × State)}

/-- The first current signature decides whether there is a result at all. -/
theorem validateAny_stuck (rrs : List RR) (sigs : List RRSIG) (s : State) (sig : RRSIG)
    (first : (sigs.filter fun sig => lib.validityPeriod sig now).head? = some sig)
    (stuck : keysOf s sig.signerName = none) :
    validateAny lib now keysOf rrs sigs s = none := by
  induction sigs with
  | nil => cases first
  | cons other rest ih =>
    simp only [validateAny, validateRRSet]
    by_cases current : lib.validityPeriod other now = true
    · simp only [List.filter_cons, current, if_true, List.head?_cons, Option.some.injEq] at first
      rw [if_pos current, first, stuck]
    · simp only [List.filter_cons, current] at first
      rw [if_neg current]
      exact ih first

/-- The zone has keys and a DS set, and the set's first current signature names a
zone of the ring. -/
structure AsksInto (ring : Name → Prop) (zone : Name) : Prop where
  below : zone ≠ []
  keys : ∃ answer, query zone typeDNSKEY = some answer ∧ dnskeys answer ≠ []
  delegation : ∃ answer sig, query zone typeDS = some answer ∧ dsRecords answer ≠ [] ∧
    ((rrsigsFor answer typeDS).filter fun sig => lib.validityPeriod sig now).head? = some sig ∧
    ring sig.signerName

/-- Nothing is known about a zone while it is being resolved, so a ring of zones
that ask for each other is gone round for ever. -/
theorem validatedKeys_ring (ring : Name → Prop)
    (asks : ∀ zone, ring zone → AsksInto lib query now ring zone) (depth : Nat) (s : State)
    (zone : Name) (member : ring zone) (unknown : ∀ zone, ring zone → s.keyCache zone = none) :
    validatedKeys lib query now depth s zone = none := by
  induction depth generalizing s zone with
  | zero => rfl
  | succ depth ih =>
    obtain ⟨below, ⟨answer, keyQuery, someKeys⟩, dsAnswer, sig, dsQuery, someDS, first, inRing⟩ :=
      asks zone member
    have stuck : validatedKeys lib query now depth (s.enter zone) sig.signerName = none :=
      ih (s.enter zone) sig.signerName inRing unknown
    simp only [validatedKeys, unknown zone member, resolveKeys, keyQuery, if_neg someKeys,
      if_neg below, validatedDS, dsQuery, if_neg someDS,
      validateAny_stuck lib now _ _ _ sig first stuck]

theorem lookup_stuck (depth : Nat) (s : State) (name : Name) (qtype : Nat) (answer : List RR)
    (sig : RRSIG) (asked : query name qtype = some answer)
    (records : recordsOfType answer qtype ≠ [])
    (first : ((rrsigsFor answer qtype).filter fun sig => lib.validityPeriod sig now).head? =
      some sig)
    (stuck : validatedKeys lib query now depth s sig.signerName = none) :
    lookup lib query now depth s name qtype = none := by
  have signed : rrsigsFor answer qtype ≠ [] := by
    intro empty
    rw [empty] at first
    cases first
  simp [lookup, asked, records, signed, validateAny_stuck lib now _ _ s sig first stuck]

end Rings

/-- Digests and signatures carry the key; a signature is good when it carries the
key it is checked with, names that key's zone and covers one set of records. -/
def sampleLibrary : Library where
  keyTag key := if key.owner = [] then 20326 else 1
  toDS key _ := some key.publicKey
  validityPeriod sig now := sig.inception ≤ now && now ≤ sig.expiration
  verify sig key rrs :=
    sig.signature = key.publicKey && sig.signerName = key.owner &&
      match rrs with
      | [] => false
      | rr :: rest => rest.all fun other => other.owner = rr.owner && other.rrtype = rr.rrtype

def rootKey : DNSKEY :=
  ⟨[], 8, ascii "E06D44B80B8F1D39A95C0B0D7C65D08458E880409BBC683457104237C7F8EC8D"⟩

def zoneKey (zone : Name) : DNSKEY := ⟨zone, 8, ascii "key"⟩

def sampleSig (owner : Name) (covered : Nat) (key : DNSKEY) : RR :=
  .rrsig ⟨owner, covered, sampleLibrary.keyTag key, key.owner, 0, 100, key.publicKey⟩

def sampleKey (name : Name) : DNSKEY := if name = [] then rootKey else zoneKey name

/-- The zone's DS set is signed by the zone `parent`. -/
def sampleResolver (zone : Name) (parent : DNSKEY) (name : Name) (qtype : Nat) :
    Option (List RR) :=
  if qtype = typeDNSKEY then some [.dnskey (sampleKey name), sampleSig name qtype (sampleKey name)]
  else if qtype = typeDS then
    some [.ds ⟨⟨1, 8, 2, ascii "key"⟩, name⟩, sampleSig name qtype parent]
  else some [.other name qtype [], sampleSig name qtype (zoneKey zone)]

theorem sample_upward (lib : Library) (now : Int) :
    Upward lib (sampleResolver [ascii "org"] rootKey) now [ascii "org"] 15 where
  answer := by
    intro sig listed _
    have every : ∀ sig ∈ signatures (sampleResolver [ascii "org"] rootKey) [ascii "org"] 15,
        sig.signerName <:+ [ascii "org"] := by decide
    exact every sig listed
  delegation := by
    intro zone above below sig listed current
    have only : sig ∈ rrsigsFor
        [.ds ⟨⟨1, 8, 2, ascii "key"⟩, zone⟩, sampleSig zone typeDS rootKey] typeDS := listed
    have root : sig.signerName = [] := by
      simp only [rrsigsFor, sampleSig, List.filterMap_cons, List.filterMap_nil, if_true,
        List.mem_singleton] at only
      rw [only]
      rfl
    rw [root]
    exact ⟨List.nil_suffix, fun same => below same.symm⟩

/-- A zone whose DS set is signed by the zone itself is never finished. -/
theorem self_signed_delegation_never_returns :
    ¬ ∃ depth, (lookup sampleLibrary
      (sampleResolver [ascii "org"] (zoneKey [ascii "org"])) 7 depth ⟨fun _ => none, []⟩
      [ascii "org"] 15).isSome = true := by
  rintro ⟨depth, returned⟩
  have asks : ∀ zone, zone = [ascii "org"] → AsksInto sampleLibrary
      (sampleResolver [ascii "org"] (zoneKey [ascii "org"])) 7 (· = [ascii "org"]) zone := by
    rintro zone rfl
    exact ⟨by decide, ⟨_, rfl, by decide⟩, _, _, rfl, by decide, rfl, rfl⟩
  have stuck := validatedKeys_ring sampleLibrary _ 7 (· = [ascii "org"]) asks depth
    ⟨fun _ => none, []⟩ [ascii "org"] rfl (fun _ _ => rfl)
  have never := lookup_stuck sampleLibrary
    (sampleResolver [ascii "org"] (zoneKey [ascii "org"])) 7 depth ⟨fun _ => none, []⟩
    [ascii "org"] 15 _ _ rfl (by decide) rfl stuck
  rw [never] at returned
  cases returned

end Bongo.Dnssec
