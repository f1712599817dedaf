import Bongo.DnssecDepth
import Bongo.Histories

/-!
What a secure reply is worth. The chain that should stand behind it is stated
apart from the validator: record sets of one owner, each signed by a zone at or
above that owner, down from the root anchors. The validator compares no owner with
the name it asked for and no signer with the zone it signs for, and keeps keys
longer than the signatures they rest on; where the answers get all this right, the
chain is there.
-/

namespace Bongo.Dnssec

open ByteKeys Histories

variable {zone : Name}

section Trust

variable (lib : Library) (signed : DNSKEY → List RR → Prop)

/-- Signatures are ideal: one that verifies covers one record set, which the holder
of the key signed as the zone named. -/
structure Ideal : Prop where
  zone : ∀ sig key rrs, lib.verify sig key rrs = true → sig.signerName = key.owner
  oneSet : ∀ sig key rrs, lib.verify sig key rrs = true →
    ∃ owner rrtype, ∀ rr ∈ rrs, rr.owner = owner ∧ rr.rrtype = rrtype
  made : ∀ sig key rrs, lib.verify sig key rrs = true → signed key rrs

/-- The key's holder signed the set, with a signature that meets `current`. -/
def SignedBy (current : RRSIG → Prop) (key : DNSKEY) (rrs : List RR) : Prop :=
  signed key rrs ∧ ∃ sig, current sig ∧ sig.signerName = key.owner ∧ lib.verify sig key rrs = true

/-- The keys of a zone lead back to the root anchors: a key that signed them has its
digest in a DS set for the zone, signed by a zone properly above it. -/
inductive Linked (current : RRSIG → Prop) : Name → List DNSKEY → Prop where
  | root {keys : List DNSKEY} (key : DNSKEY) (owned : ∀ other ∈ keys, other.owner = [])
      (trusted : key ∈ matchAnchors lib keys rootAnchors)
      (made : SignedBy lib signed current key (keys.map .dnskey)) : Linked current [] keys
  | delegated {zone parent : Name} {keys parentKeys : List DNSKEY} (key dsKey : DNSKEY)
      (dsSet : List DS) (owned : ∀ other ∈ keys, other.owner = zone)
      (trusted : key ∈ matchDS lib keys dsSet)
      (made : SignedBy lib signed current key (keys.map .dnskey))
      (delegates : ∀ record ∈ dsSet, record.owner = zone)
      (above : parent <:+ zone) (proper : parent ≠ zone)
      (linked : Linked current parent parentKeys) (dsTrusted : dsKey ∈ parentKeys)
      (dsMade : SignedBy lib signed current dsKey (dsSet.map .ds)) : Linked current zone keys

/-- What a secure reply should mean at the time. -/
structure Secured (now : Int) (name : Name) (records : List RR) : Prop where
  owned : ∀ rr ∈ records, rr.owner = name
  chain : ∃ zone keys key, zone <:+ name ∧
    Linked lib signed (fun sig => lib.validityPeriod sig now = true) zone keys ∧ key ∈ keys ∧
    SignedBy lib signed (fun sig => lib.validityPeriod sig now = true) key records

variable {lib signed}

theorem Linked.owned {current : RRSIG → Prop} {keys : List DNSKEY}
    (linked : Linked lib signed current zone keys) (key : DNSKEY) (member : key ∈ keys) :
    key.owner = zone := by
  cases linked with
  | root _ owned => exact owned key member
  | delegated _ _ _ owned => exact owned key member

variable (lib signed)

/-- Zones that nobody else controls sign what they publish with their own keys, and
publish the digests of their children's own keys. -/
structure Faithful (controls : Name → Prop) (genuine : DNSKEY → Prop)
    (published : List RR → Prop) : Prop where
  anchors : ∀ keys, ∀ key ∈ matchAnchors lib keys rootAnchors, genuine key
  signs : ∀ key rrs, genuine key → ¬ controls key.owner → signed key rrs → published rrs
  delegates : ∀ (keys : List DNSKEY) (dsSet : List DS), published (dsSet.map .ds) →
    ∀ key ∈ matchDS lib keys dsSet, (∀ record ∈ dsSet, record.owner = key.owner) → genuine key
  keySets : ∀ keys : List DNSKEY, published (keys.map .dnskey) → ∀ key ∈ keys, genuine key

variable {lib signed}

/-- Down a chain of zones that nobody else controls, all keys are genuine. -/
theorem Faithful.keys {controls : Name → Prop} {genuine : DNSKEY → Prop}
    {published : List RR → Prop} (faithful : Faithful lib signed controls genuine published)
    {current : RRSIG → Prop} {keys : List DNSKEY} (linked : Linked lib signed current zone keys)
    (free : ∀ above, above <:+ zone → ¬ controls above) : ∀ key ∈ keys, genuine key := by
  induction linked with
  | root key owned trusted made =>
    have owner := owned key (mem_matchAnchors lib trusted)
    apply faithful.keySets
    apply faithful.signs key _ (faithful.anchors _ key trusted) _ made.1
    rw [owner]
    exact free [] List.nil_suffix
  | @delegated zone parent keys parentKeys key dsKey dsSet owned trusted made delegates above
      proper linked dsTrusted dsMade ih =>
      have parentFree := fun (other : Name) (suffix : other <:+ parent) =>
        free other (suffix.trans above)
      have dsPublished : published (dsSet.map .ds) := by
        apply faithful.signs dsKey _ (ih parentFree dsKey dsTrusted) _ dsMade.1
        rw [linked.owned dsKey dsTrusted]
        exact parentFree parent (List.suffix_refl parent)
      have owner := owned key (mem_matchAnchors lib trusted)
      have genuineKey := faithful.delegates keys dsSet dsPublished key trusted
        (fun record member => (delegates record member).trans owner.symm)
      apply faithful.keySets
      apply faithful.signs key _ genuineKey _ made.1
      rw [owner]
      exact free zone (List.suffix_refl zone)

/-- With no zone at or above the name in other hands, secured records are published. -/
theorem Secured.published {controls : Name → Prop} {genuine : DNSKEY → Prop}
    {published : List RR → Prop} (faithful : Faithful lib signed controls genuine published)
    {now : Int} {name : Name} {records : List RR} (secured : Secured lib signed now name records)
    (free : ∀ zone, zone <:+ name → ¬ controls zone) : published records := by
  obtain ⟨zone, keys, key, above, linked, member, made, _⟩ := secured.chain
  have genuineKey := faithful.keys linked (fun other suffix => free other (suffix.trans above)) key
    member
  apply faithful.signs key records genuineKey _ made
  rw [linked.owned key member]
  exact free zone above

end Trust

section Lookup

variable (query : Name → Nat → Option (List RR))

/-- The records of the type asked for are owned by the name asked for. -/
structure Addressed (name : Name) (qtype : Nat) : Prop where
  answer : ∀ answer, query name qtype = some answer →
    ∀ rr ∈ recordsOfType answer qtype, rr.owner = name
  keys : ∀ zone, zone <:+ name → ∀ answer, query zone typeDNSKEY = some answer →
    ∀ key ∈ dnskeys answer, key.owner = zone
  delegation : ∀ zone, zone <:+ name → ∀ answer, query zone typeDS = some answer →
    ∀ record ∈ dsRecords answer, record.owner = zone

/-- The signatures that keys rest on and that are current now meet `current`. -/
def RestsOn (lib : Library) (now : Int) (name : Name) (current : RRSIG → Prop) : Prop :=
  ∀ zone qtype, zone <:+ name → qtype = typeDNSKEY ∨ qtype = typeDS →
    ∀ sig ∈ signatures query zone qtype, lib.validityPeriod sig now = true → current sig

def Kept (lib : Library) (signed : DNSKEY → List RR → Prop) (current : RRSIG → Prop)
    (s : State) : Prop :=
  ∀ zone entry, s.keyCache zone = some entry → entry.secure = true →
    Linked lib signed current zone entry.keys

variable {query} {lib : Library} {signed : DNSKEY → List RR → Prop} {now : Int} {name : Name}
  {qtype : Nat} {current : RRSIG → Prop}

section Links

variable (ideal : Ideal lib signed) (rests : RestsOn query lib now name current)
include ideal rests

theorem signedBy_own (above : zone <:+ name) {answer : List RR}
    (asked : query zone typeDNSKEY = some answer) {key : DNSKEY}
    (own : SelfSigned lib now answer key) :
    SignedBy lib signed current key ((dnskeys answer).map .dnskey) := by
  obtain ⟨sig, listed, valid, verified⟩ := own
  have meets := rests zone typeDNSKEY above (.inl rfl) sig (signatures_eq asked ▸ listed) valid
  exact ⟨ideal.made sig key _ verified, sig, meets, ideal.zone sig key _ verified, verified⟩

variable (upward : Upward lib query now name qtype) (addressed : Addressed query name qtype)
include upward addressed

variable {s : State} (kept : Kept lib signed current s)
include kept

/-- What the validator trusts is a link of the chain. -/
theorem linked_of_trusted {keys : List DNSKEY} (above : zone <:+ name)
    (trusted : Trusted lib query now s.keyCache zone keys) :
    Linked lib signed current zone keys := by
  induction trusted with
  | known cached secure => exact kept _ _ cached secure
  | anchored _ asked own =>
    obtain ⟨-, key, fits, own⟩ := selfSigned_secure lib now own
    exact .root key (addressed.keys [] above _ asked) fits
      (signedBy_own ideal rests above asked own)
  | @delegated zone _ _ dsSig _ _ below asked dsAsked listed valid _ attested own ih =>
    obtain ⟨-, key, fits, own⟩ := selfSigned_secure lib now own
    obtain ⟨dsKey, dsTrusted, made⟩ := List.any_eq_true.mp attested
    have verified := (Bool.and_eq_true_iff.mp made).2
    rw [← signatures_eq dsAsked] at listed
    obtain ⟨parentAbove, proper⟩ := upward.delegation zone above below dsSig listed valid
    have meets := rests zone typeDS above (.inr rfl) dsSig listed valid
    exact .delegated key dsKey _ (addressed.keys zone above _ asked) fits
      (signedBy_own ideal rests above asked own) (addressed.delegation zone above _ dsAsked)
      parentAbove proper (ih (parentAbove.trans above)) dsTrusted
      ⟨ideal.made dsSig dsKey _ verified, dsSig, meets, ideal.zone dsSig dsKey _ verified, verified⟩

/-- A lookup keeps the cache linked; a secure reply is signed by a linked zone. -/
theorem lookup_linked {depth : Nat} {after : State} {reply : Option Reply}
    (returned : lookup lib query now depth s name qtype = some (reply, after)) :
    Kept lib signed current after ∧ ∀ good, reply = some good → good.secure = true →
      (∀ rr ∈ good.records, rr.owner = name) ∧
      ∃ sig zone keys key, lib.validityPeriod sig now = true ∧ zone <:+ name ∧
        Linked lib signed current zone keys ∧ key ∈ keys ∧
        lib.verify sig key good.records = true := by
  obtain ⟨⟨-, grown⟩, records, secures⟩ := lookup_visits upward returned
  constructor
  · intro zone entry present secure
    rcases grown.exact zone entry present with found | ⟨above, exact⟩
    · exact kept zone entry found secure
    · exact linked_of_trusted ideal rests upward addressed kept above
        ((exact entry.keys).mpr ⟨secure, rfl⟩)
  · intro good same secure
    obtain ⟨-, answer, asked, sig, listed, valid, keys, trusted, attested⟩ :=
      (secures good same).mp secure
    obtain ⟨key, member, made⟩ := List.any_eq_true.mp attested
    have above := upward.answer sig (signatures_eq asked ▸ listed) valid
    rw [same, asked] at records
    refine ⟨?_, sig, sig.signerName, keys, key, valid, above,
      linked_of_trusted ideal rests upward addressed kept above trusted, member,
      (Bool.and_eq_true_iff.mp made).2⟩
    rw [Option.some.inj records]
    exact addressed.answer answer asked

end Links

end Lookup

section Runs

/-- One call of `Lookup`, with the resolver and the time it finds. -/
structure Call where
  query : Name → Nat → Option (List RR)
  now : Int
  name : Name
  qtype : Nat

variable (lib : Library) (signed : DNSKEY → List RR → Prop)

def Call.lookup (call : Call) (s : State) : Option (Option Reply × State) :=
  Dnssec.lookup lib call.query call.now (call.name.length + 1) s call.name call.qtype

def Call.reply (call : Call) (s : State) : Option Reply := (call.lookup lib s).bind Prod.fst

def serve (s : State) (call : Call) : State :=
  match call.lookup lib s with
  | none => s
  | some (_, after) => after

def new : State := ⟨fun _ => none, []⟩

structure Call.Proper (call : Call) : Prop where
  upward : Upward lib call.query call.now call.name call.qtype
  addressed : Addressed call.query call.name call.qtype

/-- No signature that the earlier call's keys rest on has run out at the later call. -/
def Call.Lasts (earlier later : Call) : Prop :=
  RestsOn earlier.query lib earlier.now earlier.name
    fun sig => lib.validityPeriod sig later.now = true

variable {lib signed}

theorem serve_kept (ideal : Ideal lib signed) {current : RRSIG → Prop} (s : State) (call : Call)
    (kept : Kept lib signed current s)
    (proper : call.Proper lib ∧ RestsOn call.query lib call.now call.name current) :
    Kept lib signed current (serve lib s call) := by
  unfold serve
  cases returned : call.lookup lib s with
  | none => exact kept
  | some pair =>
    exact (lookup_linked ideal proper.2 proper.1.upward proper.1.addressed kept returned).1

/-- In every sequence of lookups whose answers are proper and whose signatures last,
a secure reply is secured at the time it is given, and its records are published
when no zone at or above the name is in other hands. -/
theorem secure_replies_secured (ideal : Ideal lib signed) (before : List Call) (call : Call)
    (proper : ∀ asked ∈ before ++ [call], asked.Proper lib)
    (lasts : ∀ earlier ∈ before, earlier.Lasts lib call) (reply : Reply)
    (replied : call.reply lib (run (serve lib) new before) = some reply)
    (secure : reply.secure = true) :
    Secured lib signed call.now call.name reply.records ∧
      ∀ controls genuine published, Faithful lib signed controls genuine published →
        (∀ zone, zone <:+ call.name → ¬ controls zone) → published reply.records := by
  have steps : Along (serve lib)
      (fun _ asked => asked.Proper lib ∧ RestsOn asked.query lib asked.now asked.name
        fun sig => lib.validityPeriod sig call.now = true) new before :=
    along_of_forall (fun _ asked member =>
      ⟨proper asked (List.mem_append_left [call] member), lasts asked member⟩)
  have kept : Kept lib signed (fun sig => lib.validityPeriod sig call.now = true)
      (run (serve lib) new before) :=
    run_invariant (serve_kept ideal) nofun steps
  have last := proper call (List.mem_append_right before List.mem_cons_self)
  have itself : RestsOn call.query lib call.now call.name
      fun sig => lib.validityPeriod sig call.now = true := fun _ _ _ _ _ _ valid => valid
  obtain ⟨⟨given, after⟩, returned, same⟩ := Option.bind_eq_some_iff.mp replied
  obtain ⟨owned, sig, zone, keys, key, valid, above, linked, member, verified⟩ :=
    (lookup_linked ideal itself last.upward last.addressed kept returned).2 reply same secure
  have secured : Secured lib signed call.now call.name reply.records :=
    ⟨owned, zone, keys, key, above, linked, member, ideal.made sig key _ verified, sig, valid,
      ideal.zone sig key _ verified, verified⟩
  exact ⟨secured, fun controls genuine published faithful free => secured.published faithful free⟩

end Runs

/-! A reply that rests on a chain, and one that does not. -/

def sampleSigned (key : DNSKEY) (rrs : List RR) : Prop :=
  ∃ sig, sampleLibrary.verify sig key rrs = true

theorem sample_ideal : Ideal sampleLibrary sampleSigned where
  zone sig key rrs verified := by
    simp only [sampleLibrary, Bool.and_eq_true, decide_eq_true_eq] at verified
    exact verified.1.2
  oneSet sig key rrs verified := by
    cases rrs with
    | nil => exact ⟨[], 0, nofun⟩
    | cons rr rest =>
      refine ⟨rr.owner, rr.rrtype, fun other member => ?_⟩
      simp only [sampleLibrary, Bool.and_eq_true, List.all_eq_true, decide_eq_true_eq] at verified
      rcases List.mem_cons.mp member with same | later
      · exact ⟨by rw [same], by rw [same]⟩
      · exact verified.2 other later
  made sig key rrs verified := ⟨sig, verified⟩

def mailCall : Call := ⟨sampleResolver [ascii "org"] rootKey, 7, [ascii "org"], 15⟩

/-- Whatever name is asked for, the records are those of the zone `evil`. -/
def forgingCall : Call where
  query name qtype :=
    if qtype = typeDNSKEY ∨ qtype = typeDS then sampleResolver [ascii "evil"] rootKey name qtype
    else sampleResolver [ascii "evil"] rootKey [ascii "evil"] qtype
  now := 7
  name := [ascii "bank"]
  qtype := 52

theorem mailCall_proper (lib : Library) (now : Int) :
    Call.Proper lib { mailCall with now := now } where
  upward := sample_upward lib now
  addressed :=
    { answer := by
        intro answer asked
        cases asked
        dsimp only
        decide
      keys := by
        intro zone above answer asked key member
        cases asked
        rcases List.mem_singleton.mp member with rfl
        unfold sampleKey
        split
        case isTrue root => exact root.symm
        case isFalse => rfl
      delegation := by
        intro zone above answer asked record member
        cases asked
        rcases List.mem_singleton.mp member with rfl
        rfl }

/-! Zones that sign only what is theirs, but for `evil`, which signs anything. -/

def genuine (key : DNSKEY) : Bool :=
  key.algorithm = 8 && equalFold key.publicKey (sampleKey key.owner).publicKey

def honest : RR → Bool
  | .dnskey key => genuine key
  | .ds record => record.algorithm = 8 && record.digest = (sampleKey record.owner).publicKey
  | .rrsig _ => false
  | .other _ _ data => data = []

def honestSigned (key : DNSKEY) (rrs : List RR) : Prop :=
  key.owner = [ascii "evil"] ∨ rrs.all honest = true

def honestLibrary : Library :=
  { sampleLibrary with
    verify := fun sig key rrs =>
      sampleLibrary.verify sig key rrs && (key.owner = [ascii "evil"] || rrs.all honest) }

theorem honest_ideal : Ideal honestLibrary honestSigned where
  zone sig key rrs verified := sample_ideal.zone sig key rrs (Bool.and_eq_true_iff.mp verified).1
  oneSet sig key rrs verified :=
    sample_ideal.oneSet sig key rrs (Bool.and_eq_true_iff.mp verified).1
  made sig key rrs verified := by
    simpa [honestSigned] using (Bool.and_eq_true_iff.mp verified).2

theorem fits_genuine {key : DNSKEY} {anchor : Anchor}
    (fitting : fits honestLibrary key anchor = true) (algorithm : anchor.algorithm = 8)
    (digest : anchor.digest = (sampleKey key.owner).publicKey) :
    genuine key = true := by
  simp only [fits, honestLibrary, sampleLibrary, Bool.and_eq_true, decide_eq_true_eq] at fitting
  simp [genuine, fitting.1.2, algorithm, ← digest, fitting.2]

theorem honest_faithful : Faithful honestLibrary honestSigned (· = [ascii "evil"])
    (genuine · = true) (fun rrs => rrs.all honest = true) where
  anchors keys key trusted := by
    obtain ⟨other, -, copied⟩ := List.mem_flatMap.mp trusted
    obtain ⟨anchor, fitting, rfl⟩ := List.mem_map.mp copied
    obtain ⟨listed, fitting⟩ := List.mem_filter.mp fitting
    have tag : honestLibrary.keyTag other = anchor.keyTag := by
      simp only [fits, Bool.and_eq_true, decide_eq_true_eq] at fitting
      exact fitting.1.1
    simp only [rootAnchors, List.mem_cons, List.not_mem_nil, or_false] at listed
    simp only [honestLibrary, sampleLibrary] at tag
    split at tag
    · rename_i root
      rcases listed with rfl | rfl
      · exact fits_genuine fitting rfl (by rw [root]; rfl)
      · cases tag
    · -- only the root's key has the tag of an anchor
      rcases listed with rfl | rfl
      all_goals cases tag
  signs key rrs _ free made := made.resolve_left free
  delegates keys dsSet published key trusted owned := by
    obtain ⟨other, -, copied⟩ := List.mem_flatMap.mp trusted
    obtain ⟨anchor, fitting, rfl⟩ := List.mem_map.mp copied
    obtain ⟨listed, fitting⟩ := List.mem_filter.mp fitting
    obtain ⟨record, member, rfl⟩ := List.mem_map.mp listed
    have good := List.all_eq_true.mp published _ (List.mem_map_of_mem member)
    simp only [honest, Bool.and_eq_true, decide_eq_true_eq, owned record member] at good
    exact fits_genuine fitting good.1 good.2
  keySets keys published key member :=
    List.all_eq_true.mp published _ (List.mem_map_of_mem member)

/-- The same lookup some time before. -/
def earlierCall : Call := { mailCall with now := 5 }

theorem earlierCall_lasts : earlierCall.Lasts honestLibrary mailCall := by
  rintro zone qtype - (rfl | rfl) sig listed -
  all_goals
    have only : sig ∈ rrsigsFor _ _ := listed
    simp only [rrsigsFor, sampleSig, List.filterMap_cons, List.filterMap_nil, if_true,
      List.mem_singleton] at only
    rw [only]
    rfl

/-- The keys of the earlier lookup are remembered, and the records are published. -/
theorem secure_replies_secured_mail :
    (run (serve honestLibrary) new [earlierCall]).keyCache [ascii "org"] ≠ none ∧
    Secured honestLibrary honestSigned 7 [ascii "org"] [.other [ascii "org"] 15 []] ∧
    [RR.other [ascii "org"] 15 []].all honest = true := by
  have both := secure_replies_secured honest_ideal [earlierCall] mailCall
    (List.forall_mem_cons.mpr ⟨mailCall_proper _ 5,
      List.forall_mem_singleton.mpr (mailCall_proper _ 7)⟩)
    (List.forall_mem_singleton.mpr earlierCall_lasts) ⟨[.other [ascii "org"] 15 []], true⟩
    (by decide) rfl
  refine ⟨by decide, both.1, both.2 _ _ _ honest_faithful ?_⟩
  rintro _ above rfl
  revert above
  decide

/-- Records of one zone are reported secure for a name of another. -/
theorem foreign_records_reported_secure :
    Ideal sampleLibrary sampleSigned ∧
      forgingCall.reply sampleLibrary new = some ⟨[.other [ascii "evil"] 52 []], true⟩ ∧
      ¬ Secured sampleLibrary sampleSigned forgingCall.now forgingCall.name
        [.other [ascii "evil"] 52 []] := by
  refine ⟨sample_ideal, by decide, fun secured => ?_⟩
  have owner : [ascii "evil"] = [ascii "bank"] := secured.owned _ List.mem_cons_self
  revert owner
  decide

end Bongo.Dnssec
