import Bongo.DnssecDepth

/-!
Which lookups are bounded. Signatures are tried in their order until one is
attested, and a zone that is finished is not asked again; what can be open at once
are the chains of signers that are tried and not yet finished. A lookup keeps to its
bound just when no such chain is too long or comes back to a zone of its own.
-/

namespace Bongo.Dnssec

open ByteKeys Relation

variable (lib : Library) (query : Name → Nat → Option (List RR)) (now : Int)
  (cache : Name → Option KeyCacheEntry)

/-- A current signature is tried unless one before it is attested. -/
def Tried (rrs : List RR) (sigs before : List RRSIG) (sig : RRSIG) : Prop :=
  before ++ [sig] <+: sigs ∧ lib.validityPeriod sig now = true ∧
    ¬ Attested lib query now cache rrs before

/-- The zone publishes keys, and its parent is asked for a DS set. -/
structure Delegated (zone : Name) (dsAnswer : List RR) : Prop where
  below : zone ≠ []
  keys : ∃ answer, query zone typeDNSKEY = some answer ∧ dnskeys answer ≠ []
  asked : query zone typeDS = some dsAnswer
  records : dsRecords dsAnswer ≠ []

abbrev TriedDS (dsAnswer : List RR) : List RRSIG → RRSIG → Prop :=
  Tried lib query now cache ((dsRecords dsAnswer).map .ds) (rrsigsFor dsAnswer typeDS)

def Follows (zone next : Name) : Prop :=
  cache zone = none ∧ ∃ dsAnswer before sig, Delegated query zone dsAnswer ∧
    TriedDS lib query now cache dsAnswer before sig ∧ sig.signerName = next

/-- A current one of the signatures leads to the zone. -/
def Met (sigs : List RRSIG) (zone : Name) : Prop :=
  ∃ sig ∈ sigs, lib.validityPeriod sig now = true ∧
    ReflTransGen (Follows lib query now cache) sig.signerName zone

/-- The zones that can be open at once, the latest first, and what is finished when the
latest is called: what was remembered, and what earlier signatures led to. -/
inductive Opened (name : Name) (qtype : Nat) : (Name → Prop) → List Name → Prop where
  | answer {answer : List RR} {before : List RRSIG} {sig : RRSIG}
      (asked : query name qtype = some answer) (records : recordsOfType answer qtype ≠ [])
      (tried : Tried lib query now cache (recordsOfType answer qtype) (rrsigsFor answer qtype)
        before sig) :
      Opened name qtype (fun zone => cache zone ≠ none ∨ Met lib query now cache before zone)
        [sig.signerName]
  | down {finished : Name → Prop} {zone : Name} {path : List Name} {dsAnswer : List RR}
      {before : List RRSIG} {sig : RRSIG} (opened : Opened name qtype finished (zone :: path))
      (unfinished : ¬ finished zone) (delegated : Delegated query zone dsAnswer)
      (tried : TriedDS lib query now cache dsAnswer before sig) :
      Opened name qtype (fun other => finished other ∨ Met lib query now cache before other)
        (sig.signerName :: zone :: path)

/-- No chain has more than `limit` zones, and none comes back to an open zone. -/
def Shallow (name : Name) (qtype limit : Nat) : Prop :=
  ∀ finished zone path, Opened lib query now cache name qtype finished (zone :: path) →
    path.length < limit ∧ (zone ∈ path → finished zone)

variable {lib query now cache}

theorem Opened.asked {name : Name} {qtype : Nat} {finished : Name → Prop} {chain : List Name}
    (opened : Opened lib query now cache name qtype finished chain) :
    ∃ answer, query name qtype = some answer ∧ recordsOfType answer qtype ≠ [] ∧
      rrsigsFor answer qtype ≠ [] := by
  induction opened with
  | answer asked records tried =>
    refine ⟨_, asked, records, fun unsigned => ?_⟩
    simpa [unsigned] using tried.1
  | down _ _ _ _ ih => exact ih

theorem tried_cons {rrs : List RR} {sig other : RRSIG} {rest before : List RRSIG} :
    Tried lib query now cache rrs (sig :: rest) before other ↔
      before = [] ∧ other = sig ∧ lib.validityPeriod sig now = true ∨
      ∃ later, before = sig :: later ∧ ¬ Attested lib query now cache rrs [sig] ∧
        Tried lib query now cache rrs rest later other := by
  cases before with
  | nil =>
    simp only [Tried, List.nil_append, List.cons_prefix_cons, List.nil_prefix, and_true,
      true_and, reduceCtorEq, false_and, exists_false, or_false]
    constructor
    · rintro ⟨rfl, current, -⟩
      exact ⟨rfl, current⟩
    · rintro ⟨rfl, current⟩
      exact ⟨rfl, current, by simp [Attested]⟩
  | cons first later =>
    simp only [Tried, List.cons_append, List.cons_prefix_cons, reduceCtorEq, false_and, false_or,
      List.cons.injEq]
    constructor
    · rintro ⟨⟨rfl, inside⟩, current, unattested⟩
      refine ⟨later, ⟨rfl, rfl⟩, fun own => unattested ?_, inside, current, fun one =>
        unattested ?_⟩
      · obtain ⟨found, member, rest⟩ := own
        exact ⟨found, List.mem_cons.mpr (.inl (List.mem_singleton.mp member)), rest⟩
      · obtain ⟨found, member, rest⟩ := one
        exact ⟨found, List.mem_cons_of_mem _ member, rest⟩
    · rintro ⟨_, ⟨rfl, rfl⟩, own, inside, current, unattested⟩
      refine ⟨⟨rfl, inside⟩, current, ?_⟩
      rintro ⟨found, member, rest⟩
      rcases List.mem_cons.mp member with rfl | later
      · exact own ⟨found, List.mem_singleton_self _, rest⟩
      · exact unattested ⟨found, later, rest⟩

theorem met_cons {sig : RRSIG} {rest : List RRSIG} {zone : Name} :
    Met lib query now cache (sig :: rest) zone ↔
      lib.validityPeriod sig now = true ∧
        ReflTransGen (Follows lib query now cache) sig.signerName zone ∨
      Met lib query now cache rest zone :=
  List.exists_mem_cons_iff ..

/-- The state knows what the cache knew and what follows from what it knows, rightly. -/
structure Sane (lib : Library) (query : Name → Nat → Option (List RR)) (now : Int)
    (cache : Name → Option KeyCacheEntry) (s : State) : Prop where
  known : ∀ zone, s.keyCache zone = none → cache zone = none
  exact : ∀ zone entry, s.keyCache zone = some entry → Exact lib query now cache zone entry
  closed : ∀ zone next, s.keyCache zone ≠ none → Follows lib query now cache zone next →
    s.keyCache next ≠ none

theorem sane_start (log : List Name) : Sane lib query now cache ⟨cache, log⟩ where
  known _ := id
  exact _ _ := exact_known lib query now
  closed _ _ present follows := absurd follows.1 present

theorem Sane.reach {s : State} (sane : Sane lib query now cache s) {zone last : Name}
    (present : s.keyCache zone ≠ none)
    (leads : ReflTransGen (Follows lib query now cache) zone last) : s.keyCache last ≠ none := by
  induction leads with
  | refl => exact present
  | tail _ follows ih => exact sane.closed _ _ ih follows

variable {keysOf deeper : State → Name → Option (KeyCacheEntry × State)} {s after : State}

/-- The calls below: a zone is finished with all that it leads to, and with the keys it is
trusted for. -/
def Finishing (lib : Library) (query : Name → Nat → Option (List RR)) (now : Int)
    (cache : Name → Option KeyCacheEntry)
    (keysOf : State → Name → Option (KeyCacheEntry × State)) : Prop :=
  ∀ s zone entry after, Sane lib query now cache s → keysOf s zone = some (entry, after) →
    (Sane lib query now cache after ∧ Exact lib query now cache zone entry) ∧
    s.resolved <:+ after.resolved ∧ ∀ other, after.keyCache other ≠ none ↔
      s.keyCache other ≠ none ∨ ReflTransGen (Follows lib query now cache) zone other

section Signatures

variable (rrs : List RR) (sigs : List RRSIG)

/-- A signature whose signer returns ends the search, or the search goes on. -/
theorem validateAny_called {sig : RRSIG} {entry : KeyCacheEntry} {mid : State}
    (current : lib.validityPeriod sig now = true)
    (call : keysOf s sig.signerName = some (entry, mid))
    (exact : Exact lib query now cache sig.signerName entry) :
    Attested lib query now cache rrs [sig] ∧
        validateAny lib now keysOf rrs (sig :: sigs) s = some (true, mid) ∨
      ¬ Attested lib query now cache rrs [sig] ∧
        validateAny lib now keysOf rrs (sig :: sigs) s =
          validateAny lib now keysOf rrs sigs mid := by
  have own : Attested lib query now cache rrs [sig] ↔
      (entry.secure && signedByAny lib entry.keys sig rrs) = true := by
    simp [Attested, current, exact _, and_assoc]
  rw [own]
  simp only [validateAny, validateRRSet, current, call]
  cases entry.secure && signedByAny lib entry.keys sig rrs with
  | false => exact .inr ⟨Bool.false_ne_true, rfl⟩
  | true => exact .inl ⟨rfl, rfl⟩

theorem not_attested_lapsed {sig : RRSIG} (lapsed : ¬ lib.validityPeriod sig now = true) :
    ¬ Attested lib query now cache rrs [sig] := by
  simp [Attested, lapsed]

theorem validateAny_lapsed {sig : RRSIG} (lapsed : ¬ lib.validityPeriod sig now = true) :
    validateAny lib now keysOf rrs (sig :: sigs) s = validateAny lib now keysOf rrs sigs s := by
  simp [lapsed, validateAny, validateRRSet]

variable {rrs sigs} (finishing : Finishing lib query now cache keysOf)
include finishing

/-- A search that returned has finished what the tried signatures lead to, and had called
each of their signers once those before were finished. -/
theorem validateAny_tried {found : Bool} (sane : Sane lib query now cache s)
    (result : validateAny lib now keysOf rrs sigs s = some (found, after)) :
    s.resolved <:+ after.resolved ∧
    (∀ zone, after.keyCache zone ≠ none ↔ s.keyCache zone ≠ none ∨
      ∃ before sig, Tried lib query now cache rrs sigs before sig ∧
        ReflTransGen (Follows lib query now cache) sig.signerName zone) ∧
    ∀ before sig, Tried lib query now cache rrs sigs before sig → ∃ mid entry later,
      Sane lib query now cache mid ∧ s.resolved <:+ mid.resolved ∧
      (∀ zone, mid.keyCache zone ≠ none ↔
        s.keyCache zone ≠ none ∨ Met lib query now cache before zone) ∧
      keysOf mid sig.signerName = some (entry, later) ∧ later.resolved <:+ after.resolved := by
  induction sigs generalizing s with
  | nil =>
    cases result
    simp [Tried]
  | cons sig rest ih =>
    by_cases current : lib.validityPeriod sig now = true
    · cases call : keysOf s sig.signerName with
      | none => simp [validateAny, validateRRSet, current, call] at result
      | some pair =>
        obtain ⟨entry, mid⟩ := pair
        obtain ⟨⟨saneMid, exact⟩, logged, knows⟩ := finishing s _ entry mid sane call
        rcases validateAny_called rrs rest current call exact with
          ⟨attested, ends⟩ | ⟨unattested, goesOn⟩
        · -- the first signature is attested, and no other is tried
          cases ends.symm.trans result
          refine ⟨logged, fun zone => ?_, ?_⟩
          · simp [knows, tried_cons, attested, current]
          · intro before other tried
            rcases tried_cons.mp tried with ⟨rfl, rfl, -⟩ | ⟨_, -, un, -⟩
            · exact ⟨s, entry, after, sane, List.suffix_rfl, by simp [Met], call,
                List.suffix_rfl⟩
            · exact absurd attested un
        · -- the search goes on from what the first signer has finished
          rw [goesOn] at result
          obtain ⟨further, known, calls⟩ := ih saneMid result
          refine ⟨logged.trans further, fun zone => ?_, ?_⟩
          · rw [known, knows]
            constructor
            · rintro ((held | own) | ⟨before, other, tried, leads⟩)
              · exact .inl held
              · exact .inr ⟨[], sig, tried_cons.mpr (.inl ⟨rfl, rfl, current⟩), own⟩
              · exact .inr ⟨sig :: before, other,
                  tried_cons.mpr (.inr ⟨before, rfl, unattested, tried⟩), leads⟩
            · rintro (held | ⟨before, other, tried, leads⟩)
              · exact .inl (.inl held)
              · rcases tried_cons.mp tried with ⟨-, rfl, -⟩ | ⟨later, -, -, tried⟩
                · exact .inl (.inr leads)
                · exact .inr ⟨later, other, tried, leads⟩
          · intro before other tried
            rcases tried_cons.mp tried with ⟨rfl, rfl, -⟩ | ⟨later, rfl, -, tried⟩
            · exact ⟨s, entry, mid, sane, List.suffix_rfl, by simp [Met], call, further⟩
            · obtain ⟨state, found, last, saneState, grown, met, called, logs⟩ :=
                calls later other tried
              refine ⟨state, found, last, saneState, logged.trans grown, fun zone => ?_, called,
                logs⟩
              rw [met, knows, met_cons, or_assoc]
              simp [current]
    · -- a lapsed signature is passed over
      have unattested : ¬ Attested lib query now cache rrs [sig] := not_attested_lapsed rrs current
      rw [validateAny_lapsed rrs rest current] at result
      obtain ⟨further, known, calls⟩ := ih sane result
      have shift (before : List RRSIG) (other : RRSIG) :
          Tried lib query now cache rrs (sig :: rest) before other ↔
            ∃ later, before = sig :: later ∧ Tried lib query now cache rrs rest later other := by
        simp [tried_cons, current, unattested]
      refine ⟨further, fun zone => ?_, ?_⟩
      · rw [known]
        refine or_congr Iff.rfl ⟨?_, ?_⟩
        · rintro ⟨before, other, tried, leads⟩
          exact ⟨sig :: before, other, (shift _ other).mpr ⟨before, rfl, tried⟩, leads⟩
        · rintro ⟨before, other, shifted, leads⟩
          obtain ⟨later, rfl, tried⟩ := (shift before other).mp shifted
          exact ⟨later, other, tried, leads⟩
      · intro before other shifted
        obtain ⟨later, rfl, tried⟩ := (shift before other).mp shifted
        simpa [met_cons, current] using calls later other tried

/-- The visits of a call that spare the open zones. -/
def Visits (path : List Name) (s after : State) : Prop :=
  ∃ zones, Visited zones s after ∧ ∀ zone ∈ zones, zone ∉ path

/-- The search returns when each tried signer, called once those before are finished, does. -/
theorem validateAny_visits {path : List Name} (sane : Sane lib query now cache s)
    (calls : ∀ before sig, Tried lib query now cache rrs sigs before sig → ∀ mid,
      Sane lib query now cache mid →
      (∀ zone, mid.keyCache zone ≠ none ↔
        s.keyCache zone ≠ none ∨ Met lib query now cache before zone) →
      ∃ entry later, keysOf mid sig.signerName = some (entry, later) ∧ Visits path mid later) :
    ∃ found after, validateAny lib now keysOf rrs sigs s = some (found, after) ∧
      Visits path s after := by
  induction sigs generalizing s with
  | nil => exact ⟨false, s, rfl, [], Visited.refl s, List.forall_mem_nil _⟩
  | cons sig rest ih =>
    by_cases current : lib.validityPeriod sig now = true
    · obtain ⟨entry, mid, call, zones, visited, spared⟩ := calls [] sig
        (tried_cons.mpr (.inl ⟨rfl, rfl, current⟩)) s sane (by simp [Met])
      obtain ⟨⟨saneMid, exact⟩, -, knows⟩ := finishing s _ entry mid sane call
      rcases validateAny_called rrs rest current call exact with
        ⟨-, ends⟩ | ⟨unattested, goesOn⟩
      · exact ⟨true, mid, ends, zones, visited, spared⟩
      · obtain ⟨found, after, result, more, visitedMore, sparedMore⟩ := ih saneMid
          fun before other tried state saneState met => calls (sig :: before) other
            (tried_cons.mpr (.inr ⟨before, rfl, unattested, tried⟩)) state saneState fun zone => by
              rw [met, knows, met_cons, or_assoc]
              simp [current]
        exact ⟨found, after, goesOn.trans result, more ++ zones, visited.trans visitedMore,
          List.forall_mem_append.mpr ⟨sparedMore, spared⟩⟩
    · have unattested : ¬ Attested lib query now cache rrs [sig] := not_attested_lapsed rrs current
      rw [validateAny_lapsed rrs rest current]
      exact ih sane fun before other tried state saneState met => calls (sig :: before) other
        (tried_cons.mpr (.inr ⟨before, rfl, unattested, tried⟩)) state saneState fun zone => by
          rw [met, met_cons]
          simp [current]

omit finishing in
theorem validateAny_deeper
    (goesOn : ∀ s zone result, keysOf s zone = some result → deeper s zone = some result)
    {result : Bool × State} (found : validateAny lib now keysOf rrs sigs s = some result) :
    validateAny lib now deeper rrs sigs s = some result := by
  induction sigs generalizing s with
  | nil => exact found
  | cons sig rest ih =>
    simp only [validateAny, validateRRSet] at found ⊢
    by_cases current : lib.validityPeriod sig now = true
    · cases call : keysOf s sig.signerName with
      | none => simp [current, call] at found
      | some pair =>
        simp only [current, call, goesOn s _ pair call] at found ⊢
        cases good : pair.1.secure && signedByAny lib pair.1.keys sig rrs with
        | false =>
          simp only [good] at found ⊢
          exact ih found
        | true =>
          simp only [good] at found ⊢
          exact found
    · simp only [current] at found ⊢
      exact ih found

end Signatures

section Zones

variable {zone : Name}

/-- Without a delegation nothing is asked for; with one, the DS set's signatures are tried. -/
theorem resolveKeys_cases (lib : Library) (query : Name → Nat → Option (List RR)) (now : Int)
    (zone : Name) :
    (∀ dsAnswer, ¬ Delegated query zone dsAnswer) ∧ (∃ entry, ∀ keysOf s,
        resolveKeys lib query now keysOf s zone = some (entry, s.enter zone)) ∨
      ∃ dsAnswer, Delegated query zone dsAnswer ∧ ∃ entryOf : Bool → KeyCacheEntry, ∀ keysOf s,
        resolveKeys lib query now keysOf s zone =
          (validateAny lib now keysOf ((dsRecords dsAnswer).map .ds) (rrsigsFor dsAnswer typeDS)
            (s.enter zone)).map fun pair => (entryOf pair.1, pair.2) := by
  cases keyQuery : query zone typeDNSKEY with
  | none =>
    refine .inl ⟨fun _ delegated => ?_, .insecure, fun _ _ => by simp only [resolveKeys, keyQuery]⟩
    obtain ⟨_, asked, -⟩ := delegated.keys
    cases keyQuery.symm.trans asked
  | some answer =>
    by_cases empty : dnskeys answer = []
    · refine .inl ⟨fun _ delegated => ?_, .insecure, fun _ _ => by
        simp only [resolveKeys, keyQuery, if_pos empty]⟩
      obtain ⟨_, asked, some⟩ := delegated.keys
      cases keyQuery.symm.trans asked
      exact some empty
    by_cases root : zone = []
    · exact .inl ⟨fun _ delegated => delegated.below root,
        selfSigned lib now answer (matchAnchors lib (dnskeys answer) rootAnchors), fun _ _ => by
          simp only [resolveKeys, keyQuery, if_neg empty, if_pos root]⟩
    cases dsQuery : query zone typeDS with
    | none =>
      refine .inl ⟨fun _ delegated => ?_, .insecure, fun _ _ => by
        simp only [resolveKeys, keyQuery, if_neg empty, if_neg root, validatedDS, dsQuery]⟩
      cases dsQuery.symm.trans delegated.asked
    | some dsAnswer =>
      by_cases noDS : dsRecords dsAnswer = []
      · refine .inl ⟨fun _ delegated => ?_, .insecure, fun _ _ => by
          simp only [resolveKeys, keyQuery, if_neg empty, if_neg root, validatedDS, dsQuery,
            if_pos noDS]⟩
        cases dsQuery.symm.trans delegated.asked
        exact delegated.records noDS
      · refine .inr ⟨dsAnswer, ⟨root, ⟨answer, keyQuery, empty⟩, dsQuery, noDS⟩, fun secure =>
          if secure then selfSigned lib now answer
            (matchDS lib (dnskeys answer) (dsRecords dsAnswer)) else .insecure, fun keysOf s => ?_⟩
        simp only [resolveKeys, keyQuery, if_neg empty, if_neg root, validatedDS, dsQuery,
          if_neg noDS]
        cases validateAny lib now keysOf ((dsRecords dsAnswer).map .ds)
            (rrsigsFor dsAnswer typeDS) (s.enter zone) with
        | none => rfl
        | some pair =>
          obtain ⟨found, mid⟩ := pair
          cases found with
          | false | true => rfl

theorem Sane.enter (sane : Sane lib query now cache s) (zone : Name) :
    Sane lib query now cache (s.enter zone) := ⟨sane.known, sane.exact, sane.closed⟩

/-- A zone that was resolved has finished all that it leads to but itself. -/
theorem resolveKeys_knows (finishing : Finishing lib query now cache keysOf)
    (sane : Sane lib query now cache s) (unknown : cache zone = none) {entry : KeyCacheEntry}
    (resolved : resolveKeys lib query now keysOf s zone = some (entry, after)) :
    zone :: s.resolved <:+ after.resolved ∧ ∀ other, after.keyCache other ≠ none ↔
      s.keyCache other ≠ none ∨ ∃ next, Follows lib query now cache zone next ∧
        ReflTransGen (Follows lib query now cache) next other := by
  rcases resolveKeys_cases lib query now zone with
    ⟨alone, found, quiet⟩ | ⟨dsAnswer, delegated, entryOf, tries⟩
  · cases (quiet keysOf s).symm.trans resolved
    refine ⟨List.suffix_rfl, fun other => (or_iff_left ?_).symm⟩
    rintro ⟨_, ⟨-, dsAnswer, _, _, delegated, -⟩, -⟩
    exact alone dsAnswer delegated
  · rw [tries, Option.map_eq_some_iff] at resolved
    obtain ⟨⟨found, mid⟩, searched, same⟩ := resolved
    cases same
    obtain ⟨logged, known, -⟩ := validateAny_tried finishing (sane.enter zone) searched
    refine ⟨logged, fun other => (known other).trans (or_congr Iff.rfl ?_)⟩
    constructor
    · rintro ⟨before, sig, tried, leads⟩
      exact ⟨_, ⟨unknown, dsAnswer, before, sig, delegated, tried, rfl⟩, leads⟩
    · rintro ⟨_, ⟨-, again, before, sig, also, tried, rfl⟩, leads⟩
      cases delegated.asked.symm.trans also.asked
      exact ⟨before, sig, tried, leads⟩

theorem validatedKeys_finishing (depth : Nat) :
    Finishing lib query now cache (validatedKeys lib query now depth) := by
  induction depth with
  | zero => exact fun _ _ _ _ _ returned => by cases returned
  | succ depth ih =>
    intro s zone entry after sane returned
    rcases validatedKeys_succ lib query now returned with
      ⟨cached, rfl⟩ | ⟨fresh, inner, resolved, rfl⟩
    · refine ⟨⟨sane, sane.exact zone entry cached⟩, List.suffix_rfl, fun other => ?_⟩
      exact (or_iff_left_of_imp (sane.reach (by simp [cached]))).symm
    have unknown := sane.known zone fresh
    obtain ⟨saneInner, exact⟩ := resolveKeys_spec lib query now _ unknown
      (fun _ sig _ _ s entry after sane call => (ih s _ entry after sane call).1)
      (sane.enter zone) resolved
    obtain ⟨logged, knows⟩ := resolveKeys_knows ih sane unknown resolved
    have stored (other : Name) : (inner.store zone entry).keyCache other ≠ none ↔
        other = zone ∨ inner.keyCache other ≠ none := by
      by_cases same : other = zone
      · simp [State.store, same]
      · simp [State.store, same]
    refine ⟨⟨⟨?_, ?_, ?_⟩, exact⟩, (List.suffix_cons zone _).trans logged, fun other => ?_⟩
    · intro other absent
      have neither := not_or.mp (mt (stored other).mpr (not_not_intro absent))
      exact saneInner.known other (not_not.mp neither.2)
    · intro other found present
      rcases eq_or_ne other zone with rfl | different
      · simp only [State.store, if_true, Option.some.injEq] at present
        exact present ▸ exact
      · simp only [State.store, if_neg different] at present
        exact saneInner.exact other found present
    · intro other next present follows
      rw [stored] at present ⊢
      rcases present with rfl | present
      · exact .inr ((knows next).mpr (.inr ⟨next, follows, .refl⟩))
      · exact .inr (saneInner.closed other next present follows)
    · rw [stored, knows, ReflTransGen.cases_head_iff, eq_comm, or_left_comm]

theorem validatedKeys_deeper {depth more : Nat} (fewer : depth ≤ more)
    {result : KeyCacheEntry × State}
    (returned : validatedKeys lib query now depth s zone = some result) :
    validatedKeys lib query now more s zone = some result := by
  induction depth generalizing more s zone result with
  | zero => cases returned
  | succ depth ih =>
    obtain ⟨more, rfl⟩ : ∃ less, more = less + 1 := ⟨more - 1, by omega⟩
    simp only [validatedKeys] at returned ⊢
    cases cached : s.keyCache zone with
    | some entry =>
      simp only [cached] at returned ⊢
      exact returned
    | none =>
      have same : ∀ pair, resolveKeys lib query now (validatedKeys lib query now depth) s zone =
          some pair → resolveKeys lib query now (validatedKeys lib query now more) s zone =
          some pair := by
        intro pair resolved
        rcases resolveKeys_cases lib query now zone with
          ⟨-, _, quiet⟩ | ⟨dsAnswer, -, entryOf, tries⟩
        · rw [quiet] at resolved ⊢
          exact resolved
        · rw [tries, Option.map_eq_some_iff] at resolved ⊢
          obtain ⟨found, searched, equal⟩ := resolved
          exact ⟨found, validateAny_deeper (fun s zone result => ih (by omega)) searched, equal⟩
      cases resolved : resolveKeys lib query now (validatedKeys lib query now depth) s zone with
      | none => simp only [cached, resolved, reduceCtorEq] at returned
      | some pair =>
        simp only [cached, resolved, same pair resolved] at returned ⊢
        exact returned

end Zones

section Chains

variable {name : Name} {qtype limit : Nat} {finished : Name → Prop} {zone : Name}
  {path : List Name}

/-- The state in which a zone of a chain is called. -/
structure CallState (lib : Library) (query : Name → Nat → Option (List RR)) (now : Int)
    (cache : Name → Option KeyCacheEntry) (finished : Name → Prop) (s : State) : Prop where
  sane : Sane lib query now cache s
  cached : ∀ zone, s.keyCache zone ≠ none ↔ finished zone

theorem CallState.fresh (call : CallState lib query now cache finished s)
    (unfinished : ¬ finished zone) : s.keyCache zone = none :=
  not_not.mp (mt (call.cached zone).mp unfinished)

/-- A call for a zone that is not known resolves it. -/
theorem validatedKeys_fresh {depth : Nat} {entry : KeyCacheEntry}
    (fresh : s.keyCache zone = none)
    (returned : validatedKeys lib query now depth s zone = some (entry, after)) :
    ∃ less inner, depth = less + 1 ∧
      resolveKeys lib query now (validatedKeys lib query now less) s zone = some (entry, inner) ∧
      after = inner.store zone entry := by
  cases depth with
  | zero => cases returned
  | succ less =>
    rcases validatedKeys_succ lib query now returned with ⟨known, -⟩ | ⟨-, inner, resolved, stored⟩
    · cases fresh.symm.trans known
    · exact ⟨less, inner, rfl, resolved, stored⟩

/-- Every zone of a chain is called while the ones before it are open. -/
theorem opened_called {answer : List RR} {found : Bool}
    (asked : query name qtype = some answer)
    (searched : validateAny lib now (validatedKeys lib query now limit)
      (recordsOfType answer qtype) (rrsigsFor answer qtype) ⟨cache, []⟩ = some (found, after))
    {chain : List Name} (opened : Opened lib query now cache name qtype finished chain) :
    ∀ zone path, chain = zone :: path → ∃ s entry later,
      CallState lib query now cache finished s ∧ path ⊆ s.resolved ∧
      validatedKeys lib query now (limit - path.length) s zone = some (entry, later) ∧
      later.resolved <:+ after.resolved := by
  induction opened with
  | answer askedToo records tried =>
    rintro zone path ⟨⟩
    cases asked.symm.trans askedToo
    obtain ⟨-, -, calls⟩ :=
      validateAny_tried (validatedKeys_finishing limit) (sane_start []) searched
    obtain ⟨mid, entry, later, sane, -, met, called, logs⟩ := calls _ _ tried
    exact ⟨mid, entry, later, ⟨sane, met⟩, List.nil_subset _, called, logs⟩
  | @down finished zone path dsAnswer before sig _ unfinished delegated tried ih =>
    rintro _ _ ⟨⟩
    obtain ⟨s, entry, last, call, open_, called, logs⟩ := ih zone path rfl
    -- the zone is not finished, so its call searches the signatures of its DS set
    obtain ⟨depth, inner, less, resolved, rfl⟩ :=
      validatedKeys_fresh (call.fresh unfinished) called
    rcases resolveKeys_cases lib query now zone with
      ⟨alone, -⟩ | ⟨again, also, entryOf, tries⟩
    · exact absurd delegated (alone dsAnswer)
    cases delegated.asked.symm.trans also.asked
    rw [tries, Option.map_eq_some_iff] at resolved
    obtain ⟨⟨secure, mid⟩, inside, same⟩ := resolved
    cases same
    obtain ⟨-, -, calls⟩ :=
      validateAny_tried (validatedKeys_finishing depth) (call.sane.enter zone) inside
    obtain ⟨state, found, later, sane, grown, met, calledNext, inLog⟩ := calls _ _ tried
    refine ⟨state, found, later, ⟨sane, fun other => ?_⟩, ?_, ?_, inLog.trans logs⟩
    · exact (met other).trans (or_congr (call.cached other) Iff.rfl)
    · exact fun other member => grown.subset
        (List.mem_cons.mpr ((List.mem_cons.mp member).imp_right fun old => open_ old))
    · rw [List.length_cons, Nat.sub_succ, less]
      exact calledNext

/-- A zone that is called again while it is open is resolved twice. -/
theorem opened_shallow {answer : List RR} {found : Bool}
    (asked : query name qtype = some answer)
    (searched : validateAny lib now (validatedKeys lib query now limit)
      (recordsOfType answer qtype) (rrsigsFor answer qtype) ⟨cache, []⟩ = some (found, after))
    (once : after.resolved.Nodup) : Shallow lib query now cache name qtype limit := by
  intro finished zone path opened
  obtain ⟨s, entry, later, call, inLog, called, logs⟩ :=
    opened_called asked searched opened zone path rfl
  constructor
  · -- with no depth left there is no result
    by_contra deep
    rw [Nat.sub_eq_zero_of_le (Nat.le_of_not_lt deep)] at called
    cases called
  · intro again
    by_contra unfinished
    have fresh := call.fresh unfinished
    obtain ⟨depth, inner, -, resolved, rfl⟩ := validatedKeys_fresh fresh called
    obtain ⟨entered, -⟩ := resolveKeys_knows (validatedKeys_finishing depth) call.sane
      (call.sane.known zone fresh) resolved
    have twice : (zone :: s.resolved).Nodup := once.sublist (entered.trans logs).sublist
    exact (List.nodup_cons.mp twice).1 (inLog again)

variable (shallow : Shallow lib query now cache name qtype limit)
include shallow

/-- In a chain the calls return, and resolve none of the open zones. -/
theorem opened_returns {depth : Nat} (rest : depth = limit - path.length)
    (opened : Opened lib query now cache name qtype finished (zone :: path))
    (call : CallState lib query now cache finished s) :
    ∃ entry later, validatedKeys lib query now depth s zone = some (entry, later) ∧
      Visits path s later := by
  obtain ⟨short, open_⟩ := shallow finished zone path opened
  -- on the depth that is left; a chain that goes on has one less
  induction depth generalizing s zone path finished with
  | zero => omega
  | succ depth ih =>
    simp only [validatedKeys]
    cases cached : s.keyCache zone with
    | some entry => exact ⟨entry, s, rfl, [], Visited.refl s, List.forall_mem_nil _⟩
    | none =>
      have unfinished : ¬ finished zone := mt (call.cached zone).mpr (not_not_intro cached)
      have outside : zone ∉ path := mt open_ unfinished
      -- it is enough that the search below the zone spares the zone and the path
      have store {entry : KeyCacheEntry} {mid : State}
          (inner : Visits (zone :: path) (s.enter zone) mid) :
          Visits path s (mid.store zone entry) := by
        obtain ⟨zones, visited, spared⟩ := inner
        refine ⟨zones ++ [zone], visited.store entry cached fun member =>
          spared zone member List.mem_cons_self, ?_⟩
        exact List.forall_mem_append.mpr
          ⟨fun other member inPath => spared other member (List.mem_cons_of_mem _ inPath),
            List.forall_mem_singleton.mpr outside⟩
      rcases resolveKeys_cases lib query now zone with
        ⟨-, entry, quiet⟩ | ⟨dsAnswer, delegated, entryOf, tries⟩
      · simp only [quiet]
        exact ⟨entry, _, rfl, store ⟨[], Visited.refl _, List.forall_mem_nil _⟩⟩
      obtain ⟨found, mid, searched, visits⟩ := validateAny_visits
        (validatedKeys_finishing depth) (call.sane.enter zone)
        fun before sig tried state sane met => by
          have further := Opened.down opened unfinished delegated tried
          have bounds := shallow _ _ _ further
          refine ih (by rw [List.length_cons]; omega) further
            ⟨sane, fun other => (met other).trans (or_congr (call.cached other) Iff.rfl)⟩
            bounds.1 bounds.2
      simp only [tries, searched, Option.map_some]
      exact ⟨_, _, rfl, store visits⟩

omit shallow in
theorem lookup_deeper {more : Nat} (fewer : limit ≤ more) {result : Option Reply × State}
    (returned : lookup lib query now limit s name qtype = some result) :
    lookup lib query now more s name qtype = some result := by
  unfold lookup at returned ⊢
  cases asked : query name qtype with
  | none =>
    simp only [asked] at returned ⊢
    exact returned
  | some answer =>
    simp only [asked] at returned ⊢
    split_ifs at returned ⊢ with nothing
    · exact returned
    · cases searched : validateAny lib now (validatedKeys lib query now limit)
          (recordsOfType answer qtype) (rrsigsFor answer qtype) s with
      | none => simp only [searched, reduceCtorEq] at returned
      | some pair =>
        rw [validateAny_deeper (fun _ _ _ => validatedKeys_deeper fewer) searched]
        simpa only [searched] using returned

theorem lookup_of_shallow (log : List Name) :
    ∃ reply after zones, Visited zones ⟨cache, log⟩ after ∧ ∀ depth, limit ≤ depth →
      lookup lib query now depth ⟨cache, log⟩ name qtype = some (reply, after) := by
  suffices returns : ∃ reply after zones, Visited zones ⟨cache, log⟩ after ∧
      lookup lib query now limit ⟨cache, log⟩ name qtype = some (reply, after) by
    obtain ⟨reply, after, zones, visited, returned⟩ := returns
    exact ⟨reply, after, zones, visited, fun depth enough => lookup_deeper enough returned⟩
  unfold lookup
  cases asked : query name qtype with
  | none => exact ⟨none, _, [], Visited.refl _, rfl⟩
  | some answer =>
    simp only
    split_ifs with nothing
    · exact ⟨_, _, [], Visited.refl _, rfl⟩
    obtain ⟨found, after, searched, zones, visited, -⟩ := validateAny_visits
      (validatedKeys_finishing limit) (sane_start log) fun before sig tried mid sane met =>
        opened_returns shallow rfl (.answer asked (not_or.mp nothing).1 tried) ⟨sane, met⟩
    exact ⟨some ⟨recordsOfType answer qtype, found⟩, after, zones, visited, by rw [searched]⟩

end Chains

theorem shallow_of_lookup {name : Name} {qtype limit : Nat} {reply : Option Reply}
    (once : after.resolved.Nodup)
    (returned : lookup lib query now limit ⟨cache, []⟩ name qtype = some (reply, after)) :
    Shallow lib query now cache name qtype limit := by
  unfold lookup at returned
  cases asked : query name qtype with
  | none =>
    intro finished zone path opened
    obtain ⟨answer, askedToo, -⟩ := opened.asked
    cases asked.symm.trans askedToo
  | some answer =>
    simp only [asked] at returned
    split_ifs at returned with nothing
    · intro finished zone path opened
      obtain ⟨again, askedToo, records, sigs⟩ := opened.asked
      cases asked.symm.trans askedToo
      exact (nothing.elim records sigs).elim
    · cases searched : validateAny lib now (validatedKeys lib query now limit)
          (recordsOfType answer qtype) (rrsigsFor answer qtype) ⟨cache, []⟩ with
      | none => simp only [searched, reduceCtorEq] at returned
      | some pair =>
        simp only [searched] at returned
        cases returned
        exact opened_shallow asked searched once

/-- With signers above the zones they sign for, a chain goes up label by label. -/
theorem opened_upward {name : Name} {qtype : Nat} (upward : Upward lib query now name qtype)
    {finished : Name → Prop} {chain : List Name}
    (opened : Opened lib query now cache name qtype finished chain) :
    ∀ zone path, chain = zone :: path → zone <:+ name ∧ zone.length + path.length ≤ name.length ∧
      ∀ other ∈ path, zone.length < other.length := by
  induction opened with
  | answer asked records tried =>
    rintro zone path ⟨⟩
    have above := upward.answer _ (signatures_eq asked ▸ tried.1.subset (by simp)) tried.2.1
    exact ⟨above, above.length_le, List.forall_mem_nil _⟩
  | @down _ zone path _ _ sig _ unfinished delegated tried ih =>
    rintro _ _ ⟨⟩
    obtain ⟨above, short, longer⟩ := ih zone path rfl
    obtain ⟨suffix, less⟩ := upward.shorter above delegated.below
      (signatures_eq delegated.asked ▸ tried.1.subset (by simp)) tried.2.1
    refine ⟨suffix, by rw [List.length_cons]; omega, List.forall_mem_cons.mpr ⟨less, ?_⟩⟩
    exact fun other member => less.trans (longer other member)

theorem shallow_of_upward {name : Name} {qtype : Nat} (upward : Upward lib query now name qtype) :
    Shallow lib query now cache name qtype (name.length + 1) := by
  intro finished zone path opened
  obtain ⟨-, short, longer⟩ := opened_upward upward opened zone path rfl
  exact ⟨by omega, fun again => absurd (longer zone again) (Nat.lt_irrefl _)⟩

variable (lib query now)

/-- A lookup returns within one open call for each label of the name and one for the root,
no matter how much deeper it may go, and resolves no zone twice, if and only if the chains
of tried signers are shallow. They are while signers lie above the zones they sign for; when
the first current signatures lead into a ring of unknown zones, the lookup never returns. -/
theorem lookup_bounded_iff_shallow (keyCache : Name → Option KeyCacheEntry) (name : Name)
    (qtype : Nat) :
    ((∃ reply after, after.resolved.Nodup ∧ ∀ depth, name.length + 1 ≤ depth →
        lookup lib query now depth ⟨keyCache, []⟩ name qtype = some (reply, after)) ↔
      Shallow lib query now keyCache name qtype (name.length + 1)) ∧
    (Upward lib query now name qtype →
      Shallow lib query now keyCache name qtype (name.length + 1)) ∧
    (∀ ring : Name → Prop, (∀ zone, ring zone → keyCache zone = none) →
      (∀ zone, ring zone → AsksInto lib query now ring zone) →
      (∃ answer sig, query name qtype = some answer ∧ recordsOfType answer qtype ≠ [] ∧
        ((rrsigsFor answer qtype).filter fun sig => lib.validityPeriod sig now).head? =
          some sig ∧ ring sig.signerName) →
      ∀ depth, lookup lib query now depth ⟨keyCache, []⟩ name qtype = none) := by
  refine ⟨⟨?_, fun shallow => ?_⟩, shallow_of_upward, ?_⟩
  · rintro ⟨reply, after, once, returned⟩
    exact shallow_of_lookup once (returned _ (Nat.le_refl _))
  · obtain ⟨reply, after, zones, visited, returned⟩ := lookup_of_shallow shallow []
    refine ⟨reply, after, ?_, returned⟩
    rw [visited.log, List.append_nil]
    exact visited.once
  · rintro ring unknown asks ⟨answer, sig, asked, records, first, inRing⟩ depth
    have stuck := validatedKeys_ring lib query now ring asks depth ⟨keyCache, []⟩ sig.signerName
      inRing unknown
    exact lookup_stuck lib query now depth _ name qtype answer sig asked records first stuck

/-- The DS set of a zone is signed by the root and then by the zone itself; the second
signature is not reached. -/
def twiceSigned (name : Name) (qtype : Nat) : Option (List RR) :=
  (sampleResolver [ascii "org"] rootKey name qtype).map fun answer =>
    if qtype = typeDS then answer ++ [sampleSig name qtype (zoneKey name)] else answer

theorem lookup_bounded_iff_shallow_twice_signed :
    Shallow sampleLibrary twiceSigned 7 (fun _ => none) [ascii "org"] 15 2 ∧
      ¬ Upward sampleLibrary twiceSigned 7 [ascii "org"] 15 := by
  refine ⟨(lookup_bounded_iff_shallow sampleLibrary twiceSigned 7 (fun _ => none) [ascii "org"]
    15).1.mp ?_, fun upward => ?_⟩
  · have once : (lookup sampleLibrary twiceSigned 7 2 ⟨fun _ => none, []⟩ [ascii "org"] 15).map
        (·.2.resolved) = some [[], [ascii "org"]] := by decide
    obtain ⟨⟨reply, after⟩, returned, zones⟩ := Option.map_eq_some_iff.mp once
    refine ⟨reply, after, ?_, fun depth enough => lookup_deeper enough returned⟩
    rw [show after.resolved = _ from zones]
    decide
  · have above := upward.delegation [ascii "org"] List.suffix_rfl (by decide)
      ⟨[ascii "org"], typeDS, 1, [ascii "org"], 0, 100, ascii "key"⟩ (by decide) (by decide)
    exact above.2 rfl

end Bongo.Dnssec
