import Bongo.Relay

/-!
The accounts of one delivery by mail hosts. A delivery that reports no error
should have handed over every recipient's copy or reported the recipient as
failed for good, never both; one that reports an error should still report
every refusal. Which behaviour of lookups and hosts makes that true is stated
here in terms of their answers alone.
-/

namespace Bongo.RelayAccounts

open ByteKeys Relay

def Taken (out : Outcome) (rcpt : Bytes) : Prop := ∃ taken ∈ out.taken, rcpt ∈ taken

structure Splits (recipients : List Bytes) (out : Outcome) : Prop where
  covers : ∀ rcpt, rcpt ∈ recipients ↔ Taken out rcpt ∨ rcpt ∈ out.permanentFails
  apart : ∀ rcpt, Taken out rcpt → rcpt ∉ out.permanentFails
  once : out.permanentFails.Nodup

structure Accounts (recipients : List Bytes) (out : Outcome) : Prop where
  splits : out.err = none → Splits recipients out
  reports : out.err ≠ none → ∀ rcpt ∈ out.refused, rcpt ∈ out.permanentFails

section Conditions

variable (cfg : Config) (lookup : Bytes → Option (List Host))

/-- There are hosts; before the one that completes nobody was refused, and those
it refuses are listed once and were not accepted before. -/
def Orderly (recipients rcpts : List Bytes) (hosts : List Host) : Prop :=
  hosts ≠ [] ∧ ∀ before host after, hosts = before ++ host :: after →
    (∀ earlier ∈ before, ¬ Completes cfg rcpts earlier) → Completes cfg rcpts host →
    (∀ earlier ∈ before, ∀ rcpt, ¬ Refuses cfg rcpts earlier rcpt) ∧
    ∀ rcpt, Refuses cfg rcpts host rcpt →
      recipients.count rcpt = 1 ∧ ∀ earlier ∈ before, ¬ Accepts cfg rcpts earlier rcpt

def Unrefused (rcpts : List Bytes) (hosts : List Host) : Prop :=
  ∀ trail, Trail cfg rcpts hosts trail → ∀ host ∈ trail, ∀ rcpt, ¬ Refuses cfg rcpts host rcpt

structure Clean (toLower : Bytes → Bytes) (recipients order : List Bytes) : Prop where
  lookups : ∀ before domain after, order = before ++ domain :: after → lookup domain = none →
    (∀ earlier ∈ before, ¬ DomainFails cfg lookup (byDomain toLower recipients) earlier) →
    ∀ earlier ∈ before, ∀ hosts, lookup earlier = some hosts →
      Unrefused cfg (byDomain toLower recipients earlier) hosts
  passes : (∀ domain ∈ order, ¬ DomainFails cfg lookup (byDomain toLower recipients) domain) →
    (∀ rcpt ∈ recipients, domainOf toLower rcpt ≠ none) ∧
    ∀ domain ∈ order, ∀ hosts, lookup domain = some hosts →
      Orderly cfg recipients (byDomain toLower recipients domain) hosts

end Conditions

/-- The first element with a property splits a list in one way only. -/
theorem first_unique {A : Type} {property : A → Prop} {before other after rest : List A}
    {first second : A} (same : before ++ first :: after = other ++ second :: rest)
    (none_before : ∀ earlier ∈ before, ¬ property earlier) (holds : property first)
    (none_other : ∀ earlier ∈ other, ¬ property earlier) (also : property second) :
    before = other ∧ first = second := by
  induction before generalizing other with
  | nil =>
    cases other with
    | nil =>
      cases same
      exact ⟨rfl, rfl⟩
    | cons head tail =>
      cases same
      exact absurd holds (none_other first List.mem_cons_self)
  | cons head tail ih =>
    cases other with
    | nil =>
      cases same
      exact absurd also (none_before second List.mem_cons_self)
    | cons next more =>
      injection same with heads tails
      subst heads
      have later := ih tails (fun earlier member => none_before earlier (.tail _ member))
        (fun earlier member => none_other earlier (.tail _ member))
      rw [later.1, later.2]
      exact ⟨rfl, rfl⟩

section Trails

variable {cfg : Config} {rcpts : List Bytes} {hosts : List Host}

theorem trail_cases {trail : List Host} (tried : Trail cfg rcpts hosts trail) :
    (trail = hosts ∧ ∀ host ∈ hosts, ¬ Completes cfg rcpts host) ∨
      ∃ before host after, hosts = before ++ host :: after ∧ trail = before ++ [host] ∧
        (∀ earlier ∈ before, ¬ Completes cfg rcpts earlier) ∧ Completes cfg rcpts host := by
  cases tried with
  | whole none_completes => exact .inl ⟨rfl, none_completes⟩
  | ended before none_before completes =>
    exact .inr ⟨before, _, _, rfl, rfl, none_before, completes⟩

theorem trail_unique {first second : List Host} (one : Trail cfg rcpts hosts first)
    (other : Trail cfg rcpts hosts second) : first = second := by
  rcases trail_cases one with ⟨rfl, none⟩ | ⟨before, host, after, rfl, rfl, none_before, ends⟩
  · rcases trail_cases other with ⟨rfl, -⟩ | ⟨there, last, after, rfl, -, -, ends⟩
    · rfl
    · exact absurd ends (none last (by simp))
  · rcases trail_cases other with ⟨-, none⟩ | ⟨there, last, later, same, rfl, none_there, also⟩
    · exact absurd ends (none host (by simp))
    · have both := first_unique same none_before ends none_there also
      rw [both.1, both.2]

theorem trail_subset {trail : List Host} (tried : Trail cfg rcpts hosts trail) :
    trail ⊆ hosts := by
  rcases trail_cases tried with ⟨rfl, -⟩ | ⟨before, host, after, rfl, rfl, -, -⟩
  · exact List.Subset.refl _
  · simp

end Trails

variable {rcpt : Bytes}

section Domain

variable {cfg : Config} (env : Option (Bytes → Bool)) {lookup : Bytes → Option (List Host)}
  {group : Bytes → List Bytes} {domain : Bytes} {hosts trail : List Host}

section

variable (found : lookup domain = some hosts) (tried : Trail cfg (group domain) hosts trail)
include found tried

theorem domain_fails :
    (domainTried cfg env lookup group domain).permanentFails =
      trail.flatMap (hostFails cfg env (group domain)) := by
  obtain ⟨other, walked, fails, -, -⟩ := tryHosts_trail cfg env (group domain) domain none hosts
  rw [domainTried, found, trail_unique tried walked]
  exact fails

theorem domain_taken (rcpt : Bytes) :
    (∃ taken ∈ (domainTried cfg env lookup group domain).taken, rcpt ∈ taken) ↔
      ∃ host ∈ trail, Accepts cfg (group domain) host rcpt := by
  obtain ⟨other, walked, -, taken, -⟩ := tryHosts_trail cfg env (group domain) domain none hosts
  rw [domainTried, found, trail_unique tried walked]
  exact taken rcpt

theorem mem_domain_fails (rcpt : Bytes) :
    rcpt ∈ (domainTried cfg env lookup group domain).permanentFails ↔
      ∃ host ∈ trail, Refuses cfg (group domain) host rcpt := by
  rw [domain_fails env found tried, List.mem_flatMap]
  simp [mem_hostFails]

end

variable {host : Host}

theorem refuses_listed {rcpts : List Bytes} (refuses : Refuses cfg rcpts host rcpt) :
    rcpt ∈ rcpts := by
  obtain ⟨-, place, found, -, -⟩ := refuses
  exact List.mem_of_getElem? found

theorem accepts_listed {rcpts : List Bytes} (accepts : Accepts cfg rcpts host rcpt) :
    rcpt ∈ rcpts := by
  obtain ⟨-, -, ⟨place, found, -, -⟩, -, -⟩ := accepts
  exact List.mem_of_getElem? found

theorem completes_covers {rcpts : List Bytes} (completes : Completes cfg rcpts host)
    (listed : rcpt ∈ rcpts) : Refuses cfg rcpts host rcpt ∨ Accepts cfg rcpts host rcpt := by
  have authorized := completes.1.1
  have whole := (hostSend_perm cfg none rcpts completes).mem_iff.mpr listed
  rcases List.mem_append.mp whole with failed | taken
  · exact .inl ((mem_hostSend_fails cfg none rcpts authorized rcpt).mp failed)
  · exact .inr ((mem_hostSend_taken cfg none rcpts authorized rcpt).mp taken)

/-- What a host that completes has refused, counted with what it accepted. -/
theorem completes_count {rcpts : List Bytes} (completes : Completes cfg rcpts host) (rcpt : Bytes) :
    (hostFails cfg env rcpts host).count rcpt + (hostSend cfg env rcpts host).taken.count rcpt =
      rcpts.count rcpt := by
  have whole := (hostSend_perm cfg env rcpts completes).count_eq rcpt
  rw [List.count_append] at whole
  rw [hostFails, if_pos completes.1.1]
  exact whole

end Domain

section Passed

variable {cfg : Config} (env : Option (Bytes → Bool)) {lookup : Bytes → Option (List Host)}
  {toLower : Bytes → Bytes} {recipients : List Bytes}

theorem mem_byDomain {domain : Bytes} :
    rcpt ∈ byDomain toLower recipients domain ↔
      rcpt ∈ recipients ∧ domainOf toLower rcpt = some domain := by
  simp [byDomain, List.mem_filter]

theorem count_byDomain {domain : Bytes} (own : domainOf toLower rcpt = some domain) :
    (byDomain toLower recipients domain).count rcpt = recipients.count rcpt :=
  List.count_filter (by simpa using own)

theorem exists_trail (cfg : Config) (rcpts : List Bytes) (hosts : List Host) :
    ∃ trail, Trail cfg rcpts hosts trail := by
  obtain ⟨trail, tried, -⟩ := tryHosts_trail cfg none rcpts [] none hosts
  exact ⟨trail, tried⟩

theorem passed_found {group : Bytes → List Bytes} {domain : Bytes}
    (passes : ¬ DomainFails cfg lookup group domain) : ∃ hosts, lookup domain = some hosts :=
  Option.ne_none_iff_exists'.mp fun missing => passes (.inl missing)

theorem passed_ends {group : Bytes → List Bytes} {domain : Bytes} {hosts : List Host}
    (passes : ¬ DomainFails cfg lookup group domain) (found : lookup domain = some hosts)
    (nonempty : hosts ≠ []) :
    ∃ before host after, hosts = before ++ host :: after ∧
      (∀ earlier ∈ before, ¬ Completes cfg (group domain) earlier) ∧
      Completes cfg (group domain) host := by
  obtain ⟨trail, tried⟩ := exists_trail cfg (group domain) hosts
  rcases trail_cases tried with ⟨-, none⟩ | ⟨before, host, after, split, -, none_before, ends⟩
  · exact absurd (.inr ⟨hosts, found, nonempty, none⟩) passes
  · exact ⟨before, host, after, split, none_before, ends⟩

def Met (cfg : Config) (lookup : Bytes → Option (List Host)) (toLower : Bytes → Bytes)
    (recipients : List Bytes) (answers : Config → List Bytes → Host → Bytes → Prop)
    (domain rcpt : Bytes) : Prop :=
  ∃ hosts trail, lookup domain = some hosts ∧
    Trail cfg (byDomain toLower recipients domain) hosts trail ∧
    ∃ host ∈ trail, answers cfg (byDomain toLower recipients domain) host rcpt

theorem met_own {answers : Config → List Bytes → Host → Bytes → Prop} {domain : Bytes}
    (listed : ∀ {rcpts host}, answers cfg rcpts host rcpt → rcpt ∈ rcpts)
    (met : Met cfg lookup toLower recipients answers domain rcpt) :
    rcpt ∈ recipients ∧ domainOf toLower rcpt = some domain := by
  obtain ⟨hosts, trail, -, -, host, -, answered⟩ := met
  exact mem_byDomain.mp (listed answered)

/-- What was tried for a domain, whether or not its hosts were found. -/
theorem domain_met (domain rcpt : Bytes) :
    (rcpt ∈ (domainTried cfg env lookup (byDomain toLower recipients) domain).permanentFails ↔
        Met cfg lookup toLower recipients Refuses domain rcpt) ∧
      ((∃ taken ∈ (domainTried cfg env lookup (byDomain toLower recipients) domain).taken,
          rcpt ∈ taken) ↔ Met cfg lookup toLower recipients Accepts domain rcpt) := by
  cases found : lookup domain with
  | none => simp [domainTried, Met, found]
  | some hosts =>
    obtain ⟨trail, tried⟩ := exists_trail cfg (byDomain toLower recipients domain) hosts
    rw [mem_domain_fails env found tried, domain_taken env found tried]
    have met : ∀ answers, Met cfg lookup toLower recipients answers domain rcpt ↔
        ∃ host ∈ trail, answers cfg (byDomain toLower recipients domain) host rcpt := by
      intro answers
      constructor
      · rintro ⟨others, path, there, also, answered⟩
        cases found.symm.trans there
        rw [trail_unique tried also]
        exact answered
      · exact fun answered => ⟨hosts, trail, found, tried, answered⟩
    exact ⟨(met Refuses).symm, (met Accepts).symm⟩

variable {order : List Bytes} {out : Outcome}
  (passed : ∀ domain ∈ order, ¬ DomainFails cfg lookup (byDomain toLower recipients) domain)
  (fails : out.permanentFails = order.flatMap fun domain =>
    (domainTried cfg env lookup (byDomain toLower recipients) domain).permanentFails)
  (taken : out.taken = order.flatMap fun domain =>
    (domainTried cfg env lookup (byDomain toLower recipients) domain).taken)

include fails in
theorem mem_fails (rcpt : Bytes) :
    rcpt ∈ out.permanentFails ↔
      ∃ domain ∈ order, Met cfg lookup toLower recipients Refuses domain rcpt := by
  rw [fails, List.mem_flatMap]
  simp [domain_met]

include taken in
theorem taken_iff (rcpt : Bytes) :
    Taken out rcpt ↔ ∃ domain ∈ order, Met cfg lookup toLower recipients Accepts domain rcpt := by
  simp only [Taken, taken, List.mem_flatMap, ← (domain_met env _ rcpt).2]
  constructor
  · rintro ⟨copies, ⟨domain, listed, copied⟩, inside⟩
    exact ⟨domain, listed, copies, copied, inside⟩
  · rintro ⟨domain, listed, copies, copied, inside⟩
    exact ⟨copies, ⟨domain, listed, copied⟩, inside⟩

include fails taken

theorem splits_own (splits : Splits recipients out) {rcpt : Bytes} (listed : rcpt ∈ recipients) :
    ∃ domain ∈ order, domainOf toLower rcpt = some domain ∧
      (Met cfg lookup toLower recipients Refuses domain rcpt ∨
        Met cfg lookup toLower recipients Accepts domain rcpt) := by
  rcases (splits.covers rcpt).mp listed with handed | failed
  · obtain ⟨domain, member, met⟩ := (taken_iff env taken rcpt).mp handed
    exact ⟨domain, member, (met_own accepts_listed met).2, .inr met⟩
  · obtain ⟨domain, member, met⟩ := (mem_fails env fails rcpt).mp failed
    exact ⟨domain, member, (met_own refuses_listed met).2, .inl met⟩

theorem orderly_of_splits (splits : Splits recipients out)
    (exact : ∀ domain ∈ order, ∃ rcpt ∈ recipients, domainOf toLower rcpt = some domain)
    (domain : Bytes) (member : domain ∈ order) (hosts : List Host)
    (found : lookup domain = some hosts) :
    Orderly cfg recipients (byDomain toLower recipients domain) hosts := by
  have handed := taken_iff env taken
  have failed := mem_fails env fails
  constructor
  · rintro rfl
    -- a domain without hosts would leave its recipients out
    obtain ⟨rcpt, listed, own⟩ := exact domain member
    obtain ⟨other, -, same, met⟩ := splits_own env fails taken splits listed
    cases own.symm.trans same
    have nobody : ∀ answers, ¬ Met cfg lookup toLower recipients answers domain rcpt := by
      rintro answers ⟨hosts, trail, there, tried, host, inTrail, -⟩
      cases found.symm.trans there
      rcases trail_cases tried with ⟨rfl, -⟩ | ⟨before, last, after, split, -⟩
      · cases inTrail
      · cases before <;> cases split
    rcases met with refused | accepted
    · exact nobody _ refused
    · exact nobody _ accepted
  · rintro before host after rfl none_before completes
    have tried : Trail cfg (byDomain toLower recipients domain) (before ++ host :: after)
        (before ++ [host]) := .ended before none_before completes
    have refused : ∀ other ∈ before ++ [host], ∀ rcpt,
        Refuses cfg (byDomain toLower recipients domain) other rcpt →
        rcpt ∈ out.permanentFails := fun other inTrail rcpt refuses =>
      (failed rcpt).mpr ⟨domain, member, _, _, found, tried, other, inTrail, refuses⟩
    have accepted : ∀ other ∈ before ++ [host], ∀ rcpt,
        Accepts cfg (byDomain toLower recipients domain) other rcpt → Taken out rcpt :=
      fun other inTrail rcpt accepts =>
        (handed rcpt).mpr ⟨domain, member, _, _, found, tried, other, inTrail, accepts⟩
    have last : host ∈ before ++ [host] := by simp
    -- the failures of this domain alone are without repetition
    have once := splits.once
    rw [fails, List.nodup_flatMap] at once
    have own := once.1 domain member
    rw [domain_fails env found tried, List.flatMap_append, List.nodup_append] at own
    obtain ⟨-, ownLast, disjoint⟩ := own
    rw [List.flatMap_singleton] at ownLast disjoint
    constructor
    · intro earlier inBefore rcpt refuses
      have inTrail : earlier ∈ before ++ [host] := List.mem_append_left _ inBefore
      rcases completes_covers completes (refuses_listed refuses) with again | accepts
      · have first : rcpt ∈ before.flatMap (hostFails cfg env _) :=
          List.mem_flatMap.mpr ⟨earlier, inBefore, (mem_hostFails cfg env _ _ _).mpr refuses⟩
        exact disjoint rcpt first rcpt ((mem_hostFails cfg env _ _ _).mpr again) rfl
      · exact splits.apart rcpt (accepted host last rcpt accepts)
          (refused earlier inTrail rcpt refuses)
    · intro rcpt refuses
      have out_of := refused host last rcpt refuses
      constructor
      · have counted := completes_count env completes rcpt
        have one : (hostFails cfg env (byDomain toLower recipients domain) host).count rcpt = 1 :=
          List.count_eq_one_of_mem ownLast ((mem_hostFails cfg env _ _ _).mpr refuses)
        have zero : (hostSend cfg env (byDomain toLower recipients domain) host).taken.count
            rcpt = 0 := by
          rw [List.count_eq_zero, mem_hostSend_taken cfg env _ completes.1.1]
          exact fun accepts => splits.apart rcpt (accepted host last rcpt accepts) out_of
        rw [one, zero, count_byDomain (mem_byDomain.mp (refuses_listed refuses)).2] at counted
        exact counted.symm
      · intro earlier inBefore accepts
        exact splits.apart rcpt
          (accepted earlier (List.mem_append_left _ inBefore) rcpt accepts) out_of

omit fails taken

section

variable {domain : Bytes} (passes : ¬ DomainFails cfg lookup (byDomain toLower recipients) domain)
include passes

/-- The tried hosts of an orderly domain, with the one that ends it. -/
theorem orderly_trail {hosts trail : List Host} (found : lookup domain = some hosts)
    (orderly : Orderly cfg recipients (byDomain toLower recipients domain) hosts)
    (tried : Trail cfg (byDomain toLower recipients domain) hosts trail) :
    ∃ before host, trail = before ++ [host] ∧
      Completes cfg (byDomain toLower recipients domain) host ∧
      (∀ earlier ∈ before, ∀ rcpt,
        ¬ Refuses cfg (byDomain toLower recipients domain) earlier rcpt) ∧
      ∀ rcpt, Refuses cfg (byDomain toLower recipients domain) host rcpt →
        (byDomain toLower recipients domain).count rcpt = 1 ∧
        ∀ earlier ∈ before, ¬ Accepts cfg (byDomain toLower recipients domain) earlier rcpt := by
  obtain ⟨before, host, after, split, none_before, ends⟩ := passed_ends passes found orderly.1
  subst split
  obtain ⟨unrefused, single⟩ := orderly.2 before host after rfl none_before ends
  refine ⟨before, host, trail_unique tried (.ended before none_before ends), ends, unrefused, ?_⟩
  intro rcpt refuses
  have own := (mem_byDomain.mp (refuses_listed refuses)).2
  rw [count_byDomain own]
  exact single rcpt refuses

/-- Nobody is both refused and accepted by the hosts of an orderly domain. -/
theorem orderly_apart
    (orderly : ∀ hosts, lookup domain = some hosts → Orderly cfg recipients
      (byDomain toLower recipients domain) hosts)
    (refused : Met cfg lookup toLower recipients Refuses domain rcpt)
    (accepted : Met cfg lookup toLower recipients Accepts domain rcpt) : False := by
  obtain ⟨hosts, trail, found, tried, refuser, inTrail, refuses⟩ := refused
  obtain ⟨others, path, there, also, accepter, inPath, accepts⟩ := accepted
  cases found.symm.trans there
  cases trail_unique tried also
  obtain ⟨before, host, rfl, ends, unrefused, single⟩ :=
    orderly_trail passes found (orderly hosts found) tried
  rcases List.mem_append.mp inTrail with early | late
  · exact unrefused refuser early rcpt refuses
  rw [List.mem_singleton] at late
  subst late
  obtain ⟨one, unaccepted⟩ := single rcpt refuses
  rcases List.mem_append.mp inPath with early | same
  · exact unaccepted accepter early accepts
  rw [List.mem_singleton] at same
  subst same
  -- counted once among the recipients, but refused and accepted
  have counted := completes_count none ends rcpt
  have failed := List.count_pos_iff.mpr ((mem_hostFails cfg none _ accepter rcpt).mpr refuses)
  have handed := List.count_pos_iff.mpr
    ((mem_hostSend_taken cfg none _ ends.1.1 rcpt).mpr accepts)
  omega

theorem orderly_once {hosts : List Host} (found : lookup domain = some hosts)
    (orderly : Orderly cfg recipients (byDomain toLower recipients domain) hosts) :
    (domainTried cfg env lookup (byDomain toLower recipients) domain).permanentFails.Nodup := by
  obtain ⟨trail, tried⟩ := exists_trail cfg (byDomain toLower recipients domain) hosts
  obtain ⟨before, host, rfl, ends, unrefused, single⟩ :=
    orderly_trail passes found orderly tried
  have nothing : before.flatMap (hostFails cfg env (byDomain toLower recipients domain)) = [] := by
    rw [List.flatMap_eq_nil_iff]
    intro earlier inBefore
    apply List.eq_nil_iff_forall_not_mem.mpr
    intro rcpt member
    exact unrefused earlier inBefore rcpt ((mem_hostFails cfg env _ _ _).mp member)
  rw [domain_fails env found tried, List.flatMap_append, nothing, List.nil_append,
    List.flatMap_singleton, List.nodup_iff_count_le_one]
  intro rcpt
  by_cases refused : rcpt ∈ hostFails cfg env (byDomain toLower recipients domain) host
  · have one := (single rcpt ((mem_hostFails cfg env _ _ _).mp refused)).1
    have counted := completes_count env ends rcpt
    omega
  · rw [List.count_eq_zero_of_not_mem refused]
    exact Nat.zero_le 1

end

include passed fails taken

theorem splits_of_orderly (nodup : order.Nodup)
    (complete : ∀ rcpt ∈ recipients, ∀ domain, domainOf toLower rcpt = some domain → domain ∈ order)
    (addressed : ∀ rcpt ∈ recipients, domainOf toLower rcpt ≠ none)
    (orderly : ∀ domain ∈ order, ∀ hosts, lookup domain = some hosts →
      Orderly cfg recipients (byDomain toLower recipients domain) hosts) :
    Splits recipients out := by
  have handed := taken_iff env taken
  have failed := mem_fails env fails
  refine ⟨fun rcpt => ⟨fun listed => ?_, ?_⟩, fun rcpt accepted refused => ?_, ?_⟩
  · obtain ⟨domain, own⟩ := Option.ne_none_iff_exists'.mp (addressed rcpt listed)
    have member := complete rcpt listed domain own
    obtain ⟨hosts, found⟩ := passed_found (passed domain member)
    obtain ⟨trail, tried⟩ := exists_trail cfg (byDomain toLower recipients domain) hosts
    obtain ⟨before, host, rfl, ends, -, -⟩ :=
      orderly_trail (passed domain member) found (orderly domain member hosts found) tried
    have last : host ∈ before ++ [host] := by simp
    rcases completes_covers ends (mem_byDomain.mpr ⟨listed, own⟩) with refuses | accepts
    · exact .inr ((failed rcpt).mpr ⟨domain, member, _, _, found, tried, host, last, refuses⟩)
    · exact .inl ((handed rcpt).mpr ⟨domain, member, _, _, found, tried, host, last, accepts⟩)
  · rintro (accepted | refused)
    · obtain ⟨domain, -, met⟩ := (handed rcpt).mp accepted
      exact (met_own accepts_listed met).1
    · obtain ⟨domain, -, met⟩ := (failed rcpt).mp refused
      exact (met_own refuses_listed met).1
  · obtain ⟨domain, member, accepts⟩ := (handed rcpt).mp accepted
    obtain ⟨other, -, refuses⟩ := (failed rcpt).mp refused
    cases (met_own accepts_listed accepts).2.symm.trans (met_own refuses_listed refuses).2
    exact orderly_apart (passed domain member) (orderly domain member) refuses accepts
  · rw [fails, List.nodup_flatMap]
    constructor
    · intro domain member
      obtain ⟨hosts, found⟩ := passed_found (passed domain member)
      exact orderly_once env (passed domain member) found (orderly domain member hosts found)
    -- a recipient fails only with its own domain
    refine List.Pairwise.imp_of_mem ?_ nodup
    intro left right first second different rcpt here there
    have leftOwn := (met_own refuses_listed ((domain_met env left rcpt).1.mp here)).2
    have rightOwn := (met_own refuses_listed ((domain_met env right rcpt).1.mp there)).2
    cases leftOwn.symm.trans rightOwn
    exact different rfl

end Passed

/-- A delivery keeps its accounts exactly when the lookups and hosts answer
cleanly. -/
theorem accounts_iff_clean (toLower : Bytes → Bytes) (cfg : Config)
    (env : Option (Bytes → Bool)) (lookup : Bytes → Option (List Host))
    (recipients : List Bytes) (iteration : Iteration toLower recipients) :
    Accounts recipients (deliverViaMX cfg env toLower lookup recipients iteration) ↔
      Clean cfg lookup toLower recipients iteration.order := by
  obtain ⟨order, nodup, listed⟩ := iteration
  have ends := deliverDomains_ends cfg env lookup (byDomain toLower recipients) .start rfl rfl order
  rw [deliverViaMX]
  generalize deliverDomains cfg env lookup (byDomain toLower recipients) .start order = out at ends
  cases ends with
  | done passed noError fails taken =>
    constructor
    · intro accounts
      have splits := accounts.splits noError
      constructor
      · rintro before domain after rfl missing
        exact absurd (.inl missing) (passed domain (by simp))
      intro _
      constructor
      · intro rcpt member absent
        obtain ⟨domain, -, own, -⟩ := splits_own env fails taken splits member
        cases absent.symm.trans own
      · exact orderly_of_splits env fails taken splits
          fun domain member => (listed domain).mp member
    · intro clean
      obtain ⟨addressed, orderly⟩ := clean.passes passed
      constructor
      · intro _
        exact splits_of_orderly env passed fails taken nodup
          (fun rcpt member domain own => (listed domain).mpr ⟨rcpt, member, own⟩)
          addressed orderly
      · intro error
        exact absurd noError error
  | failed before passed fails error refused taken returned =>
    rename_i after domain
    constructor
    · intro accounts
      constructor
      · intro other missing rest split absent passes earlier inBefore hosts found trail tried
          host inTrail rcpt refuses
        obtain ⟨rfl, rfl⟩ := first_unique split passed fails passes (.inl absent)
        rw [if_pos absent] at returned
        have reported : rcpt ∈ out.permanentFails := by
          apply accounts.reports error
          rw [refused]
          exact List.mem_flatMap.mpr ⟨earlier, List.mem_append_left _ inBefore,
            (domain_met env earlier rcpt).1.mpr
              ⟨hosts, trail, found, tried, host, inTrail, refuses⟩⟩
        rw [returned] at reported
        cases reported
      · intro passes
        exact absurd fails (passes domain (by simp))
    · intro clean
      constructor
      · intro noError
        exact absurd noError error
      intro _ rcpt member
      rw [returned]
      split_ifs with absent
      · rw [refused] at member
        obtain ⟨earlier, tried, inside⟩ := List.mem_flatMap.mp member
        obtain ⟨hosts, trail, found, tried', host, inTrail, refuses⟩ :=
          (domain_met env earlier rcpt).1.mp inside
        rcases List.mem_append.mp tried with inBefore | last
        · exact absurd refuses (clean.lookups before domain after rfl absent passed earlier
            inBefore hosts found trail tried' host inTrail rcpt)
        · cases List.mem_singleton.mp last
          cases absent.symm.trans found
      · exact member

def politeHost : Host where
  name := ascii "mx2.b.example"
  policy := ⟨false, true⟩
  remote :=
    { dials := true, probe := some false, startTLS := .refused, hello := true
      offersAuth := false, auth := .ok, mail := .ok, rcpt := fun _ => .ok, data := .ok
      endOfData := .ok, quit := .ok, offersDSN := false }

/-- A host that refuses the first recipient and then cannot take the message. -/
def busyHost : Host :=
  { politeHost with
    name := ascii "mx1.b.example"
    remote := { politeHost.remote with
      rcpt := fun place => if place = 0 then .permanent else .ok
      data := .temporary } }

def sampleOutcome (recipients : List Bytes) : Outcome :=
  deliverViaMX ⟨false, false⟩ none lower (fun _ => some [busyHost, politeHost]) recipients
    (.eachOnce lower recipients)

/-- Refused by the first host and accepted by the second, a recipient is handed
over and reported as failed; and a recipient without a domain is dropped. -/
theorem refused_recipient_is_accepted :
    ¬ Accounts [ascii "r@b.example", ascii "s@b.example"]
        (sampleOutcome [ascii "r@b.example", ascii "s@b.example"]) ∧
      ¬ Accounts [ascii "postmaster"] (sampleOutcome [ascii "postmaster"]) := by
  have both : (sampleOutcome [ascii "r@b.example", ascii "s@b.example"]).err = none ∧
      (∃ taken ∈ (sampleOutcome [ascii "r@b.example", ascii "s@b.example"]).taken,
        ascii "r@b.example" ∈ taken) ∧
      ascii "r@b.example" ∈
        (sampleOutcome [ascii "r@b.example", ascii "s@b.example"]).permanentFails := by
    decide
  have dropped : (sampleOutcome [ascii "postmaster"]).err = none ∧
      (sampleOutcome [ascii "postmaster"]).taken = [] ∧
      (sampleOutcome [ascii "postmaster"]).permanentFails = [] := by
    decide
  constructor
  · intro accounts
    exact (accounts.splits both.1).apart _ both.2.1 both.2.2
  · intro accounts
    have covered := ((accounts.splits dropped.1).covers (ascii "postmaster")).mp (by simp)
    simp [Taken, dropped.2] at covered

end Bongo.RelayAccounts
