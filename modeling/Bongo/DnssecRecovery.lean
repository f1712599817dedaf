import Bongo.DnssecChains
import Bongo.DnssecTrust

/-!
Whether lookups recover. The validator remembers what it found out about a zone,
failures included, and does not ask again. A chain of signatures that is good now
makes the reply secure as long as it meets no zone that is remembered otherwise.
-/

namespace Bongo.Dnssec

open ByteKeys Histories

section Recovery

variable (lib : Library)

/-- The signatures lead from the records asked for to the root, the zones in `cache`
taken as they are remembered. -/
def Call.Chained (call : Call) (cache : Name → Option KeyCacheEntry) : Prop :=
  ∃ answer, call.query call.name call.qtype = some answer ∧
    recordsOfType answer call.qtype ≠ [] ∧
    Attested lib call.query call.now cache (recordsOfType answer call.qtype)
      (rrsigsFor answer call.qtype)

def Call.Secure (call : Call) (s : State) : Prop :=
  ∃ records, call.reply lib s = some ⟨records, true⟩

def Call.Ascends (call : Call) : Prop := Upward lib call.query call.now call.name call.qtype

variable {lib}

theorem secure_iff_chained {call : Call} (ascends : call.Ascends lib) (s : State) :
    call.Secure lib s ↔ call.Chained lib s.keyCache := by
  obtain ⟨reply, after, -, -, deep⟩ := lookup_of_shallow (shallow_of_upward ascends) s.resolved
  have returned := deep _ (Nat.le_refl _)
  obtain ⟨-, records, secures⟩ := lookup_visits ascends returned
  have replied : call.reply lib s = reply := by rw [Call.reply, Call.lookup, returned]; rfl
  rw [Call.Secure, Call.Chained, replied]
  cases reply with
  | none =>
    rw [Option.map_none, eq_comm, Option.map_eq_none_iff] at records
    simp [records]
  | some given =>
    obtain ⟨answer, asked, same⟩ := Option.map_eq_some_iff.mp records.symm
    have secure := secures given rfl
    simp only [asked, ← same, Option.some.injEq, exists_eq_left'] at secure ⊢
    rw [← secure]
    obtain ⟨found, flag⟩ := given
    simp

/-- From whatever state and through whatever later lookups: those whose chain is validly
signed at their time are secure just if that chain meets no zone remembered otherwise. -/
theorem lookups_recover_iff (s : State) (calls : List Call)
    (ascend : ∀ call ∈ calls, call.Ascends lib) :
    Along (serve lib) (fun s call => call.Chained lib new.keyCache → call.Secure lib s) s calls ↔
      Along (serve lib) (fun s call => call.Chained lib new.keyCache →
        call.Chained lib s.keyCache) s calls := by
  induction calls generalizing s with
  | nil => exact Iff.rfl
  | cons call rest ih =>
    have first := secure_iff_chained (ascend call List.mem_cons_self) s
    exact and_congr (imp_congr_right fun _ => first)
      (ih _ fun other member => ascend other (List.mem_cons_of_mem call member))

end Recovery

theorem mailCall_ascends : mailCall.Ascends sampleLibrary := sample_upward _ 7

theorem mailCall_chained : mailCall.Chained sampleLibrary new.keyCache :=
  (secure_iff_chained mailCall_ascends new).mp ⟨[.other [ascii "org"] 15 []], by decide⟩

/-- A lookup of another zone while the queries for its keys time out. -/
def failedBefore : Call :=
  { mailCall with
    name := [ascii "com"]
    query := fun name qtype =>
      if qtype = typeDNSKEY then none else sampleResolver [ascii "com"] rootKey name qtype }

theorem mailCall_chained_after :
    mailCall.Chained sampleLibrary (run (serve sampleLibrary) new [failedBefore]).keyCache := by
  have root : Trusted sampleLibrary mailCall.query mailCall.now
      (run (serve sampleLibrary) new [failedBefore]).keyCache [] _ :=
    .anchored (by decide) rfl (by decide)
  have zone : Trusted sampleLibrary mailCall.query mailCall.now
      (run (serve sampleLibrary) new [failedBefore]).keyCache [ascii "org"] _ :=
    (trusted_iff _ _ _ (by decide) _).mpr ⟨_, rfl, rfl, .inr ⟨by decide, _, rfl,
      ⟨_, List.mem_cons_self, by decide, _, root, by decide⟩, by decide⟩⟩
  exact ⟨_, rfl, by decide, _, List.mem_cons_self, by decide, _, zone, by decide⟩

/-- The zone that failed is remembered as insecure, and the other is found secure. -/
theorem lookups_recover_iff_mail :
    (run (serve sampleLibrary) new [failedBefore]).keyCache [ascii "com"] = some .insecure ∧
      mailCall.Secure sampleLibrary (run (serve sampleLibrary) new [failedBefore]) :=
  ⟨by decide, ((lookups_recover_iff (run (serve sampleLibrary) new [failedBefore]) [mailCall]
    (List.forall_mem_singleton.mpr mailCall_ascends)).mpr
      ⟨fun _ => mailCall_chained_after, trivial⟩).1 mailCall_chained⟩

/-- The same lookup while the queries for keys time out. -/
def timedOut : Call :=
  { mailCall with
    query := fun name qtype => if qtype = typeDNSKEY then none else mailCall.query name qtype }

/-- After it the chain is good and the lookup is not. -/
theorem timeout_remembered : mailCall.Chained sampleLibrary new.keyCache ∧
    ¬ mailCall.Secure sampleLibrary (run (serve sampleLibrary) new [timedOut]) := by
  refine ⟨mailCall_chained, ?_⟩
  rintro ⟨records, replied⟩
  have insecure : (mailCall.reply sampleLibrary
      (run (serve sampleLibrary) new [timedOut])).map Reply.secure = some false := by
    decide
  rw [replied] at insecure
  cases insecure

end Bongo.Dnssec
