import Bongo.SrsRoundTrip

/-!
What a check value is bound to. The keyed hash is fed the lower-cased fields,
each followed by a NUL, and an issued field has none: so fields that are fed
alike have the same kind, stamp and host. Lower case is that of all characters,
though, and not of ASCII alone: a local part, a rest or a forwarding domain can
be exchanged for one with other characters of the same lower case.
-/

namespace Bongo.Srs

set_option maxRecDepth 100000

open ByteKeys Runes

/-- Fields that some call of `Forward` is written from. -/
def Codec.Issuable (codec : Codec) (fields : Fields) : Prop :=
  ∃ day sender fwdDomain, codec.issue day sender fwdDomain = some fields

/-- The recipient is on the domain that the address was issued for, and the
address it is reversed to is the one that was written, up to ASCII case. -/
def Codec.Bound (codec : Codec) (rcpt fwdDomain result : Bytes) (written : Fields) : Prop :=
  ∃ name domain, codec.splitAddr rcpt = some (name, domain) ∧
    lower domain = lower (codec.trimSpace fwdDomain) ∧ lower result = lower (recovered written)

/-- The recipient has the bytes outside ASCII that the issued address has, in
the domain and in the local part or rest. -/
def Codec.Faithful (codec : Codec) (rcpt fwdDomain : Bytes) (found written : Fields) : Prop :=
  ∃ name domain, codec.splitAddr rcpt = some (name, domain) ∧
    Alike domain (codec.trimSpace fwdDomain) ∧ Alike found.name written.name

section Feeding

variable (codec : Codec)

def lowered (fields : Fields) : List Bytes :=
  [fields.kind.tag, fields.tt, fields.host, fields.name, fields.fwd].map codec.table.lowerText

theorem fed_frames (fields : Fields) : codec.fed fields = frames 0 (lowered codec fields) := by
  simp [Codec.fed, frames, lowered]

structure Visible (fields : Fields) : Prop where
  tt : (0 : UInt8) ∉ fields.tt
  host : (0 : UInt8) ∉ fields.host
  name : (0 : UInt8) ∉ fields.name
  fwd : (0 : UInt8) ∉ fields.fwd

theorem lowered_clean {fields : Fields} (visible : Visible fields) :
    ∀ field ∈ lowered codec fields, (0 : UInt8) ∉ field := by
  intro field member
  obtain ⟨text, inside, rfl⟩ := List.mem_map.mp member
  apply lowerText_visible
  simp only [List.mem_cons, List.not_mem_nil, or_false] at inside
  rcases inside with rfl | rfl | rfl | rfl | rfl
  · cases fields.kind with
    | srs0 | srs1 => decide
  · exact visible.tt
  · exact visible.host
  · exact visible.name
  · exact visible.fwd

theorem lowerText_tag (kind : Kind) : codec.table.lowerText kind.tag = kind.tag := by
  rw [lowerText_ascii codec.table _ (tag_facts kind).2.2.1, (tag_facts kind).1]

theorem tag_inj {left right : Kind} (same : left.tag = right.tag) : left = right := by
  cases left with
  | srs0 =>
    cases right with
    | srs0 => rfl
    | srs1 => exact absurd same (by decide)
  | srs1 =>
    cases right with
    | srs0 => exact absurd same (by decide)
    | srs1 => rfl

/-- Whatever the other fields contain, being fed alike they agree with issued
ones field by field. -/
theorem fed_fields {found written : Fields} (visible : Visible written)
    (same : codec.fed found = codec.fed written) :
    found.kind = written.kind ∧ codec.table.lowerText found.tt = codec.table.lowerText written.tt ∧
      codec.table.lowerText found.host = codec.table.lowerText written.host ∧
      codec.table.lowerText found.name = codec.table.lowerText written.name ∧
      codec.table.lowerText found.fwd = codec.table.lowerText written.fwd := by
  rw [fed_frames, fed_frames] at same
  have fields := frames_inj 0 (lowered codec found) (lowered codec written) rfl
    (lowered_clean codec visible) same
  simp only [lowered, List.map_cons, List.cons.injEq, lowerText_tag, and_true] at fields
  exact ⟨tag_inj fields.1, fields.2⟩

end Feeding

section Issued

theorem localByte_visible : ∀ byte : UInt8, localByte byte = true → byte ≠ 0 := by
  decide

theorem domainByte_visible : ∀ byte : UInt8, domainByte byte = true → byte ≠ 0 := by
  decide

theorem local_visible {name : Bytes} (allowed : validLocal name = true) : (0 : UInt8) ∉ name := by
  intro member
  rw [validLocal, Bool.and_eq_true, List.all_eq_true] at allowed
  exact localByte_visible 0 (allowed.2 0 member) rfl

theorem domain_visible {domain : Bytes} (valid : validDomain domain = true) :
    (0 : UInt8) ∉ domain := by
  intro member
  exact domainByte_visible 0 (((validDomain_iff domain).mp valid).2.2.2.2 0 member) rfl

theorem cut_mem {separator : UInt8} {text left right : Bytes}
    (split : cut separator text = some (left, right)) : ∀ byte ∈ right, byte ∈ text := by
  induction text generalizing left with
  | nil => cases split
  | cons first rest ih =>
    rw [cut] at split
    split at split
    next =>
      cases split
      exact fun byte member => List.mem_cons_of_mem _ member
    next =>
      obtain ⟨⟨before, after⟩, inner, same⟩ := Option.map_eq_some_iff.mp split
      cases same
      exact fun byte member => List.mem_cons_of_mem _ (ih inner byte member)

theorem cutDouble_mem {text left right : Bytes} (split : cutDouble text = some (left, right)) :
    ∀ byte ∈ right, byte ∈ text := by
  induction text generalizing left with
  | nil => cases split
  | cons first rest ih =>
    cases rest with
    | nil => cases split
    | cons second rest =>
      rw [cutDouble] at split
      split at split
      next =>
        cases split
        exact fun byte member => List.mem_cons_of_mem _ (List.mem_cons_of_mem _ member)
      next =>
        obtain ⟨⟨before, after⟩, inner, same⟩ := Option.map_eq_some_iff.mp split
        cases same
        exact fun byte member => List.mem_cons_of_mem _ (ih inner byte member)

theorem carried_mem {name domain hop rest : Bytes}
    (contents : carried name domain = some (hop, rest)) : ∀ byte ∈ rest, byte ∈ name := by
  rw [carried] at contents
  split at contents
  next =>
    cases contents
    exact fun byte member => List.mem_of_mem_drop member
  next =>
    simp only [Option.bind_eq_bind, Option.bind_eq_some_iff] at contents
    obtain ⟨⟨hash, tail⟩, cutHash, cutHop⟩ := contents
    intro byte member
    exact List.mem_of_mem_drop (cut_mem cutHash byte (cutDouble_mem cutHop byte member))

variable {codec : Codec} {day : Nat} {sender : Bytes} {fields : Fields} {name domain hop : Bytes}

theorem Origin.visible (origin : Origin codec day sender fields name domain hop) :
    Visible fields := by
  constructor
  · intro member
    have letter := origin.writable.letters 0 member
    revert letter
    decide
  · exact domain_visible origin.writable.host
  · cases origin.holds with
    | plain _ _ named _ =>
      rw [named]
      exact local_visible origin.allowed
    | wrapped _ _ contents =>
      intro member
      exact local_visible origin.allowed (carried_mem contents 0 member)
  · exact domain_visible origin.fwd

theorem issuable_fields (issuable : codec.Issuable fields) : Writable fields ∧ Visible fields := by
  obtain ⟨day, sender, fwdDomain, issued⟩ := issuable
  obtain ⟨name, domain, hop, origin⟩ := issue_origin issued
  exact ⟨origin.writable, origin.visible⟩

theorem issue_fwd {fwdDomain : Bytes} (issued : codec.issue day sender fwdDomain = some fields) :
    fields.fwd = codec.table.lowerText (codec.trimSpace fwdDomain) := by
  rw [Codec.issue] at issued
  simp only [Option.bind_eq_bind, Option.bind_eq_some_iff] at issued
  obtain ⟨⟨name, domain⟩, _, checked⟩ := issued
  split at checked
  next => cases checked
  next accepted =>
    have valid : validDomain domain = true := by
      simp only [Bool.or_eq_true, Bool.not_eq_true', not_or, Bool.not_eq_false] at accepted
      exact accepted.1.2
    split at checked
    next =>
      obtain ⟨_, _, _, _, _, _, same⟩ := wrap_some valid checked
      exact same
    next =>
      cases checked
      rfl

/-- Issued fields that are fed alike are near each other as soon as the local
parts or rests are alike outside ASCII. -/
theorem near_of_fed {found written : Fields} (foundWritable : Writable found)
    (writable : Writable written) (visible : Visible written)
    (same : codec.fed found = codec.fed written) (alike : Alike found.name written.name) :
    Near found written := by
  obtain ⟨kinds, stamps, hosts, names, fwds⟩ := fed_fields codec visible same
  rw [lowerText_letters codec rfl foundWritable.letters,
    lowerText_letters codec rfl writable.letters] at stamps
  rw [domain_lowered codec.table foundWritable.host,
    domain_lowered codec.table writable.host] at hosts
  rw [domain_lowered codec.table foundWritable.fwd, domain_lowered codec.table writable.fwd] at fwds
  exact ⟨kinds, stamps, hosts, (lowerText_iff codec.table alike).mp names, fwds⟩

end Issued

section Parsed

structure Read (codec : Codec) (found : Fields) (domain : Bytes) : Prop where
  host : ∃ hop, validDomain hop = true ∧ found.host = codec.table.lowerText hop
  fwd : found.fwd = codec.table.lowerText domain

variable {codec : Codec} {hash : Bytes} {found : Fields}

theorem parse0_read {text domain : Bytes}
    (parsed : codec.parse0 text (codec.table.lowerText domain) = some (hash, found)) :
    Read codec found domain := by
  rw [Codec.parse0] at parsed
  simp only [Option.bind_eq_bind, Option.bind_eq_some_iff] at parsed
  obtain ⟨_, _, _, _, ⟨hop, name⟩, _, checked⟩ := parsed
  split at checked
  next => cases checked
  next accepted =>
    cases checked
    have valid : validDomain hop = true := by
      by_contra invalid
      exact accepted (Or.inr (Or.inl (by simp [invalid])))
    exact ⟨⟨hop, valid, rfl⟩, rfl⟩

theorem parse1_read {text domain : Bytes}
    (parsed : codec.parse1 text (codec.table.lowerText domain) = some (hash, found)) :
    Read codec found domain := by
  rw [Codec.parse1] at parsed
  simp only [Option.bind_eq_bind, Option.bind_eq_some_iff] at parsed
  obtain ⟨⟨check, tail⟩, _, parsed⟩ := parsed
  split at parsed
  next => cases parsed
  next =>
    obtain ⟨⟨hop, rest⟩, _, checked⟩ := Option.bind_eq_some_iff.mp parsed
    split at checked
    next => cases checked
    next accepted =>
      cases checked
      have valid : validDomain hop = true := by
        by_contra invalid
        exact accepted (Or.inl (by simp [invalid]))
      exact ⟨⟨hop, valid, rfl⟩, rfl⟩

theorem parse_read {rcpt : Bytes} (parsed : codec.parse rcpt = some (hash, found)) :
    ∃ name domain, codec.splitAddr rcpt = some (name, domain) ∧ Read codec found domain := by
  rw [Codec.parse] at parsed
  simp only [Option.bind_eq_bind, Option.bind_eq_some_iff] at parsed
  obtain ⟨⟨name, domain⟩, split, parsed⟩ := parsed
  refine ⟨name, domain, split, ?_⟩
  split at parsed
  next => cases parsed
  next =>
    split at parsed
    next => exact parse0_read parsed
    next => exact parse1_read parsed

theorem reverse_some {rcpt result : Bytes} {later : Nat}
    (parsed : codec.parse rcpt = some (hash, found))
    (reversed : codec.reverse later rcpt = some result) :
    hash = codec.mac found ∧ codec.fresh later found.tt = true ∧ result = recovered found := by
  rw [Codec.reverse, parsed] at reversed
  simp only [Option.bind_eq_bind, Option.bind_some] at reversed
  split at reversed
  next accepted => exact ⟨accepted.1, accepted.2, (Option.some.inj reversed).symm⟩
  next => cases reversed

/-- A stamp whose age can be computed is of the alphabet. -/
theorem fresh_letters {later : Nat} {tt : Bytes} (fresh : codec.fresh later tt = true) :
    ∀ byte ∈ tt, byte ∈ stampAlphabet := by
  have known : (unstamp tt).isSome = true := by
    rw [Codec.fresh] at fresh
    cases issued : unstamp tt with
    | none =>
      rw [issued] at fresh
      cases fresh
    | some _ => rfl
  obtain ⟨issued, known⟩ := Option.isSome_iff_exists.mp known
  rcases tt with _ | ⟨high, _ | ⟨low, _ | _⟩⟩
  · cases known
  · cases known
  · simp only [unstamp, Option.bind_eq_bind, Option.bind_eq_some_iff] at known
    obtain ⟨_, highFound, _, lowFound, _⟩ := known
    intro byte member
    simp only [List.mem_cons, List.not_mem_nil, or_false] at member
    rcases member with rfl | rfl
    · by_contra missing
      rw [List.idxOf?_eq_none_iff.mpr missing] at highFound
      cases highFound
    · by_contra missing
      rw [List.idxOf?_eq_none_iff.mpr missing] at lowFound
      cases lowFound
  · cases known

theorem recovered_inj {found written : Fields} (kinds : found.kind = written.kind)
    (hosts : lower found.host = lower written.host) :
    lower (recovered found) = lower (recovered written) ↔
      lower found.name = lower written.name := by
  simp only [recovered, ← kinds]
  cases found.kind with
  | srs0 =>
    simp [lower_address, hosts]
  | srs1 =>
    simp only [lower_append (ascii "SRS0="), lower_address, hosts, List.append_cancel_left_eq,
      List.append_cancel_right_eq]

end Parsed

section Tokens

variable (codec : Codec)

/-- Under a check value that is equal only for equal input, an accepted
recipient with an issued check value has the kind and the stamp of the issued
fields. It is on the domain they were issued for and is reversed to the address
they hold, up to ASCII case, if and only if it has their bytes outside ASCII;
and the same holds between two tuples of issued fields. -/
theorem token_bound_iff (day : Nat) (sender fwdDomain : Bytes) (written : Fields)
    (issued : codec.issue day sender fwdDomain = some written) :
    (∀ other, codec.Issuable other → codec.fed other = codec.fed written →
      (Near other written ↔ Alike other.name written.name)) ∧
    ∀ later rcpt found result, codec.parse rcpt = some (codec.mac written, found) →
      (codec.mac found = codec.mac written → codec.fed found = codec.fed written) →
      codec.reverse later rcpt = some result →
      found.kind = written.kind ∧ found.tt = written.tt ∧
        (codec.Bound rcpt fwdDomain result written ↔
          codec.Faithful rcpt fwdDomain found written) := by
  obtain ⟨writable, visible⟩ := issuable_fields ⟨day, sender, fwdDomain, issued⟩
  constructor
  · intro other issuable same
    constructor
    · intro near
      exact alike_of_lower _ _ near.name
    · intro alike
      exact near_of_fed (issuable_fields issuable).1 writable visible same alike
  · intro later rcpt found result parsed ideal reversed
    obtain ⟨macs, fresh, rfl⟩ := reverse_some parsed reversed
    obtain ⟨kinds, stamps, hosts, names, fwds⟩ := fed_fields codec visible (ideal macs.symm)
    obtain ⟨name, domain, split, read⟩ := parse_read parsed
    obtain ⟨hop, valid, host⟩ := read.host
    have sameStamp : found.tt = written.tt := by
      rw [← lowerText_letters codec rfl (fresh_letters fresh), stamps]
      exact lowerText_letters codec rfl writable.letters
    have sameHost : lower found.host = lower written.host := by
      have foundAscii : ∀ byte ∈ found.host, byte < 0x80 := by
        rw [host, domain_lowered codec.table valid]
        exact fold_ascii (lower_idem hop) (domain_ascii valid)
      rw [← lowerText_ascii codec.table _ foundAscii, hosts,
        domain_lowered codec.table writable.host]
    refine ⟨kinds, sameStamp, ?_⟩
    constructor
    · rintro ⟨name', domain', split', domains, results⟩
      exact ⟨name', domain', split', alike_of_lower _ _ domains,
        alike_of_lower _ _ ((recovered_inj kinds sameHost).mp results)⟩
    rintro ⟨name', domain', split', domains, alike⟩
    rw [split] at split'
    cases split'
    rw [read.fwd, issue_fwd issued] at fwds
    exact ⟨name, domain, split, (lowerText_twice_iff codec.table domains).mp fwds,
      (recovered_inj kinds sameHost).mpr ((lowerText_iff codec.table alike).mp names)⟩

def sampleFields (name : Bytes) : Fields :=
  ⟨.srs0, ascii "ra", ascii "a.org", name, ascii "f.org"⟩

theorem sample_issued : sampleCodec.issue 20000 (ascii "kim@a.org") (ascii "f.org") =
    some (sampleFields (ascii "kim")) := by
  decide

/-- Capital letters change nothing. -/
theorem token_bound_capitals :
    (Near (sampleFields (ascii "KIM")) (sampleFields (ascii "kim")) ↔
        Alike (ascii "KIM") (ascii "kim")) ∧
      sampleCodec.Bound (ascii "srs0=O35GLKBH=RA=A.org=KIM@F.org") (ascii "f.org")
        (ascii "KIM@a.org") (sampleFields (ascii "kim")) := by
  have token := token_bound_iff sampleCodec 20000 (ascii "kim@a.org") (ascii "f.org") _
    sample_issued
  have issuable : sampleCodec.Issuable (sampleFields (ascii "KIM")) :=
    ⟨20000, ascii "KIM@a.org", ascii "f.org", by decide⟩
  constructor
  · exact token.1 (sampleFields (ascii "KIM")) issuable (by decide)
  have bound := token.2 20000 (ascii "srs0=O35GLKBH=RA=A.org=KIM@F.org")
    (sampleFields (ascii "KIM")) (ascii "KIM@a.org") (by decide)
    (fun _ => by decide) (by decide)
  have domains : Alike (ascii "F.org") (sampleCodec.trimSpace (ascii "f.org")) :=
    alike_of_lower _ _ (by decide)
  have names : Alike (ascii "KIM") (ascii "kim") := alike_of_lower _ _ (by decide)
  exact bound.2.2.mpr ⟨ascii "srs0=O35GLKBH=RA=A.org=KIM", ascii "F.org", by decide,
    domains, names⟩

/-- The sign U+212A, whose lower case is the letter k. -/
def kelvin : Bytes := [0xE2, 0x84, 0xAA]

/-- With the sign for the letter, the token of one sender is accepted for
another, who could have been issued the same token; and on another domain. -/
theorem token_moves_to_another_sender :
    sampleCodec.parse (ascii "SRS0=o35glkbh=ra=a.org=" ++ kelvin ++ ascii "im@f.org") =
        some (sampleCodec.mac (sampleFields (ascii "kim")), sampleFields (kelvin ++ ascii "im")) ∧
      sampleCodec.fed (sampleFields (kelvin ++ ascii "im")) =
        sampleCodec.fed (sampleFields (ascii "kim")) ∧
      sampleCodec.reverse 20000 (ascii "SRS0=o35glkbh=ra=a.org=" ++ kelvin ++ ascii "im@f.org") =
        some (kelvin ++ ascii "im@a.org") ∧
      ¬ sampleCodec.Bound (ascii "SRS0=o35glkbh=ra=a.org=" ++ kelvin ++ ascii "im@f.org")
        (ascii "f.org") (kelvin ++ ascii "im@a.org") (sampleFields (ascii "kim")) ∧
      sampleCodec.issue 20000 (kelvin ++ ascii "im@a.org") (ascii "f.org") =
        some (sampleFields (kelvin ++ ascii "im")) ∧
      ¬ Near (sampleFields (kelvin ++ ascii "im")) (sampleFields (ascii "kim")) ∧
      (∃ check, sampleCodec.forward 20000 (ascii "kim@a.org") (ascii "k.org") =
          some (ascii "SRS0=" ++ check ++ ascii "=ra=a.org=kim@k.org") ∧
        sampleCodec.reverse 20000
            (ascii "SRS0=" ++ check ++ ascii "=ra=a.org=kim@" ++ kelvin ++ ascii ".org") =
          some (ascii "kim@a.org")) := by
  refine ⟨by decide, by decide, by decide, ?_, by decide, ?_, ?_⟩
  · rintro ⟨_, _, _, _, results⟩
    revert results
    decide
  · intro near
    have names := near.name
    revert names
    decide
  · exact ⟨sampleCodec.mac ⟨.srs0, ascii "ra", ascii "a.org", ascii "kim", ascii "k.org"⟩,
      by decide, by decide⟩

end Tokens

end Bongo.Srs
