import Bongo.Srs

/-!
From `Forward` to `Reverse`. The parser finds in an issued address, and in any
change of its ASCII case, the fields that were written, up to case; so the
check value is found again, and only the age decides. The exception are senders
of the scheme whose rest has too few separators: `Forward` wraps them, and
`Reverse` refuses the result.
-/

namespace Bongo.Srs

set_option maxRecDepth 100000

open ByteKeys Runes

theorem lower_idem (text : Bytes) : lower (lower text) = lower text := by
  simp [lower, lowerByte_idem]

theorem lower_append (first second : Bytes) :
    lower (first ++ second) = lower first ++ lower second := List.map_append

theorem lower_address (name host : Bytes) :
    lower (name ++ 64 :: host) = lower name ++ 64 :: lower host := lower_append name (64 :: host)

/-- A byte that is no letter has no other case. -/
def Mark (mark : UInt8) : Prop := ∀ byte : UInt8, lowerByte byte = lowerByte mark → byte = mark

theorem mark_equals : Mark 61 := by
  rw [Mark]
  decide

theorem mark_at : Mark 64 := by
  rw [Mark]
  decide

variable {text : Bytes}

theorem fold_append {first second : Bytes} (folds : lower text = lower (first ++ second)) :
    ∃ front back, text = front ++ back ∧ lower front = lower first ∧ lower back = lower second := by
  rw [lower_append] at folds
  obtain ⟨front, back, same, left, right⟩ := List.map_eq_append_iff.mp folds
  exact ⟨front, back, same, left, right⟩

theorem fold_mark {mark : UInt8} (isMark : Mark mark) {first second : Bytes}
    (folds : lower text = lower (first ++ mark :: second)) :
    ∃ front back, text = front ++ mark :: back ∧ lower front = lower first ∧
      lower back = lower second := by
  obtain ⟨front, back, rfl, left, right⟩ := fold_append folds
  cases back with
  | nil => cases right
  | cons byte back =>
    obtain ⟨head, tail⟩ := List.cons_eq_cons.mp right
    rw [isMark byte head]
    exact ⟨front, back, rfl, left, tail⟩

variable {other : Bytes}

theorem not_mem_fold {mark : UInt8} (isMark : Mark mark) (folds : lower text = lower other)
    (absent : mark ∉ other) : mark ∉ text := by
  intro member
  have there : lowerByte mark ∈ lower other := folds ▸ List.mem_map_of_mem member
  obtain ⟨byte, inside, same⟩ := List.mem_map.mp there
  exact absent (isMark byte same ▸ inside)

theorem fold_length (folds : lower text = lower other) : text.length = other.length := by
  have lengths := congrArg List.length folds
  simpa [lower] using lengths

theorem fold_ascii (folds : lower text = lower other) (plain : ∀ byte ∈ other, byte < 0x80) :
    ∀ byte ∈ text, byte < 0x80 :=
  ascii_of_alike (alike_of_lower text other folds) plain

theorem lowerText_fold (table : CaseTable) (folds : lower text = lower other)
    (plain : ∀ byte ∈ other, byte < 0x80) : table.lowerText text = lower other := by
  rw [lowerText_ascii table text (fold_ascii folds plain), folds]

theorem alphabet_letters : ∀ byte ∈ stampAlphabet,
    byte < 0x80 ∧ lowerByte byte = byte ∧ byte ≠ 61 := by
  decide

section

variable (letters : ∀ byte ∈ text, byte ∈ stampAlphabet)
include letters

theorem letters_lower : lower text = text := by
  have same : text.map lowerByte = text.map id :=
    List.map_congr_left fun byte member => (alphabet_letters byte (letters byte member)).2.1
  rw [lower, same, List.map_id]

theorem letters_ascii :
    ∀ byte ∈ text, byte < 0x80 :=
  fun byte member => (alphabet_letters byte (letters byte member)).1

theorem letters_apart : (61 : UInt8) ∉ text :=
  fun member => (alphabet_letters 61 (letters 61 member)).2.2 rfl

end

theorem letter_index : ∀ index < 32,
    stampAlphabet.idxOf? (stampAlphabet.getD index 0) = some index := by
  decide

theorem letter_mem : ∀ index < 32, stampAlphabet.getD index 0 ∈ stampAlphabet := by
  decide

theorem unstamp_stamp (day : Nat) : unstamp (stamp day) = some (day % 1024) := by
  have high := letter_index (day % 1024 / 32 % 32) (Nat.mod_lt _ (by decide))
  have low := letter_index (day % 1024 % 32) (Nat.mod_lt _ (by decide))
  -- the stamp is the day modulo the wrap, in two digits of base 32
  have digits : day % 1024 / 32 % 32 * 32 + day % 1024 % 32 = day % 1024 := by omega
  simp only [stamp, unstamp, high, low, Option.bind_eq_bind, Option.bind_some, digits]

theorem stamp_letters {day : Nat} : ∀ byte ∈ stamp day, byte ∈ stampAlphabet := by
  intro byte member
  simp only [stamp, List.mem_cons, List.not_mem_nil, or_false] at member
  rcases member with rfl | rfl
  · exact letter_mem _ (Nat.mod_lt _ (by decide))
  · exact letter_mem _ (Nat.mod_lt _ (by decide))

/-- The age that `fresh` computes is the number of days modulo the wrap. -/
theorem fresh_stamp (codec : Codec) {day later : Nat} (order : day ≤ later) :
    codec.fresh later (stamp day) = true ↔ (later - day) % 1024 ≤ codec.maxAge := by
  have age : (later % 1024 + 1024 - day % 1024) % 1024 = (later - day) % 1024 := by omega
  simp only [Codec.fresh, unstamp_stamp, age, decide_eq_true_eq]

section Domains

theorem domainByte_facts : ∀ byte : UInt8, domainByte byte = true →
    byte < 0x80 ∧ byte ≠ 61 ∧ byte ≠ 64 ∧ byte ≠ 62 ∧ Graphic byte := by
  decide

theorem domainByte_lower : ∀ byte : UInt8, domainByte (lowerByte byte) = domainByte byte := by
  decide

theorem lowerByte_dot : ∀ byte : UInt8, lowerByte byte = 46 ↔ byte = 46 := by
  decide

theorem dotDot_lower (text : Bytes) : dotDot (lower text) = dotDot text := by
  induction text with
  | nil => rfl
  | cons first rest ih =>
    cases rest with
    | nil => rfl
    | cons second rest =>
      have firstDot : (lowerByte first == 46) = (first == 46) := by
        rw [Bool.eq_iff_iff, beq_iff_eq, beq_iff_eq, lowerByte_dot]
      have secondDot : (lowerByte second == 46) = (second == 46) := by
        rw [Bool.eq_iff_iff, beq_iff_eq, beq_iff_eq, lowerByte_dot]
      change (lowerByte first == 46 && lowerByte second == 46 ||
        dotDot (lower (second :: rest))) = _
      rw [ih, firstDot, secondDot]
      rfl

theorem validDomain_iff (domain : Bytes) :
    validDomain domain = true ↔ domain ≠ [] ∧ domain.length ≤ 253 ∧ domain.head? ≠ some 46 ∧
      dotDot domain = false ∧ ∀ byte ∈ domain, domainByte byte = true := by
  simp [validDomain, and_assoc]

theorem validDomain_lower (domain : Bytes) : validDomain (lower domain) = validDomain domain := by
  rw [Bool.eq_iff_iff, validDomain_iff, validDomain_iff, dotDot_lower]
  have heads : (lower domain).head? = some 46 ↔ domain.head? = some 46 := by
    cases domain with
    | nil => simp [lower]
    | cons first rest => simp [lower, lowerByte_dot]
  have bytes : (∀ byte ∈ lower domain, domainByte byte = true) ↔
      ∀ byte ∈ domain, domainByte byte = true := by
    simp [lower, domainByte_lower]
  rw [ne_eq, ne_eq, ne_eq, ne_eq, heads, bytes]
  simp [lower]

theorem validDomain_fold {domain : Bytes} (folds : lower domain = lower other) :
    validDomain domain = validDomain other := by
  rw [← validDomain_lower, folds, validDomain_lower]

variable {domain : Bytes}

theorem domain_ascii (valid : validDomain domain = true) : ∀ byte ∈ domain, byte < 0x80 :=
  fun byte member => (domainByte_facts byte (((validDomain_iff domain).mp valid).2.2.2.2 byte
    member)).1

theorem domain_apart (valid : validDomain domain = true) :
    (61 : UInt8) ∉ domain ∧ (64 : UInt8) ∉ domain := by
  have bytes := ((validDomain_iff domain).mp valid).2.2.2.2
  exact ⟨fun member => (domainByte_facts 61 (bytes 61 member)).2.1 rfl,
    fun member => (domainByte_facts 64 (bytes 64 member)).2.2.1 rfl⟩

theorem domain_graphic (valid : validDomain domain = true) {byte : UInt8}
    (member : byte ∈ domain) : Graphic byte ∧ byte ≠ 62 := by
  have facts := domainByte_facts byte (((validDomain_iff domain).mp valid).2.2.2.2 byte member)
  exact ⟨facts.2.2.2.2, facts.2.2.2.1⟩

theorem domain_lowered (table : CaseTable) (valid : validDomain domain = true) :
    table.lowerText domain = lower domain := lowerText_ascii table domain (domain_ascii valid)

end Domains

theorem cutDouble_append (left right : Bytes) (absent : (61 : UInt8) ∉ left) :
    cutDouble (left ++ 61 :: 61 :: right) = some (left, right) := by
  induction left with
  | nil => simp [cutDouble]
  | cons byte rest ih =>
    have different : byte ≠ 61 := fun same => absent (same ▸ List.mem_cons_self)
    have tail := ih fun member => absent (List.mem_cons_of_mem _ member)
    cases rest with
    | nil => simp [cutDouble, different]
    | cons next rest =>
      rw [List.cons_append] at tail
      rw [List.cons_append, List.cons_append, cutDouble,
        if_neg (fun both => different both.1), tail]
      rfl

/-- Neither blanks nor angle brackets are taken off an address that begins and
ends with other graphic characters. -/
theorem stripped_plain (codec : Codec) (text : Bytes)
    (opens : ∀ byte, text.head? = some byte → Graphic byte ∧ byte ≠ 60)
    (closes : ∀ byte, text.getLast? = some byte → Graphic byte ∧ byte ≠ 62) :
    trimSuffix (trimPrefix (codec.trimSpace text) (ascii "<")) (ascii ">") = text := by
  have bare : codec.trimSpace text = text :=
    codec.trimmed text (fun byte head => (opens byte head).1) fun byte last => (closes byte last).1
  have unopened : trimPrefix text (ascii "<") = text := by
    rw [trimPrefix, if_neg]
    rw [hasPrefix_iff]
    rintro ⟨rest, rfl⟩
    exact (opens 60 rfl).2 rfl
  have unclosed : trimSuffix text (ascii ">") = text := by
    rw [trimSuffix, if_neg]
    rw [hasSuffix, List.isSuffixOf_iff_suffix]
    rintro ⟨rest, rfl⟩
    exact (closes 62 List.getLast?_concat).2 rfl
  rw [bare, unopened, unclosed]

/-- A domain ends in a graphic character that is no bracket. -/
theorem domain_closes {domain : Bytes} (valid : validDomain domain = true) {front : Bytes}
    (byte : UInt8) (last : (front ++ 64 :: domain).getLast? = some byte) :
    Graphic byte ∧ byte ≠ 62 := by
  have nonempty : domain ≠ [] := ((validDomain_iff domain).mp valid).1
  have inside : byte ∈ domain := by
    rw [List.getLast?_append, List.getLast?_cons, Option.some_or] at last
    cases whole : domain.getLast? with
    | none => exact absurd (List.getLast?_eq_none_iff.mp whole) nonempty
    | some final =>
      rw [whole, Option.getD_some] at last
      cases last
      exact List.mem_of_getLast? whole
  exact domain_graphic valid inside

theorem splitAddr_plain (codec : Codec) {first : UInt8} (name domain : Bytes)
    (opens : Graphic first ∧ first ≠ 60) (valid : validDomain domain = true) :
    codec.splitAddr ((first :: name) ++ 64 :: domain) = some (first :: name, domain) := by
  have nonempty : domain ≠ [] := ((validDomain_iff domain).mp valid).1
  have stripped := stripped_plain codec ((first :: name) ++ 64 :: domain)
    (fun byte head => by cases head; exact opens) (domain_closes valid)
  have reversed : ((first :: name) ++ 64 :: domain).reverse =
      domain.reverse ++ 64 :: (first :: name).reverse := by
    rw [List.reverse_append, List.reverse_cons, List.append_assoc, List.singleton_append]
  have absent : (64 : UInt8) ∉ domain.reverse :=
    fun member => (domain_apart valid).2 (List.mem_reverse.mp member)
  have named : (first :: name).reverse ≠ [] := by simp
  have hosted : domain.reverse ≠ [] := by simpa using nonempty
  rw [Codec.splitAddr, stripped, reversed, cut_append 64 _ _ absent]
  change (if (first :: name).reverse = [] ∨ domain.reverse = [] then none
    else some ((first :: name).reverse.reverse, domain.reverse.reverse)) = _
  rw [if_neg (not_or.mpr ⟨named, hosted⟩), List.reverse_reverse, List.reverse_reverse]

variable {fwd : Bytes}

section Parsing

/-- Fields that differ in ASCII case only, with the same stamp. -/
structure Near (found written : Fields) : Prop where
  kind : found.kind = written.kind
  tt : found.tt = written.tt
  host : lower found.host = lower written.host
  name : lower found.name = lower written.name
  fwd : lower found.fwd = lower written.fwd

structure Writable (fields : Fields) : Prop where
  stamped : fields.tt.length = 2
  letters : ∀ byte ∈ fields.tt, byte ∈ stampAlphabet
  host : validDomain fields.host = true
  fwd : validDomain fields.fwd = true
  named : fields.kind = .srs0 → fields.name ≠ []

/-- The check of the first hop's address that only the parser makes. -/
def Short (fields : Fields) : Prop := fields.kind = .srs1 ∧ fields.name.count 61 < 3

theorem fed_near (codec : Codec) {found written : Fields} (near : Near found written) :
    codec.fed found = codec.fed written := by
  simp only [Codec.fed, List.flatMap_cons, near.kind, near.tt,
    lowerText_congr codec.table near.host, lowerText_congr codec.table near.name,
    lowerText_congr codec.table near.fwd]

theorem lowerByte_equals : ∀ byte : UInt8, lowerByte byte = 61 ↔ byte = 61 := by
  decide

theorem count_lower (text : Bytes) : (lower text).count 61 = text.count 61 := by
  induction text with
  | nil => rfl
  | cons byte rest ih =>
    change (lowerByte byte :: lower rest).count 61 = _
    rw [List.count_cons, List.count_cons, ih]
    simp only [beq_iff_eq, lowerByte_equals]

theorem count_fold (folds : lower text = lower other) : text.count 61 = other.count 61 := by
  rw [← count_lower, folds, count_lower]

theorem lead_tag (kind : Kind) : ∃ upper, lead kind = upper ++ [61] ∧ lower upper = kind.tag := by
  cases kind with
  | srs0 => exact ⟨ascii "SRS0", by decide, by decide⟩
  | srs1 => exact ⟨ascii "SRS1", by decide, by decide⟩

theorem tag_facts (kind : Kind) : lower kind.tag = kind.tag ∧ kind.tag.length = 4 ∧
    (∀ byte ∈ kind.tag, byte < 0x80) ∧ kind.tag.head? = some 115 := by
  cases kind with
  | srs0 | srs1 => decide

theorem opening_letter : ∀ byte : UInt8, lowerByte byte = 115 → Graphic byte ∧ byte ≠ 60 := by
  decide

variable (codec : Codec) {kind : Kind} {tag : Bytes} (tagged : lower tag = kind.tag)

theorem tag_length (tagged : lower tag = kind.tag) : tag.length = 4 := by
  have folds : lower tag = lower kind.tag := tagged.trans (tag_facts kind).1.symm
  rw [fold_length folds, (tag_facts kind).2.1]

include tagged in
theorem isSRS_tag (text : Bytes) : codec.isSRS (tag ++ 61 :: text) = true := by
  have folds : lower tag = lower kind.tag := tagged.trans (tag_facts kind).1.symm
  have four := tag_length tagged
  have front : (tag ++ 61 :: text).take 4 = tag := List.take_left' four
  have lowered : codec.table.lowerText tag = kind.tag := by
    rw [lowerText_fold codec.table folds (tag_facts kind).2.2.1, (tag_facts kind).1]
  have mark : (tag ++ 61 :: text)[4]? = some 61 := by
    rw [← four, List.getElem?_append_right (Nat.le_refl _), Nat.sub_self]
    rfl
  have long : 5 ≤ (tag ++ 61 :: text).length := by
    rw [List.length_append, List.length_cons]
    omega
  rw [Codec.isSRS, front, lowered, mark, decide_eq_true long]
  cases kind with
  | srs0 | srs1 => decide

include tagged in
theorem isSRS0_tag (text : Bytes) : isSRS0 (tag ++ 61 :: text) = decide (kind = .srs0) := by
  have front : (tag ++ 61 :: text).take 5 = tag ++ [61] := by
    have split : tag ++ 61 :: text = (tag ++ [61]) ++ text := by simp
    rw [split]
    exact List.take_left' (by simp [tag_length tagged])
  have lowered : lower (tag ++ [61]) = kind.tag ++ [61] := by
    rw [← tagged]
    simp only [lower, List.map_append]
    rfl
  rw [isSRS0, front, equalFold, lowered]
  cases kind with
  | srs0 | srs1 => decide

include tagged in
theorem drop_tag (text : Bytes) : (tag ++ 61 :: text).drop 5 = text := by
  have split : tag ++ 61 :: text = (tag ++ [61]) ++ text := by simp
  rw [split]
  exact List.drop_left' (by simp [tag_length tagged])

variable {hash : Bytes} (eight : hash.length = 8) (letters : ∀ byte ∈ hash, byte ∈ stampAlphabet)
  {written : Fields} (writable : Writable written)

/-- Text that differs from letters of the alphabet in case is read back. -/
theorem lowerText_letters (folds : lower text = lower other)
    (inside : ∀ byte ∈ other, byte ∈ stampAlphabet) : codec.table.lowerText text = other := by
  rw [lowerText_fold codec.table folds (letters_ascii inside), letters_lower inside]

include writable in
theorem near_found {kind : Kind} (same : written.kind = kind) {host name : Bytes}
    (hosts : lower host = lower written.host) (names : lower name = lower written.name)
    (fwds : lower fwd = lower written.fwd) :
    Near ⟨kind, written.tt, codec.table.lowerText host, name, codec.table.lowerText fwd⟩
      written := by
  constructor
  · exact same.symm
  · rfl
  · rw [lowerText_fold codec.table hosts (domain_ascii writable.host), lower_idem]
  · exact names
  · rw [lowerText_fold codec.table fwds (domain_ascii writable.fwd), lower_idem]

include eight letters writable in
theorem parse0_body (same : written.kind = .srs0) (folds : lower text = lower (body hash written))
    (fwds : lower fwd = lower written.fwd) :
    ∃ found, codec.parse0 text (codec.table.lowerText fwd) = some (hash, found) ∧
      Near found written := by
  have layout : body hash written =
      hash ++ 61 :: (written.tt ++ 61 :: (written.host ++ 61 :: written.name)) := by
    rw [body, same]
  rw [layout] at folds
  obtain ⟨hash', text, rfl, hashes, folds⟩ := fold_mark mark_equals folds
  obtain ⟨tt', text, rfl, stamps, folds⟩ := fold_mark mark_equals folds
  obtain ⟨host', name', rfl, hosts, names⟩ := fold_mark mark_equals folds
  have hashApart := not_mem_fold mark_equals hashes (letters_apart letters)
  have ttApart := not_mem_fold mark_equals stamps (letters_apart writable.letters)
  have hostApart := not_mem_fold mark_equals hosts (domain_apart writable.host).1
  have length : hash'.length = 8 := (fold_length hashes).trans eight
  have valid : validDomain host' = true := (validDomain_fold hosts).trans writable.host
  have named : name' ≠ [] := by
    intro empty
    apply writable.named same
    rw [empty] at names
    exact List.map_eq_nil_iff.mp names.symm
  refine ⟨_, ?_, near_found codec writable same hosts names fwds⟩
  rw [Codec.parse0, cut_append 61 _ _ hashApart]
  simp only [Option.bind_eq_bind, Option.bind_some, cut_append 61 _ _ ttApart,
    cut_append 61 _ _ hostApart, length, valid, named, lowerText_letters codec hashes letters,
    lowerText_letters codec stamps writable.letters]
  simp

include eight letters writable in
theorem parse1_body (same : written.kind = .srs1) (folds : lower text = lower (body hash written))
    (fwds : lower fwd = lower written.fwd) :
    ∃ found, Near found written ∧ codec.parse1 text (codec.table.lowerText fwd) =
      if written.name.count 61 < 3 then none else some (hash, found) := by
  have layout : body hash written =
      (hash ++ written.tt) ++ 61 :: (written.host ++ 61 :: 61 :: written.name) := by
    rw [body, same]
  rw [layout] at folds
  obtain ⟨check, text, rfl, checks, folds⟩ := fold_mark mark_equals folds
  obtain ⟨host', text, rfl, hosts, folds⟩ := fold_mark mark_equals folds
  obtain ⟨empty, name', rfl, empties, names⟩ := fold_mark mark_equals
    (show lower text = lower ([] ++ 61 :: written.name) from folds)
  obtain rfl : empty = [] := List.map_eq_nil_iff.mp empties
  obtain ⟨hash', tt', rfl, hashes, stamps⟩ := fold_append checks
  have bothLetters : ∀ byte ∈ hash ++ written.tt, byte ∈ stampAlphabet := by
    intro byte member
    exact (List.mem_append.mp member).elim (letters byte) (writable.letters byte)
  have checkApart := not_mem_fold mark_equals checks (letters_apart bothLetters)
  have hostApart := not_mem_fold mark_equals hosts (domain_apart writable.host).1
  have eight' : hash'.length = 8 := (fold_length hashes).trans eight
  have ten : (hash' ++ tt').length = 10 := by
    rw [List.length_append, eight', fold_length stamps, writable.stamped]
  have valid : validDomain host' = true := (validDomain_fold hosts).trans writable.host
  refine ⟨_, near_found codec writable same hosts names fwds, ?_⟩
  rw [Codec.parse1, cut_append 61 _ _ checkApart]
  simp only [Option.bind_eq_bind, Option.bind_some, ten, List.nil_append,
    cutDouble_append _ _ hostApart, valid, count_fold names, List.take_left' eight',
    List.drop_left' eight', lowerText_letters codec hashes letters,
    lowerText_letters codec stamps writable.letters]
  simp

include eight letters writable in
/-- Whatever the case of an issued address, the parser finds its check value and
fields, unless the rest is too short. -/
theorem parse_render {rcpt : Bytes} (folds : lower rcpt = lower (render hash written)) :
    ∃ found, Near found written ∧ (Short written → codec.parse rcpt = none) ∧
      (¬ Short written → codec.parse rcpt = some (hash, found)) := by
  obtain ⟨upper, leads, uppers⟩ := lead_tag written.kind
  have layout : render hash written = (upper ++ 61 :: body hash written) ++ 64 :: written.fwd := by
    rw [render, leads]
    simp
  rw [layout] at folds
  obtain ⟨front, fwd, rfl, fronts, fwds⟩ := fold_mark mark_at folds
  obtain ⟨tag, text, rfl, tags, texts⟩ := fold_mark mark_equals fronts
  have tagged : lower tag = written.kind.tag := tags.trans uppers
  have valid : validDomain fwd = true := (validDomain_fold fwds).trans writable.fwd
  have split : codec.splitAddr ((tag ++ 61 :: text) ++ 64 :: fwd) =
      some (tag ++ 61 :: text, fwd) := by
    cases tag with
    | nil => cases tag_length tagged
    | cons first rest =>
      have head := (tag_facts written.kind).2.2.2
      rw [← tagged] at head
      exact splitAddr_plain codec (rest ++ 61 :: text) fwd
        (opening_letter first (Option.some.inj head)) valid
  have parsed : codec.parse ((tag ++ 61 :: text) ++ 64 :: fwd) =
      if written.kind = .srs0 then codec.parse0 text (codec.table.lowerText fwd)
      else codec.parse1 text (codec.table.lowerText fwd) := by
    rw [Codec.parse, split]
    simp only [Option.bind_eq_bind, Option.bind_some, isSRS_tag codec tagged, isSRS0_tag tagged,
      drop_tag tagged]
    simp
  rw [parsed]
  cases same : written.kind with
  | srs0 =>
    obtain ⟨found, result, near⟩ := parse0_body codec eight letters writable same texts fwds
    have whole : ¬ Short written := fun short => by
      rw [Short, same] at short
      cases short.1
    exact ⟨found, near, fun short => absurd short whole, fun _ => result⟩
  | srs1 =>
    obtain ⟨found, near, result⟩ := parse1_body codec eight letters writable same texts fwds
    rw [if_neg (by decide), result]
    exact ⟨found, near, fun short => if_pos short.2,
      fun whole => if_neg fun few => whole ⟨same, few⟩⟩

end Parsing

section Origins

/-- The fields hold a sender that is not of the scheme, or what a sender of the
scheme carries. -/
inductive Holds (codec : Codec) (name domain : Bytes) (fields : Fields) (hop : Bytes) : Prop where
  | plain (foreign : codec.isSRS name = false) (kind : fields.kind = .srs0)
      (named : fields.name = name) (hosted : hop = domain)
  | wrapped (scheme : codec.isSRS name = true) (kind : fields.kind = .srs1)
      (contents : carried name domain = some (hop, fields.name))

structure Origin (codec : Codec) (day : Nat) (sender : Bytes) (fields : Fields)
    (name domain hop : Bytes) : Prop where
  split : codec.splitAddr sender = some (name, domain)
  allowed : validLocal name = true
  stamped : fields.tt = stamp day
  valid : validDomain hop = true
  host : fields.host = codec.table.lowerText hop
  fwd : validDomain fields.fwd = true
  holds : Holds codec name domain fields hop

variable {codec : Codec} {day : Nat} {sender fwdDomain : Bytes} {fields : Fields}

theorem wrap_some {name domain : Bytes} (valid : validDomain domain = true)
    (wrapped : codec.wrap day name (codec.table.lowerText domain) fwd = some fields) :
    ∃ hop, carried name domain = some (hop, fields.name) ∧ validDomain hop = true ∧
      fields.host = codec.table.lowerText hop ∧ fields.kind = .srs1 ∧
      fields.tt = stamp day ∧ fields.fwd = fwd := by
  rw [Codec.wrap] at wrapped
  split at wrapped
  next first =>
    cases wrapped
    exact ⟨domain, by rw [carried, if_pos first], valid, rfl, rfl, rfl, rfl⟩
  next later =>
    simp only [Option.bind_eq_bind, Option.bind_eq_some_iff] at wrapped
    obtain ⟨⟨hash, tail⟩, cutHash, ⟨hop, rest⟩, cutHop, checked⟩ := wrapped
    split at checked
    next => cases checked
    next accepted =>
      cases checked
      have sound : validDomain hop = true ∧ rest ≠ [] := by simpa using accepted
      have contents : carried name domain = some (hop, rest) := by
        rw [carried, if_neg later, cutHash]
        exact cutHop
      exact ⟨hop, contents, sound.1, rfl, rfl, rfl, rfl⟩

theorem issue_origin (issued : codec.issue day sender fwdDomain = some fields) :
    ∃ name domain hop, Origin codec day sender fields name domain hop := by
  rw [Codec.issue] at issued
  simp only [Option.bind_eq_bind, Option.bind_eq_some_iff] at issued
  obtain ⟨⟨name, domain⟩, split, checked⟩ := issued
  split at checked
  next => cases checked
  next accepted =>
    simp only [Bool.or_eq_true, Bool.not_eq_true', not_or, Bool.not_eq_false] at accepted
    obtain ⟨⟨allowed, valid⟩, fwd⟩ := accepted
    cases scheme : codec.isSRS name with
    | false =>
      rw [if_neg (by rw [scheme]; decide)] at checked
      cases checked
      exact ⟨name, domain, domain, split, allowed, rfl, valid, rfl, fwd, .plain scheme rfl rfl rfl⟩
    | true =>
      rw [if_pos scheme] at checked
      obtain ⟨hop, contents, hopValid, host, kind, stamped, same⟩ := wrap_some valid checked
      exact ⟨name, domain, hop, split, allowed, stamped, hopValid, host, same ▸ fwd,
        .wrapped scheme kind contents⟩

variable {name domain hop : Bytes} (origin : Origin codec day sender fields name domain hop)
include origin

theorem Origin.host_lower : fields.host = lower hop :=
  origin.host.trans (domain_lowered codec.table origin.valid)

theorem Origin.writable : Writable fields := by
  constructor
  · rw [origin.stamped]
    rfl
  · rw [origin.stamped]
    exact stamp_letters
  · rw [origin.host_lower, validDomain_lower]
    exact origin.valid
  · exact origin.fwd
  intro kind
  cases origin.holds with
  | plain foreign same named hosted =>
    rw [named]
    intro empty
    have allowed := origin.allowed
    rw [empty] at allowed
    cases allowed
  | wrapped scheme same contents =>
    rw [same] at kind
    cases kind

theorem Origin.reversible_iff : codec.Reversible sender ↔ ¬ Short fields := by
  cases origin.holds with
  | plain foreign kind named hosted =>
    constructor
    · intro _ short
      rw [Short, kind] at short
      cases short.1
    intro _ name' domain' _ _ split scheme
    rw [origin.split] at split
    cases split
    rw [foreign] at scheme
    cases scheme
  | wrapped scheme kind contents =>
    constructor
    · intro reversible short
      have enough := reversible name domain hop fields.name origin.split scheme contents
      exact absurd short.2 (Nat.not_lt.mpr enough)
    intro whole name' domain' hop' rest split _ contents'
    rw [origin.split] at split
    cases split
    rw [contents] at contents'
    cases contents'
    exact Nat.not_lt.mp fun few => whole ⟨kind, few⟩

theorem Origin.recovered {found : Fields} (near : Near found fields) :
    ∃ target, codec.bounceAddress sender = some target ∧ lower (recovered found) =
      lower target := by
  have hosts : lower found.host = lower hop := by
    rw [near.host, origin.host_lower, lower_idem]
  cases origin.holds with
  | plain foreign kind named hosted =>
    have target : codec.bounceAddress sender = some (name ++ 64 :: domain) := by
      rw [Codec.bounceAddress, origin.split]
      simp [foreign]
    have result : Srs.recovered found = found.name ++ 64 :: found.host := by
      rw [Srs.recovered, near.kind, kind]
    refine ⟨_, target, ?_⟩
    rw [result, lower_address, lower_address, hosts, near.name, named, hosted]
  | wrapped scheme kind contents =>
    have target : codec.bounceAddress sender =
        some (ascii "SRS0=" ++ (fields.name ++ 64 :: hop)) := by
      rw [Codec.bounceAddress, origin.split]
      simp [scheme, contents]
    have result : Srs.recovered found = ascii "SRS0=" ++ (found.name ++ 64 :: found.host) := by
      rw [Srs.recovered, near.kind, kind]
    refine ⟨_, target, ?_⟩
    rw [result, lower_append (ascii "SRS0="), lower_append (ascii "SRS0="), lower_address,
      lower_address, hosts,
      near.name]

end Origins

section RoundTrip

variable (codec : Codec)

/-- An issued address is refused when the rest is too short, and is otherwise
reversed while it is young, to the fields that were written. -/
theorem reverse_issued {day : Nat} {sender fwdDomain : Bytes} {fields : Fields}
    (issued : codec.issue day sender fwdDomain = some fields) {rcpt : Bytes}
    (folds : lower rcpt = lower (render (codec.mac fields) fields)) (later : Nat) :
    ∃ found, Near found fields ∧ (Short fields → codec.reverse later rcpt = none) ∧
      (¬ Short fields → codec.reverse later rcpt =
        if codec.fresh later (stamp day) then some (recovered found) else none) := by
  obtain ⟨name, domain, hop, origin⟩ := issue_origin issued
  obtain ⟨found, near, refused, parsed⟩ := parse_render codec (codec.checkLength _)
    (codec.checkLetters _) origin.writable folds
  have macs : codec.mac found = codec.mac fields := by
    rw [Codec.mac, Codec.mac, fed_near codec near]
  refine ⟨found, near, ?_, ?_⟩
  · intro short
    rw [Codec.reverse, refused short]
    rfl
  intro whole
  rw [Codec.reverse, parsed whole]
  change (if codec.mac fields = codec.mac found ∧ codec.fresh later found.tt = true then
    some (recovered found) else none) = _
  simp only [macs, near.tt, origin.stamped, true_and]

/-- An address that `Forward` returned is reversed, in whatever case and exactly
while it is young, to where the bounce must go, if and only if its sender is not
of the scheme or carries the three separators of a first hop's address. -/
theorem forward_reverse_iff (day : Nat) (sender fwdDomain address : Bytes)
    (forwarded : codec.forward day sender fwdDomain = some address) :
    codec.RoundTrips day sender address ↔ codec.Reversible sender := by
  obtain ⟨fields, issued, rfl⟩ := Option.map_eq_some_iff.mp forwarded
  obtain ⟨name, domain, hop, origin⟩ := issue_origin issued
  rw [origin.reversible_iff]
  constructor
  · intro trips short
    -- on the day of issue the address is young, yet it is refused
    obtain ⟨_, _, refused, _⟩ := reverse_issued codec issued rfl day
    have young := (trips day (Nat.le_refl day) _ rfl).1.mpr (by simp)
    rw [refused short] at young
    cases young
  · intro whole later order rcpt folds
    obtain ⟨found, near, _, reversed⟩ := reverse_issued codec issued folds later
    rw [reversed whole, ← fresh_stamp codec order]
    constructor
    · cases codec.fresh later (stamp day) with
      | true => simp
      | false => simp
    · intro result found
      split at found
      next => cases found; exact origin.recovered near
      next => cases found

end RoundTrip

/-! A codec to evaluate: ASCII case, and the two characters outside ASCII whose
lower case is in it. -/

def sampleTable : CaseTable where
  toLower rune :=
    if 65 ≤ rune ∧ rune ≤ 90 then rune + 32
    else if rune = 0x212A then 107 else if rune = 0x130 then 105 else rune
  ascii := by decide
  visible rune zero := by
    split at zero
    next => cases zero
    next =>
      split at zero
      next => cases zero
      next =>
        split at zero
        next => cases zero
        next => exact zero

def blank (byte : UInt8) : Bool := byte == 32 || 9 ≤ byte && byte ≤ 13

def trimBlanks (text : Bytes) : Bytes :=
  ((text.dropWhile blank).reverse.dropWhile blank).reverse

theorem graphic_not_blank : ∀ byte : UInt8, Graphic byte → blank byte = false := by
  decide

theorem dropWhile_graphic (text : Bytes)
    (opens : ∀ byte, text.head? = some byte → Graphic byte) : text.dropWhile blank = text := by
  cases text with
  | nil => rfl
  | cons byte rest => simp [graphic_not_blank byte (opens byte rfl)]

def sampleHash (message : Bytes) : Nat :=
  message.foldl (fun sum byte => (sum * 257 + byte.toNat + 1) % 1099511627776) 7

def sampleCodec : Codec where
  table := sampleTable
  trimSpace := trimBlanks
  trimmed text opens closes := by
    rw [trimBlanks, dropWhile_graphic text opens, dropWhile_graphic text.reverse,
      List.reverse_reverse]
    intro byte head
    exact closes byte (by rw [← head, List.head?_reverse])
  check message := (List.range 8).map fun index =>
    stampAlphabet.getD (sampleHash message / 32 ^ index % 32) 0
  checkLength message := by simp
  checkLetters message byte member := by
    obtain ⟨index, _, rfl⟩ := List.mem_map.mp member
    exact letter_mem _ (Nat.mod_lt _ (by decide))
  maxAge := 21

/-- A plain sender, on the last day of the window and on the next. -/
theorem forward_reverse_plain :
    (sampleCodec.RoundTrips 20000 (ascii "kim@a.org") (ascii "SRS0=o35glkbh=ra=a.org=kim@f.org") ↔
      sampleCodec.Reversible (ascii "kim@a.org")) ∧
      sampleCodec.reverse 20021 (ascii "srs0=O35GLKBH=RA=a.org=kim@F.org") =
        some (ascii "kim@a.org") ∧
      sampleCodec.reverse 20022 (ascii "SRS0=o35glkbh=ra=a.org=kim@f.org") = none := by
  have forwarded : sampleCodec.forward 20000 (ascii "kim@a.org") (ascii "f.org") =
      some (ascii "SRS0=o35glkbh=ra=a.org=kim@f.org") := by
    decide
  refine ⟨forward_reverse_iff sampleCodec 20000 (ascii "kim@a.org") (ascii "f.org") _ forwarded,
    ?_, ?_⟩
  · decide
  · decide

theorem refused_on_day :
    sampleCodec.reverse 20000 (ascii "SRS1=e5kgfbfera=a.org==x@f.org") = none := by
  decide

/-- `Forward` wraps this sender, and `Reverse` refuses the address at once. -/
theorem short_rest_never_reverses :
    sampleCodec.forward 20000 (ascii "SRS0=x@a.org") (ascii "f.org") =
        some (ascii "SRS1=e5kgfbfera=a.org==x@f.org") ∧
      sampleCodec.bounceAddress (ascii "SRS0=x@a.org") = some (ascii "SRS0=x@a.org") ∧
      sampleCodec.reverse 20000 (ascii "SRS1=e5kgfbfera=a.org==x@f.org") = none ∧
      ¬ sampleCodec.RoundTrips 20000 (ascii "SRS0=x@a.org")
        (ascii "SRS1=e5kgfbfera=a.org==x@f.org") := by
  refine ⟨by decide, by decide, refused_on_day, ?_⟩
  intro trips
  have young := (trips 20000 (Nat.le_refl _) _ rfl).1.mpr
    (by rw [Nat.sub_self]; exact Nat.zero_le _)
  rw [refused_on_day] at young
  cases young

end Bongo.Srs
