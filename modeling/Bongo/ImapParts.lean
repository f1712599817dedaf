import Bongo.Runes

/-!
The parts of a multipart message over IMAP. BODYSTRUCTURE lists the text body and the HTML
body only if they are not empty, and the attachments after them; BODY[k] has a fixed place for
each of the two bodies. `Source` names what a child was made of and what a number is served
from, so that the two numberings can be compared.
-/

namespace Bongo.ImapParts

open ByteKeys Runes

structure Attachment where
  contentType : Bytes
  content : Bytes
  deriving DecidableEq

structure Envelope where
  contentType : Bytes
  text : Bytes
  html : Bytes
  attachments : List Attachment
  deriving DecidableEq

structure SinglePart where
  type : Bytes
  subtype : Bytes
  size : UInt32
  deriving DecidableEq

inductive BodyStructure where
  | single (part : SinglePart)
  | multi (children : List SinglePart) (subtype : Bytes)
  deriving DecidableEq

def clampUint32 (length : Nat) : UInt32 :=
  if 4294967295 < length then 4294967295 else length.toUInt32

/-- The media type of the header, in lower case; without one, or without a slash in it, it is
`text/plain`. -/
def mediaType (table : CaseTable) (header : Bytes) : Bytes × Bytes :=
  let contentType := if header = [] then ascii "text/plain" else header
  let media := trimSpace (((cut 59 contentType).map Prod.fst).getD contentType)
  match cut 47 media with
  | some (main, sub) => (table.lowerText main, table.lowerText sub)
  | none => (ascii "text", ascii "plain")

def attachmentPart (attachment : Attachment) : SinglePart :=
  let kind := (cut 47 attachment.contentType).getD (ascii "application", ascii "octet-stream")
  ⟨kind.1, kind.2, clampUint32 attachment.content.length⟩

def buildChildren (env : Envelope) : List SinglePart :=
  let text := if env.text ≠ [] then
    [⟨ascii "text", ascii "plain", clampUint32 env.text.length⟩] else []
  let html := if env.html ≠ [] then
    [⟨ascii "text", ascii "html", clampUint32 env.html.length⟩] else []
  let children := text ++ html ++ env.attachments.map attachmentPart
  if children = [] then [⟨ascii "text", ascii "plain", 0⟩] else children

/-- A message that does not parse is one text. -/
def buildBodyStructure (table : CaseTable) (rawLength : Nat) : Option Envelope → BodyStructure
  | none => .single ⟨ascii "text", ascii "plain", clampUint32 rawLength⟩
  | some env =>
    let media := mediaType table env.contentType
    if media.1 = ascii "multipart" then .multi (buildChildren env) media.2
    else .single ⟨media.1, media.2, clampUint32 rawLength⟩

def extractMIMEPart (parsed : Option Envelope) (partPath : List Int) : Option Bytes :=
  match parsed, partPath with
  | some env, [1] => some env.text
  | some env, [2] => some env.html
  | some env, [number] =>
    if 0 ≤ number - 3 then (env.attachments[(number - 3).toNat]?).map Attachment.content
    else none
  | _, _ => none

/-- The content of BODY[path]; where there is none it is empty. -/
def bodySection (parsed : Option Envelope) (partPath : List Int) : Bytes :=
  (extractMIMEPart parsed partPath).getD []

section Sources

inductive Source where
  | text
  | html
  | attachment (index : Nat)
  deriving DecidableEq

variable (env : Envelope)

def Source.content : Source → Option Bytes
  | .text => some env.text
  | .html => some env.html
  | .attachment index => (env.attachments[index]?).map Attachment.content

def described : List Source :=
  let listed := (if env.text ≠ [] then [.text] else []) ++
    (if env.html ≠ [] then [.html] else []) ++ (List.range env.attachments.length).map .attachment
  if listed = [] then [.text] else listed

def served (number : Nat) : Source :=
  if number = 1 then .text else if number = 2 then .html else .attachment (number - 3)

def partOf (env : Envelope) : Source → Option SinglePart
  | .text => some ⟨ascii "text", ascii "plain", clampUint32 env.text.length⟩
  | .html => some ⟨ascii "text", ascii "html", clampUint32 env.html.length⟩
  | .attachment index => (env.attachments[index]?).map attachmentPart

/-- The structure's children are those of the listed sources, in order. -/
theorem buildChildren_described :
    (described env).map (partOf env) = (buildChildren env).map some := by
  have attached : ((List.range env.attachments.length).map Source.attachment).map (partOf env) =
      (env.attachments.map attachmentPart).map some := by
    apply List.ext_getElem?
    intro index
    rw [List.getElem?_map, List.getElem?_map, List.getElem?_map, List.getElem?_map]
    by_cases inside : index < env.attachments.length
    · rw [List.getElem?_range inside, List.getElem?_eq_getElem inside]
      simp [partOf, List.getElem?_eq_getElem inside]
    · rw [List.getElem?_eq_none (by simpa using inside),
        List.getElem?_eq_none (not_lt.mp inside)]
      rfl
  unfold described buildChildren
  by_cases text : env.text = []
  · by_cases html : env.html = []
    · by_cases none : env.attachments = []
      · simp [text, html, none, partOf, clampUint32]
      · simp only [text, html, ne_eq, not_true_eq_false, if_false, List.nil_append]
        rw [if_neg (by simpa using none), if_neg (by simpa using none), attached]
    · simp only [text, html, ne_eq, not_true_eq_false, not_false_eq_true, if_false, if_true,
        List.nil_append, List.cons_append, List.map_cons, attached, reduceCtorEq]
      rfl
  · by_cases html : env.html = []
    · simp only [text, html, ne_eq, not_true_eq_false, not_false_eq_true, if_false, if_true,
        List.nil_append, List.cons_append, List.map_cons, attached, reduceCtorEq]
      rfl
    · simp only [text, html, ne_eq, not_false_eq_true, if_true, List.nil_append,
        List.cons_append, List.map_cons, attached, reduceCtorEq, if_false]
      rfl

theorem extract_served (number : Nat) (positive : 0 < number) :
    extractMIMEPart (some env) [(number : Int)] = (served number).content env := by
  unfold served
  split
  case isTrue one => subst one; rfl
  case isFalse other =>
    split
    case isTrue two => subst two; rfl
    case isFalse more =>
      obtain ⟨index, rfl⟩ : ∃ index, number = index + 3 := ⟨number - 3, by omega⟩
      have place : (((index + 3 : Nat) : Int) - 3).toNat = index := by omega
      unfold extractMIMEPart
      split
      case h_1 same => simp at same; omega
      case h_2 same => simp at same; omega
      case h_3 found same =>
        cases found
        obtain rfl := (List.cons.inj same).1
        rw [if_pos (by omega), place]
        rfl
      case h_4 unmatched => exact absurd rfl (unmatched env _ rfl)

end Sources

section Numbering

variable (env : Envelope)

/-- Each child's number gives what the child describes, in the size it has there, and each
attachment has one number. -/
structure Agree : Prop where
  parts : ∀ (number : Nat) (source : Source) (child : SinglePart),
    (described env)[number]? = some source → (buildChildren env)[number]? = some child →
      some (bodySection (some env) [((number + 1 : Nat) : Int)]) = source.content env ∧
        (bodySection (some env) [((number + 1 : Nat) : Int)]).length = child.size.toNat
  reached : ∀ index < env.attachments.length,
    ∃! number, 0 < number ∧ number ≤ (buildChildren env).length ∧ served number = .attachment index

/-- Both bodies are there, or neither an HTML body nor an attachment is; and the size of every
part fits its field. -/
structure Fits : Prop where
  bodies : (env.text ≠ [] ∧ env.html ≠ []) ∨ (env.attachments = [] ∧ env.html = [])
  text : env.text.length ≤ 4294967295
  html : env.html.length ≤ 4294967295
  attachments : ∀ attachment ∈ env.attachments, attachment.content.length ≤ 4294967295

theorem described_length : (described env).length = (buildChildren env).length := by
  have lengths := congrArg List.length (buildChildren_described env)
  simpa using lengths

variable {source : Source} {number : Nat}

theorem partOf_child {child : SinglePart} (listed : (described env)[number]? = some source)
    (built : (buildChildren env)[number]? = some child) : partOf env source = some child := by
  have same := congrArg (fun parts => parts[number]?) (buildChildren_described env)
  simp only [List.getElem?_map, listed, built] at same
  exact Option.some.inj same

theorem clampUint32_toNat (length : Nat) : (clampUint32 length).toNat = min length 4294967295 := by
  unfold clampUint32
  split
  case isTrue big => rw [Nat.min_eq_right (le_of_lt big)]; rfl
  case isFalse small =>
    rw [Nat.min_eq_left (not_lt.mp small)]
    exact UInt32.toNat_ofNat_of_lt' (by simp [UInt32.size]; omega)

variable {content : Bytes}

/-- The size of a child is the length of what it describes, as far as the field goes. -/
theorem size_content {child : SinglePart} (part : partOf env source = some child)
    (found : source.content env = some content) :
    child.size.toNat = min content.length 4294967295 := by
  cases source with
  | text | html =>
    cases part
    cases found
    exact clampUint32_toNat _
  | attachment index =>
    obtain ⟨attachment, stored, rfl⟩ := Option.map_eq_some_iff.mp part
    obtain ⟨same, again, rfl⟩ := Option.map_eq_some_iff.mp found
    cases stored.symm.trans again
    exact clampUint32_toNat _

theorem content_described (listed : source ∈ described env) :
    ∃ content, source.content env = some content := by
  have built : partOf env source ∈ (buildChildren env).map some := by
    rw [← buildChildren_described]
    exact List.mem_map_of_mem listed
  obtain ⟨child, -, same⟩ := List.mem_map.mp built
  cases source with
  | text | html => exact ⟨_, rfl⟩
  | attachment index =>
    obtain ⟨attachment, stored, -⟩ := Option.map_eq_some_iff.mp same.symm
    exact ⟨attachment.content, by rw [Source.content, stored]; rfl⟩

/-- Where the bodies are as they should be, each child stands at the place it is served
from. -/
theorem described_served
    (bodies : (env.text ≠ [] ∧ env.html ≠ []) ∨ (env.attachments = [] ∧ env.html = []))
    (listed : (described env)[number]? = some source) : served (number + 1) = source := by
  rcases bodies with ⟨text, html⟩ | ⟨none, html⟩
  · have all : described env =
        .text :: .html :: (List.range env.attachments.length).map .attachment := by
      simp [described, text, html]
    rw [all] at listed
    match number with
    | 0 | 1 => exact Option.some.inj listed
    | index + 2 =>
      rw [List.getElem?_cons_succ, List.getElem?_cons_succ, List.getElem?_map] at listed
      obtain ⟨place, inside, rfl⟩ := Option.map_eq_some_iff.mp listed
      have value : index = place := by
        obtain ⟨bound, same⟩ := List.getElem?_eq_some_iff.mp inside
        rwa [List.getElem_range] at same
      rw [← value]
      rfl
  · have only : described env = [.text] := by
      by_cases text : env.text = [] <;> simp [described, text, none, html]
    rw [only] at listed
    match number with
    | 0 => exact Option.some.inj listed
    | index + 1 => cases listed

theorem Fits.length_le {env : Envelope} (fits : Fits env)
    (found : source.content env = some content) : content.length ≤ 4294967295 := by
  cases source with
  | text => exact Option.some.inj found ▸ fits.text
  | html => exact Option.some.inj found ▸ fits.html
  | attachment index =>
    obtain ⟨attachment, stored, rfl⟩ := Option.map_eq_some_iff.mp found
    exact fits.attachments attachment (List.mem_of_getElem? stored)

theorem served_attachment {index : Nat} (positive : 0 < number)
    (same : served number = .attachment index) : number = index + 3 := by
  unfold served at same
  split at same
  case isTrue => cases same
  case isFalse =>
    split at same
    case isTrue => cases same
    case isFalse => cases same; omega

theorem agree_of_fits (fits : Fits env) : Agree env where
  parts number source child listed built := by
    obtain ⟨content, found⟩ := content_described env (List.mem_of_getElem? listed)
    have body : bodySection (some env) [((number + 1 : Nat) : Int)] = content := by
      rw [bodySection, extract_served env _ (Nat.succ_pos number),
        described_served env fits.bodies listed, found]
      rfl
    rw [body, size_content env (partOf_child env listed built) found,
      Nat.min_eq_left (fits.length_le found)]
    exact ⟨found.symm, rfl⟩
  reached index inside := by
    rcases fits.bodies with ⟨text, html⟩ | ⟨none, -⟩
    · have size : (buildChildren env).length = env.attachments.length + 2 := by
        rw [← described_length]
        simp [described, text, html]
      refine ⟨index + 3, ⟨by omega, by omega, rfl⟩, ?_⟩
      rintro other ⟨positive, -, same⟩
      exact served_attachment positive same
    · rw [none] at inside
      cases inside

/-- A listed source whose part has its own length is not longer than the field. -/
theorem Agree.length_le {env : Envelope} (agree : Agree env) (listed : source ∈ described env)
    (found : source.content env = some content) : content.length ≤ 4294967295 := by
  obtain ⟨number, inside, rfl⟩ := List.getElem_of_mem listed
  have place := List.getElem?_eq_getElem inside
  have built := List.getElem?_eq_getElem (described_length env ▸ inside)
  obtain ⟨same, size⟩ := agree.parts number _ _ place built
  rw [found] at same
  rw [Option.some.inj same, size_content env (partOf_child env place built) found] at size
  omega

theorem fits_of_agree (agree : Agree env) : Fits env := by
  constructor
  case bodies =>
    by_cases none : env.attachments = []
    · by_cases html : env.html = []
      · exact Or.inr ⟨none, html⟩
      by_cases text : env.text = []
      · -- The only child is the HTML body, and BODY[1] is the empty text.
        have only : described env = [.html] := by simp [described, text, html, none]
        have built : (buildChildren env)[0]? =
            some ⟨ascii "text", ascii "html", clampUint32 env.html.length⟩ := by
          simp [buildChildren, text, html]
        have wrong := (agree.parts 0 .html _ (by rw [only]; rfl) built).1
        exact absurd ((Option.some.inj wrong).symm.trans text) html
      · exact Or.inl ⟨text, html⟩
    · -- The last attachment is served at its index plus three.
      have positive : 0 < env.attachments.length := List.length_pos_iff.mpr none
      obtain ⟨number, ⟨above, within, same⟩, -⟩ :=
        agree.reached (env.attachments.length - 1) (by omega)
      have place := served_attachment above same
      rw [← described_length] at within
      refine Or.inl ⟨fun text => ?_, fun html => ?_⟩
      · have shorter : (described env).length ≤ env.attachments.length + 1 := by
          by_cases html : env.html = [] <;> simp [described, text, html, none]
        omega
      · have shorter : (described env).length ≤ env.attachments.length + 1 := by
          by_cases text : env.text = [] <;> simp [described, text, html, none]
        omega
  case text =>
    by_cases text : env.text = []
    · rw [text]
      exact Nat.zero_le _
    · exact agree.length_le (show Source.text ∈ described env by simp [described, text]) rfl
  case html =>
    by_cases html : env.html = []
    · rw [html]
      exact Nat.zero_le _
    · exact agree.length_le (show Source.html ∈ described env by simp [described, html]) rfl
  case attachments =>
    intro attachment member
    obtain ⟨index, inside, rfl⟩ := List.getElem_of_mem member
    have listed : Source.attachment index ∈ described env := by
      have some : env.attachments ≠ [] := List.ne_nil_of_mem member
      simp [described, some, inside]
    refine agree.length_le listed ?_
    rw [Source.content, List.getElem?_eq_getElem inside]
    rfl

/-- For a message that parsed as a multipart, the numbers of BODYSTRUCTURE and of BODY[k]
agree exactly where the bodies and sizes fit. -/
theorem numbering_agrees_iff (table : CaseTable) (rawLength : Nat) (children : List SinglePart)
    (subtype : Bytes)
    (multipart : buildBodyStructure table rawLength (some env) = .multi children subtype) :
    children = buildChildren env ∧ (Agree env ↔ Fits env) := by
  refine ⟨?_, fits_of_agree env, agree_of_fits env⟩
  simp only [buildBodyStructure] at multipart
  split at multipart
  case isTrue => exact (BodyStructure.multi.inj multipart).1.symm
  case isFalse => cases multipart

def mixed (text html : Bytes) : Envelope where
  contentType := ascii "multipart/mixed; boundary=b"
  text := text
  html := html
  attachments := [⟨ascii "image/png", ascii "PNG"⟩]

/-- A text and one attachment: the second child is the attachment, BODY[2] is empty. -/
theorem attachment_served_empty :
    (buildChildren (mixed (ascii "hello") []))[1]? = some ⟨ascii "image", ascii "png", 3⟩ ∧
      bodySection (some (mixed (ascii "hello") [])) [2] = [] := by
  decide

theorem numbering_agrees_iff_both_bodies :
    Agree (mixed (ascii "hello") (ascii "<p>")) := by
  refine ((numbering_agrees_iff (mixed (ascii "hello") (ascii "<p>")) asciiFolds.toCaseTable 99
    (buildChildren (mixed (ascii "hello") (ascii "<p>"))) (ascii "mixed")
    (by decide)).2).mpr ⟨Or.inl ⟨by decide, by decide⟩, by decide, by decide, ?_⟩
  decide

end Numbering

end Bongo.ImapParts
