import Bongo.Acl
import Bongo.ByteSearch

/-!
The keys of a grant. Escaping is undone by unescaping and leaves no slash, so
both keys of a grant parse back to it, and a scan of a resource, an owner or a
grantee finds the keys of its grants and no others.
-/

namespace Bongo.Acl

set_option maxRecDepth 100000

open ByteKeys

structure Named (ref : GrantRef) : Prop where
  kind : ref.kind ∈ aclKinds
  owner : ref.owner ≠ []
  resource : ref.resource ≠ []
  grantee : ref.grantee ≠ []

theorem plainByte_facts : ∀ byte : UInt8, plainByte byte = true → byte ≠ 37 ∧ byte ≠ 47 := by
  decide

theorem hexDigit_facts : ∀ byte : UInt8, hexDigit (byte / 16) ≠ 47 ∧ hexDigit (byte % 16) ≠ 47 := by
  decide

theorem unhex_digits : ∀ byte : UInt8, unhex (hexDigit (byte / 16)) = some (byte / 16) ∧
      unhex (hexDigit (byte % 16)) = some (byte % 16) ∧ byte / 16 * 16 + byte % 16 = byte := by
  decide

theorem escSeg_cons (byte : UInt8) (rest : Bytes) :
    escSeg (byte :: rest) =
      (if plainByte byte then [byte] else [37, hexDigit (byte / 16), hexDigit (byte % 16)]) ++
        escSeg rest := rfl

theorem escSeg_plain (segment : Bytes) : (47 : UInt8) ∉ escSeg segment := by
  induction segment with
  | nil => exact List.not_mem_nil
  | cons byte rest ih =>
    rw [escSeg_cons, List.mem_append, not_or]
    refine ⟨?_, ih⟩
    split
    next plain =>
      intro member
      exact (plainByte_facts byte plain).2 (List.mem_singleton.mp member).symm
    next =>
      obtain ⟨high, low⟩ := hexDigit_facts byte
      simp [Ne.symm high, Ne.symm low]

theorem pathUnescape_escSeg (segment : Bytes) : pathUnescape (escSeg segment) = some segment := by
  induction segment with
  | nil => rfl
  | cons byte rest ih =>
    rw [escSeg_cons]
    split
    next plain =>
      have other := (plainByte_facts byte plain).1
      rw [List.singleton_append, pathUnescape, if_neg other, ih]
      · rfl
      · intro high low tail same
        exact absurd same other
    next =>
      obtain ⟨high, low, whole⟩ := unhex_digits byte
      simp only [List.cons_append, List.nil_append, pathUnescape, high, low, ih,
        Option.bind_eq_bind, Option.bind_some, whole]
      rfl

theorem segment_escSeg {text : Bytes} (nonempty : text ≠ []) :
    segment (escSeg text) = some text := by
  rw [segment, pathUnescape_escSeg]
  simp [nonempty]

theorem escSeg_inj : Function.Injective escSeg := by
  intro left right same
  have read := congrArg pathUnescape same
  rw [pathUnescape_escSeg, pathUnescape_escSeg] at read
  exact Option.some.inj read

theorem kind_plain {kind : Bytes} (known : kind ∈ aclKinds) : (47 : UInt8) ∉ kind := by
  rw [aclKinds, List.mem_singleton] at known
  rw [known]
  decide

section Parsing

variable {ref : GrantRef}

theorem readRef_named (named : Named ref) :
    readRef ref.kind (escSeg ref.owner) (escSeg ref.resource) (ascii "u:" ++ escSeg ref.grantee) =
      some ref := by
  have lead : hasPrefix (ascii "u:" ++ escSeg ref.grantee) (ascii "u:") = true := by
    rw [hasPrefix_iff]
    exact List.prefix_append _ _
  have known : aclKinds.contains ref.kind = true := List.contains_iff_mem.mpr named.kind
  simp only [readRef, lead, known, Bool.and_self, if_true, trimPrefix_append,
    segment_escSeg named.owner, segment_escSeg named.resource, segment_escSeg named.grantee,
    Option.bind_eq_bind, Option.bind_some]
  rfl

theorem user_plain (text : Bytes) : (47 : UInt8) ∉ ascii "u:" ++ escSeg text := by
  rw [List.mem_append, not_or]
  exact ⟨by decide, escSeg_plain text⟩

theorem forwardKey_eq (ref : GrantRef) : ref.forwardKey =
    ascii "/acl/" ++ (ref.kind ++ 47 :: (escSeg ref.owner ++ 47 :: (escSeg ref.resource ++
      47 :: (ascii "u:" ++ escSeg ref.grantee)))) := by
  simp [GrantRef.forwardKey, aclKey, ascii]

theorem reverseKey_eq (ref : GrantRef) : ref.reverseKey =
    ascii "/aclrev/" ++ ((ascii "u:" ++ escSeg ref.grantee) ++ 47 :: (ref.kind ++
      47 :: (escSeg ref.owner ++ 47 :: escSeg ref.resource))) := by
  simp [GrantRef.reverseKey, aclRevKey, ascii]

theorem parse_forwardKey (named : Named ref) : parseACLKey ref.forwardKey = some ref := by
  rw [forwardKey_eq, parseACLKey, if_pos (by rw [hasPrefix_iff]; exact List.prefix_append _ _),
    trimPrefix_append, List.splitOn_append_cons_self_of_not_mem (kind_plain named.kind),
    List.splitOn_append_cons_self_of_not_mem (escSeg_plain _),
      List.splitOn_append_cons_self_of_not_mem (escSeg_plain _),
    List.splitOn_eq_singleton (user_plain _)]
  exact readRef_named named

theorem forward_lead (tail : Bytes) :
    hasPrefix (ascii "/aclrev/" ++ tail) (ascii "/acl/") = false := by
  rw [Bool.eq_false_iff, ne_eq, hasPrefix_iff]
  rintro ⟨rest, same⟩
  simp [ascii] at same

theorem parse_reverseKey (named : Named ref) : parseACLKey ref.reverseKey = some ref := by
  rw [reverseKey_eq, parseACLKey, forward_lead, if_neg (by decide),
    if_pos (by rw [hasPrefix_iff]; exact List.prefix_append _ _), trimPrefix_append,
    List.splitOn_append_cons_self_of_not_mem (user_plain _),
      List.splitOn_append_cons_self_of_not_mem (kind_plain named.kind),
    List.splitOn_append_cons_self_of_not_mem (escSeg_plain _),
      List.splitOn_eq_singleton (escSeg_plain _)]
  exact readRef_named named

theorem parse_key {key : Bytes} (named : Named ref)
    (own : key = ref.forwardKey ∨ key = ref.reverseKey) : parseACLKey key = some ref := by
  rcases own with rfl | rfl
  · exact parse_forwardKey named
  · exact parse_reverseKey named

/-- A key belongs to one named grant. -/
theorem holder_unique {left right : GrantRef} {key : Bytes} (leftNamed : Named left)
    (rightNamed : Named right) (first : key = left.forwardKey ∨ key = left.reverseKey)
    (second : key = right.forwardKey ∨ key = right.reverseKey) : left = right :=
  Option.some.inj ((parse_key leftNamed first).symm.trans (parse_key rightNamed second))

theorem forwardKey_ne_reverseKey (left right : GrantRef) : left.forwardKey ≠ right.reverseKey := by
  intro same
  have lead : hasPrefix left.forwardKey (ascii "/acl/") = true := by
    rw [forwardKey_eq, hasPrefix_iff]
    exact List.prefix_append _ _
  rw [same, reverseKey_eq, forward_lead] at lead
  cases lead

end Parsing

section Covering

variable {ref : GrantRef} (named : Named ref)
include named

theorem resource_covers {kind owner resource : Bytes} (known : kind ∈ aclKinds) :
    aclResourcePrefix kind owner resource <+: ref.forwardKey ↔
      kind = ref.kind ∧ owner = ref.owner ∧ resource = ref.resource := by
  have lead : aclResourcePrefix kind owner resource =
      ascii "/acl/" ++ (kind ++ 47 :: (escSeg owner ++ 47 :: (escSeg resource ++ [47]))) := by
    simp [aclResourcePrefix]
  rw [lead, forwardKey_eq, List.prefix_append_right_inj,
    prefix_mark_iff (kind_plain known) (kind_plain named.kind),
    prefix_mark_iff (escSeg_plain _) (escSeg_plain _),
    prefix_mark_iff (escSeg_plain _) (escSeg_plain _), escSeg_inj.eq_iff, escSeg_inj.eq_iff]
  simp [List.nil_prefix]

theorem owner_covers {kind owner : Bytes} (known : kind ∈ aclKinds) :
    aclOwnerPrefix kind owner <+: ref.forwardKey ↔ kind = ref.kind ∧ owner = ref.owner := by
  have lead : aclOwnerPrefix kind owner =
      ascii "/acl/" ++ (kind ++ 47 :: (escSeg owner ++ [47])) := by
    simp [aclOwnerPrefix]
  rw [lead, forwardKey_eq, List.prefix_append_right_inj,
    prefix_mark_iff (kind_plain known) (kind_plain named.kind),
    prefix_mark_iff (escSeg_plain _) (escSeg_plain _), escSeg_inj.eq_iff]
  simp [List.nil_prefix]

omit named in
theorem grantee_covers {grantee : Bytes} :
    aclGranteePrefix grantee <+: ref.reverseKey ↔ grantee = ref.grantee := by
  have lead : aclGranteePrefix grantee =
      ascii "/aclrev/" ++ ((ascii "u:" ++ escSeg grantee) ++ [47]) := by
    simp [aclGranteePrefix, ascii]
  rw [lead, reverseKey_eq, List.prefix_append_right_inj,
    prefix_mark_iff (user_plain _) (user_plain _), List.append_cancel_left_eq, escSeg_inj.eq_iff]
  simp [List.nil_prefix]

end Covering

theorem resourcePrefix_apart (kind owner resource : Bytes) (ref : GrantRef) :
    ¬ aclResourcePrefix kind owner resource <+: ref.reverseKey := by
  rintro ⟨rest, same⟩
  rw [reverseKey_eq] at same
  simp [aclResourcePrefix, ascii] at same

theorem ownerPrefix_apart (kind owner : Bytes) (ref : GrantRef) :
    ¬ aclOwnerPrefix kind owner <+: ref.reverseKey := by
  rintro ⟨rest, same⟩
  rw [reverseKey_eq] at same
  simp [aclOwnerPrefix, ascii] at same

theorem granteePrefix_apart (grantee : Bytes) (ref : GrantRef) :
    ¬ aclGranteePrefix grantee <+: ref.forwardKey := by
  rintro ⟨rest, same⟩
  rw [forwardKey_eq] at same
  simp [aclGranteePrefix, ascii] at same

end Bongo.Acl
