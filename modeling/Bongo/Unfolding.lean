import Mathlib

/-!
Unfolding a graph from a root by plain recursion into the children of each node,
with no record of the nodes already met. It ends and meets every node once
exactly when the part of the graph below the root is a tree.
-/

namespace Bongo.Unfolding

universe u
variable {α : Type u}

def spreadAll (part : α → Option (List α)) : List α → Option (List α)
  | [] => some []
  | node :: rest => do
      let first ← part node
      let others ← spreadAll part rest
      some (first ++ others)

/-- The nodes met from a node, in preorder; `none` when the fuel runs out. -/
def spread (children : α → List α) : Nat → α → Option (List α)
  | 0, _ => none
  | fuel + 1, node => (spreadAll (spread children fuel) (children node)).map (node :: ·)

def Reaches (children : α → List α) : α → α → Prop :=
  Relation.ReflTransGen fun node child => child ∈ children node

/-- Below the root no node has two parents, and the root has none. -/
structure Treelike (children : α → List α) (root : α) : Prop where
  top : ∀ node, Reaches children root node → root ∉ children node
  single : ∀ first second child, Reaches children root first → Reaches children root second →
    child ∈ children first → child ∈ children second → first = second

section Parts

variable {part : α → Option (List α)}

theorem spreadAll_cons {node : α} {rest met : List α}
    (ended : spreadAll part (node :: rest) = some met) :
    ∃ first others, part node = some first ∧ spreadAll part rest = some others ∧
      met = first ++ others := by
  simp only [spreadAll, Option.bind_eq_bind, Option.bind_eq_some_iff, Option.some.injEq] at ended
  obtain ⟨first, here, others, more, same⟩ := ended
  exact ⟨first, others, here, more, same.symm⟩

theorem spreadAll_total (nodes : List α) (each : ∀ node ∈ nodes, ∃ met, part node = some met) :
    ∃ met, spreadAll part nodes = some met := by
  induction nodes with
  | nil => exact ⟨[], rfl⟩
  | cons node rest ih =>
    obtain ⟨first, here⟩ := each node List.mem_cons_self
    obtain ⟨others, more⟩ := ih fun other member => each other (List.mem_cons_of_mem _ member)
    exact ⟨first ++ others, by simp [spreadAll, here, more]⟩

theorem mem_spreadAll (nodes met : List α) (ended : spreadAll part nodes = some met) (entry : α) :
    entry ∈ met ↔ ∃ node ∈ nodes, ∃ own, part node = some own ∧ entry ∈ own := by
  induction nodes generalizing met with
  | nil =>
    cases ended
    simp
  | cons node rest ih =>
    obtain ⟨first, others, here, more, rfl⟩ := spreadAll_cons ended
    rw [List.mem_append, ih others more, List.exists_mem_cons_iff]
    simp [here]

theorem spreadAll_defined (nodes met : List α) (ended : spreadAll part nodes = some met) (node : α)
    (member : node ∈ nodes) : ∃ own, part node = some own := by
  induction nodes generalizing met with
  | nil => cases member
  | cons first rest ih =>
    obtain ⟨own, others, here, more, -⟩ := spreadAll_cons ended
    rcases List.mem_cons.mp member with rfl | later
    · exact ⟨own, here⟩
    · exact ih others more later

theorem nodup_spreadAll (nodes met : List α) (ended : spreadAll part nodes = some met)
    (distinct : nodes.Nodup) (once : ∀ node ∈ nodes, ∀ own, part node = some own → own.Nodup)
    (apart : ∀ left ∈ nodes, ∀ right ∈ nodes, left ≠ right → ∀ mine yours, part left = some mine →
      part right = some yours → mine.Disjoint yours) : met.Nodup := by
  induction nodes generalizing met with
  | nil =>
    cases ended
    exact List.nodup_nil
  | cons node rest ih =>
    obtain ⟨first, others, here, more, rfl⟩ := spreadAll_cons ended
    obtain ⟨fresh, remaining⟩ := List.nodup_cons.mp distinct
    refine (once node List.mem_cons_self first here).append ?_ ?_
    · exact ih others more remaining
        (fun other member => once other (List.mem_cons_of_mem _ member))
        fun left leftIn right rightIn => apart left (List.mem_cons_of_mem _ leftIn) right
          (List.mem_cons_of_mem _ rightIn)
    · intro entry mine theirs
      obtain ⟨other, member, own, there, inside⟩ := (mem_spreadAll rest others more entry).mp theirs
      have different : node ≠ other := fun same => fresh (same ▸ member)
      exact apart node List.mem_cons_self other (List.mem_cons_of_mem _ member) different first own
        here there mine inside

end Parts

section Spreading

variable {children : α → List α}

theorem spread_succ {fuel : Nat} {node : α} {met : List α}
    (ended : spread children (fuel + 1) node = some met) :
    ∃ below, spreadAll (spread children fuel) (children node) = some below ∧
      met = node :: below := by
  rw [spread, Option.map_eq_some_iff] at ended
  obtain ⟨below, spreads, same⟩ := ended
  exact ⟨below, spreads, same.symm⟩

/-- An ended unfolding has met the nodes that can be reached. -/
theorem mem_spread (fuel : Nat) (root : α) (met : List α)
    (ended : spread children fuel root = some met) (entry : α) :
    entry ∈ met ↔ Reaches children root entry := by
  induction fuel generalizing root met entry with
  | zero => cases ended
  | succ fuel ih =>
    obtain ⟨below, spreads, rfl⟩ := spread_succ ended
    rw [List.mem_cons, mem_spreadAll _ _ spreads]
    constructor
    · rintro (rfl | ⟨child, member, own, there, inside⟩)
      · exact Relation.ReflTransGen.refl
      · exact Relation.ReflTransGen.head member ((ih child own there entry).mp inside)
    intro reaches
    rcases Relation.ReflTransGen.cases_head reaches with rfl | ⟨child, member, further⟩
    · exact Or.inl rfl
    · obtain ⟨own, there⟩ := spreadAll_defined _ _ spreads child member
      exact Or.inr ⟨child, member, own, there, (ih child own there entry).mpr further⟩

theorem spread_self {root : α} (again : root ∈ children root) (fuel : Nat) :
    spread children fuel root = none := by
  induction fuel with
  | zero => rfl
  | succ fuel ih =>
    cases ended : spread children (fuel + 1) root with
    | none => rfl
    | some met =>
      obtain ⟨below, spreads, -⟩ := spread_succ ended
      obtain ⟨own, there⟩ := spreadAll_defined _ _ spreads root again
      rw [ih] at there
      cases there

/-- The root is not found again below its children. -/
theorem Treelike.not_back {root child : α} (tree : Treelike children root)
    (member : child ∈ children root) : ¬ Reaches children child root := by
  intro back
  rcases Relation.ReflTransGen.cases_tail back with same | ⟨last, further, again⟩
  · rw [same] at member
    exact tree.top child (same ▸ Relation.ReflTransGen.refl) (same ▸ member)
  · exact tree.top last (Relation.ReflTransGen.head member further) again

theorem Treelike.child {root child : α} (tree : Treelike children root)
    (member : child ∈ children root) : Treelike children child := by
  have below : ∀ {node}, Reaches children child node → Reaches children root node :=
    fun reaches => Relation.ReflTransGen.head member reaches
  refine ⟨fun node reaches again => ?_, fun first second other left right =>
    tree.single first second other (below left) (below right)⟩
  -- the only parent of the child is the root, which lies above
  have same := tree.single root node child Relation.ReflTransGen.refl (below reaches) member again
  exact tree.not_back member (same ▸ reaches)

/-- What lies below two children of the root is apart. -/
theorem Treelike.apart {root left right entry : α} (tree : Treelike children root)
    (leftChild : left ∈ children root) (rightChild : right ∈ children root)
      (different : left ≠ right)
    (mine : Reaches children left entry) (yours : Reaches children right entry) : False := by
  -- a node below one child is not the other child itself
  have other : ∀ {above child}, child ∈ children root → above ∈ children root → above ≠ child →
      ¬ Reaches children above child := by
    intro above child childIn aboveIn distinct reaches
    rcases Relation.ReflTransGen.cases_tail reaches with same | ⟨last, further, again⟩
    · exact distinct same.symm
    · have same := tree.single root last child Relation.ReflTransGen.refl
        (Relation.ReflTransGen.head aboveIn further) childIn again
      exact tree.not_back aboveIn (same ▸ further)
  induction mine with
  | refl => exact other leftChild rightChild (Ne.symm different) yours
  | @tail parent node reaches member ih =>
    rcases Relation.ReflTransGen.cases_tail yours with same | ⟨last, further, again⟩
    · subst same
      exact other rightChild leftChild different (Relation.ReflTransGen.tail reaches member)
    · have same := tree.single parent last node (Relation.ReflTransGen.head leftChild reaches)
        (Relation.ReflTransGen.head rightChild further) member again
      exact ih (same ▸ further)

theorem Treelike.nodup (distinct : ∀ node, (children node).Nodup) (fuel : Nat) {root : α}
    (tree : Treelike children root) (met : List α) (ended : spread children fuel root = some met) :
    met.Nodup := by
  induction fuel generalizing root met with
  | zero => cases ended
  | succ fuel ih =>
    obtain ⟨below, spreads, rfl⟩ := spread_succ ended
    refine List.nodup_cons.mpr ⟨fun again => ?_, nodup_spreadAll _ _ spreads (distinct root) ?_ ?_⟩
    · obtain ⟨child, member, own, there, inside⟩ := (mem_spreadAll _ _ spreads root).mp again
      exact tree.not_back member ((mem_spread fuel child own there root).mp inside)
    · exact fun child member own there => ih (tree.child member) own there
    · intro left leftIn right rightIn different mine yours here there entry inMine inYours
      exact tree.apart leftIn rightIn different ((mem_spread fuel left mine here entry).mp inMine)
        ((mem_spread fuel right yours there entry).mp inYours)

/-- Fuel for every node below the root is enough. -/
theorem Treelike.total (fuel : Nat) {root : α} (tree : Treelike children root)
    (finite : {node | Reaches children root node}.Finite)
    (enough : {node | Reaches children root node}.ncard ≤ fuel) :
    ∃ met, spread children fuel root = some met := by
  induction fuel generalizing root with
  | zero =>
    have empty := (Set.ncard_eq_zero finite).mp (Nat.le_zero.mp enough)
    have here : root ∈ {node | Reaches children root node} := Relation.ReflTransGen.refl
    rw [empty] at here
    cases here
  | succ fuel ih =>
    have each : ∀ child ∈ children root, ∃ met, spread children fuel child = some met := by
      intro child member
      have inside : {node | Reaches children child node} ⊆ {node | Reaches children root node} :=
        fun node reaches => Relation.ReflTransGen.head member reaches
      have fewer : {node | Reaches children child node}.ncard <
          {node | Reaches children root node}.ncard := by
        refine Set.ncard_lt_ncard ⟨inside, fun back => tree.not_back member ?_⟩ finite
        exact back (Relation.ReflTransGen.refl : Reaches children root root)
      exact ih (tree.child member) (finite.subset inside) (by omega)
    obtain ⟨below, spreads⟩ := spreadAll_total _ each
    exact ⟨root :: below, by rw [spread, spreads]; rfl⟩

end Spreading

/-! The other way: an unfolding without repetition comes from a tree. Each
occurrence of a node is the root or a child of an occurrence. -/
section Counting

variable [DecidableEq α] {children : α → List α}

theorem count_spreadAll {part : α → Option (List α)} (entry : α)
    (each : ∀ node own, part node = some own → own.count entry =
      (if node = entry then 1 else 0) + (own.map fun other => (children other).count entry).sum)
    (nodes met : List α) (ended : spreadAll part nodes = some met) :
    met.count entry =
      nodes.count entry + (met.map fun other => (children other).count entry).sum := by
  induction nodes generalizing met with
  | nil =>
    cases ended
    rfl
  | cons node rest ih =>
    obtain ⟨first, others, here, more, rfl⟩ := spreadAll_cons ended
    rw [List.count_append, List.map_append, List.sum_append, each node first here, ih others more,
      List.count_cons]
    simp only [beq_iff_eq]
    omega

theorem count_spread (entry : α) (fuel : Nat) (root : α) (met : List α)
    (ended : spread children fuel root = some met) :
    met.count entry = (if root = entry then 1 else 0) +
        (met.map fun other => (children other).count entry).sum := by
  induction fuel generalizing root met with
  | zero => cases ended
  | succ fuel ih =>
    obtain ⟨below, spreads, rfl⟩ := spread_succ ended
    rw [List.count_cons, count_spreadAll entry (fun node own => ih node own) _ _ spreads,
      List.map_cons, List.sum_cons]
    simp only [beq_iff_eq]
    omega

theorem add_le_sum (weight : α → Nat) {nodes : List α} {first second : α} (here : first ∈ nodes)
    (there : second ∈ nodes) (different : first ≠ second) :
    weight first + weight second ≤ (nodes.map weight).sum := by
  have remains : second ∈ nodes.erase first := (List.mem_erase_of_ne different.symm).mpr there
  rw [← List.sum_map_erase weight here]
  exact Nat.add_le_add_left (List.single_le_sum (by simp) _ (List.mem_map_of_mem remains)) _

theorem treelike_of_nodup (fuel : Nat) (root : α) (met : List α)
    (ended : spread children fuel root = some met) (once : met.Nodup) : Treelike children root := by
  have reached : ∀ node, Reaches children root node → node ∈ met :=
    fun node => (mem_spread fuel root met ended node).mpr
  constructor
  · intro node reaches again
    have one := List.nodup_iff_count_le_one.mp once root
    rw [count_spread root fuel root met ended, if_pos rfl] at one
    have counted : (children node).count root ≤ (met.map fun other =>
        (children other).count root).sum :=
      List.single_le_sum (by simp) _ (List.mem_map_of_mem (reached node reaches))
    have positive := List.count_pos_iff.mpr again
    omega
  · intro first second child left right here there
    by_contra different
    have one := List.nodup_iff_count_le_one.mp once child
    rw [count_spread child fuel root met ended] at one
    have both := add_le_sum (fun other => (children other).count child)
      (reached first left) (reached second right) different
    have mine := List.count_pos_iff.mpr here
    have yours := List.count_pos_iff.mpr there
    omega

end Counting

end Bongo.Unfolding
