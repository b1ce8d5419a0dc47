import DesignTokens.Proofs.Token.Tree

/-!
# Rearranged token trees

A token tree is rearranged by permuting the children of some of its containers; the leaves stay as
they are.  A rearranged tree has the same keys in every container, and every row of keys leads to a
rearranged part.  Any child can be brought to the end.
-/

namespace DesignTokens

namespace Node

/-- The second tree is the first one with the children of some containers permuted. -/
inductive Rearranged : Node → Node → Prop
  /-- Nothing is permuted. -/
  | refl (node : Node) : Rearranged node node
  /-- One rearrangement after another. -/
  | trans {first second third : Node} :
      Rearranged first second → Rearranged second third → Rearranged first third
  /-- The children of a container are permuted. -/
  | permuted {children others : Fields Node} (permutation : children.Perm others) :
      Rearranged (.container children) (.container others)
  /-- One child of a container is rearranged. -/
  | inside (before : Fields Node) (key : String) {child other : Node} (after : Fields Node) :
      Rearranged child other →
        Rearranged (.container (before ++ (key, child) :: after))
          (.container (before ++ (key, other) :: after))

namespace Rearranged

variable {node other : Node}

theorem symm (rearranged : Rearranged node other) : Rearranged other node := by
  induction rearranged with
  | refl node => exact .refl node
  | trans _ _ first second => exact second.trans first
  | permuted permutation => exact .permuted permutation.symm
  | inside before key after _ ih => exact .inside before key after ih

theorem isContainer_eq (rearranged : Rearranged node other) :
    other.isContainer = node.isContainer := by
  induction rearranged with
  | trans _ _ first second => exact second.trans first
  | _ => rfl

theorem eq_of_terminal (rearranged : Rearranged node other) (terminal : node.isContainer = false) :
    other = node := by
  induction rearranged with
  | refl node => rfl
  | trans first _ ihFirst ihSecond =>
      obtain rfl := ihFirst terminal
      exact ihSecond terminal
  | _ => exact absurd terminal.symm Bool.false_ne_true

/-- Every child of the rearranged tree is a child of the tree itself, rearranged. -/
theorem exists_child (rearranged : Rearranged node other) :
    ∀ child ∈ other.children, ∃ original,
      (child.1, original) ∈ node.children ∧ Rearranged original child.2 := by
  induction rearranged with
  | refl node => exact fun child member => ⟨child.2, member, .refl child.2⟩
  | trans _ _ first second =>
      intro child member
      obtain ⟨middle, isChild, later⟩ := second child member
      obtain ⟨original, isChild, earlier⟩ := first _ isChild
      exact ⟨original, isChild, earlier.trans later⟩
  | permuted permutation =>
      exact fun child member => ⟨child.2, permutation.mem_iff.mpr member, .refl child.2⟩
  | @inside before key node other after rearranged ih =>
      intro child member
      simp only [children, List.mem_append, List.mem_cons] at member ⊢
      rcases member with early | rfl | late
      · exact ⟨child.2, .inl early, .refl child.2⟩
      · exact ⟨node, .inr (.inl rfl), rearranged⟩
      · exact ⟨child.2, .inr (.inr late), .refl child.2⟩

theorem isKeyed (rearranged : Rearranged node other) (keyed : node.isKeyed = true) :
    other.isKeyed = true := by
  induction rearranged with
  | refl node => exact keyed
  | trans _ _ first second => exact second (first keyed)
  | permuted permutation =>
      rw [isKeyed_container] at keyed ⊢
      exact ⟨(permutation.map Prod.fst).nodup_iff.mp keyed.1,
        fun child member => keyed.2 child (permutation.mem_iff.mpr member)⟩
  | inside before key after _ ih =>
      simp only [isKeyed_container, Fields.keys_append, Fields.keys_cons, List.forall_mem_append,
        List.forall_mem_cons] at keyed ⊢
      exact ⟨keyed.1, keyed.2.1, ih keyed.2.2.1, keyed.2.2.2⟩

end Rearranged

/-! ## Parts -/

theorem isKeyed_of_mem_children {node : Node} (keyed : node.isKeyed = true) {child : String × Node}
    (member : child ∈ node.children) : child.2.isKeyed = true := by
  cases node with
  | container children => exact ((isKeyed_container children).mp keyed).2 child member
  | _ => exact absurd member List.not_mem_nil

theorem nodup_keys_children {node : Node} (keyed : node.isKeyed = true) :
    (Fields.keys node.children).Nodup := by
  cases node with
  | container children => exact ((isKeyed_container children).mp keyed).1
  | _ => exact List.nodup_nil

theorem child?_eq_some_iff {node : Node} (keyed : node.isKeyed = true) (key : String)
    (child : Node) : node.child? key = some child ↔ (key, child) ∈ node.children := by
  rw [child?_eq_get?]
  exact ⟨Fields.mem_of_get?_eq_some, Fields.get?_eq_some_of_mem (nodup_keys_children keyed)⟩

theorem isKeyed_child? {node child : Node} {key : String} (keyed : node.isKeyed = true)
    (found : node.child? key = some child) : child.isKeyed = true :=
  isKeyed_of_mem_children keyed ((child?_eq_some_iff keyed key child).mp found)

theorem isKeyed_descend? {node found : Node} {keys : List String} (keyed : node.isKeyed = true)
    (reached : node.descend? keys = some found) : found.isKeyed = true := by
  induction keys generalizing node with
  | nil => rwa [← Option.some.inj reached]
  | cons key keys ih =>
      obtain ⟨child, isChild, reached⟩ := Option.bind_eq_some_iff.mp reached
      exact ih (isKeyed_child? keyed isChild) reached

theorem children_without (node : Node) (keys : List String) :
    (node.without keys).children = Fields.without node.children keys := by
  cases node <;> rfl

theorem isKeyed_without {node : Node} (keyed : node.isKeyed = true) (keys : List String) :
    (node.without keys).isKeyed = true := by
  cases node with
  | container children =>
      rw [isKeyed_container] at keyed
      rw [without, isKeyed_container]
      exact ⟨keyed.1.sublist (List.filter_sublist.map Prod.fst),
        fun child member => keyed.2 child (List.mem_of_mem_filter member)⟩
  | _ => rfl

/-- A part lies below a node, and is keyed if the node is. -/
structure Within (part whole : Node) : Prop where
  /-- The part is smaller. -/
  size : part.size < whole.size
  /-- The part of a keyed node is keyed. -/
  keyed : whole.isKeyed = true → part.isKeyed = true

namespace Within

theorem trans {part middle whole : Node} (inner : Within part middle)
    (outer : Within middle whole) : Within part whole :=
  ⟨inner.size.trans outer.size, fun keyed => inner.keyed (outer.keyed keyed)⟩

theorem of_mem_children {node : Node} {child : String × Node} (member : child ∈ node.children) :
    Within child.2 node :=
  ⟨size_lt_of_mem_children member, fun keyed => isKeyed_of_mem_children keyed member⟩

theorem of_child? {node child : Node} {key : String} (found : node.child? key = some child) :
    Within child node :=
  ⟨size_lt_of_child? found, fun keyed => isKeyed_child? keyed found⟩

theorem of_descend? {node found : Node} {keys : List String} (proper : keys ≠ [])
    (reached : node.descend? keys = some found) : Within found node := by
  cases keys with
  | nil => exact absurd rfl proper
  | cons key keys =>
      refine ⟨?_, fun keyed => isKeyed_descend? keyed reached⟩
      obtain ⟨child, isChild, reached⟩ := Option.bind_eq_some_iff.mp reached
      exact (size_le_of_descend? reached).trans_lt (size_lt_of_child? isChild)

theorem of_without {part whole : Node} {keys : List String}
    (within : Within part (whole.without keys)) : Within part whole :=
  ⟨within.size.trans_le (whole.size_without_le keys),
    fun keyed => within.keyed (isKeyed_without keyed keys)⟩

end Within

namespace Rearranged

variable {node other : Node}

theorem exists_child? (rearranged : Rearranged node other) (keyed : node.isKeyed = true)
    {key : String} {child : Node} (found : other.child? key = some child) :
    ∃ original, node.child? key = some original ∧ Rearranged original child := by
  have member := (child?_eq_some_iff (rearranged.isKeyed keyed) key child).mp found
  obtain ⟨original, isChild, same⟩ := rearranged.exists_child (key, child) member
  exact ⟨original, (child?_eq_some_iff keyed key original).mpr isChild, same⟩

theorem exists_descend? (rearranged : Rearranged node other) (keyed : node.isKeyed = true)
    {keys : List String} {found : Node} (reached : other.descend? keys = some found) :
    ∃ original, node.descend? keys = some original ∧ Rearranged original found := by
  induction keys generalizing node other with
  | nil =>
      obtain rfl := Option.some.inj reached
      exact ⟨node, rfl, rearranged⟩
  | cons key keys ih =>
      obtain ⟨child, isChild, reached⟩ := Option.bind_eq_some_iff.mp reached
      obtain ⟨middle, isMiddle, rearranged⟩ := rearranged.exists_child? keyed isChild
      obtain ⟨original, reachedToo, rearranged⟩ :=
        ih rearranged (isKeyed_child? keyed isMiddle) reached
      exact ⟨original, Option.bind_eq_some_iff.mpr ⟨middle, isMiddle, reachedToo⟩, rearranged⟩

theorem without (rearranged : Rearranged node other) (keys : List String) :
    Rearranged (node.without keys) (other.without keys) := by
  induction rearranged with
  | refl node => exact .refl _
  | trans _ _ first second => exact first.trans second
  | permuted permutation => exact .permuted (permutation.filter _)
  | inside before key after rearranged ih =>
      simp only [Node.without, Fields.without, List.filter_append, List.filter_cons]
      split
      · exact .inside _ key _ rearranged
      · exact .refl _

/-! ## Bringing a part to the end -/

/-- A child, rearranged, can be brought to the end of its container. -/
theorem exists_last {children : Fields Node} {key : String} {child last : Node}
    (member : (key, child) ∈ children) (rearranged : Rearranged child last) :
    ∃ before, Rearranged (.container children) (.container (before ++ [(key, last)])) := by
  obtain ⟨before, after, rfl⟩ := List.append_of_mem member
  refine ⟨before ++ after, (inside before key after rearranged).trans (.permuted ?_)⟩
  rw [List.append_assoc]
  exact (List.perm_append_singleton (key, last) after).symm.append_left before

theorem lift_child? (keyed : node.isKeyed = true) {key : String} {child last : Node}
    (found : node.child? key = some child) (rearranged : Rearranged child last) :
    ∃ other, Rearranged node other ∧ other.child? key = some last := by
  have member := (child?_eq_some_iff keyed key child).mp found
  cases node with
  | container children =>
      obtain ⟨before, whole⟩ := exists_last member rearranged
      refine ⟨_, whole, (child?_eq_some_iff (whole.isKeyed keyed) key last).mpr ?_⟩
      exact List.mem_append_right before (List.mem_singleton_self _)
  | _ => exact absurd member List.not_mem_nil

/-- The part that a row of keys leads to can be rearranged alone. -/
theorem lift_descend? (keyed : node.isKeyed = true) {keys : List String} {found last : Node}
    (reached : node.descend? keys = some found) (rearranged : Rearranged found last) :
    ∃ other, Rearranged node other ∧ other.descend? keys = some last := by
  induction keys generalizing node with
  | nil =>
      obtain rfl := Option.some.inj reached
      exact ⟨last, rearranged, rfl⟩
  | cons key keys ih =>
      obtain ⟨child, isChild, reached⟩ := Option.bind_eq_some_iff.mp reached
      obtain ⟨middle, inner, reached⟩ := ih (isKeyed_child? keyed isChild) reached
      obtain ⟨other, whole, isMiddle⟩ := lift_child? keyed isChild inner
      exact ⟨other, whole, Option.bind_eq_some_iff.mpr ⟨middle, isMiddle, reached⟩⟩

theorem append (rearranged : Rearranged node other) (container : node.isContainer = true)
    (more : Fields Node) :
    Rearranged (.container (node.children ++ more)) (.container (other.children ++ more)) := by
  induction rearranged with
  | refl node => exact .refl _
  | trans first _ ihFirst ihSecond =>
      exact (ihFirst container).trans (ihSecond (first.isContainer_eq.trans container))
  | permuted permutation => exact .permuted (permutation.append_right more)
  | inside before key after rearranged _ =>
      simp only [children, List.append_assoc, List.cons_append]
      exact .inside before key (after ++ more) rearranged

/-- The children that are not left out can be rearranged alone. -/
theorem lift_without {keys : List String} (rearranged : Rearranged (node.without keys) other) :
    ∃ whole, Rearranged node whole ∧ whole.without keys = other := by
  cases node with
  | container children =>
      obtain ⟨kept, rfl⟩ := exists_children rearranged.isContainer_eq
      have apart := List.filter_append_perm (fun child => !keys.contains child.1) children
      refine ⟨_, (permuted apart.symm).trans (rearranged.append rfl _), ?_⟩
      have keptKeys : ∀ child ∈ kept, child.1 ∉ keys := by
        intro child member
        obtain ⟨original, isChild, -⟩ := rearranged.exists_child child member
        simpa using List.of_mem_filter isChild
      have dropped : Fields.without
          (children.filter fun child => !!keys.contains child.1) keys = [] := by
        simp [Fields.without, List.filter_filter]
      simp only [Node.without, Node.children, Fields.without, List.filter_append]
      rw [← Fields.without, ← Fields.without, Fields.without_eq_self keptKeys, dropped,
        List.append_nil]
  | _ => exact ⟨other, rearranged, by rw [rearranged.eq_of_terminal rfl]; rfl⟩

end Rearranged

theorem ofJson_eq_map {entries : Fields Json} (container : shape entries = .container) :
    ofJson (.object entries) =
      .container (entries.map fun entry => (entry.1, ofJson entry.2)) := by
  rw [ofJson_container container, childrenOfJson_eq_map]

/-- Whether an object is a container depends on its keys. -/
theorem shape_of_keys {entries others : Fields Json} (container : shape entries = .container)
    (same : ∀ key, key ∈ Fields.keys others ↔ key ∈ Fields.keys entries) :
    shape others = .container := by
  rw [shape_eq_container_iff] at container ⊢
  rwa [same, same]

theorem exists_shape_of_container {value : Json} {children : Fields Node}
    (container : ofJson value = .container children) :
    ∃ entries, value = .object entries ∧ shape entries = .container ∧
      children = entries.map fun entry => (entry.1, ofJson entry.2) := by
  cases value with
  | null => exact absurd container nofun
  | scalar value => exact absurd container nofun
  | list items => exact absurd container nofun
  | object entries =>
      cases shaped : shape entries with
      | leaf type value => simp [ofJson, shaped] at container
      | malformed malformation => simp [ofJson, shaped] at container
      | container =>
          rw [ofJson_container shaped, childrenOfJson_eq_map] at container
          exact ⟨entries, rfl, shaped, (Node.container.inj container).symm⟩

end Node

/-! ## Documents -/

namespace Json

/-- The second document is the first one with the entries of some containers permuted. -/
inductive Rearranged : Json → Json → Prop
  /-- Nothing is permuted. -/
  | refl (value : Json) : Rearranged value value
  /-- One rearrangement after another. -/
  | trans {first second third : Json} :
      Rearranged first second → Rearranged second third → Rearranged first third
  /-- The entries of a container are permuted. -/
  | permuted {entries others : Fields Json} (container : Node.shape entries = .container)
      (permutation : entries.Perm others) : Rearranged (.object entries) (.object others)
  /-- One part of a container is rearranged. -/
  | inside (before : Fields Json) (key : String) {value other : Json} (after : Fields Json)
      (container : Node.shape (before ++ (key, value) :: after) = .container) :
      Rearranged value other →
        Rearranged (.object (before ++ (key, value) :: after))
          (.object (before ++ (key, other) :: after))

namespace Rearranged

variable {document other : Json}

theorem shape_inside {before after : Fields Json} {key : String} {value : Json}
    (container : Node.shape (before ++ (key, value) :: after) = .container) (other : Json) :
    Node.shape (before ++ (key, other) :: after) = .container := by
  apply Node.shape_of_keys container
  intro name
  rw [Fields.keys_append, Fields.keys_append, Fields.keys_cons, Fields.keys_cons]

theorem shape_permuted {entries others : Fields Json} (container : Node.shape entries = .container)
    (permutation : entries.Perm others) : Node.shape others = .container :=
  Node.shape_of_keys container fun _ => (permutation.map Prod.fst).mem_iff.symm

/-- A rearranged document has a rearranged token tree. -/
theorem ofJson (rearranged : Rearranged document other) :
    (Node.ofJson document).Rearranged (.ofJson other) := by
  induction rearranged with
  | refl value => exact .refl _
  | trans _ _ first second => exact first.trans second
  | permuted container permutation =>
      rw [Node.ofJson_eq_map container, Node.ofJson_eq_map (shape_permuted container permutation)]
      exact .permuted (permutation.map _)
  | inside before key after container _ ih =>
      rw [Node.ofJson_eq_map container, Node.ofJson_eq_map (shape_inside container _),
        List.map_append, List.map_append]
      exact .inside _ key _ ih

/-- Every rearrangement of the token tree is that of a rearranged document. -/
theorem exists_document {node tree : Node} (rearranged : node.Rearranged tree) :
    ∀ document, Node.ofJson document = node →
      ∃ other, Rearranged document other ∧ Node.ofJson other = tree := by
  induction rearranged with
  | refl node => exact fun document same => ⟨document, .refl document, same⟩
  | trans _ _ ihFirst ihSecond =>
      intro document same
      obtain ⟨middle, first, sameMiddle⟩ := ihFirst document same
      obtain ⟨other, second, sameOther⟩ := ihSecond middle sameMiddle
      exact ⟨other, first.trans second, sameOther⟩
  | permuted permutation =>
      intro document same
      obtain ⟨entries, rfl, container, rfl⟩ := Node.exists_shape_of_container same
      obtain ⟨others, rfl, moved⟩ :=
        (iff_of_eq (congrFun₂ (List.eq_map_comp_perm _) _ _)).mpr permutation.symm
      exact ⟨.object others, .permuted container moved.symm,
        Node.ofJson_eq_map (shape_permuted container moved.symm)⟩
  | inside before key after _ ih =>
      intro document same
      obtain ⟨entries, rfl, container, split⟩ := Node.exists_shape_of_container same
      obtain ⟨first, rest, rfl, rfl, tail⟩ := List.map_eq_append_iff.mp split.symm
      obtain ⟨⟨name, value⟩, last, rfl, entry, rfl⟩ := List.map_eq_cons_iff.mp tail
      obtain ⟨rfl, sameValue⟩ := Prod.mk.inj entry
      obtain ⟨other, rearranged, rfl⟩ := ih value sameValue
      refine ⟨_, .inside first name last container rearranged, ?_⟩
      rw [Node.ofJson_eq_map (shape_inside container other), List.map_append]
      rfl

end Rearranged

end Json
end DesignTokens
