import DesignTokens.Proofs.Fields
import DesignTokens.Token.Node
import Mathlib.Algebra.GroupWithZero.Nat
import Mathlib.Algebra.Order.Group.Nat

/-!
# Induction over documents and token trees

Documents and token trees nest through lists of named parts.  Their induction principles give the
hypothesis for every part at once.  A document is keyed if no object in it names an entry twice; the
token tree of a keyed document is keyed as well.
-/

namespace DesignTokens

namespace Json

@[elab_as_elim]
theorem induction {motive : Json → Prop} (null : motive .null)
    (scalar : ∀ value, motive (.scalar value))
    (list : ∀ items, (∀ item ∈ items, motive item) → motive (.list items))
    (object : ∀ entries, (∀ entry ∈ entries, motive entry.2) → motive (.object entries)) :
    ∀ value, motive value
  | .null => null
  | .scalar value => scalar value
  | .list items => list items fun item _ => induction null scalar list object item
  | .object entries => object entries fun entry _ => induction null scalar list object entry.2
termination_by value => sizeOf value
decreasing_by
  · rename_i member
    have smaller := List.sizeOf_lt_of_mem member
    simp only [Json.list.sizeOf_spec]
    omega
  · rename_i member
    have smaller := List.sizeOf_lt_of_mem member
    have parts : sizeOf entry = 1 + sizeOf entry.1 + sizeOf entry.2 := by cases entry; rfl
    simp only [Json.object.sizeOf_spec]
    omega

/-- A leaf as a document value. -/
def leaf (type : String) (value : Json) : Json :=
  .object [(typeKey, .str type), (valueKey, value)]

/-- Whether a value has no parts. -/
def isSimple : Json → Bool
  | .null => true
  | .scalar _ => true
  | _ => false

/-! ## Keyed documents -/

mutual

/-- Whether no object in a value names an entry twice. -/
def isKeyed : Json → Bool
  | .null => true
  | .scalar _ => true
  | .list items => itemsKeyed items
  | .object entries => decide (Fields.keys entries).Nodup && entriesKeyed entries

/-- Whether all items of a list are keyed. -/
def itemsKeyed : List Json → Bool
  | [] => true
  | item :: rest => isKeyed item && itemsKeyed rest

/-- Whether all values of an object are keyed. -/
def entriesKeyed : List (String × Json) → Bool
  | [] => true
  | (_, value) :: rest => isKeyed value && entriesKeyed rest

end

theorem itemsKeyed_iff (items : List Json) :
    itemsKeyed items = true ↔ ∀ item ∈ items, item.isKeyed = true := by
  induction items with
  | nil => simp [itemsKeyed]
  | cons item rest ih => simp [itemsKeyed, ih]

theorem isKeyed_list (items : List Json) :
    (Json.list items).isKeyed = true ↔ ∀ item ∈ items, item.isKeyed = true := by
  rw [isKeyed, itemsKeyed_iff]

theorem entriesKeyed_iff (entries : List (String × Json)) :
    entriesKeyed entries = true ↔ ∀ entry ∈ entries, entry.2.isKeyed = true := by
  induction entries with
  | nil => simp [entriesKeyed]
  | cons entry rest ih => simp [entriesKeyed, ih]

theorem isKeyed_object (entries : Fields Json) :
    (Json.object entries).isKeyed = true ↔
      (Fields.keys entries).Nodup ∧ ∀ entry ∈ entries, entry.2.isKeyed = true := by
  rw [isKeyed, Bool.and_eq_true, decide_eq_true_iff, entriesKeyed_iff]

theorem isKeyed_concat (entries : Fields Json) (key : String) (value : Json) :
    (Json.object (entries ++ [(key, value)])).isKeyed = true ↔
      (Json.object entries).isKeyed = true ∧ key ∉ Fields.keys entries ∧ value.isKeyed = true := by
  rw [isKeyed_object, isKeyed_object, Fields.keys_append, List.nodup_append_comm,
    List.forall_mem_append, List.forall_mem_singleton]
  simp only [Fields.keys_cons, Fields.keys_nil, List.cons_append, List.nil_append, List.nodup_cons]
  tauto

end Json

namespace Node

@[elab_as_elim]
theorem induction {motive : Node → Prop}
    (terminal : ∀ node, node.isContainer = false → motive node)
    (container : ∀ children, (∀ child ∈ children, motive child.2) → motive (.container children)) :
    ∀ node, motive node
  | .leaf type value => terminal (.leaf type value) rfl
  | .container children => container children fun child _ => induction terminal container child.2
  | .bare value => terminal (.bare value) rfl
  | .malformed raw malformation => terminal (.malformed raw malformation) rfl
termination_by node => sizeOf node
decreasing_by
  rename_i member
  have smaller := List.sizeOf_lt_of_mem member
  have parts : sizeOf child = 1 + sizeOf child.1 + sizeOf child.2 := by cases child; rfl
  simp only [Node.container.sizeOf_spec]
  omega

theorem exists_children {node : Node} (container : node.isContainer = true) :
    ∃ children, node = .container children := by
  cases node with
  | container children => exact ⟨children, rfl⟩
  | _ => exact absurd container Bool.false_ne_true

theorem children_of_terminal {node : Node} (terminal : node.isContainer = false) :
    node.children = [] := by
  cases node with
  | container children => exact absurd terminal.symm Bool.false_ne_true
  | _ => rfl

theorem child?_eq_get? (node : Node) (key : String) :
    node.child? key = Fields.get? node.children key := by
  cases node <;> rfl

theorem descend?_of_terminal {node : Node} (terminal : node.isContainer = false)
    {keys : List String} (proper : keys ≠ []) : node.descend? keys = none := by
  cases keys with
  | nil => exact absurd rfl proper
  | cons key keys =>
      rw [descend?, child?_eq_get?, children_of_terminal terminal]
      rfl

mutual

/-- Whether no container in a tree names a child twice. -/
def isKeyed : Node → Bool
  | .leaf _ _ => true
  | .container children => decide (Fields.keys children).Nodup && childrenKeyed children
  | .bare _ => true
  | .malformed _ _ => true

/-- Whether all children of a container are keyed. -/
def childrenKeyed : List (String × Node) → Bool
  | [] => true
  | (_, child) :: rest => isKeyed child && childrenKeyed rest

end

theorem childrenKeyed_iff (children : List (String × Node)) :
    childrenKeyed children = true ↔ ∀ child ∈ children, child.2.isKeyed = true := by
  induction children with
  | nil => simp [childrenKeyed]
  | cons child rest ih => simp [childrenKeyed, ih]

theorem isKeyed_container (children : Fields Node) :
    (Node.container children).isKeyed = true ↔
      (Fields.keys children).Nodup ∧ ∀ child ∈ children, child.2.isKeyed = true := by
  rw [isKeyed, Bool.and_eq_true, decide_eq_true_iff, childrenKeyed_iff]

/-! ## Size -/

mutual

/-- The number of children at all depths. -/
def size : Node → Nat
  | .leaf _ _ => 0
  | .container children => childrenSize children
  | .bare _ => 0
  | .malformed _ _ => 0

/-- The number of some children and of the children below them. -/
def childrenSize : List (String × Node) → Nat
  | [] => 0
  | (_, child) :: rest => size child + 1 + childrenSize rest

end

theorem childrenSize_eq_sum (children : List (String × Node)) :
    childrenSize children = (children.map fun child => child.2.size + 1).sum := by
  induction children with
  | nil => rfl
  | cons child rest ih => rw [childrenSize, ih, List.map_cons, List.sum_cons]

theorem size_container (children : Fields Node) :
    (Node.container children).size = (children.map fun child => child.2.size + 1).sum := by
  rw [size, childrenSize_eq_sum]

theorem size_of_terminal {node : Node} (terminal : node.isContainer = false) : node.size = 0 := by
  cases node with
  | container children => exact absurd terminal.symm Bool.false_ne_true
  | _ => rfl

theorem size_lt_of_mem {children : Fields Node} {child : String × Node}
    (member : child ∈ children) : child.2.size < (Node.container children).size := by
  rw [size_container]
  exact Nat.lt_of_succ_le (List.single_le_sum (by simp) _ (List.mem_map_of_mem member))

theorem size_lt_of_mem_children {node : Node} {child : String × Node}
    (member : child ∈ node.children) : child.2.size < node.size := by
  cases node with
  | container children => exact size_lt_of_mem member
  | _ => exact absurd member List.not_mem_nil

theorem size_lt_of_child? {node child : Node} {key : String}
    (found : node.child? key = some child) : child.size < node.size := by
  rw [child?_eq_get?] at found
  exact size_lt_of_mem_children (Fields.mem_of_get?_eq_some found)

theorem size_le_of_descend? {node found : Node} {keys : List String}
    (reached : node.descend? keys = some found) : found.size ≤ node.size := by
  induction keys generalizing node with
  | nil => rw [Option.some.inj reached]
  | cons key keys ih =>
      obtain ⟨child, isChild, reached⟩ := Option.bind_eq_some_iff.mp reached
      exact (ih reached).trans (size_lt_of_child? isChild).le

theorem size_without_le (node : Node) (keys : List String) :
    (node.without keys).size ≤ node.size := by
  cases node with
  | container children =>
      rw [without, size_container, size_container]
      exact (List.filter_sublist.map _).sum_le_sum (by simp)
  | _ => exact le_rfl

/-! ## The tree of a document -/

theorem shape_eq_leaf_iff (entries : Fields Json) (type value : Json) :
    shape entries = .leaf type value ↔
      Fields.get? entries typeKey = some type ∧ Fields.get? entries valueKey = some value := by
  rw [shape]
  cases Fields.get? entries typeKey <;> cases Fields.get? entries valueKey <;> simp

theorem get?_valueKey_of_shape {entries : Fields Json} {type value : Json}
    (shaped : shape entries = .leaf type value) : Fields.get? entries valueKey = some value :=
  ((shape_eq_leaf_iff entries type value).mp shaped).2

theorem childrenOfJson_eq_map (entries : List (String × Json)) :
    childrenOfJson entries = entries.map fun entry => (entry.1, ofJson entry.2) := by
  induction entries with
  | nil => rfl
  | cons entry rest ih => rw [childrenOfJson, ih, List.map_cons]

theorem keys_childrenOfJson (entries : List (String × Json)) :
    Fields.keys (childrenOfJson entries) = Fields.keys entries := by
  simp [childrenOfJson_eq_map, Fields.keys, Function.comp_def]

theorem shape_eq_container_iff (entries : Fields Json) :
    shape entries = .container ↔
      typeKey ∉ Fields.keys entries ∧ valueKey ∉ Fields.keys entries := by
  rw [← Fields.get?_eq_none_iff_not_mem, ← Fields.get?_eq_none_iff_not_mem, shape]
  cases Fields.get? entries typeKey <;> cases Fields.get? entries valueKey <;> simp

theorem ofJson_container {entries : Fields Json} (shapeless : shape entries = .container) :
    ofJson (.object entries) = .container (childrenOfJson entries) := by
  rw [ofJson, shapeless]

/-- An object without metadata is a container. -/
theorem ofJson_object_of_tokens {entries : Fields Json}
    (tokens : ∀ key ∈ Fields.keys entries, isMetadata key = false) :
    ofJson (.object entries) = .container (childrenOfJson entries) := by
  apply ofJson_container
  rw [shape_eq_container_iff]
  constructor
  · intro named
    have metadata : isMetadata typeKey = true := by decide
    simp [tokens typeKey named] at metadata
  · intro named
    have metadata : isMetadata valueKey = true := by decide
    simp [tokens valueKey named] at metadata

theorem exists_entries_of_isContainer {value : Json}
    (container : (ofJson value).isContainer = true) :
    ∃ entries, value = .object entries ∧
      ofJson (.object entries) = .container (childrenOfJson entries) := by
  cases value with
  | null => simp [ofJson, isContainer] at container
  | scalar value => simp [ofJson, isContainer] at container
  | list items => simp [ofJson, isContainer] at container
  | object entries =>
      refine ⟨entries, rfl, ?_⟩
      cases shaped : shape entries with
      | leaf type value => simp [ofJson, shaped, isContainer] at container
      | malformed malformation => simp [ofJson, shaped, isContainer] at container
      | container => exact ofJson_container shaped

theorem isKeyed_ofJson {value : Json} (keyed : value.isKeyed = true) :
    (ofJson value).isKeyed = true := by
  induction value using Json.induction with
  | null => rfl
  | scalar value => rfl
  | list items => rfl
  | object entries ih =>
      obtain ⟨distinct, keyed⟩ := (Json.isKeyed_object entries).mp keyed
      cases shaped : shape entries with
      | leaf type value => simp [ofJson, shaped, isKeyed]
      | malformed malformation => simp [ofJson, shaped, isKeyed]
      | container =>
          rw [ofJson_container shaped, isKeyed_container, keys_childrenOfJson,
            childrenOfJson_eq_map]
          refine ⟨distinct, ?_⟩
          simp only [List.forall_mem_map]
          exact fun entry member => ih entry member (keyed entry member)

end Node
end DesignTokens
