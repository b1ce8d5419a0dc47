import DesignTokens.Proofs.Resolve.Results

/-!
# Where tokens are placed

A container's object is written in one pass.  Every child that is no metadata is placed in a slot;
the container of a rename parent places the nodes below it up to the first rename rule or the first
plain token, each in a slot next to the parent or under it.  The object is made by writing the
values of all these nodes into their slots, in document order, so that the last value written to a
slot stays.
-/

namespace DesignTokens

/-- A place in the object of a container. -/
inductive Slot
  /-- Under a key of the object. -/
  | own (key : String)
  /-- Under a key of the object of a rename parent. -/
  | under (parent key : String)
  deriving DecidableEq, Repr

/-- A node whose value is written to a slot. -/
structure Placement where
  /-- The slot. -/
  slot : Slot
  /-- The path of the node. -/
  path : TokenPath
  /-- The node. -/
  node : Node
  /-- Whether the key is the name of a rename rule. -/
  renamed : Bool

namespace Placement

/-- The value that is written, if there is one. -/
def value (placement : Placement) : Option Json :=
  if placement.renamed then
    Resolve.substantial (Resolve.tree placement.path placement.node).value
  else (Resolve.tree placement.path placement.node).value

/-- The entry that is written to the object of the container. -/
def own? (placement : Placement) : Option (String × Json) :=
  match placement.slot with
  | .own key => placement.value.map fun value => (key, value)
  | .under _ _ => none

/-- The entry that is written to the object of a rename parent. -/
def under? (placement : Placement) : Option (String × Json) :=
  match placement.slot with
  | .own _ => none
  | .under _ key => placement.value.map fun value => (key, value)

end Placement

namespace Resolve

/-- The slot of a token that a rule renames in the expansion of `owner`. -/
def renamedSlot (owner : String) (parent : TokenPath) (rule : Rename) : Slot :=
  if 3 ≤ rule.depth || parent.getLast? = some owner then .own rule.name else .under owner rule.name

mutual

/-- The nodes that the expansion of `owner` places below a node. -/
def terminals (owner : String) (path : TokenPath) : Node → List Placement
  | .container children => childrenTerminals owner path children
  | .leaf _ _ => []
  | .bare _ => []
  | .malformed _ _ => []

/-- The nodes that the expansion of `owner` places among the children of a container. -/
def childrenTerminals (owner : String) (path : TokenPath) : List (String × Node) → List Placement
  | [] => []
  | (key, child) :: rest =>
      if isMetadata key then childrenTerminals owner path rest
      else
        (match Rename.find? (path ++ [key]) with
          | some rule => [⟨renamedSlot owner path rule, path ++ [key], child, true⟩]
          | none =>
              if child.isContainer then terminals owner (path ++ [key]) child
              else [⟨.under owner key, path ++ [key], child, false⟩]) ++
        childrenTerminals owner path rest

end

/-- The nodes that one child places in the expansion of `owner`. -/
def childTerminals (owner : String) (path : TokenPath) (key : String) (child : Node) :
    List Placement :=
  match Rename.find? (path ++ [key]) with
  | some rule => [⟨renamedSlot owner path rule, path ++ [key], child, true⟩]
  | none =>
      if child.isContainer then terminals owner (path ++ [key]) child
      else [⟨.under owner key, path ++ [key], child, false⟩]

/-- The nodes that a child places in the object of its container. -/
def childPlacements (path : TokenPath) (key : String) (child : Node) : List Placement :=
  if child.isContainer && Rename.isParent key then terminals key (path ++ [key]) child
  else [⟨.own key, path ++ [key], child, false⟩]

/-- The nodes whose values are written into the object of a container. -/
def placements (path : TokenPath) (children : List (String × Node)) : List Placement :=
  children.flatMap fun child =>
    if isMetadata child.1 then [] else childPlacements path child.1 child.2

theorem terminals_of_terminal (owner : String) (path : TokenPath) {node : Node}
    (terminal : node.isContainer = false) : terminals owner path node = [] := by
  cases node with
  | container children => exact absurd terminal.symm Bool.false_ne_true
  | _ => rw [terminals]

theorem childrenTerminals_metadata (owner : String) (path : TokenPath) {key : String}
    (metadata : isMetadata key = true) (child : Node) (rest : List (String × Node)) :
    childrenTerminals owner path ((key, child) :: rest) = childrenTerminals owner path rest := by
  rw [childrenTerminals, if_pos metadata]

theorem childrenTerminals_token (owner : String) (path : TokenPath) {key : String}
    (token : isMetadata key = false) (child : Node) (rest : List (String × Node)) :
    childrenTerminals owner path ((key, child) :: rest) =
      childTerminals owner path key child ++ childrenTerminals owner path rest := by
  rw [childrenTerminals, if_neg (by simp [token]), childTerminals]

/-- What holds of every child of a container, and of all nodes that expansions place below it, holds
of all nodes that expansions place below the container. -/
theorem childrenTerminals_forall (holds : TokenPath → Node → Prop) {children : List (String × Node)}
    (parts : ∀ child ∈ children, (∀ path, holds path child.2) ∧ ∀ owner path,
      ∀ placement ∈ terminals owner path child.2, holds placement.path placement.node)
    (owner : String) (path : TokenPath) :
    ∀ placement ∈ childrenTerminals owner path children, holds placement.path placement.node := by
  induction children with
  | nil => simp [childrenTerminals]
  | cons child rest ih =>
      obtain ⟨⟨here, below⟩, others⟩ := List.forall_mem_cons.mp parts
      cases token : isMetadata child.1 with
      | true =>
          rw [childrenTerminals_metadata _ _ token]
          exact ih others
      | false =>
          rw [childrenTerminals_token _ _ token, List.forall_mem_append]
          refine ⟨?_, ih others⟩
          unfold childTerminals
          split
          · simpa using here (path ++ [child.1])
          · split
            · exact below owner (path ++ [child.1])
            · simpa using here (path ++ [child.1])

/-- An expansion writes to slots under its owner, and to slots with names of the rename table. -/
theorem terminals_slot (owner : String) (path : TokenPath) (node : Node) :
    ∀ placement ∈ terminals owner path node,
      (∃ rule ∈ Rename.table, placement.slot = .own rule.name) ∨
        ∃ key, placement.slot = .under owner key := by
  induction node using Node.induction generalizing path with
  | terminal node terminal => simp [terminals_of_terminal owner path terminal]
  | container children parts =>
      rw [terminals]
      induction children with
      | nil => simp [childrenTerminals]
      | cons child rest ih =>
          obtain ⟨here, others⟩ := List.forall_mem_cons.mp parts
          cases token : isMetadata child.1 with
          | true =>
              rw [childrenTerminals_metadata _ _ token]
              exact ih others
          | false =>
              rw [childrenTerminals_token _ _ token, List.forall_mem_append]
              refine ⟨?_, ih others⟩
              unfold childTerminals
              split
              · rename_i rule found
                rw [List.forall_mem_singleton, renamedSlot]
                split
                · exact .inl ⟨rule, Rename.mem_table_of_find? found, rfl⟩
                · exact .inr ⟨rule.name, rfl⟩
              · split
                · exact here (path ++ [child.1])
                · rw [List.forall_mem_singleton]
                  exact .inr ⟨child.1, rfl⟩

/-- A child is placed under its own key, unless it is expanded. -/
theorem childPlacements_cases (path : TokenPath) (key : String) (child : Node) :
    childPlacements path key child = [⟨.own key, path ++ [key], child, false⟩] ∨
      Rename.isParent key = true ∧ ∀ placement ∈ childPlacements path key child,
        (∃ rule ∈ Rename.table, placement.slot = .own rule.name) ∨
          ∃ name, placement.slot = .under key name := by
  rw [childPlacements]
  split
  · rename_i expanded
    exact .inr ⟨((Bool.and_eq_true _ _).mp expanded).2, terminals_slot key _ child⟩
  · exact .inl rfl

end Resolve

namespace Expansion

/-- The entries of both kinds that some placements write. -/
def ofPlacements (placements : List Placement) : Expansion where
  flattened := Fields.ofList (placements.filterMap Placement.own?)
  nested := Fields.ofList (placements.filterMap Placement.under?)

theorem ofPlacements_append (first second : List Placement) :
    ofPlacements (first ++ second) = (ofPlacements first).merge (ofPlacements second) := by
  simp [ofPlacements, merge, Fields.ofList_append]

theorem ofPlacements_own {placement : Placement} {key : String} (slot : placement.slot = .own key) :
    ofPlacements [placement] = ⟨Resolve.keyed key placement.value, []⟩ := by
  cases written : placement.value <;>
    simp [ofPlacements, Placement.own?, Placement.under?, slot, written, Resolve.keyed,
      Fields.ofList, Fields.put]

theorem ofPlacements_under {placement : Placement} {parent key : String}
    (slot : placement.slot = .under parent key) :
    ofPlacements [placement] = ⟨[], Resolve.keyed key placement.value⟩ := by
  cases written : placement.value <;>
    simp [ofPlacements, Placement.own?, Placement.under?, slot, written, Resolve.keyed,
      Fields.ofList, Fields.put]

end Expansion

namespace Resolve

open Expansion (ofPlacements)

private theorem renamed_eq_ofPlacements (owner : String) (path : TokenPath) (rule : Rename)
    (placement : Placement) (slot : placement.slot = renamedSlot owner path rule)
    (byRule : placement.renamed = true) :
    renamed owner path rule (tree placement.path placement.node).value =
      ofPlacements [placement] := by
  have written : substantial (tree placement.path placement.node).value = placement.value := by
    rw [Placement.value, if_pos byRule]
  rw [renamed, written]
  rw [renamedSlot] at slot
  split at slot
  · rename_i flat
    rw [Expansion.ofPlacements_own slot]
    cases placement.value with
    | none => rfl
    | some value => exact if_pos flat
  · rename_i flat
    rw [Expansion.ofPlacements_under slot]
    cases placement.value with
    | none => rfl
    | some value => exact if_neg flat

private theorem value_expandChild {node : Node}
    (below : ∀ owner path,
      (expand owner path node.children).value = ofPlacements (terminals owner path node))
    (owner : String) (path : TokenPath) (key : String) :
    (expandChild owner path key node).value =
      ofPlacements (childTerminals owner path key node) := by
  unfold expandChild childTerminals
  cases Rename.find? (path ++ [key]) with
  | some rule => exact renamed_eq_ofPlacements owner path rule ⟨_, _, node, true⟩ rfl rfl
  | none =>
      have plain : ofPlacements [⟨.under owner key, path ++ [key], node, false⟩] =
          ⟨[], keyed key (tree (path ++ [key]) node).value⟩ := Expansion.ofPlacements_under rfl
      cases node with
      | container children => exact below owner (path ++ [key])
      | leaf type value => exact plain.symm
      | bare value => exact plain.symm
      | malformed raw malformation => exact plain.symm

/-- An expansion writes the values of its terminals into their slots, one after another. -/
theorem value_expand (owner : String) (path : TokenPath) (node : Node) :
    (expand owner path node.children).value = ofPlacements (terminals owner path node) := by
  induction node using Node.induction generalizing owner path with
  | terminal node terminal =>
      rw [Node.children_of_terminal terminal, terminals_of_terminal owner path terminal]
      rfl
  | container children parts =>
      rw [Node.children, terminals]
      induction children with
      | nil => rfl
      | cons child rest ih =>
          obtain ⟨here, others⟩ := List.forall_mem_cons.mp parts
          cases token : isMetadata child.1 with
          | true => rw [expand_metadata _ _ token, childrenTerminals_metadata _ _ token, ih others]
          | false =>
              rw [expand_token _ _ token, childrenTerminals_token _ _ token,
                Expansion.ofPlacements_append, ← ih others, ← value_expandChild here]
              rfl

/-! ## The object of a container -/

/-- The object of a rename parent under its key, if something is written to it. -/
def nestedRow (key : String) (placements : List Placement) : List (String × Json) :=
  if (ofPlacements placements).nested.isEmpty then []
  else [(key, .object (ofPlacements placements).nested)]

/-- The entries that a child writes into the object of its container: the object of a rename parent,
and the values in slots of the container's own. -/
def childRow (path : TokenPath) (key : String) (child : Node) : List (String × Json) :=
  nestedRow key (childPlacements path key child) ++
    (childPlacements path key child).filterMap Placement.own?

/-- The entries that the children of a container write, in order. -/
def rows (path : TokenPath) (children : List (String × Node)) : List (String × Json) :=
  children.flatMap fun child => if isMetadata child.1 then [] else childRow path child.1 child.2

theorem value_treeChild (path : TokenPath) (key : String) (child : Node) :
    (treeChild path key child).value = Fields.ofList (childRow path key child) := by
  have nested : ∀ placements, Fields.ofList (nestedRow key placements) =
      nestedRow key placements := by
    intro placements
    rw [nestedRow]
    split <;> rfl
  rw [treeChild, childRow, Fields.ofList_append, nested, nestedRow, childPlacements]
  split
  · rw [expandedChild, Logged.map_value, value_expand]
    rfl
  · have own : ofPlacements [⟨.own key, path ++ [key], child, false⟩] =
        ⟨keyed key (tree (path ++ [key]) child).value, []⟩ := Expansion.ofPlacements_own rfl
    rw [own]
    exact ((Fields.nil_merge _).trans (congrArg Expansion.flattened own)).symm

/-- The object of a container is made by writing the entries of its children one after another. -/
theorem value_tree_container (path : TokenPath) (children : List (String × Node)) :
    (tree path (.container children)).value =
      some (.object (Fields.ofList (rows path children))) := by
  rw [tree_container, Logged.map_value]
  congr 2
  induction children with
  | nil => rfl
  | cons child rest ih =>
      rw [rows, List.flatMap_cons, ← rows]
      cases token : isMetadata child.1 with
      | true =>
          rw [gather_metadata _ token, if_pos rfl, List.nil_append]
          exact ih
      | false =>
          rw [gather_token _ token, if_neg Bool.false_ne_true, Fields.ofList_append, ← ih,
            ← value_treeChild]
          rfl

end Resolve
end DesignTokens
