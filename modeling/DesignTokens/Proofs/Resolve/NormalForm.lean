import DesignTokens.Proofs.Resolve.Weight
import Mathlib.Algebra.Order.Group.Nat

/-!
# Normal forms

A value is normal at a path if nothing in it asks to be resolved: it has no metadata, nothing empty
and nothing malformed, and the object of a rename parent has only plain entries without a rename
rule.  Away from the sections the normal values are just those that resolution leaves as they are.

That a fixed value is normal is seen by counting keys.  Whatever resolution drops, renames or moves
up costs a key, so a fixed value has lost nothing anywhere, and its entries are the contributions of
its children one by one.
-/

namespace DesignTokens

namespace Json

/-- Whether a value is a scalar other than the empty text. -/
def isFilled : Json → Bool
  | .scalar value => value != .str ""
  | _ => false

/-- Whether a value is an object. -/
def isObject : Json → Bool
  | .object _ => true
  | _ => false

/-- Whether the object of a rename parent stays as it is: there is something in it, and every entry
is a plain one to which no rename rule applies. -/
def isKept (path : TokenPath) : Json → Bool
  | .object entries =>
      !entries.isEmpty && entries.all fun entry =>
        !isMetadata entry.1 && entry.2.isFilled && (Rename.find? (path ++ [entry.1])).isNone
  | _ => false

mutual

/-- Whether a value is normal at a path. -/
def isNormal (path : TokenPath) : Json → Bool
  | .null => false
  | .scalar value => value != .str ""
  | .list _ => false
  | .object entries => entriesNormal path entries

/-- Whether the entries of an object at a path are normal. -/
def entriesNormal (path : TokenPath) : List (String × Json) → Bool
  | [] => true
  | (key, value) :: rest =>
      !isMetadata key &&
        (if Rename.isParent key && value.isObject then value.isKept (path ++ [key])
          else isNormal (path ++ [key]) value) &&
        entriesNormal path rest

end

/-- Whether an entry of an object at a path is normal. -/
def entryNormal (path : TokenPath) (entry : String × Json) : Bool :=
  if Rename.isParent entry.1 && entry.2.isObject then entry.2.isKept (path ++ [entry.1])
  else isNormal (path ++ [entry.1]) entry.2

theorem entriesNormal_iff (path : TokenPath) (entries : Fields Json) :
    entriesNormal path entries = true ↔
      ∀ entry ∈ entries, isMetadata entry.1 = false ∧ entryNormal path entry = true := by
  induction entries with
  | nil => simp [entriesNormal]
  | cons entry rest ih => simp [entriesNormal, entryNormal, ih]

theorem isKept_object (path : TokenPath) (entries : Fields Json) :
    (Json.object entries).isKept path = true ↔ entries ≠ [] ∧ ∀ entry ∈ entries,
      isMetadata entry.1 = false ∧ entry.2.isFilled = true ∧
        Rename.find? (path ++ [entry.1]) = none := by
  simp [isKept, and_assoc]

theorem isNormal_of_isFilled (path : TokenPath) {value : Json} (filled : value.isFilled = true) :
    value.isNormal path = true := by
  cases value with
  | scalar value => rwa [isNormal]
  | null => simp [isFilled] at filled
  | list items => simp [isFilled] at filled
  | object entries => simp [isFilled] at filled

/-! ## Counting keys -/

mutual

/-- The number of keys in a value, those in lists apart. -/
def keyCount : Json → Nat
  | .null => 0
  | .scalar _ => 0
  | .list _ => 0
  | .object entries => entriesKeyCount entries

/-- The number of keys in the entries of an object. -/
def entriesKeyCount : List (String × Json) → Nat
  | [] => 0
  | (_, value) :: rest => 1 + keyCount value + entriesKeyCount rest

end

theorem keyCount_object (entries : Fields Json) :
    (Json.object entries).keyCount = Fields.total (fun part => 1 + keyCount part) entries := by
  rw [keyCount]
  induction entries with
  | nil => rfl
  | cons entry rest ih => rw [entriesKeyCount, Fields.total_cons, ih]

theorem keyCount_lt_of_mem {entries : Fields Json} {entry : String × Json}
    (member : entry ∈ entries) : entry.2.keyCount < (Json.object entries).keyCount := by
  rw [keyCount_object]
  induction entries with
  | nil => simp at member
  | cons head rest ih =>
      rw [Fields.total_cons]
      rcases List.mem_cons.mp member with rfl | member
      · omega
      · have below := ih member
        omega

end Json

namespace Weighing

/-- Values and nodes weigh their keys. -/
def keys : Weighing Nat where
  key := 1
  value := Json.keyCount
  terminal
    | .leaf _ value => value.keyCount
    | _ => 0
  value_object := Json.keyCount_object
  value_le_terminal path node terminal result resolved := by
    rcases Node.of_mem_resolveTerminal resolved with ⟨css, rfl⟩ | ⟨type, rfl⟩ | ⟨value, rfl, rfl⟩
    · exact Nat.zero_le _
    · exact le_rfl
    · exact le_rfl

theorem fields_keys_eq_zero {entries : Fields Json} (weightless : keys.fields entries = 0) :
    entries = [] := by
  cases entries with
  | nil => rfl
  | cons entry rest =>
      rw [fields_cons] at weightless
      have key : keys.key = 1 := rfl
      omega

/-- The tree of a leaf has fewer keys than the leaf. -/
theorem node_ofJson_lt_of_leaf {entries : Fields Json} {type value : Json}
    (shaped : Node.shape entries = .leaf type value) :
    keys.node (.ofJson (.object entries)) < (Json.object entries).keyCount := by
  simp only [Node.ofJson, shaped, Weighing.node, keys]
  exact Json.keyCount_lt_of_mem (Fields.mem_of_get?_eq_some (Node.get?_valueKey_of_shape shaped))

/-- The tree of a value has no more keys than the value. -/
theorem node_ofJson_le (value : Json) : keys.node (.ofJson value) ≤ value.keyCount := by
  induction value using Json.induction with
  | null => exact le_rfl
  | scalar value => exact le_rfl
  | list items => exact le_rfl
  | object entries ih =>
      cases shaped : Node.shape entries with
      | leaf type value => exact (node_ofJson_lt_of_leaf shaped).le
      | malformed malformation =>
          simp only [Node.ofJson, shaped, Weighing.node, keys]
          exact Nat.zero_le _
      | container =>
          rw [Node.ofJson_container shaped, node_container, Json.keyCount_object]
          clear shaped
          induction entries with
          | nil => exact le_rfl
          | cons entry rest parts =>
              obtain ⟨here, others⟩ := List.forall_mem_cons.mp ih
              have below := parts others
              rw [Node.childrenOfJson, children, Fields.total_cons]
              have key : keys.key = 1 := rfl
              split <;> omega

end Weighing

namespace Resolve

open Weighing (keys)

/-! ## Walks that lose no key -/

private theorem children_keys_le (parts : List (String × Node)) :
    keys.children parts ≤ Fields.total (fun part => 1 + keys.node part) parts := by
  induction parts with
  | nil => exact le_rfl
  | cons part rest ih =>
      have key : keys.key = 1 := rfl
      rw [Weighing.children, Fields.total_cons]
      split <;> omega

theorem total_childrenOfJson_le (entries : Fields Json) :
    Fields.total (fun part => 1 + keys.node part) (Node.childrenOfJson entries) ≤
      keys.fields entries := by
  induction entries with
  | nil => exact le_rfl
  | cons entry rest ih =>
      have here := Weighing.node_ofJson_le entry.2
      rw [Node.childrenOfJson, Fields.total_cons, Weighing.fields_cons]
      exact add_le_add (Nat.add_le_add_left here 1) ih

theorem children_childrenOfJson_le (entries : Fields Json) :
    keys.children (Node.childrenOfJson entries) ≤ keys.fields entries :=
  (children_keys_le _).trans (total_childrenOfJson_le entries)

variable {contribution : String → Node → Logged (Fields Json)}
  (clean : ∀ key child, isMetadata key = false →
    Fields.Clean (fun _ => True) (contribution key child).value)
  (bounded : ∀ key child, keys.fields (contribution key child).value ≤ 1 + keys.node child)

include clean bounded

/-- A walk that loses no key passes no metadata, every child contributes all its keys, and no
contribution is assigned over another one. -/
theorem gather_lossless {parts : List (String × Node)}
    (lossless : Fields.total (fun part => 1 + keys.node part) parts ≤
      keys.fields (gather contribution parts).value) :
    (∀ part ∈ parts, isMetadata part.1 = false ∧
      keys.fields (contribution part.1 part.2).value = 1 + keys.node part.2) ∧
    (gather contribution parts).value =
      parts.flatMap fun part => (contribution part.1 part.2).value := by
  induction parts with
  | nil => simp
  | cons part rest ih =>
      have others : keys.fields (gather contribution rest).value ≤
          Fields.total (fun part => 1 + keys.node part) rest :=
        (Weighing.fields_gather_le (fun part _ => clean part.1 part.2)
          fun part _ _ => bounded part.1 part.2).trans (children_keys_le rest)
      rw [Fields.total_cons] at lossless
      cases token : isMetadata part.1 with
      | true =>
          rw [gather_metadata _ token] at lossless
          omega
      | false =>
          rw [gather_token _ token] at lossless ⊢
          have here := bounded part.1 part.2
          have distinct := (clean part.1 part.2 token).distinct
          have distinctRest : (Fields.keys (gather contribution rest).value).Nodup :=
            (gather_clean fun part _ => clean part.1 part.2).distinct
          have merged := keys.fields_merge_le distinct distinctRest
          simp only [Logged.bind_value, Logged.pure_value] at lossless ⊢
          -- The walk has as many keys as both bounds together, so the merge is met with equality.
          have kept : keys.fields (contribution part.1 part.2).value +
              keys.fields (gather contribution rest).value ≤ keys.fields (Fields.merge
                (contribution part.1 part.2).value (gather contribution rest).value) := by
            omega
          have apart := Fields.merge_eq_append_of_total_le
            (fun value => (Nat.lt_add_right (keys.value value) Nat.one_pos).ne') distinct
            distinctRest kept
          obtain ⟨each, joined⟩ := ih (by omega)
          refine ⟨List.forall_mem_cons.mpr ⟨⟨token, by omega⟩, each⟩, ?_⟩
          rw [apart, joined, List.flatMap_cons]

omit clean bounded in
private theorem length_le_flatMap {α β : Type} {items : List α} {f : α → List β}
    (nonempty : ∀ item ∈ items, f item ≠ []) : items.length ≤ (items.flatMap f).length := by
  induction items with
  | nil => exact le_rfl
  | cons item rest ih =>
      obtain ⟨here, others⟩ := List.forall_mem_cons.mp nonempty
      have below := ih others
      have positive := List.length_pos_of_ne_nil here
      rw [List.flatMap_cons, List.length_append, List.length_cons]
      omega

omit clean bounded in
/-- If nonempty rows joined together are as long as the number of rows, each of them has one
item. -/
private theorem eq_singleton_of_flatMap_eq {α β : Type} {items : List α} {f : α → List β}
    {g : α → β} (nonempty : ∀ item ∈ items, f item ≠ []) (same : items.flatMap f = items.map g) :
    ∀ item ∈ items, f item = [g item] := by
  induction items with
  | nil => simp
  | cons item rest ih =>
      obtain ⟨here, others⟩ := List.forall_mem_cons.mp nonempty
      rw [List.flatMap_cons, List.map_cons] at same
      obtain ⟨first, more, parts⟩ := List.exists_cons_of_ne_nil here
      rw [parts, List.cons_append, List.cons.injEq] at same
      obtain ⟨rfl, same⟩ := same
      have lengths := congrArg List.length same
      have below := length_le_flatMap others
      rw [List.length_append, List.length_map] at lengths
      obtain rfl : more = [] := List.eq_nil_of_length_eq_zero (by omega)
      exact List.forall_mem_cons.mpr ⟨parts, ih others same⟩

/-- If a walk over the children of an object gives back the entries of the object, every child
contributes its own entry and has lost no key. -/
theorem gather_fixed {entries : Fields Json}
    (fixed : (gather contribution (Node.childrenOfJson entries)).value = entries) :
    ∀ entry ∈ entries, isMetadata entry.1 = false ∧
      (contribution entry.1 (.ofJson entry.2)).value = [entry] ∧
      keys.node (.ofJson entry.2) = entry.2.keyCount := by
  have lossless := gather_lossless clean bounded
    ((total_childrenOfJson_le entries).trans (congrArg _ fixed).ge)
  obtain ⟨each, joined⟩ := lossless
  rw [fixed, Node.childrenOfJson_eq_map, List.flatMap_map] at joined
  rw [Node.childrenOfJson_eq_map, List.forall_mem_map] at each
  have nonempty : ∀ entry ∈ entries, (contribution entry.1 (.ofJson entry.2)).value ≠ [] := by
    intro entry member empty
    have weight := (each entry member).2
    rw [empty, Weighing.fields_nil] at weight
    omega
  have own := eq_singleton_of_flatMap_eq nonempty (joined.symm.trans (List.map_id' entries).symm)
  intro entry member
  obtain ⟨token, weight⟩ := each entry member
  change keys.fields (contribution entry.1 (.ofJson entry.2)).value =
    1 + keys.node (.ofJson entry.2) at weight
  refine ⟨token, own entry member, ?_⟩
  rw [own entry member, Weighing.fields_cons, Weighing.fields_nil] at weight
  exact (Nat.add_left_cancel weight).symm

omit clean bounded

/-- If every child of an object contributes its own entry, the walk gives back the object. -/
theorem gather_eq_pure {entries : Fields Json} (distinct : (Fields.keys entries).Nodup)
    (own : ∀ entry ∈ entries, isMetadata entry.1 = false ∧
      contribution entry.1 (.ofJson entry.2) = pure [entry]) :
    gather contribution (Node.childrenOfJson entries) = pure entries := by
  induction entries with
  | nil => rfl
  | cons entry rest ih =>
      obtain ⟨⟨token, here⟩, others⟩ := List.forall_mem_cons.mp own
      obtain ⟨fresh, distinct⟩ := (Fields.nodup_keys_cons entry rest).mp distinct
      have apart : ∀ key ∈ Fields.keys [entry], key ∉ Fields.keys rest := by simpa using fresh
      rw [Node.childrenOfJson, gather_token _ token, here, ih distinct others]
      simp [Fields.merge_of_disjoint apart]

/-! ## Terminal nodes -/

theorem isFilled_of_terminal (path : TokenPath) {value : Json}
    (terminal : (Node.ofJson value).isContainer = false)
    (fixed : ((Node.ofJson value).resolveTerminal path).value = some value) :
    value.isFilled = true := by
  cases value with
  | null => simp [Node.ofJson, Node.resolveTerminal] at fixed
  | list items => simp [Node.ofJson, Node.resolveTerminal] at fixed
  | scalar value =>
      by_cases empty : value = .str ""
      · simp [Node.ofJson, Node.resolveTerminal, empty] at fixed
      · simpa [Json.isFilled] using empty
  | object entries =>
      have below := keys.result_terminal_le path terminal
      rw [fixed, Weighing.result] at below
      cases shaped : Node.shape entries with
      | container => simp [Node.ofJson, shaped, Node.isContainer] at terminal
      | malformed malformation => simp [Node.ofJson, shaped, Node.resolveTerminal] at fixed
      | leaf type value =>
          exact absurd below (Nat.not_le.mpr (Weighing.node_ofJson_lt_of_leaf shaped))

theorem resolveTerminal_of_isFilled (path : TokenPath) {value : Json}
    (filled : value.isFilled = true) :
    (Node.ofJson value).isContainer = false ∧
      (Node.ofJson value).resolveTerminal path = pure (some value) := by
  cases value with
  | scalar value =>
      have filled : value ≠ .str "" := by simpa [Json.isFilled] using filled
      simp [Node.ofJson, Node.isContainer, Node.resolveTerminal, filled]
  | null => simp [Json.isFilled] at filled
  | list items => simp [Json.isFilled] at filled
  | object entries => simp [Json.isFilled] at filled

theorem isObject_of_isContainer {value : Json}
    (container : (Node.ofJson value).isContainer = true) : value.isObject = true := by
  obtain ⟨entries, rfl, -⟩ := Node.exists_entries_of_isContainer container
  rfl

theorem ofJson_of_tokens {entries : Fields Json}
    (tokens : ∀ entry ∈ entries, isMetadata entry.1 = false) :
    Node.ofJson (.object entries) = .container (Node.childrenOfJson entries) := by
  apply Node.ofJson_object_of_tokens
  intro key named
  obtain ⟨entry, member, same⟩ := List.mem_map.mp named
  exact same ▸ tokens entry member

theorem eq_some_of_keyed {key : String} {value : Json} {result : Option Json}
    (fixed : keyed key result = [(key, value)]) : result = some value := by
  cases result with
  | none => simp [keyed] at fixed
  | some other => simpa [keyed] using fixed

/-! ## Expansions -/

private theorem nested_expand (owner : String) (path : TokenPath) (parts : List (String × Node)) :
    Expansion.nested <$> expand owner path parts =
      gather (fun key child => Expansion.nested <$> expandChild owner path key child) parts := by
  induction parts with
  | nil => rfl
  | cons part rest ih =>
      cases token : isMetadata part.1 with
      | true => rw [expand_metadata _ _ token, gather_metadata _ token, ih]
      | false =>
          rw [expand_token _ _ token, gather_token _ token, ← ih]
          simp [Expansion.merge]

/-- A child of an expanded container that keeps its entry and all its keys gives no flat entry. -/
private theorem expandChild_eq_of_nested {owner : String} {path : TokenPath} {key : String}
    {value : Json}
    (kept : (expandChild owner path key (.ofJson value)).value.nested = [(key, value)])
    (whole : keys.node (.ofJson value) = value.keyCount) :
    (expandChild owner path key (.ofJson value)).value = ⟨[], [(key, value)]⟩ := by
  have below := keys.expansion_expandChild_le owner path key (.ofJson value)
  have one : keys.key = 1 := rfl
  have count : keys.value value = value.keyCount := rfl
  rw [Weighing.expansion, kept, Weighing.fields_cons, Weighing.fields_nil, whole, count] at below
  have flattened := Weighing.fields_keys_eq_zero (by omega :
    keys.fields (expandChild owner path key (.ofJson value)).value.flattened = 0)
  exact congrArg₂ Expansion.mk flattened kept

/-- A child of an expanded container that keeps its entry and all its keys is a plain one without a
rename rule. -/
private theorem plain_of_expandChild {owner : String} {path : TokenPath}
    (last : path.getLast? = some owner) {key : String} {value : Json}
    (nested : (expandChild owner path key (.ofJson value)).value.nested = [(key, value)])
    (whole : keys.node (.ofJson value) = value.keyCount) :
    value.isFilled = true ∧ Rename.find? (path ++ [key]) = none := by
  have kept := expandChild_eq_of_nested nested whole
  unfold expandChild at kept
  split at kept
  · simp only [Logged.map_value, renamed, last, decide_true, Bool.or_true, if_true] at kept
    split at kept <;> simp [Expansion.empty] at kept
  · rename_i children _ container
    have below := keys.expansion_expand_le owner (path ++ [key]) (.container children)
    have count : keys.value value = value.keyCount := rfl
    rw [Node.children, kept, Weighing.expansion, Weighing.fields_cons, ← container, whole,
      count] at below
    have one : keys.key = 1 := rfl
    omega
  · rename_i rule terminal
    have terminal : (Node.ofJson value).isContainer = false := by
      cases node : Node.ofJson value with
      | container children => exact absurd node (terminal children)
      | _ => rfl
    rw [tree_terminal _ terminal, Logged.map_value] at kept
    have resolved := eq_some_of_keyed (congrArg Expansion.nested kept)
    exact ⟨isFilled_of_terminal (path ++ [key]) terminal resolved, rule⟩

/-- If the container of a rename parent contributes its own entry, it is kept. -/
theorem isKept_of_expandedChild {path : TokenPath} {key : String}
    (parent : Rename.isParent key = true) {value : Json}
    (container : (Node.ofJson value).isContainer = true)
    (fixed : (expandedChild path key (.ofJson value)).value = [(key, value)]) :
    value.isKept (path ++ [key]) = true := by
  obtain ⟨entries, rfl, node⟩ := Node.exists_entries_of_isContainer container
  have clean := expand_preserves (fun _ _ => trivial)
    (Node.yields_true (.ofJson (.object entries))) key (path ++ [key])
  have split := clean.entries_eq parent
  rw [expandedChild, Logged.map_value, split] at fixed
  have own := clean.parent_not_mem parent
  rw [node, Node.children] at fixed own
  cases nested : (expand key (path ++ [key]) (Node.childrenOfJson entries)).value.nested with
  | nil =>
      simp only [nested, List.isEmpty_nil, if_true, List.nil_append] at fixed
      simp [fixed] at own
  | cons first rest =>
      simp only [nested, List.isEmpty_cons, Bool.false_eq_true, if_false, List.cons_append,
        List.nil_append, List.cons.injEq, Prod.mk.injEq, Json.object.injEq, true_and] at fixed
      obtain ⟨same, flattened⟩ := fixed
      rw [same] at nested
      have gathered : (gather (fun name child =>
          Expansion.nested <$> expandChild key (path ++ [key]) name child)
          (Node.childrenOfJson entries)).value = entries := by
        rw [← nested_expand, Logged.map_value, nested]
      have each := gather_fixed
        (fun name child token => (expandChild_clean (fun _ _ => trivial) child.yields_true key
          (path ++ [key]) token).nested)
        (fun name child => le_add_self.trans
          (keys.expansion_expandChild_le key (path ++ [key]) name child)) gathered
      rw [Json.isKept_object]
      refine ⟨by simp [← same], ?_⟩
      intro entry member
      obtain ⟨token, kept, whole⟩ := each entry member
      exact ⟨token, plain_of_expandChild List.getLast?_concat kept whole⟩

/-- Plain entries without a rename rule stay under the key of an expansion. -/
private theorem expand_of_plain {owner : String} {path : TokenPath} {entries : Fields Json}
    (distinct : (Fields.keys entries).Nodup)
    (plain : ∀ entry ∈ entries, isMetadata entry.1 = false ∧ entry.2.isFilled = true ∧
      Rename.find? (path ++ [entry.1]) = none) :
    expand owner path (Node.childrenOfJson entries) = pure ⟨[], entries⟩ := by
  induction entries with
  | nil => rfl
  | cons entry rest ih =>
      obtain ⟨⟨token, filled, rule⟩, others⟩ := List.forall_mem_cons.mp plain
      obtain ⟨fresh, distinct⟩ := (Fields.nodup_keys_cons entry rest).mp distinct
      have apart : ∀ key ∈ Fields.keys [entry], key ∉ Fields.keys rest := by simpa using fresh
      obtain ⟨terminal, resolved⟩ := resolveTerminal_of_isFilled (path ++ [entry.1]) filled
      have here : expandChild owner path entry.1 (.ofJson entry.2) = pure ⟨[], [entry]⟩ := by
        unfold expandChild
        split
        · rename_i found
          rw [rule] at found
          exact absurd found.symm (Option.some_ne_none _)
        · rename_i container
          rw [container] at terminal
          exact absurd terminal.symm Bool.false_ne_true
        · rw [tree_terminal _ terminal, resolved]
          rfl
      rw [Node.childrenOfJson, expand_token _ _ token, here, ih distinct others]
      simp [Expansion.merge, Fields.merge_of_disjoint apart]

/-- The container of a rename parent that is kept contributes its own entry. -/
theorem expandedChild_of_isKept {path : TokenPath} {key : String} {value : Json}
    (keyed : value.isKeyed = true) (kept : value.isKept (path ++ [key]) = true) :
    (Node.ofJson value).isContainer = true ∧
      expandedChild path key (.ofJson value) = pure [(key, value)] := by
  cases value with
  | null => simp [Json.isKept] at kept
  | scalar value => simp [Json.isKept] at kept
  | list items => simp [Json.isKept] at kept
  | object entries =>
      obtain ⟨nonempty, plain⟩ := (Json.isKept_object (path ++ [key]) entries).mp kept
      obtain ⟨distinct, -⟩ := (Json.isKeyed_object entries).mp keyed
      have node := ofJson_of_tokens fun entry member => (plain entry member).1
      refine ⟨by rw [node, Node.isContainer], ?_⟩
      rw [expandedChild, node, Node.children, expand_of_plain distinct plain]
      simp [Expansion.entries, nonempty]

/-! ## Away from the sections -/

/-- A normal object is a container. -/
theorem isContainer_of_isNormal {path : TokenPath} {value : Json}
    (normal : value.isNormal path = true) : (Node.ofJson value).isContainer = value.isObject := by
  cases value with
  | object entries =>
      rw [Json.isNormal, Json.entriesNormal_iff] at normal
      rw [ofJson_of_tokens fun entry member => (normal entry member).1, Node.isContainer,
        Json.isObject]
  | _ => rfl

/-- A child that contributes its own entry is normal, if the resolver leaves only normal values. -/
theorem entryNormal_of_treeChild {path : TokenPath} {entry : String × Json}
    (normal : (tree (path ++ [entry.1]) (.ofJson entry.2)).value = some entry.2 →
      entry.2.isNormal (path ++ [entry.1]) = true)
    (fixed : (treeChild path entry.1 (.ofJson entry.2)).value = [entry]) :
    Json.entryNormal path entry = true := by
  obtain ⟨key, value⟩ := entry
  rw [Json.entryNormal]
  unfold treeChild at fixed
  split at fixed
  · rename_i expanded
    obtain ⟨container, parent⟩ := (Bool.and_eq_true _ _).mp expanded
    rw [if_pos (by rw [parent, isObject_of_isContainer container, Bool.and_self])]
    exact isKept_of_expandedChild parent container fixed
  · rename_i plain
    have normal := normal (eq_some_of_keyed fixed)
    rw [isContainer_of_isNormal normal, Bool.and_comm] at plain
    rwa [if_neg plain]

/-- A value that resolution without sections leaves as it is is normal. -/
theorem isNormal_of_tree {path : TokenPath} {value : Json}
    (fixed : (tree path (.ofJson value)).value = some value) : value.isNormal path = true := by
  induction value using Json.induction generalizing path with
  | null => simp [Node.ofJson, tree, Node.resolveTerminal] at fixed
  | list items => simp [Node.ofJson, tree, Node.resolveTerminal] at fixed
  | scalar value =>
      rw [tree_terminal path rfl] at fixed
      exact Json.isNormal_of_isFilled path (isFilled_of_terminal path rfl fixed)
  | object entries ih =>
      cases container : (Node.ofJson (.object entries)).isContainer with
      | false =>
          rw [tree_terminal path container] at fixed
          exact Json.isNormal_of_isFilled path (isFilled_of_terminal path container fixed)
      | true =>
          obtain ⟨children, same, node⟩ := Node.exists_entries_of_isContainer container
          obtain rfl := Json.object.inj same
          rw [node, tree_container] at fixed
          simp only [Logged.map_value, Option.some.injEq, Json.object.injEq] at fixed
          have each := gather_fixed (fun key child token => treeChild_clean (fun _ _ => trivial)
            child.yields_true path token)
            (keys.fields_treeChild_le path) fixed
          rw [Json.isNormal, Json.entriesNormal_iff]
          intro entry member
          obtain ⟨token, own, -⟩ := each entry member
          exact ⟨token, entryNormal_of_treeChild (ih entry member) own⟩

theorem treeChild_of_entryNormal {path : TokenPath} {entry : String × Json}
    (keyed : entry.2.isKeyed = true) (normal : Json.entryNormal path entry = true)
    (fixed : entry.2.isNormal (path ++ [entry.1]) = true →
      tree (path ++ [entry.1]) (.ofJson entry.2) = pure (some entry.2)) :
    treeChild path entry.1 (.ofJson entry.2) = pure [entry] := by
  obtain ⟨key, value⟩ := entry
  rw [Json.entryNormal] at normal
  rw [treeChild]
  split at normal
  · rename_i expanded
    obtain ⟨parent, -⟩ := (Bool.and_eq_true _ _).mp expanded
    obtain ⟨container, contributed⟩ := expandedChild_of_isKept keyed normal
    rw [if_pos (by simp [container, parent]), contributed]
  · rename_i plain
    rw [isContainer_of_isNormal normal, Bool.and_comm, if_neg plain, plainChild, fixed normal]
    rfl

/-- Resolution without sections leaves a normal value as it is, without a word. -/
theorem tree_of_isNormal {path : TokenPath} {value : Json} (keyed : value.isKeyed = true)
    (normal : value.isNormal path = true) : tree path (.ofJson value) = pure (some value) := by
  induction value using Json.induction generalizing path with
  | null => simp [Json.isNormal] at normal
  | list items => simp [Json.isNormal] at normal
  | scalar value =>
      have filled : (Json.scalar value).isFilled = true := by rwa [Json.isNormal] at normal
      rw [tree_terminal path rfl]
      exact (resolveTerminal_of_isFilled path filled).2
  | object entries ih =>
      rw [Json.isNormal, Json.entriesNormal_iff] at normal
      obtain ⟨distinct, keyed⟩ := (Json.isKeyed_object entries).mp keyed
      rw [ofJson_of_tokens fun entry member => (normal entry member).1, tree_container,
        gather_eq_pure distinct]
      · rfl
      · intro entry member
        obtain ⟨token, normal⟩ := normal entry member
        have keyed := keyed entry member
        exact ⟨token, treeChild_of_entryNormal keyed normal (ih entry member keyed)⟩

/-- Away from the sections, resolution leaves just the normal values as they are, and does so
without a word. -/
theorem value_eq_self_iff_isNormal {path : TokenPath} (clear : Dispatch.Clear path)
    {document : Json} (keyed : document.isKeyed = true) (present : document ≠ .null) :
    ((value path document).value = some document ↔ document.isNormal path = true) ∧
      (document.isNormal path = true → (value path document).events = []) := by
  rw [value_of_ne_null path present, node_eq_tree clear]
  refine ⟨⟨isNormal_of_tree, ?_⟩, ?_⟩
  · intro normal
    rw [tree_of_isNormal keyed normal, Logged.pure_value]
  · intro normal
    rw [tree_of_isNormal keyed normal, Logged.pure_events]

/-- Below `primitive`, a plain entry stays under `hover`, and a color does not. -/
theorem shade_but_no_color_below_hover :
    (value ["primitive"] (.object [("hover", .object [("shade", .str "dark")])])).value =
        some (.object [("hover", .object [("shade", .str "dark")])]) ∧
      (value ["primitive"] (.object [("hover", .object [("color", .str "dark")])])).value ≠
        some (.object [("hover", .object [("color", .str "dark")])]) := by
  have clear : Dispatch.Clear ["primitive"] := by decide
  constructor
  · refine (value_eq_self_iff_isNormal clear ?_ ?_).1.mpr ?_
    · decide
    · simp
    · decide
  · refine mt (value_eq_self_iff_isNormal clear ?_ ?_).1.mp ?_
    · decide
    · simp
    · decide

end Resolve
end DesignTokens
