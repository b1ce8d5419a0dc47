import DesignTokens.Proofs.Resolve.Conservation
import DesignTokens.Proofs.Resolve.Placement

/-!
# What is overwritten

Scalars are lost in one way only: a value is written to a slot, and a later one is written over it.
Without sections the scalars of a result are therefore all those of the tree exactly if, in every
container that is resolved, no value is written over that of a node that has scalars.
-/

namespace DesignTokens

namespace Placement

/-- The scalars of the value that is written. -/
def scalars (placement : Placement) : Multiset Scalar := (Json.ofOption placement.value).scalars

/-- Whether a later value is written over one. -/
def OverwrittenBy (first second : Placement) : Prop :=
  first.slot = second.slot ∧ second.value ≠ none

theorem own?_eq_some_iff (placement : Placement) (key : String) (value : Json) :
    placement.own? = some (key, value) ↔
      placement.slot = .own key ∧ placement.value = some value := by
  rw [own?]
  cases placement.slot with
  | own name => simp [and_comm]
  | under parent name => simp

theorem under?_eq_some_iff (placement : Placement) (key : String) (value : Json) :
    placement.under? = some (key, value) ↔
      (∃ parent, placement.slot = .under parent key) ∧ placement.value = some value := by
  rw [under?]
  cases placement.slot with
  | own name => simp
  | under parent name => simp [and_comm]

/-- Leaving out an empty object loses no scalar. -/
theorem scalars_eq (placement : Placement) :
    placement.scalars =
      (Json.ofOption (Resolve.tree placement.path placement.node).value).scalars := by
  rw [scalars, value]
  split
  · unfold Resolve.substantial
    split
    · rename_i empty
      rw [empty]
      rfl
    · rfl
  · rfl

theorem scalars_le (placement : Placement) : placement.scalars ≤ placement.node.atoms := by
  have bounded := Weighing.scalars.result_tree_le placement.path placement.node
  rwa [Weighing.result_scalars, Weighing.node_scalars, ← scalars_eq] at bounded

private theorem total_toList (placement : Placement) :
    Fields.total Json.scalars placement.own?.toList +
        Fields.total Json.scalars placement.under?.toList = placement.scalars := by
  rw [own?, under?, scalars]
  cases placement.slot <;> cases placement.value <;> simp [Json.ofOption, Json.scalars]

/-- Every placement writes one entry, of its own kind. -/
theorem total_own_add_total_under (placements : List Placement) :
    Fields.total Json.scalars (placements.filterMap own?) +
        Fields.total Json.scalars (placements.filterMap under?) =
      (placements.map scalars).sum := by
  simp only [List.filterMap_eq_flatMap_toList]
  induction placements with
  | nil => rfl
  | cons placement rest ih =>
      rw [List.flatMap_cons, List.flatMap_cons, Fields.total_append, Fields.total_append,
        add_add_add_comm, total_toList, ih, List.map_cons, List.sum_cons]

/-! ## Overwriting slot by slot -/

/-- A later entry with the same key takes no scalar away. -/
private abbrev Harmless (first second : String × Json) : Prop :=
  first.1 = second.1 → first.2.scalars = 0

/-- A later placement in the same slot takes no scalar away. -/
private abbrev Sparing (first second : Placement) : Prop :=
  first.OverwrittenBy second → first.scalars = 0

private theorem scalars_of_value {placement : Placement} {value : Json}
    (written : placement.value = some value) : placement.scalars = value.scalars := by
  rw [scalars, written, Json.ofOption]

/-- One placement spares another just if the entries do that they write, if both are not under
different rename parents. -/
private theorem sparing_iff {first second : Placement}
    (single : ∀ parent key other name, first.slot = .under parent key →
      second.slot = .under other name → parent = other) :
    Sparing first second ↔
      (∀ entry ∈ first.own?, ∀ other ∈ second.own?, Harmless entry other) ∧
        ∀ entry ∈ first.under?, ∀ other ∈ second.under?, Harmless entry other := by
  constructor
  · intro spares
    constructor
    · rintro ⟨key, value⟩ own ⟨name, other⟩ ownOther (rfl : key = name)
      obtain ⟨slot, written⟩ := (own?_eq_some_iff first key value).mp own
      obtain ⟨slotOther, writtenOther⟩ := (own?_eq_some_iff second key other).mp ownOther
      rw [← scalars_of_value written]
      exact spares ⟨slot.trans slotOther.symm, by simp [writtenOther]⟩
    · rintro ⟨key, value⟩ under ⟨name, other⟩ underOther (rfl : key = name)
      obtain ⟨⟨parent, slot⟩, written⟩ := (under?_eq_some_iff first key value).mp under
      obtain ⟨⟨parentOther, slotOther⟩, writtenOther⟩ :=
        (under?_eq_some_iff second key other).mp underOther
      obtain rfl := single parent key parentOther key slot slotOther
      rw [← scalars_of_value written]
      exact spares ⟨slot.trans slotOther.symm, by simp [writtenOther]⟩
  · rintro ⟨own, under⟩ ⟨same, present⟩
    obtain ⟨other, writtenOther⟩ := Option.ne_none_iff_exists'.mp present
    cases written : first.value with
    | none => rw [scalars, written]; rfl
    | some value =>
        rw [scalars_of_value written]
        cases slot : first.slot with
        | own key =>
            have slotOther := same.symm.trans slot
            exact own (key, value) ((own?_eq_some_iff first key value).mpr ⟨slot, written⟩)
              (key, other) ((own?_eq_some_iff second key other).mpr ⟨slotOther, writtenOther⟩) rfl
        | under parent key =>
            have slotOther := same.symm.trans slot
            exact under (key, value)
              ((under?_eq_some_iff first key value).mpr ⟨⟨parent, slot⟩, written⟩) (key, other)
              ((under?_eq_some_iff second key other).mpr ⟨⟨parent, slotOther⟩, writtenOther⟩) rfl

/-- Placements with a single rename parent spare each other if the entries next to the parent and
those under it do. -/
private theorem pairwise_sparing_iff {owner : String} {placements : List Placement}
    (single : ∀ placement ∈ placements, ∀ parent key, placement.slot = .under parent key →
      parent = owner) :
    placements.Pairwise Sparing ↔
      (placements.filterMap own?).Pairwise Harmless ∧
        (placements.filterMap under?).Pairwise Harmless := by
  rw [List.pairwise_filterMap, List.pairwise_filterMap, ← List.pairwise_and_iff]
  apply List.Pairwise.iff_of_mem
  intro first second memberFirst memberSecond
  apply sparing_iff
  intro parent key other name slot slotOther
  exact (single first memberFirst parent key slot).trans
    (single second memberSecond other name slotOther).symm

end Placement

namespace Resolve

open Placement

/-! ## Siblings -/

private theorem own_name {path : TokenPath} {key name : String} {child : Node}
    {placement : Placement} (member : placement ∈ childPlacements path key child)
    (slot : placement.slot = .own name) :
    name = key ∨ Rename.isParent name = false := by
  rcases childPlacements_cases path key child with plain | ⟨-, slots⟩
  · rw [plain, List.mem_singleton] at member
    rw [member] at slot
    exact .inl (Slot.own.inj slot).symm
  · rcases slots placement member with ⟨rule, listed, same⟩ | ⟨under, same⟩
    · obtain rfl := Slot.own.inj (slot.symm.trans same)
      exact .inr (Rename.isParent_name listed)
    · simp [slot] at same

private theorem under_parent {path : TokenPath} {key parent name : String} {child : Node}
    {placement : Placement} (member : placement ∈ childPlacements path key child)
    (slot : placement.slot = .under parent name) : parent = key := by
  rcases childPlacements_cases path key child with plain | ⟨-, slots⟩
  · rw [plain, List.mem_singleton] at member
    simp [member] at slot
  · rcases slots placement member with ⟨rule, -, same⟩ | ⟨under, same⟩
    · simp [slot] at same
    · exact (Slot.under.inj (slot.symm.trans same)).1

/-- If something is written under a key, the key is that of a rename parent, and nothing else is
written to it. -/
private theorem of_mem_nestedRow {path : TokenPath} {key : String} {child : Node}
    {entry : String × Json} (member : entry ∈ nestedRow key (childPlacements path key child)) :
    entry.1 = key ∧ Rename.isParent key = true ∧
      ∀ placement ∈ childPlacements path key child, placement.slot ≠ .own key := by
  rw [nestedRow] at member
  split at member
  · simp at member
  · rename_i written
    refine ⟨by rw [List.mem_singleton.mp member], ?_⟩
    rcases childPlacements_cases path key child with plain | ⟨parent, slots⟩
    · rw [plain, Expansion.ofPlacements_own rfl] at written
      exact absurd rfl written
    · refine ⟨parent, ?_⟩
      intro placement placed slot
      rcases slots placement placed with ⟨rule, listed, same⟩ | ⟨under, same⟩
      · obtain rfl := Slot.own.inj (slot.symm.trans same)
        simp [Rename.isParent_name listed] at parent
      · simp [slot] at same

private theorem mem_childRow {path : TokenPath} {key : String} {child : Node}
    {entry : String × Json} (member : entry ∈ childRow path key child) :
    entry ∈ nestedRow key (childPlacements path key child) ∨
      ∃ placement ∈ childPlacements path key child,
        placement.slot = .own entry.1 ∧ placement.value = some entry.2 := by
  rcases List.mem_append.mp member with nested | own
  · exact .inl nested
  · obtain ⟨placement, placed, written⟩ := List.mem_filterMap.mp own
    exact .inr ⟨placement, placed, (own?_eq_some_iff placement entry.1 entry.2).mp written⟩

private theorem pairwise_childRow_iff (path : TokenPath) (key : String) (child : Node) :
    (childRow path key child).Pairwise Harmless ↔
      ((childPlacements path key child).filterMap own?).Pairwise Harmless := by
  rw [childRow, List.pairwise_append]
  constructor
  · exact fun harmless => harmless.2.1
  · intro harmless
    refine ⟨?_, harmless, ?_⟩
    · rw [nestedRow]
      split
      · exact .nil
      · exact List.pairwise_singleton _ _
    · intro entry nested other own same
      obtain ⟨own_key, -, apart⟩ := of_mem_nestedRow nested
      obtain ⟨placement, placed, written⟩ := List.mem_filterMap.mp own
      obtain ⟨slot, -⟩ := (own?_eq_some_iff placement other.1 other.2).mp written
      rw [← same, own_key] at slot
      exact absurd slot (apart placement placed)

/-- The placements of two children spare each other just as the entries do that they write. -/
private theorem siblings_iff {path : TokenPath} {key other : String} (different : key ≠ other)
    (child sibling : Node) :
    (∀ first ∈ childPlacements path key child, ∀ second ∈ childPlacements path other sibling,
        Sparing first second) ↔
      ∀ first ∈ childRow path key child, ∀ second ∈ childRow path other sibling,
        Harmless first second := by
  constructor
  · intro sparing entry member entryOther memberOther same
    rcases mem_childRow member with nested | ⟨placement, placed, slot, written⟩
    · obtain ⟨own_key, parent, -⟩ := of_mem_nestedRow nested
      rcases mem_childRow memberOther with nestedOther | ⟨placement, placed, slot, -⟩
      · obtain ⟨other_key, -⟩ := of_mem_nestedRow nestedOther
        exact absurd (own_key.symm.trans (same.trans other_key)) different
      · rcases own_name placed slot with name | name
        · exact absurd (own_key.symm.trans (same.trans name)) different
        · rw [← same, own_key, parent] at name
          exact absurd name (by decide)
    · rcases mem_childRow memberOther with nestedOther | ⟨second, placedOther, slotOther, present⟩
      · obtain ⟨other_key, parent, -⟩ := of_mem_nestedRow nestedOther
        rcases own_name placed slot with name | name
        · exact absurd (name.symm.trans (same.trans other_key)) different
        · rw [same, other_key, parent] at name
          exact absurd name (by decide)
      · rw [← scalars_of_value written]
        exact sparing placement placed second placedOther
          ⟨by rw [slot, slotOther, same], by simp [present]⟩
  · rintro harmless first placed second placedOther ⟨same, present⟩
    obtain ⟨valueOther, writtenOther⟩ := Option.ne_none_iff_exists'.mp present
    cases slot : first.slot with
    | under parent name =>
        have parentOther := under_parent placedOther (same.symm.trans slot)
        exact absurd ((under_parent placed slot).symm.trans parentOther) different
    | own name =>
        cases written : first.value with
        | none => rw [Placement.scalars, written]; rfl
        | some value =>
            rw [scalars_of_value written]
            have own := (own?_eq_some_iff first name value).mpr ⟨slot, written⟩
            have ownOther := (own?_eq_some_iff second name valueOther).mpr
              ⟨same.symm.trans slot, writtenOther⟩
            exact harmless (name, value)
              (List.mem_append_right _ (List.mem_filterMap.mpr ⟨first, placed, own⟩))
              (name, valueOther)
              (List.mem_append_right _ (List.mem_filterMap.mpr ⟨second, placedOther, ownOther⟩)) rfl

private theorem mem_flatMap_tokens {α : Type} {row : String → Node → List α}
    {children : List (String × Node)} {item : α} :
    (item ∈ children.flatMap fun child => if isMetadata child.1 then [] else row child.1 child.2) ↔
      ∃ child ∈ children, isMetadata child.1 = false ∧ item ∈ row child.1 child.2 := by
  rw [List.mem_flatMap]
  apply exists_congr
  intro child
  cases isMetadata child.1 <;> simp

private theorem mem_placements {path : TokenPath} {children : List (String × Node)}
    {placement : Placement} :
    placement ∈ placements path children ↔ ∃ child ∈ children, isMetadata child.1 = false ∧
      placement ∈ childPlacements path child.1 child.2 :=
  mem_flatMap_tokens

private theorem mem_rows {path : TokenPath} {children : List (String × Node)}
    {entry : String × Json} :
    entry ∈ rows path children ↔ ∃ child ∈ children, isMetadata child.1 = false ∧
      entry ∈ childRow path child.1 child.2 :=
  mem_flatMap_tokens

theorem placements_metadata (path : TokenPath) {child : String × Node}
    (metadata : isMetadata child.1 = true) (rest : List (String × Node)) :
    placements path (child :: rest) = placements path rest := by
  simp [placements, metadata]

theorem placements_token (path : TokenPath) {child : String × Node}
    (token : isMetadata child.1 = false) (rest : List (String × Node)) :
    placements path (child :: rest) =
      childPlacements path child.1 child.2 ++ placements path rest := by
  simp [placements, token]

theorem rows_metadata (path : TokenPath) {child : String × Node}
    (metadata : isMetadata child.1 = true) (rest : List (String × Node)) :
    rows path (child :: rest) = rows path rest := by
  simp [rows, metadata]

theorem rows_token (path : TokenPath) {child : String × Node} (token : isMetadata child.1 = false)
    (rest : List (String × Node)) :
    rows path (child :: rest) = childRow path child.1 child.2 ++ rows path rest := by
  simp [rows, token]

/-- Whether nothing is lost under the keys of rename parents. -/
private abbrev NestedHarmless (path : TokenPath) (children : List (String × Node)) : Prop :=
  ∀ child ∈ children, isMetadata child.1 = false →
    ((childPlacements path child.1 child.2).filterMap under?).Pairwise Harmless

private theorem pairwise_placements_iff (path : TokenPath) {children : List (String × Node)}
    (distinct : (Fields.keys children).Nodup) :
    (placements path children).Pairwise Sparing ↔
      (rows path children).Pairwise Harmless ∧ NestedHarmless path children := by
  induction children with
  | nil => simp [placements, rows]
  | cons child rest ih =>
      obtain ⟨fresh, distinct⟩ := (Fields.nodup_keys_cons child rest).mp distinct
      rw [NestedHarmless, List.forall_mem_cons]
      cases token : isMetadata child.1 with
      | true => simp [placements_metadata path token, rows_metadata path token, ih distinct]
      | false =>
          have single : ∀ placement ∈ childPlacements path child.1 child.2, ∀ parent key,
              placement.slot = .under parent key → parent = child.1 :=
            fun placement member parent key slot => under_parent member slot
          have different : ∀ sibling ∈ rest, child.1 ≠ sibling.1 :=
            fun sibling listed same => fresh (same ▸ Fields.mem_keys_of_mem listed)
          -- Slots of different children meet only under the container's own keys.
          have across : (∀ first ∈ childPlacements path child.1 child.2,
              ∀ second ∈ placements path rest, Sparing first second) ↔
                ∀ first ∈ childRow path child.1 child.2, ∀ second ∈ rows path rest,
                  Harmless first second := by
            constructor
            · intro sparing first member second memberOther
              obtain ⟨sibling, listed, token, memberOther⟩ := mem_rows.mp memberOther
              refine (siblings_iff (different sibling listed) _ _).mp ?_ first member second
                memberOther
              exact fun first placed second placedOther => sparing first placed second
                (mem_placements.mpr ⟨sibling, listed, token, placedOther⟩)
            · intro harmless first placed second placedOther
              obtain ⟨sibling, listed, token, placedOther⟩ := mem_placements.mp placedOther
              refine (siblings_iff (different sibling listed) _ _).mpr ?_ first placed second
                placedOther
              exact fun first member second memberOther => harmless first member second
                (mem_rows.mpr ⟨sibling, listed, token, memberOther⟩)
          rw [placements_token path token, rows_token path token, List.pairwise_append,
            List.pairwise_append, pairwise_childRow_iff, ih distinct, pairwise_sparing_iff single,
            across]
          constructor
          · rintro ⟨⟨own, under⟩, ⟨others, nested⟩, across⟩
            exact ⟨⟨own, others, across⟩, fun _ => under, nested⟩
          · rintro ⟨⟨own, others, across⟩, under, nested⟩
            exact ⟨⟨own, under rfl⟩, ⟨others, nested⟩, across⟩

/-! ## Counting -/

private theorem total_childRow (path : TokenPath) (key : String) (child : Node) :
    Fields.total Json.scalars (childRow path key child) =
      Fields.total Json.scalars ((childPlacements path key child).filterMap own?) +
        Fields.total Json.scalars
          (Fields.ofList ((childPlacements path key child).filterMap under?)) := by
  have nested : ∀ placements, Fields.total Json.scalars (nestedRow key placements) =
      Fields.total Json.scalars (Fields.ofList (placements.filterMap under?)) := by
    intro placements
    rw [nestedRow]
    split
    · rename_i empty
      rw [List.isEmpty_iff] at empty
      exact (congrArg (Fields.total Json.scalars) empty).symm
    · simp [Json.scalars_object, Expansion.ofPlacements]
  rw [childRow, Fields.total_append, nested, add_comm]

/-- The entries of a container have no more scalars than its placements, and as many if nothing is
lost under the keys of rename parents. -/
private theorem total_rows_le (path : TokenPath) (children : List (String × Node)) :
    Fields.total Json.scalars (rows path children) ≤
        ((placements path children).map Placement.scalars).sum ∧
      (Fields.total Json.scalars (rows path children) =
          ((placements path children).map Placement.scalars).sum ↔
        NestedHarmless path children) := by
  induction children with
  | nil => simp [rows, placements]
  | cons child rest ih =>
      obtain ⟨bounded, whole⟩ := ih
      rw [NestedHarmless, List.forall_mem_cons]
      cases token : isMetadata child.1 with
      | true =>
          rw [rows_metadata path token, placements_metadata path token]
          refine ⟨bounded, whole.trans ?_⟩
          simp
      | false =>
          have here := Fields.total_ofList_le Json.scalars
            ((childPlacements path child.1 child.2).filterMap under?)
          have below := add_le_add_right here
            (Fields.total Json.scalars ((childPlacements path child.1 child.2).filterMap own?))
          rw [rows_token path token, placements_token path token, Fields.total_append,
            List.map_append, List.sum_append, total_childRow, ← total_own_add_total_under]
          refine ⟨add_le_add below bounded, ?_⟩
          rw [add_eq_add_iff_eq_and_eq below bounded, whole, add_left_cancel_iff,
            Fields.total_ofList_eq_iff]
          simp

/-- The object of a container has as many scalars as its placements just if they spare each
other. -/
private theorem total_ofList_rows_eq_iff (path : TokenPath) {children : List (String × Node)}
    (distinct : (Fields.keys children).Nodup) :
    Fields.total Json.scalars (Fields.ofList (rows path children)) =
        ((placements path children).map Placement.scalars).sum ↔
      (placements path children).Pairwise Sparing := by
  obtain ⟨bounded, whole⟩ := total_rows_le path children
  rw [pairwise_placements_iff path distinct, ← whole, ← Fields.total_ofList_eq_iff]
  have assigned := Fields.total_ofList_le Json.scalars (rows path children)
  constructor
  · intro same
    have rowsSame := bounded.antisymm (same.symm.le.trans assigned)
    exact ⟨same.trans rowsSame.symm, rowsSame⟩
  · rintro ⟨assigned, rowsSame⟩
    exact assigned.trans rowsSame

/-- The scalars that the nodes of some placements give. -/
private def offered (placements : List Placement) : Multiset Scalar :=
  (placements.map fun placement => placement.node.atoms).sum

private theorem offered_singleton (placement : Placement) :
    offered [placement] = placement.node.atoms := by
  simp [offered]

private theorem offered_append (first second : List Placement) :
    offered (first ++ second) = offered first + offered second := by
  simp [offered]

/-- An expansion places all that its container gives. -/
private theorem offered_terminals (owner : String) (path : TokenPath) {node : Node}
    (container : node.isContainer = true) : offered (terminals owner path node) = node.atoms := by
  induction node using Node.induction generalizing path with
  | terminal node terminal => exact absurd (terminal.symm.trans container) Bool.false_ne_true
  | container children parts =>
      rw [terminals, Node.atoms]
      clear container
      induction children with
      | nil => rfl
      | cons child rest ih =>
          obtain ⟨here, others⟩ := List.forall_mem_cons.mp parts
          rw [Node.childrenAtoms, ← ih others]
          cases token : isMetadata child.1 with
          | true => simp [childrenTerminals_metadata _ _ token]
          | false =>
              have own : offered (childTerminals owner path child.1 child.2) = child.2.atoms := by
                unfold childTerminals
                split
                · exact offered_singleton _
                · split
                  · rename_i container
                    exact here (path ++ [child.1]) container
                  · exact offered_singleton _
              rw [childrenTerminals_token _ _ token, offered_append, own]
              rfl

private theorem offered_placements (path : TokenPath) (children : List (String × Node)) :
    offered (placements path children) = Node.childrenAtoms children := by
  induction children with
  | nil => rfl
  | cons child rest ih =>
      rw [Node.childrenAtoms, ← ih]
      cases token : isMetadata child.1 with
      | true => simp [placements_metadata path token]
      | false =>
          have own : offered (childPlacements path child.1 child.2) = child.2.atoms := by
            rw [childPlacements]
            split
            · rename_i expanded
              exact offered_terminals _ _ ((Bool.and_eq_true _ _).mp expanded).1
            · exact offered_singleton _
          rw [placements_token path token, offered_append, own]
          rfl

private theorem sum_scalars_le (placements : List Placement) :
    (placements.map Placement.scalars).sum ≤ offered placements :=
  List.sum_le_sum fun placement _ => placement.scalars_le

private theorem sum_scalars_eq_iff (placements : List Placement) :
    (placements.map Placement.scalars).sum = offered placements ↔
      ∀ placement ∈ placements, placement.scalars = placement.node.atoms := by
  induction placements with
  | nil => simp [offered]
  | cons placement rest ih =>
      have whole : offered (placement :: rest) = placement.node.atoms + offered rest := rfl
      rw [whole, List.map_cons, List.sum_cons,
        add_eq_add_iff_eq_and_eq placement.scalars_le (sum_scalars_le rest), ih,
        List.forall_mem_cons]

/-! ## Nothing is lost -/

/-- Nothing that a node at a path gives is lost: in its container no value is written over that of a
node that gives something, and the same holds of all the nodes that are placed. -/
inductive Lossless : TokenPath → Node → Prop
  /-- A node that is no container loses nothing. -/
  | terminal {path : TokenPath} {node : Node} (terminal : node.isContainer = false) :
      Lossless path node
  /-- A container loses nothing if nothing is overwritten and nothing placed loses anything. -/
  | container {path : TokenPath} {children : List (String × Node)}
      (kept : (placements path children).Pairwise fun first second =>
        first.OverwrittenBy second → first.node.atoms = 0)
      (parts : ∀ placement ∈ placements path children, Lossless placement.path placement.node) :
      Lossless path (.container children)

/-- A container loses nothing just if nothing in it is overwritten and nothing placed loses
anything. -/
theorem lossless_container_iff (path : TokenPath) (children : List (String × Node)) :
    Lossless path (.container children) ↔
      ((placements path children).Pairwise fun first second =>
        first.OverwrittenBy second → first.node.atoms = 0) ∧
      ∀ placement ∈ placements path children, Lossless placement.path placement.node := by
  constructor
  · intro lossless
    cases lossless with
    | terminal terminal => exact absurd terminal.symm Bool.false_ne_true
    | container kept parts => exact ⟨kept, parts⟩
  · rintro ⟨kept, parts⟩
    exact .container kept parts

private theorem scalars_tree_container (path : TokenPath) {children : List (String × Node)}
    (distinct : (Fields.keys children).Nodup) :
    (Json.ofOption (tree path (.container children)).value).scalars = Node.childrenAtoms children ↔
      (placements path children).Pairwise Sparing ∧
        ∀ placement ∈ placements path children, placement.scalars = placement.node.atoms := by
  have written := (Fields.total_ofList_le Json.scalars (rows path children)).trans
    (total_rows_le path children).1
  have given := sum_scalars_le (placements path children)
  rw [value_tree_container, Json.ofOption, Json.scalars_object, ← offered_placements path children,
    ← total_ofList_rows_eq_iff path distinct, ← sum_scalars_eq_iff]
  constructor
  · intro same
    have all := given.antisymm (same.symm.le.trans written)
    exact ⟨same.trans all.symm, all⟩
  · rintro ⟨same, all⟩
    exact same.trans all

/-- A node with its value, and all nodes that expansions place below it, lose nothing just if all
their scalars are in their values. -/
private structure LossExact (node : Node) : Prop where
  tree : ∀ path, (Json.ofOption (Resolve.tree path node).value).scalars = node.atoms ↔
    Lossless path node
  terminals : ∀ owner path, ∀ placement ∈ Resolve.terminals owner path node,
    (Json.ofOption (Resolve.tree placement.path placement.node).value).scalars =
      placement.node.atoms ↔ Lossless placement.path placement.node

private theorem lossExact_terminal {node : Node} (terminal : node.isContainer = false) :
    LossExact node where
  tree path := by
    rw [tree_terminal path terminal, Node.scalars_resolveTerminal path terminal]
    exact iff_of_true rfl (.terminal terminal)
  terminals owner path := by
    rw [terminals_of_terminal owner path terminal]
    exact fun placement member => absurd member List.not_mem_nil

private theorem lossExact {node : Node} (keyed : node.isKeyed = true) : LossExact node := by
  induction node using Node.induction with
  | terminal node terminal => exact lossExact_terminal terminal
  | container children ih =>
      obtain ⟨distinct, keyed⟩ := (Node.isKeyed_container children).mp keyed
      have parts : ∀ child ∈ children, LossExact child.2 :=
        fun child member => ih child member (keyed child member)
      -- An expansion places nodes from any depth below a child, so both parts of the hypothesis
      -- are used: the value of the child, or what is placed below it.
      have placed : ∀ path, ∀ placement ∈ placements path children,
          placement.scalars = placement.node.atoms ↔ Lossless placement.path placement.node := by
        intro path placement member
        obtain ⟨child, listed, token, member⟩ := mem_placements.mp member
        rw [Placement.scalars_eq]
        rw [childPlacements] at member
        split at member
        · exact (parts child listed).terminals _ _ placement member
        · rw [List.mem_singleton.mp member]
          exact (parts child listed).tree _
      constructor
      · intro path
        rw [Node.atoms, scalars_tree_container path distinct, lossless_container_iff,
          ← forall₂_congr (placed path)]
        apply and_congr_left
        intro whole
        apply List.Pairwise.iff_of_mem
        intro first second member _
        rw [Sparing, whole first member]
      · intro owner path
        refine childrenTerminals_forall (fun path node =>
          (Json.ofOption (Resolve.tree path node).value).scalars = node.atoms ↔ Lossless path node)
          ?_ owner path
        exact fun child member => ⟨(parts child member).tree, (parts child member).terminals⟩

/-- Away from the sections, a result has all the scalars of the tree if nothing is lost, and
otherwise it has fewer. -/
theorem scalars_value_eq_iff_lossless {path : TokenPath} (clear : Dispatch.Clear path)
    {document : Json} (keyed : document.isKeyed = true) :
    (Json.ofOption (value path document).value).scalars ≤ (Node.ofJson document).atoms ∧
      ((Json.ofOption (value path document).value).scalars = (Node.ofJson document).atoms ↔
        Lossless path (.ofJson document)) := by
  by_cases null : document = .null
  · rw [null]
    exact ⟨zero_le, iff_of_true rfl (.terminal rfl)⟩
  · have bounded := Weighing.scalars.result_tree_le path (.ofJson document)
    rw [Weighing.result_scalars, Weighing.node_scalars] at bounded
    rw [value_of_ne_null path null, node_eq_tree clear]
    exact ⟨bounded, (lossExact (Node.isKeyed_ofJson keyed)).tree path⟩

/-- A color below `hover` and a color of its own stay apart. -/
theorem lossless_hover_and_accent :
    Lossless ["primitive"] (.ofJson (.object
      [("hover", .object [("color", .leaf "color" (.str "dark"))]),
        ("accent", .leaf "color" (.str "light"))])) := by
  have clear : Dispatch.Clear ["primitive"] := by decide
  refine (scalars_value_eq_iff_lossless clear ?_).2.mp ?_
  · decide
  · decide

/-- Two colors with the same last key below `hover` are written to the same slot, and the first of
them is lost. -/
theorem shade_below_hover_overwritten :
    (value ["primitive"] (.object [("hover", .object
      [("odd", .object [("shade", .leaf "color" (.str "dark"))]),
        ("even", .object [("shade", .leaf "color" (.str "light"))])])])).value =
        some (.object [("hover", .object [("shade", .str "light")])]) ∧
      (Json.ofOption (value ["primitive"] (.object [("hover", .object
        [("odd", .object [("shade", .leaf "color" (.str "dark"))]),
          ("even", .object [("shade", .leaf "color" (.str "light"))])])])).value).scalars ≠
        (Node.ofJson (.object [("hover", .object
          [("odd", .object [("shade", .leaf "color" (.str "dark"))]),
            ("even", .object [("shade", .leaf "color" (.str "light"))])])])).atoms := by
  constructor
  · rfl
  · decide

end Resolve
end DesignTokens
