import DesignTokens.Proofs.Resolve.Writings
import DesignTokens.Proofs.Token.Rearrangement

/-!
# What rearranged trees write

A rearranged tree writes the same values as the tree itself, each of them rearranged, in another
order.  The arrangement can be chosen so that any one of the values is written last under its key,
and is itself arranged in any way.
-/

namespace DesignTokens

/-- An item stands in a list, and no later one has the same key. -/
def LastOf {α β : Type} (key : α → β) (items : List α) (item : α) : Prop :=
  ∃ before after, items = before ++ item :: after ∧ ∀ later ∈ after, key later ≠ key item

namespace LastOf

variable {α β γ δ : Type} {key : α → β} {items : List α} {item : α}

theorem singleton (key : α → β) (item : α) : LastOf key [item] item :=
  ⟨[], [], rfl, by simp⟩

theorem mem (last : LastOf key items item) : item ∈ items := by
  obtain ⟨before, after, rfl, -⟩ := last
  exact List.mem_append_right _ List.mem_cons_self

theorem append_left (earlier : List α) (last : LastOf key items item) :
    LastOf key (earlier ++ items) item := by
  obtain ⟨before, after, rfl, apart⟩ := last
  exact ⟨earlier ++ before, after, (List.append_assoc _ _ _).symm, apart⟩

theorem append_right {later : List α} (last : LastOf key items item)
    (apart : ∀ other ∈ later, key other ≠ key item) : LastOf key (items ++ later) item := by
  obtain ⟨before, after, rfl, former⟩ := last
  refine ⟨before, after ++ later, by simp, ?_⟩
  rw [List.forall_mem_append]
  exact ⟨former, apart⟩

theorem of_nodup (distinct : (items.map key).Nodup) (member : item ∈ items) :
    LastOf key items item := by
  obtain ⟨before, after, rfl⟩ := List.append_of_mem member
  refine ⟨before, after, rfl, ?_⟩
  intro later listed same
  rw [List.map_append, List.map_cons] at distinct
  have fresh := (List.nodup_cons.mp (List.nodup_append.mp distinct).2.1).1
  exact fresh (same ▸ List.mem_map_of_mem listed)

/-- A choice of items that keeps different keys different keeps the last item with its key. -/
theorem filterMap {name : γ → δ} {choice : α → Option γ} {chosen : γ}
    (last : LastOf key items item) (isChosen : choice item = some chosen)
    (separates : ∀ later ∈ items, ∀ other ∈ choice later, name other = name chosen →
      key later = key item) : LastOf name (items.filterMap choice) chosen := by
  obtain ⟨before, after, rfl, apart⟩ := last
  refine ⟨before.filterMap choice, after.filterMap choice, ?_, ?_⟩
  · rw [List.filterMap_append, List.filterMap_cons, isChosen]
  · intro other listed same
    obtain ⟨later, member, found⟩ := List.mem_filterMap.mp listed
    apply apart later member
    exact separates later (List.mem_append_right _ (List.mem_cons_of_mem _ member)) other found same

end LastOf

/-! ## Expansions -/

namespace Resolve

open Node (Rearranged)

theorem mem_childrenTerminals (owner : String) (path : TokenPath) (children : Fields Node)
    (placement : Placement) :
    placement ∈ childrenTerminals owner path children ↔ ∃ child ∈ children,
      isMetadata child.1 = false ∧ placement ∈ childTerminals owner path child.1 child.2 := by
  induction children with
  | nil => simp [childrenTerminals]
  | cons child rest ih =>
      rw [List.exists_mem_cons_iff]
      cases token : isMetadata child.1 with
      | true =>
          rw [childrenTerminals_metadata _ _ token, ih]
          simp
      | false =>
          rw [childrenTerminals_token _ _ token, List.mem_append, ih]
          simp

theorem childrenTerminals_append (owner : String) (path : TokenPath)
    (first second : List (String × Node)) :
    childrenTerminals owner path (first ++ second) =
      childrenTerminals owner path first ++ childrenTerminals owner path second := by
  induction first with
  | nil => rfl
  | cons child rest ih =>
      rw [List.cons_append]
      cases token : isMetadata child.1 with
      | true =>
          rw [childrenTerminals_metadata _ _ token, childrenTerminals_metadata _ _ token, ih]
      | false =>
          rw [childrenTerminals_token _ _ token, childrenTerminals_token _ _ token, ih,
            List.append_assoc]

/-- The expansion of a rearranged node places the same nodes, rearranged. -/
theorem exists_terminal {owner : String} {path : TokenPath} {node other : Node}
    (rearranged : Rearranged node other) :
    ∀ placement ∈ terminals owner path other, ∃ original,
      { placement with node := original } ∈ terminals owner path node ∧
        Rearranged original placement.node := by
  induction node using Node.induction generalizing path other with
  | terminal node terminal =>
      rw [rearranged.eq_of_terminal terminal]
      exact fun placement member => ⟨placement.node, member, .refl _⟩
  | container children parts =>
      obtain ⟨others, rfl⟩ := Node.exists_children rearranged.isContainer_eq
      intro placement member
      rw [terminals, mem_childrenTerminals] at member
      obtain ⟨⟨key, child⟩, isChild, token, placed⟩ := member
      obtain ⟨original, isOriginal, same⟩ := rearranged.exists_child _ isChild
      have lift : ∀ {found},
          { placement with node := found } ∈ childTerminals owner path key original →
            { placement with node := found } ∈ terminals owner path (.container children) := by
        intro found placed
        rw [terminals, mem_childrenTerminals]
        exact ⟨(key, original), isOriginal, token, placed⟩
      unfold childTerminals at placed lift
      cases found : Rename.find? (path ++ [key]) with
      | some rule =>
          simp only [found, List.mem_singleton] at placed lift
          subst placed
          exact ⟨original, lift rfl, same⟩
      | none =>
          simp only [found, same.isContainer_eq] at placed lift
          split at placed
          · rename_i container
            obtain ⟨inner, isInner, alike⟩ := parts _ isOriginal same placement placed
            exact ⟨inner, lift (by rwa [if_pos container]), alike⟩
          · rename_i terminal
            rw [List.mem_singleton] at placed
            subst placed
            exact ⟨original, lift (by rw [if_neg terminal, List.mem_singleton]), same⟩

/-- Every node that an expansion places can be placed last in its slot, and rearranged. -/
theorem terminals_last {owner : String} {path : TokenPath} {node : Node} {placement : Placement}
    (member : placement ∈ terminals owner path node) {last : Node}
    (rearranged : Rearranged placement.node last) :
    ∃ other, Rearranged node other ∧
      LastOf Placement.slot (terminals owner path other) { placement with node := last } := by
  induction node using Node.induction generalizing path with
  | terminal node terminal =>
      rw [terminals_of_terminal owner path terminal] at member
      exact absurd member List.not_mem_nil
  | container children parts =>
      rw [terminals, mem_childrenTerminals] at member
      obtain ⟨⟨key, child⟩, isChild, token, placed⟩ := member
      -- it is enough to rearrange the child and to bring it to the end
      suffices whole : ∃ other, Rearranged child other ∧ LastOf Placement.slot
          (childTerminals owner path key other) { placement with node := last } by
        obtain ⟨other, same, isLast⟩ := whole
        obtain ⟨before, moved⟩ := Rearranged.exists_last isChild same
        refine ⟨_, moved, ?_⟩
        rw [terminals, childrenTerminals_append, childrenTerminals_token _ _ token,
          childrenTerminals, List.append_nil]
        exact isLast.append_left _
      unfold childTerminals at placed ⊢
      cases found : Rename.find? (path ++ [key]) with
      | some rule =>
          simp only [found, List.mem_singleton] at placed ⊢
          subst placed
          exact ⟨last, rearranged, .singleton _ _⟩
      | none =>
          simp only [found] at placed ⊢
          split at placed
          · rename_i container
            obtain ⟨other, same, isLast⟩ := parts _ isChild placed
            refine ⟨other, same, ?_⟩
            rwa [same.isContainer_eq, if_pos container]
          · rename_i terminal
            rw [List.mem_singleton] at placed
            subst placed
            refine ⟨last, rearranged, ?_⟩
            rw [rearranged.isContainer_eq, if_neg terminal]
            exact .singleton _ _

end Resolve

/-! ## Shares -/

open Node (Rearranged)

variable {node other : Node}

namespace Part

theorem exists_writing {parts : List Part} (rearranged : Rearranged node other)
    (keyed : node.isKeyed = true) :
    ∀ writing ∈ parts.filterMap fun part => part.writing? other, ∃ original,
      { writing with node := original } ∈ (parts.filterMap fun part => part.writing? node) ∧
        Rearranged original writing.node := by
  intro writing member
  obtain ⟨part, listed, made⟩ := List.mem_filterMap.mp member
  obtain ⟨found, reached, rfl⟩ := (writing?_eq_some_iff part other writing).mp made
  obtain ⟨original, origin, same⟩ := rearranged.exists_descend? keyed reached
  refine ⟨original, List.mem_filterMap.mpr ⟨part, listed, ?_⟩, same⟩
  exact (writing?_eq_some_iff part node _).mpr ⟨original, origin, rfl⟩

theorem writing_last {parts : List Part} (distinct : (parts.map Part.name).Nodup)
    (keyed : node.isKeyed = true) {writing : Writing}
    (member : writing ∈ parts.filterMap fun part => part.writing? node) {last : Node}
    (rearranged : Rearranged writing.node last) :
    ∃ other, Rearranged node other ∧
      LastOf Writing.key (parts.filterMap fun part => part.writing? other)
        { writing with node := last } := by
  obtain ⟨part, listed, made⟩ := List.mem_filterMap.mp member
  obtain ⟨found, reached, rfl⟩ := (writing?_eq_some_iff part node writing).mp made
  obtain ⟨other, whole, reached⟩ := rearranged.lift_descend? keyed reached
  refine ⟨other, whole, .of_nodup (distinct.sublist (names_writings parts other)) ?_⟩
  refine List.mem_filterMap.mpr ⟨part, listed, ?_⟩
  exact (writing?_eq_some_iff part other _).mpr ⟨last, reached, rfl⟩

end Part

namespace Writing

theorem of_own? {placement : Placement} {writing : Writing} (made : own? placement = some writing) :
    placement.slot = .own writing.key ∧ writing.node = placement.node := by
  unfold own? at made
  split at made
  · rename_i slot
    rw [← Option.some.inj made]
    exact ⟨slot, rfl⟩
  · exact absurd made nofun

theorem of_under? {placement : Placement} {writing : Writing}
    (made : under? placement = some writing) :
    (∃ parent, placement.slot = .under parent writing.key) ∧ writing.node = placement.node := by
  unfold under? at made
  split at made
  · exact absurd made nofun
  · rename_i parent key slot
    rw [← Option.some.inj made]
    exact ⟨⟨parent, slot⟩, rfl⟩

end Writing

/-- A choice among placements writes the node of each that it chooses. -/
structure Chooses (choice : Placement → Option Writing) : Prop where
  /-- The node is that of the placement. -/
  node : ∀ placement, ∀ writing ∈ choice placement, writing.node = placement.node
  /-- The choice does not depend on the node. -/
  withNode : ∀ placement node, choice { placement with node } =
    (choice placement).map fun writing => { writing with node }
  /-- Placements below one node have the same slot if they are written under the same key. -/
  slot : ∀ {owner path node}, ∀ first ∈ Resolve.terminals owner path node,
    ∀ second ∈ Resolve.terminals owner path node, ∀ writing ∈ choice first,
      ∀ other ∈ choice second, writing.key = other.key → first.slot = second.slot

namespace Chooses

theorem own : Chooses Writing.own? where
  node _ _ made := (Writing.of_own? made).2
  withNode placement node := by
    simp only [Writing.own?]
    cases placement.slot <;> rfl
  slot first _ second _ writing made other madeOther same := by
    rw [(Writing.of_own? made).1, (Writing.of_own? madeOther).1, same]

theorem under : Chooses Writing.under? where
  node _ _ made := (Writing.of_under? made).2
  withNode placement node := by
    simp only [Writing.under?]
    cases placement.slot <;> rfl
  slot {owner path node} first placed second placedOther writing made other madeOther same := by
    have parent : ∀ placement ∈ Resolve.terminals owner path node,
        ∀ writing ∈ Writing.under? placement, placement.slot = .under owner writing.key := by
      intro placement placed writing made
      obtain ⟨⟨parent, slot⟩, -⟩ := Writing.of_under? made
      rcases Resolve.terminals_slot _ _ _ placement placed with ⟨rule, -, apart⟩ | ⟨name, below⟩
      · cases slot.symm.trans apart
      · rw [slot, (Slot.under.inj (slot.symm.trans below)).1]
    rw [parent first placed writing made, parent second placedOther other madeOther, same]

variable {choice : Placement → Option Writing} {owner : String} {path : TokenPath}

theorem exists_writing (chooses : Chooses choice) (rearranged : Rearranged node other) :
    ∀ writing ∈ (Resolve.terminals owner path other).filterMap choice, ∃ original,
      { writing with node := original } ∈ (Resolve.terminals owner path node).filterMap choice ∧
        Rearranged original writing.node := by
  intro writing member
  obtain ⟨placement, placed, made⟩ := List.mem_filterMap.mp member
  obtain ⟨original, origin, same⟩ := Resolve.exists_terminal rearranged placement placed
  rw [← chooses.node placement writing made] at same
  refine ⟨original, List.mem_filterMap.mpr ⟨_, origin, ?_⟩, same⟩
  rw [chooses.withNode, made, Option.map_some]

theorem writing_last (chooses : Chooses choice) {writing : Writing}
    (member : writing ∈ (Resolve.terminals owner path node).filterMap choice) {last : Node}
    (rearranged : Rearranged writing.node last) :
    ∃ other, Rearranged node other ∧
      LastOf Writing.key ((Resolve.terminals owner path other).filterMap choice)
        { writing with node := last } := by
  obtain ⟨placement, placed, made⟩ := List.mem_filterMap.mp member
  rw [chooses.node placement writing made] at rearranged
  obtain ⟨other, whole, isLast⟩ := Resolve.terminals_last placed rearranged
  have chosen : choice { placement with node := last } = some { writing with node := last } := by
    rw [chooses.withNode, made, Option.map_some]
  refine ⟨other, whole, isLast.filterMap chosen ?_⟩
  exact fun later placedLater made madeLater same =>
    chooses.slot later placedLater _ isLast.mem made madeLater _ chosen same

end Chooses

namespace Share

theorem exists_writing {share : Share} {path : TokenPath} {key : String}
    (rearranged : Rearranged node other) (keyed : node.isKeyed = true) :
    ∀ writing ∈ share.writings path key other, ∃ original,
      { writing with node := original } ∈ share.writings path key node ∧
        Rearranged original writing.node := by
  cases share with
  | parts given => exact Part.exists_writing rearranged keyed
  | expansion =>
      intro writing member
      rcases List.mem_cons.mp member with rfl | flat
      · exact ⟨node, List.mem_cons_self, rearranged⟩
      · obtain ⟨original, origin, same⟩ := Chooses.own.exists_writing rearranged writing flat
        exact ⟨original, List.mem_cons_of_mem _ origin, same⟩

/-- The flat names of an expansion are no rename parents. -/
theorem isParent_of_mem_own {owner : String} {path : TokenPath} {writing : Writing}
    (member : writing ∈ (Resolve.terminals owner path node).filterMap Writing.own?) :
    Rename.isParent writing.key = false := by
  obtain ⟨placement, placed, made⟩ := List.mem_filterMap.mp member
  have slot := (Writing.of_own? made).1
  rcases Resolve.terminals_slot _ _ _ placement placed with ⟨rule, listed, flat⟩ | ⟨name, nested⟩
  · rw [Slot.own.inj (slot.symm.trans flat)]
    exact Rename.isParent_name listed
  · exact absurd (slot.symm.trans nested) nofun

theorem writings_whole (path : TokenPath) (key : String) (name : String) (plan : Plan) :
    (whole name plan).writings path key node = [⟨name, plan, node, false⟩] := rfl

theorem writing_last {share : Share} {path : TokenPath} {key : String}
    (distinct : ∀ given, share = .parts given → (given.map Part.name).Nodup)
    (parent : share = .expansion → Rename.isParent key = true) (keyed : node.isKeyed = true)
    {writing : Writing} (member : writing ∈ share.writings path key node) {last : Node}
    (rearranged : Rearranged writing.node last) :
    ∃ other, Rearranged node other ∧
      LastOf Writing.key (share.writings path key other) { writing with node := last } := by
  cases share with
  | parts given => exact Part.writing_last (distinct given rfl) keyed member rearranged
  | expansion =>
      rcases List.mem_cons.mp member with rfl | flat
      · refine ⟨last, rearranged, (LastOf.singleton _ _).append_right ?_⟩
        intro flat listed same
        have notParent := isParent_of_mem_own listed
        rw [same, parent rfl] at notParent
        exact absurd notParent.symm Bool.false_ne_true
      · obtain ⟨other, whole, isLast⟩ := Chooses.own.writing_last flat rearranged
        exact ⟨other, whole, isLast.append_left [_]⟩

end Share

/-! ## Walks -/

namespace Walk

/-- What a child gives depends on its key and on whether it is a container. -/
theorem share_congr (kind : Walk) (path : TokenPath) (key : String)
    (same : other.isContainer = node.isContainer) :
    kind.share path key other = kind.share path key node := by
  have first : Dispatch.first path key other = Dispatch.first path key node := by
    simp only [Dispatch.first, Dispatch.applies, Dispatch.isSectionChild, same]
  cases kind <;> simp only [share, first, same]

theorem isParent_of_expansion {kind : Walk} {path : TokenPath} {key : String}
    (share : kind.share path key node = .expansion) : Rename.isParent key = true := by
  cases kind with
  | node =>
      have applies := Resolve.applies_first path key node
      cases first : Dispatch.first path key node with
      | transformable =>
          rw [first] at applies
          exact ((Bool.and_eq_true _ _).mp applies).1
      | _ => simp [Walk.share, first, Share.whole] at share
  | _ =>
      simp only [Walk.share] at share
      repeat' split at share
      all_goals simp_all [Share.whole]

/-- The writings of one child that is no metadata. -/
theorem mem_writings (kind : Walk) (path : TokenPath) (children : Fields Node)
    (writing : Writing) :
    writing ∈ kind.writings path children ↔ ∃ child ∈ children, isMetadata child.1 = false ∧
      writing ∈ (kind.share path child.1 child.2).writings path child.1 child.2 := by
  rw [writings, List.mem_flatMap]
  apply exists_congr
  intro child
  rw [childWritings]
  cases isMetadata child.1 <;> simp

theorem exists_writing (kind : Walk) (path : TokenPath) (rearranged : Rearranged node other)
    (keyed : node.isKeyed = true) :
    ∀ writing ∈ kind.writings path other.children, ∃ original,
      { writing with node := original } ∈ kind.writings path node.children ∧
        Rearranged original writing.node := by
  intro writing member
  obtain ⟨child, isChild, token, written⟩ := (mem_writings kind path _ writing).mp member
  obtain ⟨former, isFormer, same⟩ := rearranged.exists_child child isChild
  rw [kind.share_congr path child.1 same.isContainer_eq] at written
  obtain ⟨original, origin, alike⟩ :=
    Share.exists_writing same (Node.isKeyed_of_mem_children keyed isFormer) writing written
  exact ⟨original, (mem_writings kind path _ _).mpr ⟨_, isFormer, token, origin⟩, alike⟩

theorem writing_last (kind : Walk) (path : TokenPath) (keyed : node.isKeyed = true)
    {writing : Writing} (member : writing ∈ kind.writings path node.children) {last : Node}
    (rearranged : Rearranged writing.node last) :
    ∃ other, Rearranged node other ∧
      LastOf Writing.key (kind.writings path other.children) { writing with node := last } := by
  obtain ⟨⟨key, child⟩, isChild, token, written⟩ := (mem_writings kind path _ writing).mp member
  obtain ⟨other, same, isLast⟩ := Share.writing_last
    (fun given => names_share kind path key child) isParent_of_expansion
    (Node.isKeyed_of_mem_children keyed isChild) written rearranged
  cases node with
  | container children =>
      obtain ⟨before, moved⟩ := Rearranged.exists_last isChild same
      refine ⟨_, moved, ?_⟩
      rw [Node.children, writings, List.flatMap_append, List.flatMap_singleton, childWritings,
        token, if_neg Bool.false_ne_true, kind.share_congr path key same.isContainer_eq]
      exact isLast.append_left _
  | _ => exact absurd isChild List.not_mem_nil

/-- Without sections, a value is written under the key of a child or under a flat name. -/
theorem key_of_mem_tree {path : TokenPath} {children : Fields Node} {writing : Writing}
    (member : writing ∈ tree.writings path children) :
    writing.key ∈ Fields.keys children ∨ Rename.isParent writing.key = false := by
  obtain ⟨child, isChild, -, written⟩ := (mem_writings tree path children writing).mp member
  have named := Fields.mem_keys_of_mem isChild
  simp only [share] at written
  split at written
  · rcases List.mem_cons.mp written with rfl | flat
    · exact .inl named
    · exact .inr (Share.isParent_of_mem_own flat)
  · rw [Share.writings_whole, List.mem_singleton] at written
    subst written
    exact .inl named

end Walk

/-! ## Plans -/

namespace Plan

/-- Of what bears an icon, nothing but the colors of the icon is written under `icon`. -/
theorem icon_ne_of_mem_rest {path : TokenPath} {apart : List String} (iconApart : "icon" ∈ apart)
    {writing : Writing} (member : writing ∈ Walk.tree.writings path (node.without apart).children) :
    "icon" ≠ writing.key := by
  intro same
  rcases Walk.key_of_mem_tree member with kept | flat
  · rw [← same, Node.children_without, Fields.keys, List.mem_map] at kept
    obtain ⟨child, isChild, called⟩ := kept
    have outside := List.of_mem_filter isChild
    rw [called, List.contains_iff_mem.mpr iconApart] at outside
    exact absurd outside Bool.false_ne_true
  · rw [← same] at flat
    exact absurd flat (by decide)

/-- A rearranged node writes the same values, each of them rearranged. -/
theorem exists_writing (plan : Plan) (rearranged : Rearranged node other)
    (keyed : node.isKeyed = true) :
    ∀ writing ∈ plan.writings other, ∃ original,
      { writing with node := original } ∈ plan.writings node ∧
        Rearranged original writing.node := by
  cases plan with
  | walk kind path => exact kind.exists_writing path rearranged keyed
  | form path =>
      intro writing member
      cases found : other.child? "field" with
      | none =>
          rw [writings, found] at member
          exact absurd member List.not_mem_nil
      | some field =>
          obtain ⟨former, origin, same⟩ := rearranged.exists_child? keyed found
          have keyedField := Node.isKeyed_child? keyed origin
          rw [writings, found, Option.getD_some] at member
          rw [writings, origin, Option.getD_some]
          exact Walk.formField.exists_writing _ same keyedField writing member
  | under owner path => exact Chooses.under.exists_writing rearranged
  | bearer path apart iconApart colors =>
      intro writing member
      rcases List.mem_append.mp member with rest | icon
      · obtain ⟨original, origin, same⟩ := Walk.tree.exists_writing path
          (rearranged.without apart) (Node.isKeyed_without keyed apart) writing rest
        exact ⟨original, List.mem_append_left _ origin, same⟩
      · obtain ⟨icon, found, rfl⟩ := List.mem_map.mp icon
        obtain ⟨original, origin, same⟩ :=
          rearranged.exists_child? keyed (Option.mem_toList.mp found)
        refine ⟨original, List.mem_append_right _ (List.mem_map.mpr ?_), same⟩
        exact ⟨original, Option.mem_toList.mpr origin, rfl⟩
  | parts path layout => exact Part.exists_writing rearranged keyed

/-- A node can be rearranged so that any one of its values is written last under its key, and this
value can itself be rearranged in any way. -/
theorem writing_last (plan : Plan) (keyed : node.isKeyed = true) {writing : Writing}
    (member : writing ∈ plan.writings node) {last : Node}
    (rearranged : Rearranged writing.node last) :
    ∃ other, Rearranged node other ∧
      LastOf Writing.key (plan.writings other) { writing with node := last } := by
  cases plan with
  | walk kind path => exact kind.writing_last path keyed member rearranged
  | form path =>
      cases found : node.child? "field" with
      | none =>
          rw [writings, found] at member
          exact absurd member List.not_mem_nil
      | some field =>
          have keyedField := Node.isKeyed_child? keyed found
          rw [writings, found, Option.getD_some] at member
          obtain ⟨middle, same, isLast⟩ :=
            Walk.formField.writing_last _ keyedField member rearranged
          obtain ⟨other, whole, isField⟩ := Rearranged.lift_child? keyed found same
          refine ⟨other, whole, ?_⟩
          rwa [writings, isField, Option.getD_some]
  | under owner path => exact Chooses.under.writing_last member rearranged
  | bearer path apart iconApart colors =>
      rcases List.mem_append.mp member with rest | icon
      · obtain ⟨middle, same, isLast⟩ :=
          Walk.tree.writing_last path (Node.isKeyed_without keyed apart) rest rearranged
        obtain ⟨other, whole, rfl⟩ := Rearranged.lift_without same
        refine ⟨other, whole, isLast.append_right ?_⟩
        intro later listed same
        obtain ⟨icon, -, rfl⟩ := List.mem_map.mp listed
        exact icon_ne_of_mem_rest iconApart rest same
      · obtain ⟨icon, found, rfl⟩ := List.mem_map.mp icon
        obtain ⟨other, whole, isIcon⟩ :=
          Rearranged.lift_child? keyed (Option.mem_toList.mp found) rearranged
        refine ⟨other, whole, LastOf.append_left _ ?_⟩
        rw [isIcon]
        exact .singleton _ _
  | parts path layout =>
      exact Part.writing_last (layout.names_parts path ▸ layout.distinct) keyed member rearranged

end Plan

end DesignTokens
