import DesignTokens.Proofs.Json.Unordered
import DesignTokens.Proofs.Resolve.Rearrangement

/-!
# The order of a document

The order of a document shows in a result only where different values are written under one key.
Where all values that are written under one key are the same, apart from the order of their
entries, every rearrangement of the document gives the same tree; and where two of them differ, some
rearrangement gives another one.
-/

namespace DesignTokens

section

open Node (Rearranged Within)

variable {node other : Node}

/-! ## Nodes that are written -/

theorem Resolve.within_of_mem_terminals {owner : String} {path : TokenPath}
    {placement : Placement} (member : placement ∈ terminals owner path node) :
    Within placement.node node := by
  induction node using Node.induction generalizing path with
  | terminal node terminal =>
      rw [terminals_of_terminal owner path terminal] at member
      exact absurd member List.not_mem_nil
  | container children parts =>
      rw [terminals, mem_childrenTerminals] at member
      obtain ⟨child, isChild, -, placed⟩ := member
      have here : Within child.2 (.container children) := .of_mem_children isChild
      unfold childTerminals at placed
      split at placed
      · rwa [List.mem_singleton.mp placed]
      · split at placed
        · exact (parts child isChild placed).trans here
        · rwa [List.mem_singleton.mp placed]

theorem Share.within_of_mem_writings {share : Share} {path : TokenPath} {key : String}
    {writing : Writing} (member : writing ∈ share.writings path key node) :
    writing.node = node ∨ Within writing.node node := by
  cases share with
  | parts given =>
      obtain ⟨part, -, made⟩ := List.mem_filterMap.mp member
      obtain ⟨found, reached, rfl⟩ := (Part.writing?_eq_some_iff part node writing).mp made
      by_cases whole : part.keys = []
      · rw [whole] at reached
        exact .inl (Option.some.inj reached).symm
      · exact .inr (.of_descend? whole reached)
  | expansion =>
      rcases List.mem_cons.mp member with rfl | flat
      · exact .inl rfl
      · obtain ⟨placement, placed, made⟩ := List.mem_filterMap.mp flat
        rw [Chooses.own.node placement writing made]
        exact .inr (Resolve.within_of_mem_terminals placed)

theorem Walk.within_of_mem_writings {kind : Walk} {path : TokenPath} {writing : Writing}
    (member : writing ∈ kind.writings path node.children) : Within writing.node node := by
  obtain ⟨child, isChild, -, written⟩ := (mem_writings kind path _ writing).mp member
  have here : Within child.2 node := .of_mem_children isChild
  rcases Share.within_of_mem_writings written with whole | inner
  · rwa [whole]
  · exact inner.trans here

/-- Every node whose value is written into the object of a node lies below that node. -/
theorem Plan.within_of_mem_writings {plan : Plan} {writing : Writing}
    (member : writing ∈ plan.writings node) : Within writing.node node := by
  cases plan with
  | walk kind path => exact Walk.within_of_mem_writings member
  | form path =>
      cases found : node.child? "field" with
      | none =>
          rw [writings, found] at member
          exact absurd member List.not_mem_nil
      | some field =>
          rw [writings, found] at member
          exact (Walk.within_of_mem_writings member).trans (.of_child? found)
  | under owner path =>
      obtain ⟨placement, placed, made⟩ := List.mem_filterMap.mp member
      rw [Chooses.under.node placement writing made]
      exact Resolve.within_of_mem_terminals placed
  | bearer path apart iconApart colors =>
      rcases List.mem_append.mp member with rest | icon
      · exact (Walk.within_of_mem_writings rest).of_without
      · obtain ⟨icon, found, rfl⟩ := List.mem_map.mp icon
        exact .of_child? (Option.mem_toList.mp found)
  | parts path layout =>
      obtain ⟨part, listed, made⟩ := List.mem_filterMap.mp member
      obtain ⟨found, reached, rfl⟩ := (Part.writing?_eq_some_iff part node writing).mp made
      obtain ⟨row, isRow, rfl⟩ := List.mem_map.mp listed
      exact .of_descend? (layout.proper row isRow) reached

theorem Plan.isContainer_of_mem_writings {plan : Plan} {writing : Writing}
    (member : writing ∈ plan.writings node) : node.isContainer = true := by
  have smaller := (within_of_mem_writings member).size
  by_contra terminal
  rw [Node.size_of_terminal (Bool.eq_false_of_not_eq_true terminal)] at smaller
  exact Nat.not_lt_zero _ smaller

/-! ## Values that are there -/

namespace Writing

open Json (SameTree)

variable {writing : Writing}

theorem assign_eq_nil_iff (writings : List Writing) :
    assign writings = [] ↔ ∀ writing ∈ writings, writing.value = none := by
  constructor
  · intro empty writing member
    cases present : writing.value with
    | none => rfl
    | some value =>
        obtain ⟨last, found⟩ := exists_get?_assign member present
        rw [empty] at found
        exact absurd found nofun
  · intro absent
    rw [assign, List.filterMap_eq_nil_iff.mpr]
    · rfl
    · intro writing member
      rw [written?, absent writing member, Option.map_none]

theorem value_eq_of_ne_none (present : writing.value ≠ none) :
    writing.value = writing.plan.value writing.node := by
  obtain ⟨value, written⟩ := Option.ne_none_iff_exists'.mp present
  rw [written]
  rw [Writing.value] at written
  split at written
  · exact (Resolve.eq_some_of_substantial written).symm
  · exact written.symm

/-- The value of an object is left out exactly if it is empty and empty objects count as none. -/
theorem value_container_eq_none_iff {children : Fields Node}
    (container : writing.node = .container children) :
    writing.value = none ↔ writing.substantial = true ∧
      ∀ inner ∈ writing.plan.writings (.container children), inner.value = none := by
  rw [Writing.value, container, Plan.value_container, ← assign_eq_nil_iff]
  cases writing.substantial with
  | false => simp
  | true =>
      cases assign (writing.plan.writings (.container children)) <;> simp [Resolve.substantial]

/-- A value that is left out is left out in every arrangement. -/
theorem value_eq_none_of_rearranged (writing : Writing) (keyed : writing.node.isKeyed = true)
    (rearranged : Rearranged writing.node other) (absent : writing.value = none) :
    { writing with node := other }.value = none := by
  induction bound : writing.node.size using Nat.strong_induction_on generalizing writing other with
  | h size ih =>
      subst bound
      cases container : writing.node.isContainer with
      | false => rwa [rearranged.eq_of_terminal container]
      | true =>
          obtain ⟨others, rfl⟩ := Node.exists_children (rearranged.isContainer_eq.trans container)
          obtain ⟨children, isContainer⟩ := Node.exists_children container
          obtain ⟨substantial, empty⟩ := (value_container_eq_none_iff isContainer).mp absent
          refine (value_container_eq_none_iff rfl).mpr ⟨substantial, ?_⟩
          intro inner member
          obtain ⟨original, origin, same⟩ :=
            writing.plan.exists_writing rearranged keyed inner member
          have within := Plan.within_of_mem_writings origin
          rw [isContainer] at origin
          exact ih original.size within.size { inner with node := original }
            (within.keyed keyed) same (empty _ origin) rfl

theorem value_ne_none_of_rearranged (keyed : writing.node.isKeyed = true)
    (rearranged : Rearranged writing.node other) (present : writing.value ≠ none) :
    { writing with node := other }.value ≠ none := by
  intro absent
  exact present (value_eq_none_of_rearranged { writing with node := other }
    (rearranged.isKeyed keyed) rearranged.symm absent)

/-- What is written last under a key stays there. -/
theorem get?_assign_of_lastOf {writings : List Writing} (last : LastOf key writings writing)
    (present : writing.value ≠ none) :
    Fields.get? (assign writings) writing.key = writing.value := by
  obtain ⟨before, after, rfl, apart⟩ := last
  obtain ⟨value, written⟩ := Option.ne_none_iff_exists'.mp present
  have nothing : Fields.get? (assign after) writing.key = none := by
    rw [Option.eq_none_iff_forall_ne_some]
    intro later found
    obtain ⟨other, listed, same, -⟩ := exists_of_get?_assign found
    exact apart other listed same
  rw [assign_append, Fields.get?_merge, assign_cons, Fields.get?_merge, nothing, written]
  simp [Resolve.keyed, Fields.get?]

end Writing

/-! ## Plans that do not depend on the order -/

namespace Plan

open Json (SameTree)

/-- Every rearrangement of the node gives the same tree. -/
def Stable (plan : Plan) (node : Node) : Prop :=
  ∀ other, Rearranged node other → SameTree (plan.value node) (plan.value other)

/-- All values that are written under one key are the same, apart from the order of their entries:
in the object of the node, and in those of all nodes whose values are written into it. -/
inductive Undisputed : Plan → Node → Prop
  /-- Values under one key agree, and each of them is undisputed. -/
  | intro {plan : Plan} {node : Node}
      (agree : ∀ first ∈ plan.writings node, ∀ second ∈ plan.writings node,
        first.key = second.key → first.value ≠ none → second.value ≠ none →
          SameTree first.value second.value)
      (below : ∀ writing ∈ plan.writings node, writing.value ≠ none →
        Undisputed writing.plan writing.node) : Undisputed plan node

variable {plan : Plan} {writing : Writing}

theorem Stable.sameTree (stable : writing.plan.Stable writing.node)
    (rearranged : Rearranged writing.node other) :
    SameTree writing.value { writing with node := other }.value := by
  unfold Writing.value
  split
  · exact Resolve.sameTree_substantial (stable other rearranged)
  · exact stable other rearranged

/-- Where all values under a key agree, it does not matter which one stays. -/
theorem sameTree_get?_assign {writings : List Writing} (listed : writing ∈ writings)
    (agree : ∀ other ∈ writings, other.key = writing.key → other.value ≠ none →
      SameTree other.value writing.value) (present : writing.value ≠ none) :
    SameTree (Fields.get? (Writing.assign writings) writing.key) writing.value := by
  obtain ⟨value, written⟩ := Option.ne_none_iff_exists'.mp present
  obtain ⟨last, found⟩ := Writing.exists_get?_assign listed written
  obtain ⟨other, member, same, isLast⟩ := Writing.exists_of_get?_assign found
  rw [found, ← isLast]
  exact agree other member same (isLast ▸ Option.some_ne_none last)

/-- Whatever a rearranged tree writes is written, in some arrangement, by the tree itself. -/
theorem exists_present_writing (plan : Plan) (keyed : node.isKeyed = true)
    (rearranged : Rearranged node other) (member : writing ∈ plan.writings other)
    (present : writing.value ≠ none) :
    ∃ original, { writing with node := original } ∈ plan.writings node ∧
      original.isKeyed = true ∧ Rearranged original writing.node ∧
      { writing with node := original }.value ≠ none := by
  obtain ⟨original, origin, same⟩ := plan.exists_writing rearranged keyed writing member
  have keyedOriginal := (within_of_mem_writings origin).keyed keyed
  have keyedToo := (within_of_mem_writings member).keyed (rearranged.isKeyed keyed)
  exact ⟨original, origin, keyedOriginal, same,
    Writing.value_ne_none_of_rearranged keyedToo same.symm present⟩

/-- A key that is missing from the object of a tree is missing in every arrangement. -/
theorem get?_assign_eq_none_of_rearranged (keyed : node.isKeyed = true)
    (rearranged : Rearranged node other) {key : String}
    (missing : Fields.get? (Writing.assign (plan.writings node)) key = none) :
    Fields.get? (Writing.assign (plan.writings other)) key = none := by
  rw [Option.eq_none_iff_forall_ne_some]
  intro value found
  obtain ⟨writing, member, rfl, written⟩ := Writing.exists_of_get?_assign found
  obtain ⟨original, origin, -, -, present⟩ :=
    plan.exists_present_writing keyed rearranged member (written ▸ Option.some_ne_none value)
  obtain ⟨former, writtenFormer⟩ := Option.ne_none_iff_exists'.mp present
  obtain ⟨last, foundLast⟩ := Writing.exists_get?_assign origin writtenFormer
  exact absurd (foundLast.symm.trans missing) nofun

/-- If nothing is disputed, the order does not matter. -/
theorem Undisputed.stable (undisputed : plan.Undisputed node) (keyed : node.isKeyed = true) :
    plan.Stable node := by
  induction undisputed with
  | @intro plan node agree below ih =>
      intro other rearranged
      cases container : node.isContainer with
      | false =>
          rw [rearranged.eq_of_terminal container]
          rfl
      | true =>
          obtain ⟨others, rfl⟩ := Node.exists_children (rearranged.isContainer_eq.trans container)
          obtain ⟨children, rfl⟩ := Node.exists_children container
          rw [value_container, value_container, Json.sameTree_object_iff]
          intro key
          cases found : Fields.get? (Writing.assign (plan.writings (.container others))) key with
          | none =>
              rw [get?_assign_eq_none_of_rearranged (rearranged.isKeyed keyed) rearranged.symm
                found]
              rfl
          | some value =>
              -- the value comes from the tree itself, where all values under its key agree
              obtain ⟨writing, member, rfl, written⟩ := Writing.exists_of_get?_assign found
              obtain ⟨original, origin, keyedOriginal, same, present⟩ :=
                plan.exists_present_writing keyed rearranged member
                  (written ▸ Option.some_ne_none value)
              have kept := sameTree_get?_assign origin
                (fun other listed key here => agree other listed _ origin key here present) present
              have stable := (ih _ origin present keyedOriginal).sameTree same
              rw [← written]
              exact kept.trans stable

/-- If the order does not matter, then any value that is written under a key might as well stay
there, since some arrangement writes it last. -/
theorem Stable.sameTree_last (stable : plan.Stable node) (keyed : node.isKeyed = true)
    (member : writing ∈ plan.writings node) {last : Node}
    (rearranged : Rearranged writing.node last)
    (present : { writing with node := last }.value ≠ none) :
    SameTree (Fields.get? (Writing.assign (plan.writings node)) writing.key)
      { writing with node := last }.value := by
  obtain ⟨other, whole, isLast⟩ := plan.writing_last keyed member rearranged
  have container := isContainer_of_mem_writings member
  obtain ⟨others, rfl⟩ := Node.exists_children (whole.isContainer_eq.trans container)
  obtain ⟨children, rfl⟩ := Node.exists_children container
  have same := stable _ whole
  rw [value_container, value_container, Json.sameTree_object_iff] at same
  rw [← Writing.get?_assign_of_lastOf isLast present]
  exact same writing.key

/-- If the order does not matter, nothing is disputed. -/
theorem Stable.undisputed (stable : plan.Stable node) (keyed : node.isKeyed = true) :
    plan.Undisputed node := by
  induction bound : node.size using Nat.strong_induction_on generalizing plan node with
  | h size ih =>
      subst bound
      constructor
      · -- one arrangement lets the first value stay, another one the second
        intro first member second memberToo same present presentToo
        have shown := stable.sameTree_last keyed member (.refl _) present
        have shownToo := stable.sameTree_last keyed memberToo (.refl _) presentToo
        rw [← same] at shownToo
        exact shown.symm.trans shownToo
      · -- a rearrangement of what is written last shows in the whole
        intro writing member present
        have within := within_of_mem_writings member
        refine ih writing.node.size within.size ?_ (within.keyed keyed) rfl
        intro other rearranged
        have presentToo :=
          Writing.value_ne_none_of_rearranged (within.keyed keyed) rearranged present
        have shown := stable.sameTree_last keyed member (.refl _) present
        have shownToo := stable.sameTree_last keyed member rearranged presentToo
        have same := shown.symm.trans shownToo
        rwa [Writing.value_eq_of_ne_none present, Writing.value_eq_of_ne_none presentToo] at same

theorem stable_iff_undisputed (plan : Plan) (keyed : node.isKeyed = true) :
    plan.Stable node ↔ plan.Undisputed node :=
  ⟨fun stable => stable.undisputed keyed, fun undisputed => undisputed.stable keyed⟩

/-- Nothing is disputed if every key is written once. -/
theorem Undisputed.of_nodup (distinct : ((plan.writings node).map Writing.key).Nodup)
    (below : ∀ writing ∈ plan.writings node, writing.value ≠ none →
      writing.plan.Undisputed writing.node) : plan.Undisputed node := by
  refine .intro ?_ below
  intro first member second memberToo same _ _
  rw [List.inj_on_of_nodup_map distinct member memberToo same]
  rfl

theorem Undisputed.of_terminal (plan : Plan) (terminal : node.isContainer = false) :
    plan.Undisputed node := by
  have nothing : ∀ writing, writing ∉ plan.writings node := by
    intro writing member
    rw [isContainer_of_mem_writings member] at terminal
    exact absurd terminal.symm Bool.false_ne_true
  exact .intro (fun first member => absurd member (nothing first))
    fun writing member => absurd member (nothing writing)

end Plan

end

/-! ## Documents -/

namespace Resolve

open Json (SameTree)

theorem value_value (path : TokenPath) (document : Json) :
    (value path document).value = (node path (.ofJson document)).value := by
  cases document <;> rfl

/-- At every path, all rearrangements of a tree, or of a document, give the same tree if and only
if no two different values are written under one key. -/
theorem rearranged_sameTree_iff_undisputed (path : TokenPath) :
    (∀ root : Node, root.isKeyed = true →
      ((∀ other, root.Rearranged other →
          SameTree (node path root).value (node path other).value) ↔
        (Plan.walk .node path).Undisputed root)) ∧
    ∀ document : Json, document.isKeyed = true →
      ((∀ other, document.Rearranged other →
          SameTree (value path document).value (value path other).value) ↔
        (Plan.walk .node path).Undisputed (.ofJson document)) := by
  have trees : ∀ root : Node, root.isKeyed = true →
      ((∀ other, root.Rearranged other →
          SameTree (node path root).value (node path other).value) ↔
        (Plan.walk .node path).Undisputed root) :=
    fun root keyed => Plan.stable_iff_undisputed (.walk .node path) keyed
  refine ⟨trees, ?_⟩
  intro document keyed
  rw [← trees (.ofJson document) (Node.isKeyed_ofJson keyed)]
  constructor
  · intro same tree rearranged
    obtain ⟨other, moved, rfl⟩ := Json.Rearranged.exists_document rearranged document rfl
    rw [← value_value, ← value_value]
    exact same other moved
  · intro same other rearranged
    rw [value_value, value_value]
    exact same (.ofJson other) rearranged.ofJson

/-- A color below `hover`, and a color of its own. -/
def accents : Json := .object [("hover", .object [("color", .leaf "color" (.str "dark"))]),
  ("accent", .leaf "color" (.str "light"))]

/-- Two colors with the same last key below `hover`. -/
def shades : Json := .object [("hover", .object
  [("even", .object [("shade", .leaf "color" (.str "light"))]),
    ("odd", .object [("shade", .leaf "color" (.str "dark"))])])]

/-- The same colors in the other order. -/
def shadesReversed : Json := .object [("hover", .object
  [("odd", .object [("shade", .leaf "color" (.str "dark"))]),
    ("even", .object [("shade", .leaf "color" (.str "light"))])])]

/-- The order of two colors with the same last key shows in the result, and that of other colors
does not. -/
theorem shades_disputed_accents_undisputed :
    (shades.isKeyed = true ∧ shades.Rearranged shadesReversed ∧
      (value ["primitive"] shades).value =
        some (.object [("hover", .object [("shade", .str "dark")])]) ∧
      (value ["primitive"] shadesReversed).value =
        some (.object [("hover", .object [("shade", .str "light")])]) ∧
      ¬(Plan.walk .node ["primitive"]).Undisputed (.ofJson shades)) ∧
    accents.isKeyed = true ∧ (Plan.walk .node ["primitive"]).Undisputed (.ofJson accents) ∧
      ∀ other, accents.Rearranged other →
        SameTree (value ["primitive"] accents).value (value ["primitive"] other).value := by
  obtain ⟨-, documents⟩ := rearranged_sameTree_iff_undisputed ["primitive"]
  have keyedShades : shades.isKeyed = true := by decide
  have swapped : shades.Rearranged shadesReversed :=
    .inside [] "hover" [] rfl (.permuted rfl (.swap _ _ _))
  have dark : (value ["primitive"] shades).value =
      some (.object [("hover", .object [("shade", .str "dark")])]) := by rfl
  have light : (value ["primitive"] shadesReversed).value =
      some (.object [("hover", .object [("shade", .str "light")])]) := by rfl
  have disputed : ¬(Plan.walk .node ["primitive"]).Undisputed (.ofJson shades) := by
    intro undisputed
    have same := (documents shades keyedShades).mpr undisputed shadesReversed swapped
    rw [dark, light] at same
    have seen : some (some (Json.str "dark")) = some (some (Json.str "light")) :=
      congrFun (Option.some.inj same) ["hover", "shade"]
    simp at seen
  have keyedAccents : accents.isKeyed = true := by decide
  have undisputed : (Plan.walk .node ["primitive"]).Undisputed (.ofJson accents) := by
    have written : (Plan.walk .node ["primitive"]).writings (.ofJson accents) =
        [⟨"hover", .under "hover" ["primitive", "hover"],
            .container [("color", .leaf "color" (.str "dark"))], true⟩,
          ⟨"hoverColor", .walk .tree ["primitive", "hover", "color"],
            .leaf "color" (.str "dark"), true⟩,
          ⟨"accent", .walk .node ["primitive", "accent"], .leaf "color" (.str "light"),
            false⟩] := by
      rfl
    refine .of_nodup (by rw [written]; decide) ?_
    rw [written]
    simp only [List.forall_mem_cons]
    refine ⟨fun _ => .of_nodup .nil fun _ member => absurd member List.not_mem_nil,
      fun _ => .of_terminal _ rfl, fun _ => .of_terminal _ rfl, by simp⟩
  exact ⟨⟨keyedShades, swapped, dark, light, disputed⟩, keyedAccents, undisputed,
    (documents accents keyedAccents).mpr undisputed⟩

end Resolve

end DesignTokens
