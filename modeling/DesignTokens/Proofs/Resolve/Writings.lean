import DesignTokens.Proofs.Resolve.Parts
import DesignTokens.Proofs.Resolve.Placement

/-!
# What is written into an object

Every object of a result is made by writing values under its keys, one after another, so that the
last value written under a key stays.  This holds of the objects of containers, in sections and
elsewhere, of those of rename parents, and of those that are made of parts of a node.  A plan tells
how the value of a node is made, and which other nodes it writes the values of.
-/

namespace DesignTokens

/-- Parts of a node, each with a name of its own. -/
structure Layout where
  /-- The names, and the keys that lead to the parts. -/
  rows : List (String × List String)
  /-- No name is used twice. -/
  distinct : (Fields.keys rows).Nodup
  /-- Every part lies below the node. -/
  proper : ∀ row ∈ rows, row.2 ≠ []

namespace Layout

/-- The two directions of a padding. -/
def padding : Layout := ⟨Resolve.paddingParts, by decide, by decide⟩

/-- The font size and the padding of a size variant. -/
def sized : Layout where
  rows := Resolve.fontParts ++ [("paddingX", ["padding", "x"]), ("paddingY", ["padding", "y"])]
  distinct := by decide
  proper := by decide

/-- The colors of the icon of an option. -/
def optionColors : Layout := ⟨Resolve.optionColors, by decide, by decide⟩

/-- The colors of the icon of a navigation item. -/
def itemColors : Layout := ⟨Resolve.itemColors, by decide, by decide⟩

/-- The label and the icon of a submenu. -/
def submenu : Layout := ⟨Resolve.submenuParts, by decide, by decide⟩

end Layout

/-- A walk over the children of a container. -/
inductive Walk
  /-- The walk with sections. -/
  | node
  /-- The walk without sections. -/
  | tree
  /-- The walk over the field of a form. -/
  | formField
  /-- The walk over a list. -/
  | list
  /-- The walk over a navigation. -/
  | navigation
  deriving DecidableEq, Repr

/-- How the value of a node is made. -/
inductive Plan
  /-- A walk makes the value of the node at a path. -/
  | walk (kind : Walk) (path : TokenPath)
  /-- The object of the field of a form. -/
  | form (path : TokenPath)
  /-- The object of a rename parent. -/
  | under (owner : String) (path : TokenPath)
  /-- The object of a container with the colors of its icon. -/
  | bearer (path : TokenPath) (apart : List String) (iconApart : "icon" ∈ apart) (colors : Layout)
  /-- The object of parts of a node. -/
  | parts (path : TokenPath) (layout : Layout)

/-- The value of a node that is written under a key. -/
structure Writing where
  /-- The key. -/
  key : String
  /-- How the value is made. -/
  plan : Plan
  /-- The node. -/
  node : Node
  /-- Whether an empty object counts as no value. -/
  substantial : Bool

/-- A part of a node that is written under a name. -/
structure Part where
  /-- The name. -/
  name : String
  /-- The keys that lead to the part. -/
  keys : List String
  /-- How the value of the part is made. -/
  plan : Plan

/-- What a child gives to the object of its container. -/
inductive Share
  /-- Some of its parts. -/
  | parts (given : List Part)
  /-- The expansion of a rename parent. -/
  | expansion

/-! ## Values -/

namespace Walk

/-- What a child of a container contributes. -/
def contribution : Walk → TokenPath → String → Node → Logged (Fields Json)
  | node, path => Resolve.nodeChild path
  | tree, path => Resolve.treeChild path
  | formField, path => Resolve.formFieldChild Resolve.tree path
  | list, path => Resolve.listChild Resolve.tree path
  | navigation, path => Resolve.navigationChild Resolve.tree path

/-- The value of the node at a path. -/
def value : Walk → TokenPath → Node → Option Json
  | node, path, root => (Resolve.node path root).value
  | tree, path, root => (Resolve.tree path root).value
  | formField, path, root => some (.object (Resolve.formField Resolve.tree path root).value)
  | list, path, root => some (.object (Resolve.list Resolve.tree path root).value)
  | navigation, path, root => some (.object (Resolve.navigation Resolve.tree path root).value)

end Walk

namespace Plan

/-- The value that a plan makes of a node. -/
def value : Plan → Node → Option Json
  | walk kind path, root => kind.value path root
  | form path, root =>
      Walk.formField.value (path ++ ["field"]) ((root.child? "field").getD (.container []))
  | under owner path, root => some (.object (Resolve.expand owner path root.children).value.nested)
  | bearer path apart _ colors, root =>
      (Resolve.iconBearer Resolve.tree path root apart colors.rows).value
  | parts path layout, root =>
      some (.object (Resolve.parts Resolve.tree path root layout.rows).value)

end Plan

namespace Writing

/-- The value that is written, if there is one. -/
def value (writing : Writing) : Option Json :=
  if writing.substantial then Resolve.substantial (writing.plan.value writing.node)
  else writing.plan.value writing.node

/-- The entry that is written. -/
def written? (writing : Writing) : Option (String × Json) :=
  writing.value.map fun value => (writing.key, value)

/-- What a placement writes into the object of its container, if it is placed there. -/
def own? (placement : Placement) : Option Writing :=
  match placement.slot with
  | .own key => some ⟨key, .walk .tree placement.path, placement.node, placement.renamed⟩
  | .under _ _ => none

/-- What a placement writes into the object of a rename parent, if it is placed there. -/
def under? (placement : Placement) : Option Writing :=
  match placement.slot with
  | .own _ => none
  | .under _ key => some ⟨key, .walk .tree placement.path, placement.node, placement.renamed⟩

/-- The object that some values give, written one after another. -/
def assign (writings : List Writing) : Fields Json := Fields.ofList (writings.filterMap written?)

end Writing

/-! ## Writings -/

namespace Part

/-- The value of a part of a node, if it has that part. -/
def writing? (part : Part) (node : Node) : Option Writing :=
  (node.descend? part.keys).map fun found => ⟨part.name, part.plan, found, false⟩

end Part

namespace Layout

/-- The parts of the node at a path. -/
def parts (layout : Layout) (path : TokenPath) : List Part :=
  layout.rows.map fun row => ⟨row.1, row.2, .walk .tree (path ++ row.2)⟩

end Layout

namespace Share

/-- The whole child under one name. -/
def whole (name : String) (plan : Plan) : Share := parts [⟨name, [], plan⟩]

/-- The values that the child `key` of the container at a path writes. -/
def writings (path : TokenPath) (key : String) (child : Node) : Share → List Writing
  | parts given => given.filterMap fun part => part.writing? child
  | expansion => ⟨key, .under key (path ++ [key]), child, true⟩ ::
      (Resolve.terminals key (path ++ [key]) child).filterMap Writing.own?

end Share

namespace Walk

/-- The option of a list at a path, and its group. -/
def optionParts (path : TokenPath) : List Part :=
  [⟨"option", [], .bearer path ["group", "icon"] (by decide) .optionColors⟩,
    ⟨"optionGroup", ["group"], .walk tree (path ++ ["group"])⟩]

/-- What the child `key` of the container at a path gives. -/
def share (kind : Walk) (path : TokenPath) (key : String) (child : Node) : Share :=
  match kind with
  | node =>
      match Dispatch.first path key child with
      | .form => .whole "formField" (.form (path ++ [key]))
      | .list => .whole "list" (.walk list (path ++ [key]))
      | .navigation => .whole "navigation" (.walk navigation (path ++ [key]))
      | .transformable => .expansion
      | .generic => .whole key (.walk node (path ++ [key]))
  | tree =>
      if child.isContainer && Rename.isParent key then .expansion
      else .whole key (.walk tree (path ++ [key]))
  | formField =>
      if child.isContainer && key = "padding" then .parts (Layout.padding.parts (path ++ [key]))
      else if child.isContainer && Resolve.sizeKeys.contains key then
        .whole key (.parts (path ++ [key]) .sized)
      else if child.isContainer && Rename.isParent key then .expansion
      else .whole key (.walk tree (path ++ [key]))
  | list =>
      if child.isContainer && key = "option" then
        .parts (optionParts (path ++ [key]))
      else .whole key (.walk tree (path ++ [key]))
  | navigation =>
      if child.isContainer && key = "submenu" then .parts (Layout.submenu.parts (path ++ [key]))
      else if child.isContainer && key = "item" then
        .whole key (.bearer (path ++ [key]) ["icon"] (by decide) .itemColors)
      else .whole key (.walk tree (path ++ [key]))

/-- The values that the child `key` of the container at a path writes.  Metadata writes none. -/
def childWritings (kind : Walk) (path : TokenPath) (key : String) (child : Node) : List Writing :=
  if isMetadata key then [] else (kind.share path key child).writings path key child

/-- The values that the children of the container at a path write. -/
def writings (kind : Walk) (path : TokenPath) (children : Fields Node) : List Writing :=
  children.flatMap fun child => kind.childWritings path child.1 child.2

end Walk

namespace Plan

/-- The values that are written into the object of a node, in order. -/
def writings : Plan → Node → List Writing
  | walk kind path, root => kind.writings path root.children
  | form path, root =>
      Walk.formField.writings (path ++ ["field"])
        ((root.child? "field").getD (.container [])).children
  | under owner path, root => (Resolve.terminals owner path root).filterMap Writing.under?
  | bearer path apart _ colors, root =>
      Walk.tree.writings path (root.without apart).children ++
        (root.child? "icon").toList.map fun icon =>
          ⟨"icon", .parts (path ++ ["icon"]) colors, icon, true⟩
  | parts path layout, root => (layout.parts path).filterMap fun part => part.writing? root

end Plan

/-- Images of some chosen items are images of the items, in the same order. -/
private theorem sublist_map_filterMap {α β γ : Type} {choice : α → Option β} {image : β → γ}
    {original : α → γ} (same : ∀ item, ∀ chosen ∈ choice item, image chosen = original item)
    (items : List α) : ((items.filterMap choice).map image).Sublist (items.map original) := by
  induction items with
  | nil => exact List.Sublist.slnil
  | cons item rest ih =>
      rw [List.filterMap_cons, List.map_cons]
      split
      · exact ih.trans (List.sublist_cons_self _ _)
      · rename_i chosen found
        rw [List.map_cons, same item chosen found]
        exact ih.cons_cons _

namespace Writing

theorem assign_nil : assign [] = [] := rfl

theorem assign_append (first second : List Writing) :
    assign (first ++ second) = Fields.merge (assign first) (assign second) := by
  rw [assign, List.filterMap_append, Fields.ofList_append]
  rfl

theorem filterMap_written_cons (writing : Writing) (rest : List Writing) :
    (writing :: rest).filterMap written? =
      Resolve.keyed writing.key writing.value ++ rest.filterMap written? := by
  rw [List.filterMap_cons, written?]
  cases writing.value <;> rfl

theorem assign_cons (writing : Writing) (rest : List Writing) :
    assign (writing :: rest) =
      Fields.merge (Resolve.keyed writing.key writing.value) (assign rest) := by
  rw [assign, filterMap_written_cons, Fields.ofList_append]
  cases writing.value <;> rfl

theorem assign_singleton (writing : Writing) :
    assign [writing] = Resolve.keyed writing.key writing.value := by
  rw [assign, filterMap_written_cons]
  cases writing.value <;> rfl

theorem assign_concat (writings : List Writing) (writing : Writing) :
    assign (writings ++ [writing]) =
      match writing.value with
      | none => assign writings
      | some value => Fields.put (assign writings) writing.key value := by
  rw [assign, List.filterMap_append, filterMap_written_cons]
  cases writing.value with
  | none => exact congrArg Fields.ofList (List.append_nil _)
  | some value => exact Fields.ofList_append_singleton _ (writing.key, value)

theorem keys_filterMap_written (writings : List Writing) :
    (Fields.keys (writings.filterMap written?)).Sublist (writings.map key) := by
  apply sublist_map_filterMap
  intro writing entry written
  obtain ⟨value, -, rfl⟩ := Option.map_eq_some_iff.mp written
  rfl

/-- Values with keys of their own are written as they are. -/
theorem assign_of_nodup {writings : List Writing} (distinct : (writings.map key).Nodup) :
    assign writings = writings.filterMap written? :=
  Fields.ofList_eq_self (distinct.sublist (keys_filterMap_written writings))

/-- Whatever stands under a key has been written there. -/
theorem exists_of_get?_assign {writings : List Writing} {key : String} {value : Json}
    (found : Fields.get? (assign writings) key = some value) :
    ∃ writing ∈ writings, writing.key = key ∧ writing.value = some value := by
  have member := Fields.mem_of_mem_ofList (Fields.mem_of_get?_eq_some found)
  obtain ⟨writing, listed, entry⟩ := List.mem_filterMap.mp member
  obtain ⟨written, present, same⟩ := Option.map_eq_some_iff.mp entry
  obtain ⟨rfl, rfl⟩ := Prod.mk.inj same
  exact ⟨writing, listed, rfl, present⟩

/-- Something stands under a key if a value is written there. -/
theorem exists_get?_assign {writings : List Writing} {writing : Writing} {value : Json}
    (listed : writing ∈ writings) (present : writing.value = some value) :
    ∃ last, Fields.get? (assign writings) writing.key = some last := by
  rw [← Fields.mem_keys_iff_exists, assign, Fields.mem_keys_ofList]
  have entry : written? writing = some (writing.key, value) := by
    rw [written?, present, Option.map_some]
  exact Fields.mem_keys_of_mem (List.mem_filterMap.mpr ⟨writing, listed, entry⟩)

end Writing

/-! ## Parts -/

namespace Part

theorem writing?_eq_some_iff (part : Part) (node : Node) (writing : Writing) :
    part.writing? node = some writing ↔ ∃ found, node.descend? part.keys = some found ∧
      writing = ⟨part.name, part.plan, found, false⟩ := by
  simp only [writing?, Option.map_eq_some_iff, eq_comm (b := writing)]

theorem names_writings (parts : List Part) (node : Node) :
    ((parts.filterMap fun part => part.writing? node).map Writing.key).Sublist
      (parts.map Part.name) := by
  apply sublist_map_filterMap
  intro part writing written
  obtain ⟨found, -, rfl⟩ := (writing?_eq_some_iff part node writing).mp written
  rfl

/-- Parts with names of their own give one entry each, if they are there and have a value. -/
theorem assign_parts {parts : List Part} (distinct : (parts.map Part.name).Nodup) (node : Node) :
    Writing.assign (parts.filterMap fun part => part.writing? node) =
      parts.flatMap fun part =>
        Resolve.keyed part.name ((node.descend? part.keys).bind part.plan.value) := by
  rw [Writing.assign_of_nodup (distinct.sublist (names_writings parts node))]
  clear distinct
  induction parts with
  | nil => rfl
  | cons part rest ih =>
      rw [List.filterMap_cons, List.flatMap_cons, writing?]
      cases node.descend? part.keys with
      | none => exact ih
      | some found =>
          simp only [Option.map_some, Option.bind_some]
          rw [Writing.filterMap_written_cons, ih]
          rfl

end Part

namespace Layout

theorem names_parts (layout : Layout) (path : TokenPath) :
    (layout.parts path).map Part.name = Fields.keys layout.rows := by
  simp [parts, Fields.keys, Function.comp_def]

end Layout

namespace Resolve

theorem value_resolveAt (path : TokenPath) (node : Node) (keys : List String) :
    (resolveAt tree path node keys).value =
      (node.descend? keys).bind (Plan.walk .tree (path ++ keys)).value :=
  value_resolveAt_eq_valueAt tree path node keys

theorem value_parts (path : TokenPath) (node : Node) (layout : Layout) :
    (parts tree path node layout.rows).value =
      Writing.assign ((layout.parts path).filterMap fun part => part.writing? node) := by
  have distinct : ((layout.parts path).map Part.name).Nodup :=
    (layout.names_parts path).symm ▸ layout.distinct
  rw [Part.assign_parts distinct, Layout.parts, List.flatMap_map]
  generalize layout.rows = rows
  induction rows with
  | nil => rfl
  | cons row rest ih =>
      rw [List.flatMap_cons, ← ih, ← value_resolveAt]
      rfl

end Resolve

namespace Walk

theorem names_optionParts (path : TokenPath) : ((optionParts path).map Part.name).Nodup := by
  have names : (optionParts path).map Part.name = ["option", "optionGroup"] := rfl
  rw [names]
  decide

/-- The parts of a child have names of their own. -/
theorem names_share (kind : Walk) (path : TokenPath) (key : String) (child : Node)
    {given : List Part} (share : kind.share path key child = .parts given) :
    (given.map Part.name).Nodup := by
  have whole : ∀ {name plan}, Share.whole name plan = .parts given →
      (given.map Part.name).Nodup := by
    intro name plan same
    rw [← Share.parts.inj same]
    exact List.nodup_singleton name
  have layout : ∀ (layout : Layout) path, Share.parts (layout.parts path) = .parts given →
      (given.map Part.name).Nodup := by
    intro layout path same
    rw [← Share.parts.inj same, layout.names_parts]
    exact layout.distinct
  cases kind with
  | node =>
      simp only [Walk.share] at share
      split at share <;> first | exact whole share | exact absurd share nofun
  | tree =>
      simp only [Walk.share] at share
      split at share <;> first | exact whole share | exact absurd share nofun
  | formField =>
      simp only [Walk.share] at share
      split at share
      · exact layout _ _ share
      · split at share
        · exact whole share
        · split at share <;> first | exact whole share | exact absurd share nofun
  | list =>
      simp only [Walk.share] at share
      split at share
      · rw [← Share.parts.inj share]
        exact names_optionParts _
      · exact whole share
  | navigation =>
      simp only [Walk.share] at share
      split at share
      · exact layout _ _ share
      · split at share <;> exact whole share

end Walk

namespace Resolve

/-! ## What a child contributes -/

theorem assign_whole (path : TokenPath) (key : String) (child : Node) (name : String)
    (plan : Plan) :
    Writing.assign ((Share.whole name plan).writings path key child) =
      keyed name (plan.value child) :=
  Writing.assign_singleton ⟨name, plan, child, false⟩

theorem filterMap_own? (placements : List Placement) :
    (placements.filterMap Writing.own?).filterMap Writing.written? =
      placements.filterMap Placement.own? := by
  rw [List.filterMap_filterMap]
  congr 1
  funext placement
  rw [Writing.own?, Placement.own?]
  cases placement.slot <;> rfl

theorem filterMap_under? (placements : List Placement) :
    (placements.filterMap Writing.under?).filterMap Writing.written? =
      placements.filterMap Placement.under? := by
  rw [List.filterMap_filterMap]
  congr 1
  funext placement
  rw [Writing.under?, Placement.under?]
  cases placement.slot <;> rfl

theorem value_expandedChild (path : TokenPath) (key : String) (child : Node) :
    (expandedChild path key child).value =
      Writing.assign (Share.expansion.writings path key child) := by
  have nested : keyed key (substantial (some (.object
      (expand key (path ++ [key]) child.children).value.nested))) =
      if (expand key (path ++ [key]) child.children).value.nested.isEmpty then []
      else [(key, .object (expand key (path ++ [key]) child.children).value.nested)] := by
    cases (expand key (path ++ [key]) child.children).value.nested <;> rfl
  rw [expandedChild, Logged.map_value, Expansion.entries, ← nested, Share.writings,
    Writing.assign_cons]
  congr 1
  rw [Writing.assign, filterMap_own?, value_expand]
  rfl

theorem value_sized (path : TokenPath) (child : Node) :
    (parts tree path child fontParts).value ++
        (padding tree (path ++ ["padding"]) (child.child? "padding")).value =
      (parts tree path child Layout.sized.rows).value :=
  (value_sizedParts tree path child).trans (value_parts_eq_valuesAt tree path child sizedParts).symm

theorem value_contribution (kind : Walk) (path : TokenPath) (key : String) (child : Node) :
    (kind.contribution path key child).value =
      Writing.assign ((kind.share path key child).writings path key child) := by
  cases kind with
  | node =>
      simp only [Walk.contribution, Walk.share, nodeChild]
      cases Dispatch.first path key child with
      | form =>
          rw [form_contribution_value, assign_whole]
          simp [Plan.value, Walk.value, keyed]
      | list =>
          rw [assign_whole]
          rfl
      | navigation =>
          rw [assign_whole]
          rfl
      | transformable => exact value_expandedChild path key child
      | generic =>
          rw [assign_whole]
          rfl
  | tree =>
      simp only [Walk.contribution, Walk.share, treeChild]
      split
      · exact value_expandedChild path key child
      · rw [assign_whole]
        rfl
  | formField =>
      simp only [Walk.contribution, Walk.share, formFieldChild]
      split
      · exact (value_padding tree _ child).trans (value_parts _ child .padding)
      · split
        · rw [assign_whole, Plan.value, ← value_sized, List.append_assoc]
          rfl
        · split
          · exact value_expandedChild path key child
          · rw [assign_whole]
            rfl
  | list =>
      simp only [Walk.contribution, Walk.share, listChild]
      split
      · rename_i option
        have named : key = "option" := of_decide_eq_true ((Bool.and_eq_true _ _).mp option).2
        subst named
        rw [Share.writings, Part.assign_parts (Walk.names_optionParts _), Walk.optionParts,
          List.flatMap_cons, List.flatMap_singleton, ← value_resolveAt]
        rfl
      · rw [assign_whole]
        rfl
  | navigation =>
      simp only [Walk.contribution, Walk.share, navigationChild]
      split
      · exact value_parts _ child .submenu
      · split
        · rw [assign_whole]
          rfl
        · rw [assign_whole]
          rfl

/-! ## What a plan gives -/

theorem value_gather (kind : Walk) (path : TokenPath) (children : Fields Node) :
    (gather (kind.contribution path) children).value =
      Writing.assign (kind.writings path children) := by
  induction children with
  | nil => rfl
  | cons child rest ih =>
      rw [Walk.writings, List.flatMap_cons, ← Walk.writings, Writing.assign_append, ← ih,
        Walk.childWritings]
      cases token : isMetadata child.1 with
      | true => rw [gather_metadata _ token, if_pos rfl, Writing.assign_nil, Fields.nil_merge]
      | false =>
          rw [gather_token _ token, if_neg Bool.false_ne_true, ← value_contribution]
          rfl

/-- The colors of an icon are written over whatever else is called `icon`. -/
theorem withIcon_assign (writings : List Writing) (path : TokenPath) (colors : Layout)
    (icon : Option Node) :
    withIcon (some (.object (Writing.assign writings)))
        (iconColors tree path colors.rows icon).value =
      some (.object (Writing.assign (writings ++
        icon.toList.map fun found => ⟨"icon", .parts path colors, found, true⟩))) := by
  cases icon with
  | none => simp [withIcon, iconColors]
  | some found =>
      rw [value_iconColors tree path found colors.proper, Option.toList_some, List.map_singleton, Writing.assign_concat,
        Writing.value, if_pos rfl, Plan.value]
      cases (parts tree path found colors.rows).value <;> rfl

theorem value_bearer (path : TokenPath) (apart : List String) (colors : Layout)
    (children : Fields Node) :
    (iconBearer tree path (.container children) apart colors.rows).value =
      some (.object (Writing.assign (Walk.tree.writings path (Fields.without children apart) ++
        ((Node.container children).child? "icon").toList.map fun icon =>
          ⟨"icon", .parts (path ++ ["icon"]) colors, icon, true⟩))) := by
  rw [← withIcon_assign, ← value_gather]
  simp only [iconBearer, Logged.bind_value, Logged.pure_value, Node.without, tree_container,
    Logged.map_value]
  rfl

end Resolve

namespace Plan

/-- The value of a container is the object that its writings give. -/
theorem value_container (plan : Plan) (children : Fields Node) :
    plan.value (.container children) =
      some (.object (Writing.assign (plan.writings (.container children)))) := by
  cases plan with
  | walk kind path =>
      rw [writings, ← Resolve.value_gather]
      cases kind with
      | node => exact congrArg Logged.value (Resolve.node_container path children)
      | tree => exact congrArg Logged.value (Resolve.tree_container path children)
      | _ => rfl
  | form path =>
      rw [writings, ← Resolve.value_gather]
      rfl
  | under owner path =>
      rw [writings, Writing.assign, Resolve.filterMap_under?, value, Resolve.value_expand]
      rfl
  | bearer path apart iconApart colors => exact Resolve.value_bearer path apart colors children
  | parts path layout =>
      rw [value, Resolve.value_parts]
      rfl

end Plan

end DesignTokens
