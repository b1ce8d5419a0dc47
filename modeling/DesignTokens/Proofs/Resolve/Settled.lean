import DesignTokens.Proofs.Resolve.Names
import DesignTokens.Proofs.Resolve.NormalForm

/-!
# Settled values

The normal values are those that resolution leaves as they are away from the sections.  At the root
of a section the containers that are reshaped count as well: no form stays, and a list or a
navigation does if its entries are normal, save that the icon of an option or of an item comes last
and has nothing but a color.  The settled values are those that resolution leaves as they are at any
path, and so resolving twice is the same as resolving once just if the first result is settled.
-/

namespace DesignTokens

namespace Json

/-- Whether entries are normal and none has one of some names. -/
def plainEntries (path : TokenPath) (apart : List String) (entries : Fields Json) : Bool :=
  entriesNormal path entries && entries.all fun entry => !apart.contains entry.1

/-- Whether a value is an icon with a normal color and nothing else. -/
def isColored (path : TokenPath) : Json → Bool
  | .object [(key, color)] => key = "color" && color.isNormal (path ++ ["color"])
  | _ => false

/-- Whether an object that bears an icon stays as it is: its entries are normal, nothing in it is
treated apart, and an icon comes last. -/
def isBearer (path : TokenPath) (apart : List String) : Json → Bool
  | .object entries =>
      plainEntries path apart entries ||
        (plainEntries path apart entries.dropLast &&
          entries.getLast?.any fun last => last.1 = "icon" && last.2.isColored (path ++ ["icon"]))
  | _ => false

/-- Whether an entry of a list stays as it is. -/
def isListEntry (path : TokenPath) (entry : String × Json) : Bool :=
  if entry.2.isObject && entry.1 = "option" then
    entry.2.isBearer (path ++ [entry.1]) ["group", "icon"]
  else entry.2.isNormal (path ++ [entry.1])

/-- Whether an entry of a navigation stays as it is. -/
def isNavigationEntry (path : TokenPath) (entry : String × Json) : Bool :=
  if entry.2.isObject && entry.1 = "submenu" then false
  else if entry.2.isObject && entry.1 = "item" then
    entry.2.isBearer (path ++ [entry.1]) ["icon"]
  else entry.2.isNormal (path ++ [entry.1])

/-- Whether no entry of an object is metadata and all have a property. -/
def everyEntry (holds : String × Json → Bool) : Json → Bool
  | .object entries => entries.all fun entry => !isMetadata entry.1 && holds entry
  | _ => false

/-- Whether the container at a path directly below the root of a section stays as it is, if it is
called `key` and reshaped. -/
def isReshaped (path : TokenPath) (key : String) (value : Json) : Bool :=
  if key = "list" then value.everyEntry (isListEntry path)
  else if key = "navigation" then value.everyEntry (isNavigationEntry path)
  else false

mutual

/-- Whether a value is settled at a path. -/
def isSettled (path : TokenPath) : Json → Bool
  | .null => false
  | .scalar value => value != .str ""
  | .list _ => false
  | .object entries => entriesSettled path entries

/-- Whether the entries of an object at a path are settled. -/
def entriesSettled (path : TokenPath) : List (String × Json) → Bool
  | [] => true
  | (key, value) :: rest =>
      !isMetadata key &&
        (if Dispatch.sectionRoots.contains path && Dispatch.sectionKeys.contains key &&
            value.isObject then value.isReshaped (path ++ [key]) key
          else if Rename.isParent key && value.isObject then value.isKept (path ++ [key])
          else isSettled (path ++ [key]) value) &&
        entriesSettled path rest

end

/-- Whether an entry of an object at a path is settled. -/
def entrySettled (path : TokenPath) (entry : String × Json) : Bool :=
  if Dispatch.sectionRoots.contains path && Dispatch.sectionKeys.contains entry.1 &&
      entry.2.isObject then entry.2.isReshaped (path ++ [entry.1]) entry.1
  else if Rename.isParent entry.1 && entry.2.isObject then entry.2.isKept (path ++ [entry.1])
  else isSettled (path ++ [entry.1]) entry.2

theorem entriesSettled_iff (path : TokenPath) (entries : Fields Json) :
    entriesSettled path entries = true ↔
      ∀ entry ∈ entries, isMetadata entry.1 = false ∧ entrySettled path entry = true := by
  induction entries with
  | nil => simp [entriesSettled]
  | cons entry rest ih => simp [entriesSettled, entrySettled, ih]

theorem plainEntries_iff (path : TokenPath) (apart : List String) (entries : Fields Json) :
    plainEntries path apart entries = true ↔ entriesNormal path entries = true ∧
      ∀ entry ∈ entries, entry.1 ∉ apart := by
  simp [plainEntries]

theorem isColored_iff (path : TokenPath) (value : Json) :
    value.isColored path = true ↔ ∃ color, value = .object [("color", color)] ∧
      color.isNormal (path ++ ["color"]) = true := by
  constructor
  · intro colored
    unfold isColored at colored
    split at colored
    · simp only [Bool.and_eq_true, decide_eq_true_eq] at colored
      obtain ⟨rfl, normal⟩ := colored
      exact ⟨_, rfl, normal⟩
    · simp at colored
  · rintro ⟨color, rfl, normal⟩
    simpa [isColored] using normal

theorem isBearer_iff (path : TokenPath) (apart : List String) (entries : Fields Json) :
    (Json.object entries).isBearer path apart = true ↔ plainEntries path apart entries = true ∨
      ∃ rest color, entries = rest ++ [("icon", .object [("color", color)])] ∧
        plainEntries path apart rest = true ∧
          color.isNormal (path ++ ["icon"] ++ ["color"]) = true := by
  rw [isBearer, Bool.or_eq_true]
  apply or_congr_right
  constructor
  · intro colored
    obtain ⟨plain, last⟩ := (Bool.and_eq_true _ _).mp colored
    obtain ⟨⟨name, value⟩, isLast, icon⟩ := (Option.any_eq_true _ _).mp last
    simp only [Bool.and_eq_true, decide_eq_true_eq] at icon
    obtain ⟨rfl, icon⟩ := icon
    obtain ⟨color, rfl, normal⟩ := (isColored_iff _ value).mp icon
    exact ⟨_, color, (List.dropLast_append_getLast? _ isLast).symm, plain, normal⟩
  · rintro ⟨rest, color, rfl, plain, normal⟩
    rw [List.dropLast_concat, List.getLast?_concat, plain]
    simpa using (isColored_iff _ _).mpr ⟨color, rfl, normal⟩

theorem everyEntry_object (holds : String × Json → Bool) (entries : Fields Json) :
    (Json.object entries).everyEntry holds = true ↔
      ∀ entry ∈ entries, isMetadata entry.1 = false ∧ holds entry = true := by
  simp [everyEntry]

end Json

namespace Resolve

open Weighing (keys)

/-! ## Objects without some of their entries -/

theorem without_childrenOfJson (entries : Fields Json) (names : List String) :
    Fields.without (Node.childrenOfJson entries) names =
      Node.childrenOfJson (Fields.without entries names) := by
  simp [Node.childrenOfJson_eq_map, Fields.without, List.filter_map, Function.comp_def]

/-- An object that has as many keys without some of its entries has none of them. -/
private theorem not_mem_of_keys_le {entries : Fields Json} {names : List String}
    (whole : keys.fields entries ≤ keys.fields (Fields.without entries names)) :
    ∀ entry ∈ entries, entry.1 ∉ names := by
  have without_le : ∀ entries : Fields Json,
      keys.fields (Fields.without entries names) ≤ keys.fields entries := by
    intro entries
    induction entries with
    | nil => exact le_rfl
    | cons entry rest ih =>
        rw [Fields.without, List.filter_cons]
        split
        · exact add_le_add_right ih _
        · exact ih.trans le_add_self
  have one : keys.key = 1 := rfl
  induction entries with
  | nil => simp
  | cons entry rest ih =>
      have below := without_le rest
      rw [Weighing.fields_cons] at whole
      by_cases dropped : entry.1 ∈ names
      · have rest_without : Fields.without (entry :: rest) names = Fields.without rest names := by
          simp [Fields.without, dropped]
        rw [rest_without] at whole
        omega
      · have kept : Fields.without (entry :: rest) names = entry :: Fields.without rest names := by
          simp [Fields.without, dropped]
        rw [kept, Weighing.fields_cons] at whole
        exact List.forall_mem_cons.mpr ⟨dropped, ih (by omega)⟩

/-- If the walk over what is left of an object gives back the whole object, nothing was treated
apart and all entries are normal. -/
private theorem plainEntries_of_gather {path : TokenPath} {apart : List String}
    {entries : Fields Json}
    (fixed : (gather (treeChild path)
      (Node.childrenOfJson (Fields.without entries apart))).value = entries) :
    Json.plainEntries path apart entries = true := by
  have clean : ∀ key child, isMetadata key = false →
      Fields.Clean (fun _ => True) (treeChild path key child).value :=
    fun key child token => treeChild_clean (fun _ _ => trivial) child.yields_true path token
  have fresh : ∀ entry ∈ entries, entry.1 ∉ apart := by
    apply not_mem_of_keys_le
    have bounded : keys.fields (gather (treeChild path)
        (Node.childrenOfJson (Fields.without entries apart))).value ≤
          keys.children (Node.childrenOfJson (Fields.without entries apart)) :=
      Weighing.fields_gather_le (fun part _ => clean part.1 part.2)
        fun part _ _ => keys.fields_treeChild_le path part.1 part.2
    rw [fixed] at bounded
    exact bounded.trans (children_childrenOfJson_le _)
  rw [Fields.without_eq_self fresh] at fixed
  have each := gather_fixed clean (keys.fields_treeChild_le path) fixed
  rw [Json.plainEntries_iff, Json.entriesNormal_iff]
  refine ⟨fun entry member => ?_, fresh⟩
  obtain ⟨token, own, -⟩ := each entry member
  exact ⟨token, entryNormal_of_treeChild isNormal_of_tree own⟩

/-! ## Icon bearers -/

/-- Parts of a node without any of the children that they lie below are missing. -/
private theorem parts_eq_nil (resolve : Resolver) (path : TokenPath) {node : Node}
    {rows : List (String × List String)} (nonempty : ∀ row ∈ rows, row.2 ≠ [])
    (missing : ∀ key ∈ heads rows, node.child? key = none) :
    parts resolve path node rows = pure [] := by
  induction rows with
  | nil => rfl
  | cons row rows ih =>
      obtain ⟨name, path⟩ := row
      obtain ⟨here, others⟩ := List.forall_mem_cons.mp nonempty
      cases path with
      | nil => exact absurd rfl here
      | cons key path =>
          obtain ⟨missing, missingOthers⟩ := List.forall_mem_cons.mp missing
          rw [parts, ih others missingOthers, resolveAt, Node.descend?, missing]
          rfl

/-- What the colors of icons have in common: the first is the color itself, and the others lie below
children that have no color's name. -/
structure IconColors (colors more : List (String × List String)) : Prop where
  /-- The color comes first. -/
  first : colors = ("color", ["color"]) :: more
  /-- The other colors lie below children. -/
  nonempty : ∀ row ∈ more, row.2 ≠ []
  /-- No color has the name of such a child. -/
  apart : ∀ key ∈ heads more, key ∉ Fields.keys colors

theorem iconColors_optionColors : IconColors optionColors optionColors.tail :=
  ⟨rfl, by decide, by decide⟩

theorem iconColors_itemColors : IconColors itemColors itemColors.tail :=
  ⟨rfl, by decide, by decide⟩

theorem child?_ofJson_container (entries : Fields Json) (key : String) :
    (Node.container (Node.childrenOfJson entries)).child? key =
      (Fields.get? entries key).map Node.ofJson := by
  rw [Node.child?, Node.childrenOfJson_eq_map]
  induction entries with
  | nil => rfl
  | cons entry rest ih =>
      by_cases same : entry.1 = key
      · simp [Fields.get?, same]
      · simpa [Fields.get?, same] using ih

private theorem resolveAt_child (resolve : Resolver) (path : TokenPath) (entries : Fields Json)
    (key : String) :
    resolveAt resolve path (.container (Node.childrenOfJson entries)) [key] =
      match Fields.get? entries key with
      | some value => resolve (path ++ [key]) (.ofJson value)
      | none => pure none := by
  rw [resolveAt, Node.descend?, child?_ofJson_container]
  cases Fields.get? entries key <;> rfl

/-- Of a node that has no child above another color, the colors are its own color. -/
private theorem IconColors.parts_eq {colors more : List (String × List String)}
    (shape : IconColors colors more) (resolve : Resolver) (path : TokenPath) {node : Node}
    (missing : ∀ key ∈ heads more, node.child? key = none) :
    parts resolve path node colors = keyed "color" <$> resolveAt resolve path node ["color"] := by
  rw [shape.first, parts, parts_eq_nil resolve path shape.nonempty missing]
  simp only [map_pure, List.append_nil, bind_pure_comp]

private theorem iconColors_of_terminal (resolve : Resolver) (path : TokenPath)
    (colors : List (String × List String)) {node : Node} (terminal : node.isContainer = false) :
    iconColors resolve path colors (some node) = pure [] := by
  cases node with
  | container children => exact absurd terminal.symm Bool.false_ne_true
  | _ => rfl

/-- An icon that is the object of its own colors has a normal color and nothing else. -/
private theorem colored_of_iconColors {path : TokenPath} {colors more : List (String × List String)}
    (shape : IconColors colors more) {entries : Fields Json} (colored : entries ≠ [])
    (fixed : (iconColors tree path colors (some (.ofJson (.object entries)))).value = entries) :
    ∃ color, entries = [("color", color)] ∧ color.isNormal (path ++ ["color"]) = true := by
  cases container : (Node.ofJson (.object entries)).isContainer with
  | false =>
      rw [iconColors_of_terminal tree path colors container] at fixed
      exact absurd fixed.symm colored
  | true =>
      obtain ⟨same, equality, node⟩ := Node.exists_entries_of_isContainer container
      obtain rfl := Json.object.inj equality
      have value : (parts tree path (.container (Node.childrenOfJson entries)) colors).value =
          entries := by
        rw [node] at fixed
        exact fixed
      have named := keys_parts_subset tree path (.container (Node.childrenOfJson entries)) colors
      rw [value] at named
      have missing : ∀ key ∈ heads more,
          (Node.container (Node.childrenOfJson entries)).child? key = none := by
        intro key head
        rw [child?_ofJson_container,
          (Fields.get?_eq_none_iff_not_mem entries key).mpr fun known =>
            shape.apart key head (named key known)]
        rfl
      rw [shape.parts_eq tree path missing, resolveAt_child, Logged.map_value] at value
      cases found : Fields.get? entries "color" with
      | none =>
          rw [found] at value
          exact absurd value.symm colored
      | some color =>
          simp only [found] at value
          cases resolved : (tree (path ++ ["color"]) (.ofJson color)).value with
          | none =>
              rw [resolved] at value
              exact absurd value.symm colored
          | some result =>
              rw [resolved, keyed] at value
              subst value
              have same : result = color := by simpa [Fields.get?] using found
              exact ⟨color, by rw [same], isNormal_of_tree (same ▸ resolved)⟩

/-- A walk over children without an icon gives no icon: it is no name of the rename table. -/
private theorem icon_not_mem_gather (path : TokenPath) {apart : List String}
    (iconApart : "icon" ∈ apart) (entries : Fields Json) :
    "icon" ∉ Fields.keys (gather (treeChild path)
      (Node.childrenOfJson (Fields.without entries apart))).value := by
  rw [← without_childrenOfJson]
  exact not_mem_gather_without (fun _ _ _ => name_of_mem_treeChild) iconApart (by decide) _

/-- An icon bearer that stays as it is bears a color only. -/
theorem isBearer_of_fixed {path : TokenPath} {apart : List String} (iconApart : "icon" ∈ apart)
    {colors more : List (String × List String)} (shape : IconColors colors more)
    {entries : Fields Json}
    (fixed : (iconBearer tree path (.container (Node.childrenOfJson entries)) apart colors).value =
      some (.object entries)) : (Json.object entries).isBearer path apart = true := by
  rw [Json.isBearer_iff]
  rw [iconBearer, Node.without, without_childrenOfJson, tree_container, child?_ofJson_container]
    at fixed
  simp only [Logged.bind_value, Logged.pure_value, Logged.map_value, withIcon, Option.some.injEq,
    Json.object.injEq] at fixed
  split at fixed
  · exact .inl (plainEntries_of_gather fixed)
  · rename_i colored
    -- The icon is put behind all other entries, and so it stands there in what is given back.
    have fresh := icon_not_mem_gather path iconApart entries
    rw [Fields.put_of_not_mem fresh] at fixed
    generalize gathered : (gather (treeChild path)
      (Node.childrenOfJson (Fields.without entries apart))).value = rest at *
    generalize icon : (iconColors tree (path ++ ["icon"]) colors
      ((Fields.get? entries "icon").map Node.ofJson)).value = parts at *
    subst fixed
    rw [Fields.get?_concat fresh, Option.map_some] at icon
    rw [Fields.without_concat rest iconApart] at gathered
    rw [List.isEmpty_iff] at colored
    obtain ⟨color, rfl, normal⟩ := colored_of_iconColors shape colored icon
    exact .inr ⟨rest, color, rfl, plainEntries_of_gather gathered, normal⟩

private theorem tree_of_entriesNormal {path : TokenPath} {entries : Fields Json}
    (keyed : (Json.object entries).isKeyed = true)
    (normal : Json.entriesNormal path entries = true) :
    tree path (.container (Node.childrenOfJson entries)) = pure (some (.object entries)) := by
  have tokens : ∀ entry ∈ entries, isMetadata entry.1 = false :=
    fun entry member => ((Json.entriesNormal_iff path entries).mp normal entry member).1
  rw [← ofJson_of_tokens tokens]
  exact tree_of_isNormal keyed (by rwa [Json.isNormal])

private theorem iconColors_of_colored {path : TokenPath} {colors more : List (String × List String)}
    (shape : IconColors colors more) {color : Json} (keyed : color.isKeyed = true)
    (normal : color.isNormal (path ++ ["color"]) = true) :
    iconColors tree path colors (some (.ofJson (.object [("color", color)]))) =
      pure [("color", color)] := by
  have node : Node.ofJson (.object [("color", color)]) =
      .container (Node.childrenOfJson [("color", color)]) :=
    ofJson_of_tokens (List.forall_mem_singleton.mpr (by decide : isMetadata "color" = false))
  have missing : ∀ key ∈ heads more,
      (Node.container (Node.childrenOfJson [("color", color)])).child? key = none := by
    intro key head
    have other : "color" ≠ key := by
      rintro rfl
      exact shape.apart "color" head (by rw [shape.first]; exact List.mem_cons_self)
    simp [child?_ofJson_container, Fields.get?, other]
  have own : Fields.get? [("color", color)] "color" = some color := by
    simp [Fields.get?]
  simp only [node, iconColors, shape.parts_eq tree path missing, resolveAt_child, own,
    tree_of_isNormal keyed normal, map_pure, Resolve.keyed]

/-- An object that bears a color only stays as it is. -/
theorem iconBearer_of_isBearer {path : TokenPath} {apart : List String} (iconApart : "icon" ∈ apart)
    {colors more : List (String × List String)} (shape : IconColors colors more)
    {entries : Fields Json} (keyed : (Json.object entries).isKeyed = true)
    (bearer : (Json.object entries).isBearer path apart = true) :
    Node.ofJson (.object entries) = .container (Node.childrenOfJson entries) ∧
      iconBearer tree path (.container (Node.childrenOfJson entries)) apart colors =
        pure (some (.object entries)) ∧
      ∀ name ∈ apart, name ≠ "icon" → name ∉ Fields.keys entries := by
  rw [iconBearer, Node.without, without_childrenOfJson, child?_ofJson_container]
  rcases (Json.isBearer_iff path apart entries).mp bearer with
    plain | ⟨rest, color, rfl, plain, normal⟩
  · obtain ⟨normal, fresh⟩ := (Json.plainEntries_iff path apart entries).mp plain
    have tokens := (Json.entriesNormal_iff path entries).mp normal
    have absent : ∀ name ∈ apart, name ∉ Fields.keys entries := by
      intro name treated known
      obtain ⟨entry, member, rfl⟩ := List.mem_map.mp known
      exact fresh entry member treated
    refine ⟨ofJson_of_tokens fun entry member => (tokens entry member).1, ?_,
      fun name treated _ => absent name treated⟩
    rw [Fields.without_eq_self fresh, tree_of_entriesNormal keyed normal,
      (Fields.get?_eq_none_iff_not_mem entries "icon").mpr (absent "icon" iconApart)]
    rfl
  · obtain ⟨normalRest, fresh⟩ := (Json.plainEntries_iff path apart rest).mp plain
    have tokens := (Json.entriesNormal_iff path rest).mp normalRest
    obtain ⟨keyedRest, iconFresh, keyedIcon⟩ := (Json.isKeyed_concat rest "icon" _).mp keyed
    have keyedColor : color.isKeyed = true :=
      ((Json.isKeyed_object _).mp keyedIcon).2 _ (List.mem_singleton_self _)
    refine ⟨ofJson_of_tokens (List.forall_mem_append.mpr ⟨?_, ?_⟩), ?_, ?_⟩
    · exact fun entry member => (tokens entry member).1
    · exact List.forall_mem_singleton.mpr (by decide : isMetadata "icon" = false)
    · rw [Fields.without_concat rest iconApart, Fields.without_eq_self fresh,
        tree_of_entriesNormal keyedRest normalRest, Fields.get?_concat iconFresh, Option.map_some,
        iconColors_of_colored shape keyedColor normal]
      simp [withIcon, Fields.put_of_not_mem iconFresh]
    · intro name treated other known
      rw [Fields.keys_append, List.mem_append] at known
      rcases known with known | known
      · obtain ⟨entry, member, rfl⟩ := List.mem_map.mp known
        exact fresh entry member treated
      · exact other (List.mem_singleton.mp known)

/-! ## Lists and navigations -/

/-- A child that is resolved as it stands and contributes its own entry is normal. -/
private theorem isNormal_of_plainChild {path : TokenPath} {entry : String × Json}
    (fixed : (plainChild tree path entry.1 (.ofJson entry.2)).value = [entry]) :
    entry.2.isNormal (path ++ [entry.1]) = true :=
  isNormal_of_tree (eq_some_of_keyed fixed)

private theorem plainChild_of_isNormal {path : TokenPath} {entry : String × Json}
    (keyed : entry.2.isKeyed = true) (normal : entry.2.isNormal (path ++ [entry.1]) = true) :
    plainChild tree path entry.1 (.ofJson entry.2) = pure [entry] := by
  rw [plainChild, tree_of_isNormal keyed normal]
  rfl

theorem isListEntry_of_listChild {path : TokenPath} {entry : String × Json}
    (fixed : (listChild tree path entry.1 (.ofJson entry.2)).value = [entry]) :
    Json.isListEntry path entry = true := by
  obtain ⟨key, value⟩ := entry
  rw [Json.isListEntry]
  unfold listChild at fixed
  split at fixed
  · rename_i option
    simp only [Bool.and_eq_true, decide_eq_true_eq] at option
    obtain ⟨container, rfl⟩ := option
    rw [if_pos (by simp [isObject_of_isContainer container])]
    obtain ⟨entries, rfl, node⟩ := Node.exists_entries_of_isContainer container
    rw [node] at fixed
    simp only [Logged.bind_value, Logged.pure_value] at fixed
    apply isBearer_of_fixed (by simp) iconColors_optionColors
    cases bearer : (iconBearer tree (path ++ ["option"]) (.container (Node.childrenOfJson entries))
        ["group", "icon"] optionColors).value with
    | none =>
        rw [bearer] at fixed
        have named : "option" ∈ Fields.keys (keyed "optionGroup" (resolveAt tree
            (path ++ ["option"]) (.container (Node.childrenOfJson entries)) ["group"]).value) := by
          rw [show keyed "optionGroup" _ = [("option", Json.object entries)] from fixed]
          exact List.mem_singleton_self _
        exact absurd (eq_of_mem_keys_keyed named) (by decide)
    | some result =>
        rw [bearer, Resolve.keyed, List.cons_append, List.cons.injEq, Prod.mk.injEq] at fixed
        rw [fixed.1.2]
  · rename_i plain
    have normal := isNormal_of_plainChild fixed
    rw [isContainer_of_isNormal normal] at plain
    rwa [if_neg plain]

theorem listChild_of_isListEntry {path : TokenPath} {entry : String × Json}
    (keyed : entry.2.isKeyed = true) (settled : Json.isListEntry path entry = true) :
    listChild tree path entry.1 (.ofJson entry.2) = pure [entry] := by
  obtain ⟨key, value⟩ := entry
  rw [Json.isListEntry] at settled
  rw [listChild]
  split at settled
  · rename_i option
    simp only [Bool.and_eq_true, decide_eq_true_eq] at option
    obtain ⟨object, rfl⟩ := option
    cases value with
    | null => simp [Json.isObject] at object
    | scalar value => simp [Json.isObject] at object
    | list items => simp [Json.isObject] at object
    | object entries =>
        obtain ⟨node, bearer, absent⟩ :=
          iconBearer_of_isBearer (by simp) iconColors_optionColors keyed settled
        have group : Fields.get? entries "group" = none :=
          (Fields.get?_eq_none_iff_not_mem entries "group").mpr
            (absent "group" (by simp) (by decide))
        rw [node, if_pos (by simp [Node.isContainer]), bearer, resolveAt_child, group]
        rfl
  · rename_i plain
    rw [isContainer_of_isNormal settled, if_neg plain]
    exact plainChild_of_isNormal keyed settled

theorem isNavigationEntry_of_navigationChild {path : TokenPath} {entry : String × Json}
    (fixed : (navigationChild tree path entry.1 (.ofJson entry.2)).value = [entry]) :
    Json.isNavigationEntry path entry = true := by
  obtain ⟨key, value⟩ := entry
  rw [Json.isNavigationEntry]
  unfold navigationChild at fixed
  split at fixed
  · rename_i submenu
    simp only [Bool.and_eq_true, decide_eq_true_eq] at submenu
    obtain ⟨container, rfl⟩ := submenu
    have named := keys_parts_subset tree (path ++ ["submenu"]) (.ofJson value) submenuParts
    rw [fixed] at named
    exact absurd (named "submenu" (List.mem_singleton_self _)) (by decide)
  · rename_i noSubmenu
    split at fixed
    · rename_i item
      simp only [Bool.and_eq_true, decide_eq_true_eq] at item
      obtain ⟨container, rfl⟩ := item
      rw [if_neg (by simp), if_pos (by simp [isObject_of_isContainer container])]
      obtain ⟨entries, rfl, node⟩ := Node.exists_entries_of_isContainer container
      rw [node] at fixed
      exact isBearer_of_fixed (by simp) iconColors_itemColors (eq_some_of_keyed fixed)
    · rename_i plain
      have normal := isNormal_of_plainChild fixed
      rw [isContainer_of_isNormal normal] at noSubmenu plain
      rwa [if_neg noSubmenu, if_neg plain]

theorem navigationChild_of_isNavigationEntry {path : TokenPath} {entry : String × Json}
    (keyed : entry.2.isKeyed = true) (settled : Json.isNavigationEntry path entry = true) :
    navigationChild tree path entry.1 (.ofJson entry.2) = pure [entry] := by
  obtain ⟨key, value⟩ := entry
  rw [Json.isNavigationEntry] at settled
  rw [navigationChild]
  split at settled
  · exact absurd settled Bool.false_ne_true
  · rename_i noSubmenu
    have noSubmenu : ¬((Node.ofJson value).isContainer && decide (key = "submenu")) = true := by
      intro submenu
      simp only [Bool.and_eq_true, decide_eq_true_eq] at submenu
      exact noSubmenu (by simp [isObject_of_isContainer submenu.1, submenu.2])
    rw [if_neg noSubmenu]
    split at settled
    · rename_i item
      simp only [Bool.and_eq_true, decide_eq_true_eq] at item
      obtain ⟨object, rfl⟩ := item
      cases value with
      | null => simp [Json.isObject] at object
      | scalar value => simp [Json.isObject] at object
      | list items => simp [Json.isObject] at object
      | object entries =>
          obtain ⟨node, bearer, -⟩ :=
            iconBearer_of_isBearer (by simp) iconColors_itemColors keyed settled
          rw [node, if_pos (by simp [Node.isContainer]), bearer]
          rfl
    · rename_i plain
      rw [isContainer_of_isNormal settled, if_neg plain]
      exact plainChild_of_isNormal keyed settled

/-! ## Reshaped containers -/

/-- If a walk over the children of a container gives back the container, all its entries stay. -/
private theorem everyEntry_of_gather {contribution : String → Node → Logged (Fields Json)}
    {holds : String × Json → Bool}
    (clean : ∀ key child, isMetadata key = false →
      Fields.Clean (fun _ => True) (contribution key child).value)
    (bounded : ∀ key child, keys.fields (contribution key child).value ≤ 1 + keys.node child)
    (each : ∀ entry : String × Json, (contribution entry.1 (.ofJson entry.2)).value = [entry] →
      holds entry = true) {value : Json} (container : (Node.ofJson value).isContainer = true)
    (fixed : Json.object (gather contribution (Node.ofJson value).children).value = value) :
    value.everyEntry holds = true := by
  obtain ⟨entries, rfl, node⟩ := Node.exists_entries_of_isContainer container
  rw [node, Node.children, Json.object.injEq] at fixed
  rw [Json.everyEntry_object]
  intro entry member
  obtain ⟨token, own, -⟩ := gather_fixed clean bounded fixed entry member
  exact ⟨token, each entry own⟩

/-- If all entries of a container stay, a walk over its children gives back the container. -/
private theorem gather_of_everyEntry {contribution : String → Node → Logged (Fields Json)}
    {holds : String × Json → Bool}
    (each : ∀ entry : String × Json, entry.2.isKeyed = true → holds entry = true →
      contribution entry.1 (.ofJson entry.2) = pure [entry]) {value : Json}
    (keyed : value.isKeyed = true) (every : value.everyEntry holds = true) :
    (Node.ofJson value).isContainer = true ∧
      Json.object <$> gather contribution (Node.ofJson value).children = pure value := by
  cases value with
  | null => simp [Json.everyEntry] at every
  | scalar value => simp [Json.everyEntry] at every
  | list items => simp [Json.everyEntry] at every
  | object entries =>
      rw [Json.everyEntry_object] at every
      obtain ⟨distinct, keyed⟩ := (Json.isKeyed_object entries).mp keyed
      rw [ofJson_of_tokens fun entry member => (every entry member).1, Node.children,
        gather_eq_pure distinct fun entry member =>
          ⟨(every entry member).1, each entry (keyed entry member) (every entry member).2⟩]
      exact ⟨rfl, rfl⟩

private theorem list_contribution (path : TokenPath) (key : String) (child : Node) :
    Dispatch.list.contribution tree path key child =
      (fun value => [("list", value)]) <$>
        (Json.object <$> gather (listChild tree (path ++ [key])) child.children) := by
  simp [Dispatch.contribution, list]

private theorem navigation_contribution (path : TokenPath) (key : String) (child : Node) :
    Dispatch.navigation.contribution tree path key child =
      (fun value => [("navigation", value)]) <$>
        (Json.object <$> gather (navigationChild tree (path ++ [key])) child.children) := by
  simp [Dispatch.contribution, navigation]

/-- A reshaped container that contributes its own entry stays as it is. -/
private theorem isReshaped_of_nodeChild {path : TokenPath}
    (root : Dispatch.sectionRoots.contains path = true) {entry : String × Json}
    (reshaped : Dispatch.sectionKeys.contains entry.1 = true)
    (container : (Node.ofJson entry.2).isContainer = true)
    (fixed : (nodeChild path entry.1 (.ofJson entry.2)).value = [entry]) :
    entry.2.isReshaped (path ++ [entry.1]) entry.1 = true := by
  obtain ⟨key, value⟩ := entry
  obtain ⟨form, list, navigation⟩ := nodeChild_of_root root container
  have preserves : Preserves (fun _ => True) tree := tree_preserves fun _ _ => trivial
  simp only [Dispatch.sectionKeys, List.contains_iff_mem, List.mem_cons, List.not_mem_nil,
    or_false] at reshaped
  rcases reshaped with rfl | rfl | rfl
  · rw [form, form_contribution_value] at fixed
    simp at fixed
  · rw [list, list_contribution] at fixed
    simp only [Logged.map_value, List.cons.injEq, Prod.mk.injEq, true_and, and_true] at fixed
    rw [Json.isReshaped, if_pos rfl]
    exact everyEntry_of_gather
      (fun key child token =>
        listChild_clean (fun _ _ => trivial) preserves child.yields_true _ token)
      (keys.fields_listChild_le _) (fun entry own => isListEntry_of_listChild own) container fixed
  · rw [navigation, navigation_contribution] at fixed
    simp only [Logged.map_value, List.cons.injEq, Prod.mk.injEq, true_and, and_true] at fixed
    rw [Json.isReshaped, if_neg (by decide : ¬"navigation" = "list"), if_pos rfl]
    exact everyEntry_of_gather
      (fun key child token =>
        navigationChild_clean (fun _ _ => trivial) preserves child.yields_true _ token)
      (keys.fields_navigationChild_le _) (fun entry own => isNavigationEntry_of_navigationChild own)
      container fixed

private theorem nodeChild_of_isReshaped {path : TokenPath}
    (root : Dispatch.sectionRoots.contains path = true) {entry : String × Json}
    (keyed : entry.2.isKeyed = true)
    (settled : entry.2.isReshaped (path ++ [entry.1]) entry.1 = true) :
    nodeChild path entry.1 (.ofJson entry.2) = pure [entry] := by
  obtain ⟨key, value⟩ := entry
  rw [Json.isReshaped] at settled
  split at settled
  · rename_i list
    obtain rfl : key = "list" := list
    obtain ⟨container, gathered⟩ :=
      gather_of_everyEntry (fun entry => listChild_of_isListEntry) keyed settled
    rw [(nodeChild_of_root root container).2.1, list_contribution, gathered]
    rfl
  · split at settled
    · rename_i navigation
      obtain rfl : key = "navigation" := navigation
      obtain ⟨container, gathered⟩ :=
        gather_of_everyEntry (fun entry => navigationChild_of_isNavigationEntry) keyed settled
      rw [(nodeChild_of_root root container).2.2, navigation_contribution, gathered]
      rfl
    · exact absurd settled Bool.false_ne_true

/-! ## At every path -/

/-- A child that is not reshaped is expanded or resolved as it stands. -/
private theorem nodeChild_of_not_reshaped {path : TokenPath} {key : String} {child : Node}
    (other : ¬(Dispatch.sectionRoots.contains path && Dispatch.sectionKeys.contains key &&
      child.isContainer) = true) :
    nodeChild path key child =
      if child.isContainer && Rename.isParent key then expandedChild path key child
      else plainChild node path key child := by
  cases root : Dispatch.sectionRoots.contains path with
  | false => exact nodeChild_of_not_root root key child
  | true =>
      cases reshaped : Dispatch.sectionKeys.contains key with
      | false => exact nodeChild_of_other_key reshaped path child
      | true =>
          have terminal : child.isContainer = false := by
            rw [root, reshaped] at other
            simpa using other
          rw [nodeChild_of_terminal path key terminal, terminal]
          rfl

/-- An object that contributes its own entry is a container. -/
private theorem isContainer_of_nodeChild {path : TokenPath} {entry : String × Json}
    (object : entry.2.isObject = true)
    (fixed : (nodeChild path entry.1 (.ofJson entry.2)).value = [entry]) :
    (Node.ofJson entry.2).isContainer = true := by
  by_contra terminal
  rw [Bool.not_eq_true] at terminal
  rw [nodeChild_of_terminal path entry.1 terminal] at fixed
  have resolved := eq_some_of_keyed fixed
  rw [node_terminal _ terminal] at resolved
  have filled := isFilled_of_terminal (path ++ [entry.1]) terminal resolved
  cases value : entry.2 with
  | object entries => simp [value, Json.isFilled] at filled
  | _ => simp [value, Json.isObject] at object

private theorem entrySettled_of_nodeChild {path : TokenPath} {entry : String × Json}
    (settled : (node (path ++ [entry.1]) (.ofJson entry.2)).value = some entry.2 →
      entry.2.isSettled (path ++ [entry.1]) = true)
    (fixed : (nodeChild path entry.1 (.ofJson entry.2)).value = [entry]) :
    Json.entrySettled path entry = true := by
  have container : entry.2.isObject = true → (Node.ofJson entry.2).isContainer = true :=
    fun object => isContainer_of_nodeChild object fixed
  rw [Json.entrySettled]
  split
  · rename_i reshaped
    simp only [Bool.and_eq_true] at reshaped
    obtain ⟨⟨root, listed⟩, object⟩ := reshaped
    exact isReshaped_of_nodeChild root listed (container object) fixed
  · rename_i notReshaped
    rw [nodeChild_of_not_reshaped] at fixed
    · split at fixed
      · rename_i expanded
        obtain ⟨isContainer, parent⟩ := (Bool.and_eq_true _ _).mp expanded
        rw [if_pos (by simp [parent, isObject_of_isContainer isContainer])]
        exact isKept_of_expandedChild parent isContainer fixed
      · rename_i plain
        rw [if_neg]
        · exact settled (eq_some_of_keyed fixed)
        · intro expanded
          obtain ⟨parent, object⟩ := (Bool.and_eq_true _ _).mp expanded
          exact plain (by simp [parent, container object])
    · intro reshaped
      obtain ⟨listed, isContainer⟩ := (Bool.and_eq_true _ _).mp reshaped
      exact notReshaped (by rw [listed, isObject_of_isContainer isContainer]; rfl)

private theorem nodeChild_of_entrySettled {path : TokenPath} {entry : String × Json}
    (keyed : entry.2.isKeyed = true) (settled : Json.entrySettled path entry = true)
    (fixed : entry.2.isSettled (path ++ [entry.1]) = true →
      node (path ++ [entry.1]) (.ofJson entry.2) = pure (some entry.2)) :
    nodeChild path entry.1 (.ofJson entry.2) = pure [entry] := by
  rw [Json.entrySettled] at settled
  split at settled
  · rename_i reshaped
    simp only [Bool.and_eq_true] at reshaped
    exact nodeChild_of_isReshaped reshaped.1.1 keyed settled
  · rename_i notReshaped
    rw [nodeChild_of_not_reshaped]
    · split at settled
      · rename_i expanded
        obtain ⟨parent, -⟩ := (Bool.and_eq_true _ _).mp expanded
        obtain ⟨container, contributed⟩ := expandedChild_of_isKept keyed settled
        rw [if_pos (by simp [container, parent]), contributed]
      · rename_i plain
        rw [if_neg, plainChild, fixed settled]
        · rfl
        · intro expanded
          obtain ⟨container, parent⟩ := (Bool.and_eq_true _ _).mp expanded
          exact plain (by simp [parent, isObject_of_isContainer container])
    · intro reshaped
      obtain ⟨listed, container⟩ := (Bool.and_eq_true _ _).mp reshaped
      exact notReshaped (by rw [listed, isObject_of_isContainer container]; rfl)

/-- A value that resolution leaves as it is is settled. -/
theorem isSettled_of_node {path : TokenPath} {value : Json}
    (fixed : (node path (.ofJson value)).value = some value) : value.isSettled path = true := by
  induction value using Json.induction generalizing path with
  | null => simp [Node.ofJson, node, Node.resolveTerminal] at fixed
  | list items => simp [Node.ofJson, node, Node.resolveTerminal] at fixed
  | scalar value =>
      rw [node_terminal path rfl] at fixed
      have filled := isFilled_of_terminal path rfl fixed
      rwa [Json.isFilled] at filled
  | object entries ih =>
      cases container : (Node.ofJson (.object entries)).isContainer with
      | false =>
          rw [node_terminal path container] at fixed
          have filled := isFilled_of_terminal path container fixed
          simp [Json.isFilled] at filled
      | true =>
          obtain ⟨children, same, equality⟩ := Node.exists_entries_of_isContainer container
          obtain rfl := Json.object.inj same
          rw [equality, node_container] at fixed
          simp only [Logged.map_value, Option.some.injEq, Json.object.injEq] at fixed
          have each := gather_fixed (fun key child token =>
            nodeChild_clean (fun _ _ => trivial) child.yields_true path token)
            (fun key child => keys.fields_nodeChild_le path key
              fun path => keys.result_node_le path child) fixed
          rw [Json.isSettled, Json.entriesSettled_iff]
          intro entry member
          obtain ⟨token, own, -⟩ := each entry member
          exact ⟨token, entrySettled_of_nodeChild (ih entry member) own⟩

/-- Resolution leaves a settled value as it is, without a word. -/
theorem node_of_isSettled {path : TokenPath} {value : Json} (keyed : value.isKeyed = true)
    (settled : value.isSettled path = true) : node path (.ofJson value) = pure (some value) := by
  induction value using Json.induction generalizing path with
  | null => simp [Json.isSettled] at settled
  | list items => simp [Json.isSettled] at settled
  | scalar value =>
      have filled : (Json.scalar value).isFilled = true := by rwa [Json.isSettled] at settled
      rw [node_terminal path rfl]
      exact (resolveTerminal_of_isFilled path filled).2
  | object entries ih =>
      rw [Json.isSettled, Json.entriesSettled_iff] at settled
      obtain ⟨distinct, keyed⟩ := (Json.isKeyed_object entries).mp keyed
      rw [ofJson_of_tokens fun entry member => (settled entry member).1, node_container,
        gather_eq_pure distinct]
      · rfl
      · intro entry member
        obtain ⟨token, settled⟩ := settled entry member
        have keyed := keyed entry member
        exact ⟨token, nodeChild_of_entrySettled keyed settled (ih entry member keyed)⟩

/-! ## Resolving twice -/

private theorem yields_isKeyed {value : Json} (keyed : value.isKeyed = true) :
    (Node.ofJson value).Yields fun result => result.isKeyed = true := by
  induction value using Json.induction with
  | null => simp [Node.ofJson, Node.Yields, Node.Every, Node.resolveTerminal]
  | list items => simp [Node.ofJson, Node.Yields, Node.Every, Node.resolveTerminal]
  | scalar value =>
      intro path result resolved
      rcases Node.of_mem_resolveTerminal resolved with ⟨css, rfl⟩ | ⟨type, leaf⟩ | ⟨other, -, rfl⟩
      · rfl
      · cases leaf
      · rfl
  | object entries ih =>
      obtain ⟨-, keyed⟩ := (Json.isKeyed_object entries).mp keyed
      cases shaped : Node.shape entries with
      | malformed malformation =>
          simp [Node.ofJson, shaped, Node.Yields, Node.Every, Node.resolveTerminal]
      | container =>
          rw [Node.ofJson_container shaped, Node.childrenOfJson_eq_map, Node.Yields,
            Node.every_container_iff, List.forall_mem_map]
          exact fun entry member _ => ih entry member (keyed entry member)
      | leaf type value =>
          have found := Node.get?_valueKey_of_shape shaped
          have keyedValue := keyed _ (Fields.mem_of_get?_eq_some found)
          simp only [Node.ofJson, shaped, Node.Yields, Node.Every]
          intro path result resolved
          rcases Node.of_mem_resolveTerminal resolved with
            ⟨css, rfl⟩ | ⟨type, leaf⟩ | ⟨other, bare, -⟩
          · rfl
          · rwa [(Node.leaf.inj leaf).2] at keyedValue
          · cases bare

/-- The result of a keyed document is keyed. -/
theorem isKeyed_of_value {path : TokenPath} {document result : Json}
    (keyed : document.isKeyed = true) (resolved : (value path document).value = some result) :
    result.isKeyed = true := by
  by_cases null : document = .null
  · rw [null] at resolved
    simp [value] at resolved
  · rw [value_of_ne_null path null] at resolved
    have inherit : ∀ fields, Fields.Clean (fun result => result.isKeyed = true) fields →
        (Json.object fields).isKeyed = true :=
      fun fields clean => (Json.isKeyed_object fields).mpr ⟨clean.distinct, clean.values⟩
    exact (node_preserves inherit).values path _ (yields_isKeyed keyed) result resolved

/-- Resolving the result again at the same path leaves it as it is just if it is settled. -/
theorem value_value_eq_iff_isSettled (path : TokenPath) {document : Json}
    (keyed : document.isKeyed = true) :
    (value path (.ofOption (value path document).value)).value = (value path document).value ↔
      ∀ result ∈ (value path document).value, result.isSettled path = true := by
  cases resolved : (value path document).value with
  | none => simp [Json.ofOption, value]
  | some result =>
      rw [Json.ofOption]
      constructor
      · intro fixed other member
        obtain rfl := Option.some.inj member
        have present : result ≠ .null := by
          rintro rfl
          simp [value] at fixed
        rw [value_of_ne_null path present] at fixed
        exact isSettled_of_node fixed
      · intro settled
        have settled := settled result rfl
        have present : result ≠ .null := by
          rintro rfl
          simp [Json.isSettled] at settled
        rw [value_of_ne_null path present,
          node_of_isSettled (isKeyed_of_value keyed resolved) settled, Logged.pure_value]

/-- Below `hover`, a color gets a flat name at once.  Below `hover` and `float` it gets its flat
name when it is resolved again. -/
theorem hover_color_settles_and_float_color_does_not :
    (value ["primitive"] (.ofOption (value ["primitive"]
        (.object [("hover", .object [("color", .leaf "color" (.str "dark"))])])).value)).value =
        (value ["primitive"]
          (.object [("hover", .object [("color", .leaf "color" (.str "dark"))])])).value ∧
      (value ["primitive"] (.ofOption (value ["primitive"] (.object [("hover", .object
        [("float", .object [("color", .leaf "color" (.str "dark"))])])])).value)).value ≠
        (value ["primitive"] (.object [("hover", .object
          [("float", .object [("color", .leaf "color" (.str "dark"))])])])).value := by
  constructor
  · refine (value_value_eq_iff_isSettled ["primitive"] ?_).mpr ?_
    · decide
    · decide
  · refine mt (value_value_eq_iff_isSettled ["primitive"] ?_).mp ?_
    · decide
    · decide

end Resolve
end DesignTokens
