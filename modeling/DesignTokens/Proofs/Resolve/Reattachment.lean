import DesignTokens.Proofs.Resolve.Names
import DesignTokens.Proofs.Resolve.Parts

/-!
# What reshaping attaches

Reshaping picks values from below a container and attaches them under names of their own: the font
size and the directions of the padding of a size variant, and the colors of an icon.  Exactly those
parts are attached that exist and have a value, whatever shape the nodes on the way have.  The icon
comes last, after all that the rest of its container gives, and meets no entry of that name.
-/

namespace DesignTokens
namespace Resolve

/-! ## Size variants -/

/-- The value under the key of a size variant consists of the parts of the variant. -/
theorem get?_formField_sized (resolve : Resolver) (path : TokenPath) {children : Fields Node}
    (distinct : (Fields.keys children).Nodup) {key : String} (size : key ∈ sizeKeys)
    {variant : Node} (found : Fields.get? children key = some variant)
    (container : variant.isContainer = true) :
    Fields.get? (formField resolve path (.container children)).value key =
      some (.object (valuesAt resolve (path ++ [key]) variant sizedParts)) := by
  have token : ∀ key ∈ sizeKeys, isMetadata key = false := by decide
  have foreign : ∀ key ∈ sizeKeys, key ∉ Rename.names ++ Fields.keys paddingParts := by decide
  have notPadding : ∀ key ∈ sizeKeys, key ≠ "padding" := by decide
  have contribution : (formFieldChild resolve path key variant).value =
      [(key, .object (valuesAt resolve (path ++ [key]) variant sizedParts))] := by
    rw [formFieldChild, if_neg (by simp [notPadding key size]), if_pos (by simp [container, size]),
      ← value_sizedParts, List.append_assoc]
    rfl
  rw [formField, Node.children, get?_gather_own (fun _ _ _ => name_of_mem_formFieldChild) distinct
    found (token key size) (foreign key size), contribution]
  simp [Fields.get?]

/-! ## Icons -/

/-- The entry of an icon with some colors, if there are any. -/
def iconEntry (colors : Fields Json) : Fields Json :=
  if colors.isEmpty then [] else [("icon", .object colors)]

/-- The entries of an icon bearer: those of the container without the children that are treated
apart, and last the colors of its icon. -/
structure BearsIcon (path : TokenPath) (bearer : Node) (apart : List String)
    (colors : List (String × List String)) (own entries : Fields Json) : Prop where
  /-- The bearer without the children that are treated apart is resolved as it stands. -/
  resolved : (node path (bearer.without apart)).value = some (.object own)
  /-- The icon meets none of its entries. -/
  fresh : "icon" ∉ Fields.keys own
  /-- The icon has the colors that exist and have a value. -/
  entries_eq : entries = own ++ iconEntry (valuesAt node path bearer (through "icon" colors))
  /-- There is an icon exactly if it has such a color. -/
  icon_iff : "icon" ∈ Fields.keys entries ↔ ∃ row ∈ colors, ∃ found,
    bearer.descend? ("icon" :: row.2) = some found ∧
      (node (path ++ "icon" :: row.2) found).value.isSome

theorem get?_keyed (key : String) (result : Option Json) (name : String) :
    Fields.get? (keyed key result) name = if key = name then result else none := by
  cases result <;> simp [keyed, Fields.get?]

theorem icon_mem_iconEntry (colors : Fields Json) :
    "icon" ∈ Fields.keys (iconEntry colors) ↔ colors ≠ [] := by
  rw [iconEntry]
  cases colors <;> simp

theorem withIcon_of_not_mem {own : Fields Json} (fresh : "icon" ∉ Fields.keys own)
    (colors : Fields Json) :
    withIcon (some (.object own)) colors = some (.object (own ++ iconEntry colors)) := by
  rw [withIcon, iconEntry]
  split
  · rw [List.append_nil]
  · rw [Fields.put_of_not_mem fresh]

/-- A container without a child called icon is resolved to entries of other names, as the icon is no
name of the rename table. -/
theorem exists_bearsIcon (path : TokenPath) {bearer : Node} (container : bearer.isContainer = true)
    {apart : List String} (iconApart : "icon" ∈ apart) {colors : List (String × List String)}
    (proper : ∀ row ∈ colors, row.2 ≠ []) :
    ∃ own entries, BearsIcon path bearer apart colors own entries ∧
      (iconBearer node path bearer apart colors).value = some (.object entries) := by
  obtain ⟨children, rfl⟩ := Node.exists_children container
  have resolved : (node path ((Node.container children).without apart)).value =
      some (.object (gather (nodeChild path) (Fields.without children apart)).value) := by
    rw [Node.without, node_container]
    rfl
  have foreign : "icon" ∉ Rename.names := by decide
  have fresh : "icon" ∉
      Fields.keys (gather (nodeChild path) (Fields.without children apart)).value :=
    not_mem_gather_without (fun _ _ _ => name_of_mem_nodeChild) iconApart foreign children
  refine ⟨_, _, ⟨resolved, fresh, rfl, ?_⟩, ?_⟩
  · rw [Fields.keys_append, List.mem_append, or_iff_right fresh, icon_mem_iconEntry,
      valuesAt_ne_nil_iff]
    simp [through, valueAt, Option.isSome_bind, Option.any_eq_true]
  · rw [iconBearer, Logged.bind_value, Logged.bind_value, Logged.pure_value, resolved,
      value_iconColors_child? node path _ "icon" proper, withIcon_of_not_mem fresh]

private theorem get?_list_option (path : TokenPath) {children : Fields Node}
    (distinct : (Fields.keys children).Nodup) {option : Node}
    (found : Fields.get? children "option" = some option) (container : option.isContainer = true) :
    Fields.get? (list node path (.container children)).value "option" =
      (iconBearer node (path ++ ["option"]) option ["group", "icon"] optionColors).value := by
  have foreign : "option" ∉ Rename.names := by decide
  rw [list, Node.children, get?_gather_own (fun _ _ _ => name_of_mem_listChild) distinct found
    (by decide) foreign, listChild, if_pos (by simp [container])]
  simp [Fields.get?_append, get?_keyed]

private theorem get?_navigation_item (path : TokenPath) {children : Fields Node}
    (distinct : (Fields.keys children).Nodup) {item : Node}
    (found : Fields.get? children "item" = some item) (container : item.isContainer = true) :
    Fields.get? (navigation node path (.container children)).value "item" =
      (iconBearer node (path ++ ["item"]) item ["icon"] itemColors).value := by
  have foreign : "item" ∉ Rename.names := by decide
  rw [navigation, Node.children, get?_gather_own (fun _ _ _ => name_of_mem_navigationChild) distinct
    found (by decide) foreign, navigationChild, if_neg (by simp), if_pos (by simp [container])]
  simp [get?_keyed]

/-- Reshaping attaches exactly the parts that exist and have a value: those of a size variant are
all that it has, and those of an icon come last, where they meet no entry of that name. -/
theorem reshaped_attaches (path : TokenPath) {children : Fields Node}
    (distinct : (Fields.keys children).Nodup) {key : String} {child : Node}
    (found : Fields.get? children key = some child) (container : child.isContainer = true) :
    (key ∈ sizeKeys → Fields.get? (formField node path (.container children)).value key =
      some (.object (valuesAt node (path ++ [key]) child sizedParts))) ∧
    (key = "option" → ∃ own entries,
      BearsIcon (path ++ [key]) child ["group", "icon"] optionColors own entries ∧
        Fields.get? (list node path (.container children)).value key = some (.object entries)) ∧
    (key = "item" → ∃ own entries,
      BearsIcon (path ++ [key]) child ["icon"] itemColors own entries ∧
        Fields.get? (navigation node path (.container children)).value key =
          some (.object entries)) := by
  refine ⟨fun size => get?_formField_sized node path distinct size found container, ?_, ?_⟩
  · rintro rfl
    obtain ⟨own, entries, bears, value⟩ := exists_bearsIcon (path ++ ["option"]) container
      (by decide : "icon" ∈ ["group", "icon"]) separate_optionColors.nonempty
    exact ⟨own, entries, bears, (get?_list_option path distinct found container).trans value⟩
  · rintro rfl
    obtain ⟨own, entries, bears, value⟩ := exists_bearsIcon (path ++ ["item"]) container
      (by decide : "icon" ∈ ["icon"]) separate_itemColors.nonempty
    exact ⟨own, entries, bears, (get?_navigation_item path distinct found container).trans value⟩

/-- A size variant whose padding is no container. -/
def smallTokens : Node :=
  .container
    [("padding", .bare (.str "4px")),
     ("font", .container [("size", .leaf "dimension" (.str "12px"))])]

/-- An option with an icon that has no color. -/
def optionTokens : Node :=
  .container
    [("icon", .container [("color", .malformed .null .null), ("focus", .bare (.str "navy"))]),
     ("color", .leaf "color" (.str "red"))]

/-- An item with an icon of its own and another one in an expanded container. -/
def itemTokens : Node :=
  .container
    [("icon", .container [("active", .container [("color", .leaf "color" (.str "blue"))])]),
     ("hover", .container [("icon", .container [("color", .leaf "color" (.str "gray"))])])]

/-- The size variant keeps its font size, the option has no icon, and that of the item comes last. -/
theorem reshaped_attaches_tokens :
    Fields.get? (formField node ["semantic", "form", "field"]
        (.container [("sm", smallTokens)])).value "sm" =
      some (.object [("fontSize", .str "12px")]) ∧
    (∃ own, BearsIcon ["semantic", "list", "option"] optionTokens ["group", "icon"] optionColors own
      [("color", .str "red")]) ∧
    ∃ own, BearsIcon ["semantic", "navigation", "item"] itemTokens ["icon"] itemColors own
      [("hover", .object [("iconColor", .str "gray")]),
       ("icon", .object [("activeColor", .str "blue")])] := by
  have keys (name : String) (tokens : Node) : (Fields.keys [(name, tokens)]).Nodup :=
    Fields.nodup_keys_singleton (name, tokens)
  have size : "sm" ∈ sizeKeys := by decide
  refine ⟨(reshaped_attaches _ (keys "sm" smallTokens) rfl rfl).1 size, ?_, ?_⟩
  · obtain ⟨own, entries, bears, value⟩ :=
      (reshaped_attaches ["semantic", "list"] (keys "option" optionTokens) rfl rfl).2.1 rfl
    obtain rfl : _ = entries := Json.object.inj (Option.some.inj value)
    exact ⟨own, bears⟩
  · obtain ⟨own, entries, bears, value⟩ :=
      (reshaped_attaches ["semantic", "navigation"] (keys "item" itemTokens) rfl rfl).2.2 rfl
    obtain rfl : _ = entries := Json.object.inj (Option.some.inj value)
    exact ⟨own, bears⟩

end Resolve
end DesignTokens
