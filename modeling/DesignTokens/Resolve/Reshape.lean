import DesignTokens.Resolve.Tree

/-!
# Reshaped containers

Three containers of a section are reshaped.  A form gives the properties of its field, a list
separates its option group from its options, and a navigation separates the label and the icon of
its submenus; the colors of an icon are attached again under names of their own.  Each of them
gathers the contributions of the children one by one, and leaves every child without a special
meaning to a resolver that is given to it.
-/

namespace DesignTokens

/-- A way to resolve the node at a path. -/
abbrev Resolver := TokenPath → Node → Logged (Option Json)

namespace Resolve

/-- Assign what each child contributes, in order; metadata contributes nothing. -/
def gather (contribution : String → Node → Logged (Fields Json)) :
    List (String × Node) → Logged (Fields Json)
  | [] => pure []
  | (key, child) :: rest =>
      if isMetadata key then gather contribution rest
      else do
        let here ← contribution key child
        let others ← gather contribution rest
        return Fields.merge here others

/-- The value of the node that a row of keys leads to, if there is one. -/
def resolveAt (resolve : Resolver) (path : TokenPath) (node : Node) (keys : List String) :
    Logged (Option Json) :=
  match node.descend? keys with
  | some found => resolve (path ++ keys) found
  | none => pure none

/-- The values of several nodes below a node, each under a name of its own. -/
def parts (resolve : Resolver) (path : TokenPath) (node : Node) :
    List (String × List String) → Logged (Fields Json)
  | [] => pure []
  | (name, keys) :: rest => do
      let value ← resolveAt resolve path node keys
      let others ← parts resolve path node rest
      return keyed name value ++ others

/-- What a child contributes under its own key. -/
def plainChild (resolve : Resolver) (path : TokenPath) (key : String) (child : Node) :
    Logged (Fields Json) :=
  keyed key <$> resolve (path ++ [key]) child

/-- What the container of a rename parent contributes. -/
def expandedChild (path : TokenPath) (key : String) (child : Node) : Logged (Fields Json) :=
  (fun expansion => expansion.entries key) <$> expand key (path ++ [key]) child.children

/-! ## Form fields -/

/-- The two directions of a padding. -/
def paddingParts : List (String × List String) := [("paddingX", ["x"]), ("paddingY", ["y"])]

/-- The font size of a size variant. -/
def fontParts : List (String × List String) := [("fontSize", ["font", "size"])]

/-- The directions of the padding at a path; a node that is no container has none. -/
def padding (resolve : Resolver) (path : TokenPath) : Option Node → Logged (Fields Json)
  | some (.container children) => parts resolve path (.container children) paddingParts
  | _ => pure []

/-- The keys of the size variants of a form field. -/
def sizeKeys : List String := ["sm", "lg"]

/-- What a child of a form field contributes. -/
def formFieldChild (resolve : Resolver) (path : TokenPath) (key : String) (child : Node) :
    Logged (Fields Json) :=
  if child.isContainer && key = "padding" then padding resolve (path ++ [key]) (some child)
  else if child.isContainer && sizeKeys.contains key then do
    let font ← parts resolve (path ++ [key]) child fontParts
    let directions ← padding resolve (path ++ [key, "padding"]) (child.child? "padding")
    return [(key, .object (font ++ directions))]
  else if child.isContainer && Rename.isParent key then expandedChild path key child
  else plainChild resolve path key child

/-- The properties of a form field. -/
def formField (resolve : Resolver) (path : TokenPath) (field : Node) : Logged (Fields Json) :=
  gather (formFieldChild resolve path) field.children

/-! ## Icons -/

/-- The colors of the icon of an option. -/
def optionColors : List (String × List String) :=
  [("color", ["color"]), ("focusColor", ["focus", "color"])]

/-- The colors of the icon of a navigation item. -/
def itemColors : List (String × List String) :=
  optionColors ++ [("activeColor", ["active", "color"])]

/-- The colors of the icon at a path; a node that is no container has none. -/
def iconColors (resolve : Resolver) (path : TokenPath) (colors : List (String × List String)) :
    Option Node → Logged (Fields Json)
  | some (.container children) => parts resolve path (.container children) colors
  | _ => pure []

/-- A resolved container with the colors of its icon, if there are any. -/
def withIcon (resolved : Option Json) (colors : Fields Json) : Option Json :=
  match resolved with
  | some (.object entries) =>
      some (.object
        (if colors.isEmpty then entries else Fields.put entries "icon" (.object colors)))
  | other => other

/-- The value of a container, without the children that are treated apart, and with the colors of
its icon. -/
def iconBearer (resolve : Resolver) (path : TokenPath) (child : Node) (apart : List String)
    (colors : List (String × List String)) : Logged (Option Json) := do
  let resolved ← resolve path (child.without apart)
  let icon ← iconColors resolve (path ++ ["icon"]) colors (child.child? "icon")
  return withIcon resolved icon

/-! ## Lists and navigations -/

/-- What a child of a list contributes. -/
def listChild (resolve : Resolver) (path : TokenPath) (key : String) (child : Node) :
    Logged (Fields Json) :=
  if child.isContainer && key = "option" then do
    let option ← iconBearer resolve (path ++ [key]) child ["group", "icon"] optionColors
    let group ← resolveAt resolve (path ++ [key]) child ["group"]
    return keyed key option ++ keyed "optionGroup" group
  else plainChild resolve path key child

/-- The properties of a list. -/
def list (resolve : Resolver) (path : TokenPath) (node : Node) : Logged (Fields Json) :=
  gather (listChild resolve path) node.children

/-- The label and the icon of a submenu. -/
def submenuParts : List (String × List String) :=
  [("submenuLabel", ["label"]), ("submenuIcon", ["icon"])]

/-- What a child of a navigation contributes. -/
def navigationChild (resolve : Resolver) (path : TokenPath) (key : String) (child : Node) :
    Logged (Fields Json) :=
  if child.isContainer && key = "submenu" then parts resolve (path ++ [key]) child submenuParts
  else if child.isContainer && key = "item" then
    keyed key <$> iconBearer resolve (path ++ [key]) child ["icon"] itemColors
  else plainChild resolve path key child

/-- The properties of a navigation. -/
def navigation (resolve : Resolver) (path : TokenPath) (node : Node) : Logged (Fields Json) :=
  gather (navigationChild resolve path) node.children

end Resolve
end DesignTokens
