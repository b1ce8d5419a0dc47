import DesignTokens.Resolve.Reshape

/-!
# Dispatch

The children of a container are resolved by the first rule of a table that matches: the reshaping of
form, list and navigation, which applies only directly below the root of a section, then the
expansion of rename parents, and then plain resolution, which matches every child.
-/

namespace DesignTokens

/-- A rule for the child of a container. -/
inductive Dispatch
  /-- The form of a section. -/
  | form
  /-- The list of a section. -/
  | list
  /-- The navigation of a section. -/
  | navigation
  /-- The container of a rename parent. -/
  | transformable
  /-- Anything else. -/
  | generic
  deriving DecidableEq, Repr

namespace Dispatch

/-- The rules in order of priority. -/
def table : List Dispatch := [form, list, navigation, transformable, generic]

/-- The name of a rule. -/
def name : Dispatch → String
  | form => "form"
  | list => "list"
  | navigation => "navigation"
  | transformable => "transformable"
  | generic => "generic"

/-- The paths of the sections whose form, list and navigation are reshaped. -/
def sectionRoots : List TokenPath := [["semantic"], ["semantic", "dark"], ["semantic", "light"]]

/-- Whether a child is the container called `name` directly below the root of a section. -/
def isSectionChild (name : String) (path : TokenPath) (key : String) (child : Node) : Bool :=
  key = name && child.isContainer && sectionRoots.contains path

/-- Whether a rule matches the child `key` of the container at a path. -/
def applies (rule : Dispatch) (path : TokenPath) (key : String) (child : Node) : Bool :=
  match rule with
  | form => isSectionChild "form" path key child
  | list => isSectionChild "list" path key child
  | navigation => isSectionChild "navigation" path key child
  | transformable => Rename.isParent key && child.isContainer
  | generic => true

/-- The first rule that matches a child. -/
def first (path : TokenPath) (key : String) (child : Node) : Dispatch :=
  (table.find? fun rule => rule.applies path key child).getD generic

/-- The keys of the children of a form that are left out. -/
def ignoredKeys (form : Node) : List String :=
  (Fields.keys form.children).filter fun key => key != "field" && !isMetadata key

/-- What a child contributes by a rule. -/
def contribution (rule : Dispatch) (resolve : Resolver) (path : TokenPath) (key : String)
    (child : Node) : Logged (Fields Json) :=
  match rule with
  | form => do
      let ignored := ignoredKeys child
      if !ignored.isEmpty then Logged.report (.formSiblingsIgnored (path ++ [key]) ignored)
      let field := (child.child? "field").getD (.container [])
      let entries ← Resolve.formField resolve (path ++ [key, "field"]) field
      return [("formField", .object entries)]
  | list => do
      let entries ← Resolve.list resolve (path ++ [key]) child
      return [("list", .object entries)]
  | navigation => do
      let entries ← Resolve.navigation resolve (path ++ [key]) child
      return [("navigation", .object entries)]
  | transformable => Resolve.expandedChild path key child
  | generic => Resolve.plainChild resolve path key child

end Dispatch

namespace Resolve

mutual

/-- The value of a node at a path.  Below a section root no other section root lies, and none lies
in an expansion, so that all rules but plain resolution continue with the smaller table of
`tree`. -/
def node (path : TokenPath) : Node → Logged (Option Json)
  | .container children => (fun entries => some (.object entries)) <$> nodeEntries path children
  | .leaf type value => Node.resolveTerminal path (.leaf type value)
  | .bare value => Node.resolveTerminal path (.bare value)
  | .malformed raw malformation => Node.resolveTerminal path (.malformed raw malformation)

/-- The entries of a container at a path. -/
def nodeEntries (path : TokenPath) : List (String × Node) → Logged (Fields Json)
  | [] => pure []
  | (key, child) :: rest =>
      if isMetadata key then nodeEntries path rest
      else do
        let here ←
          match Dispatch.first path key child with
          | .generic => keyed key <$> node (path ++ [key]) child
          | rule => rule.contribution tree path key child
        let others ← nodeEntries path rest
        return Fields.merge here others

end

/-- The value of a document value at a path.  Null has none. -/
def value (path : TokenPath) : Json → Logged (Option Json)
  | .null => pure none
  | raw => node path (.ofJson raw)

end Resolve
end DesignTokens
