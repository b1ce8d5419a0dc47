import DesignTokens.Log.Logged
import DesignTokens.Rename
import DesignTokens.Resolve.Expansion
import DesignTokens.Shadow

/-!
# Resolving token trees

Resolving a token tree replaces its leaves by their values and its containers by objects.  Metadata
is left out, and so is every node without a value; a malformed node is reported.  The container of a
rename parent is expanded: below it, a path with a rename rule gives its value a flat name, which
moves next to the parent if the rule has three keys or more or begins with the parent, and other
containers are searched for such paths.
-/

namespace DesignTokens

namespace Node

/-- The value of a node that is not a container. -/
def resolveTerminal (path : TokenPath) : Node → Logged (Option Json)
  | leaf type value =>
      pure (if type = TokenType.boxShadow.text then (Shadow.render? value).map .str
        else value.toOption)
  | bare value => pure (if value = .str "" then none else some (.scalar value))
  | malformed _ malformation => do
      Logged.report (.tokenUnresolvable path malformation)
      return none
  | container _ => pure none

end Node

namespace Resolve

/-- The value under its key, if there is one. -/
def keyed (key : String) : Option Json → Fields Json
  | none => []
  | some value => [(key, value)]

/-- A value that counts as a token of its own: neither absent nor an empty object. -/
def substantial : Option Json → Option Json
  | some (.object []) => none
  | value => value

/-- What a renamed token contributes to the expansion of `owner`, if `parent` leads to the container
that holds the token. -/
def renamed (owner : String) (parent : TokenPath) (rule : Rename) (value : Option Json) :
    Expansion :=
  match substantial value with
  | none => .empty
  | some value =>
      if 3 ≤ rule.depth || parent.getLast? = some owner then ⟨[(rule.name, value)], []⟩
      else ⟨[], [(rule.name, value)]⟩

mutual

/-- The value of a node at a path. -/
def tree (path : TokenPath) : Node → Logged (Option Json)
  | .container children => (fun entries => some (.object entries)) <$> treeEntries path children
  | .leaf type value => Node.resolveTerminal path (.leaf type value)
  | .bare value => Node.resolveTerminal path (.bare value)
  | .malformed raw malformation => Node.resolveTerminal path (.malformed raw malformation)

/-- The entries of a container at a path. -/
def treeEntries (path : TokenPath) : List (String × Node) → Logged (Fields Json)
  | [] => pure []
  | (key, child) :: rest =>
      if isMetadata key then treeEntries path rest
      else do
        let here ←
          match Rename.isParent key, child with
          | true, .container children =>
              (fun expansion => expansion.entries key) <$> expand key (path ++ [key]) children
          | _, child => keyed key <$> tree (path ++ [key]) child
        let others ← treeEntries path rest
        return Fields.merge here others

/-- The expansion of the container of `owner`, or of a container below it, at a path. -/
def expand (owner : String) (path : TokenPath) : List (String × Node) → Logged Expansion
  | [] => pure .empty
  | (key, child) :: rest =>
      if isMetadata key then expand owner path rest
      else do
        let here ←
          match Rename.find? (path ++ [key]), child with
          | some rule, child => renamed owner path rule <$> tree (path ++ [key]) child
          | none, .container children => expand owner (path ++ [key]) children
          | none, child => (fun value => ⟨[], keyed key value⟩) <$> tree (path ++ [key]) child
        let others ← expand owner path rest
        return here.merge others

end

end Resolve
end DesignTokens
