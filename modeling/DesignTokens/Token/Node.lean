import DesignTokens.Json.Describe

/-!
# Token trees

An object with a type and a value is a leaf, an object with neither is a container of named nodes,
and a scalar stands for itself.  Everything else is kept as a malformed node that knows what is
wrong with it, so that a walk over the tree can report it.
-/

namespace DesignTokens

/-- The key of a token's type. -/
def typeKey : String := "$type"

/-- The key of a token's value. -/
def valueKey : String := "$value"

/-- The key of a document's theme list. -/
def themesKey : String := "$themes"

/-- Whether a key carries metadata instead of a token. -/
def isMetadata (key : String) : Bool := ['$'].isPrefixOf key.toList

/-- The types that tokens commonly have. -/
inductive TokenType
  /-- A color. -/
  | color
  /-- A length. -/
  | dimension
  /-- A distance between elements. -/
  | spacing
  /-- A size of an element. -/
  | sizing
  /-- A corner radius. -/
  | borderRadius
  /-- A font size. -/
  | fontSizes
  /-- A font weight. -/
  | fontWeights
  /-- A text. -/
  | string
  /-- One or more box shadows. -/
  | boxShadow
  /-- A shadow. -/
  | shadow
  deriving DecidableEq, Repr

namespace TokenType

/-- All types. -/
def all : List TokenType :=
  [color, dimension, spacing, sizing, borderRadius, fontSizes, fontWeights, string, boxShadow,
   shadow]

/-- The name of a type in documents. -/
def text : TokenType → String
  | color => "color"
  | dimension => "dimension"
  | spacing => "spacing"
  | sizing => "sizing"
  | borderRadius => "borderRadius"
  | fontSizes => "fontSizes"
  | fontWeights => "fontWeights"
  | string => "string"
  | boxShadow => "boxShadow"
  | shadow => "shadow"

/-- The name of a type in capitals. -/
def constant : TokenType → String
  | color => "COLOR"
  | dimension => "DIMENSION"
  | spacing => "SPACING"
  | sizing => "SIZING"
  | borderRadius => "BORDER_RADIUS"
  | fontSizes => "FONT_SIZES"
  | fontWeights => "FONT_WEIGHTS"
  | string => "STRING"
  | boxShadow => "BOX_SHADOW"
  | shadow => "SHADOW"

end TokenType

/-- Why a value is no node of a token tree. -/
inductive Malformation
  /-- An object has a value but no type. -/
  | valueWithoutType
  /-- An object has a type but no value. -/
  | typeWithoutValue
  /-- A null. -/
  | null
  /-- A list. -/
  | list
  deriving DecidableEq, Repr

namespace Malformation

/-- The malformation in words. -/
def reason : Malformation → String
  | valueWithoutType => "token has " ++ valueKey ++ " but no " ++ typeKey
  | typeWithoutValue => "token has " ++ typeKey ++ " but no " ++ valueKey
  | null => "token is null"
  | list => "unexpected list in token tree"

end Malformation

/-- A node of a token tree. -/
inductive Node
  /-- A typed value. -/
  | leaf (type : String) (value : Json)
  /-- Named nodes in document order. -/
  | container (children : List (String × Node))
  /-- A value that stands for itself. -/
  | bare (value : Scalar)
  /-- A value that is no node. -/
  | malformed (raw : Json) (malformation : Malformation)
  deriving Inhabited

namespace Node

/-- How the presence of a type and of a value classifies an object: as a leaf, as malformed, or as a
container. -/
inductive Shape
  /-- Both are present. -/
  | leaf (type value : Json)
  /-- Exactly one is present. -/
  | malformed (malformation : Malformation)
  /-- Neither is present. -/
  | container

/-- The shape of an object. -/
def shape (entries : Fields Json) : Shape :=
  match Fields.get? entries typeKey, Fields.get? entries valueKey with
  | some type, some value => .leaf type value
  | none, some _ => .malformed .valueWithoutType
  | some _, none => .malformed .typeWithoutValue
  | none, none => .container

/-- Whether a value is an object with both a type and a value. -/
def isLeafObject : Json → Bool
  | .object entries => Fields.has entries typeKey && Fields.has entries valueKey
  | _ => false

mutual

/-- The node that a document value stands for. -/
def ofJson : Json → Node
  | .null => .malformed .null .null
  | .scalar value => .bare value
  | .list items => .malformed (.list items) .list
  | .object entries =>
      match shape entries with
      | .leaf type value => .leaf type.describe value
      | .malformed malformation => .malformed (.object entries) malformation
      | .container => .container (childrenOfJson entries)

/-- The named nodes that the entries of an object stand for. -/
def childrenOfJson : List (String × Json) → List (String × Node)
  | [] => []
  | (key, value) :: rest => (key, ofJson value) :: childrenOfJson rest

end

/-- The named nodes of a container. -/
def children : Node → Fields Node
  | container children => children
  | _ => []

/-- Whether a node is a container. -/
def isContainer : Node → Bool
  | container _ => true
  | _ => false

/-- Whether a node is a leaf whose value is one or more box shadows. -/
def isShadow : Node → Bool
  | leaf type _ => type = TokenType.boxShadow.text
  | _ => false

/-- The child of a container called `key`. -/
def child? : Node → String → Option Node
  | container children, key => Fields.get? children key
  | _, _ => none

/-- The container without the children of the given names. -/
def without (node : Node) (keys : List String) : Node :=
  match node with
  | container children => container (Fields.without children keys)
  | node => node

/-- The node reached through containers by a row of keys. -/
def descend? : Node → List String → Option Node
  | node, [] => some node
  | node, key :: keys => (node.child? key).bind fun child => descend? child keys

end Node
end DesignTokens
