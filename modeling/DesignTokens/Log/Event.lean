import DesignTokens.Token.Node
import DesignTokens.Token.Path

/-!
# Events

What the pipeline reports while it works.  An event has a level, a name, and data of its own.
-/

namespace DesignTokens

/-- How important an event is. -/
inductive Level
  /-- Details. -/
  | debug
  /-- Progress. -/
  | info
  /-- Something was left out. -/
  | warning
  /-- Something failed. -/
  | error
  /-- Nothing can go on. -/
  | critical
  deriving DecidableEq, Repr

namespace Level

/-- All levels, from the least important to the most important. -/
def all : List Level := [debug, info, warning, error, critical]

/-- The rank of a level. -/
def rank : Level → Nat
  | debug => 10
  | info => 20
  | warning => 30
  | error => 40
  | critical => 50

/-- The name of a level in records. -/
def name : Level → String
  | debug => "debug"
  | info => "info"
  | warning => "warning"
  | error => "error"
  | critical => "critical"

/-- The name of a level in settings. -/
def constant : Level → String
  | debug => "DEBUG"
  | info => "INFO"
  | warning => "WARNING"
  | error => "ERROR"
  | critical => "CRITICAL"

/-- The level that settings call by a name. -/
def ofConstant? (name : String) : Option Level := all.find? fun level => level.constant = name

end Level

/-- Something to report. -/
inductive Event
  /-- A node of the token tree is malformed and was left out. -/
  | tokenUnresolvable (path : TokenPath) (malformation : Malformation)
  /-- Only the field of a form is used; the children with these keys were left out. -/
  | formSiblingsIgnored (path : TokenPath) (keys : List String)
  /-- The document lacks a section. -/
  | sectionMissing (key : String)
  /-- A section of the document is no container. -/
  | sectionNotAContainer (key : String)
  /-- A section gave a tree with so many entries. -/
  | sectionProcessed (keys : Nat)
  /-- The theme is complete. -/
  | themeCreated (tokenFormat : String) (primitiveKeys semanticKeys : Nat)
  /-- The document has a structural defect at a path. -/
  | structureInvalid (path : TokenPath) (reason : String)
  /-- The module was written to a file. -/
  | themeGenerated (output : String) (bytes : Nat)
  /-- Anything else. -/
  | note (level : Level) (name : String) (data : Fields Json)

namespace Event

/-- The level of an event. -/
def level : Event → Level
  | tokenUnresolvable .. => .warning
  | formSiblingsIgnored .. => .debug
  | sectionMissing .. => .debug
  | sectionNotAContainer .. => .warning
  | sectionProcessed .. => .debug
  | themeCreated .. => .info
  | structureInvalid .. => .warning
  | themeGenerated .. => .info
  | note level _ _ => level

/-- The name of an event. -/
def name : Event → String
  | tokenUnresolvable .. => "token_unresolvable"
  | formSiblingsIgnored .. => "form_siblings_ignored"
  | sectionMissing .. => "section_missing"
  | sectionNotAContainer .. => "section_not_a_container"
  | sectionProcessed .. => "section_processed"
  | themeCreated .. => "theme_structure_created"
  | structureInvalid .. => "token_structure_invalid"
  | themeGenerated .. => "theme_generated"
  | note _ name _ => name

/-- The logger that reports an event. -/
def logger : Event → String
  | tokenUnresolvable .. => "tokenpress.services.processors"
  | formSiblingsIgnored .. => "tokenpress.services.processors"
  | sectionMissing .. => "tokenpress.services.theme"
  | sectionNotAContainer .. => "tokenpress.services.theme"
  | sectionProcessed .. => "tokenpress.services.theme"
  | themeCreated .. => "tokenpress.services.theme"
  | structureInvalid .. => "tokenpress.services.validation"
  | themeGenerated .. => "tokenpress.services.generation"
  | note .. => "tokenpress"

/-- The data of an event. -/
def data : Event → Fields Json
  | tokenUnresolvable path malformation =>
      [("path", .str (TokenPath.location path)), ("reason", .str malformation.reason)]
  | formSiblingsIgnored path keys =>
      [("path", .str (TokenPath.location path)), ("keys", .list (keys.map .str))]
  | sectionMissing key => [("section", .str key)]
  | sectionNotAContainer key => [("section", .str key)]
  | sectionProcessed keys => [("keys", .nat keys)]
  | themeCreated tokenFormat primitiveKeys semanticKeys =>
      [("token_format", .str tokenFormat), ("primitive_keys", .nat primitiveKeys),
       ("semantic_keys", .nat semanticKeys)]
  | structureInvalid path reason =>
      [("path", .str (TokenPath.location path)), ("reason", .str reason)]
  | themeGenerated output bytes => [("output_file", .str output), ("bytes_written", .nat bytes)]
  | note _ _ data => data

end Event
end DesignTokens
