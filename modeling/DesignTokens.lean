import DesignTokens.Fields
import DesignTokens.Text.Blank
import DesignTokens.Text.Digit
import DesignTokens.Text.Quoted
import DesignTokens.Text.Position
import DesignTokens.Text.Newline
import DesignTokens.Text.Utf8
import DesignTokens.Decimal.Floating
import DesignTokens.Json.Reader
import DesignTokens.Json.Describe
import DesignTokens.Json.Compact
import DesignTokens.Literal
import DesignTokens.Resolve.Dispatch
import DesignTokens.Document
import DesignTokens.Validation
import DesignTokens.Log.Journal
import DesignTokens.Settings.Sources
import DesignTokens.Preset
import DesignTokens.Generation
import DesignTokens.Main
import DesignTokens.Proofs.Fields
import DesignTokens.Proofs.Token.Tree
import DesignTokens.Proofs.Resolve.Walk
import DesignTokens.Proofs.Rename
import DesignTokens.Proofs.Resolve.Results
import DesignTokens.Proofs.Resolve.Expansion
import DesignTokens.Proofs.Resolve.Names
import DesignTokens.Proofs.Resolve.Parts
import DesignTokens.Proofs.Resolve.Weight
import DesignTokens.Proofs.Resolve.Conservation
import DesignTokens.Proofs.Resolve.NormalForm
import DesignTokens.Proofs.Resolve.Overwriting
import DesignTokens.Proofs.Resolve.Settled
import DesignTokens.Proofs.Json.Reader
import DesignTokens.Proofs.Log.Journal
import DesignTokens.Proofs.Shadow
import DesignTokens.Proofs.Validation.FirstAnomaly
import DesignTokens.Proofs.Theme
import DesignTokens.Proofs.Resolve.Plain
import DesignTokens.Proofs.Json.Describe
import DesignTokens.Proofs.Resolve.Diagnostics
import DesignTokens.Proofs.Validation.Agreement
import DesignTokens.Proofs.Resolve.Translation
import DesignTokens.Proofs.Resolve.Metadata
import DesignTokens.Proofs.Resolve.LeafValues
import DesignTokens.Proofs.Decimal.Digits
import DesignTokens.Proofs.Script.Numeral
import DesignTokens.Proofs.Script.Reader
import DesignTokens.Proofs.Literal.Pruning
import DesignTokens.Proofs.Literal.Reading
import DesignTokens.Proofs.Literal.Decoding
import DesignTokens.Proofs.Literal.Denotation
import DesignTokens.Proofs.Resolve.Rules
import DesignTokens.Proofs.Resolve.Terminals
import DesignTokens.Proofs.Resolve.Reshaping
import DesignTokens.Proofs.Resolve.Reattachment
import DesignTokens.Proofs.Resolve.Siblings
import DesignTokens.Proofs.Resolve.Seeds
import DesignTokens.Proofs.Json.Unordered
import DesignTokens.Proofs.Resolve.Writings
import DesignTokens.Proofs.Theme.Sections
import DesignTokens.Proofs.Theme.Merging
import DesignTokens.Proofs.Token.Rearrangement
import DesignTokens.Proofs.Resolve.Rearrangement
import DesignTokens.Proofs.Resolve.Order
import DesignTokens.Proofs.Resolve.Malformations
import DesignTokens.Proofs.File.Tree
import DesignTokens.Proofs.File.Writing
import DesignTokens.Proofs.Document
import DesignTokens.Proofs.World
import DesignTokens.Proofs.Generation.Outcome
import DesignTokens.Proofs.Command.Run
import DesignTokens.Proofs.Generation.Session
import DesignTokens.Proofs.Generation.Faults
import DesignTokens.Proofs.Generation.Prediction
import DesignTokens.Proofs.Rename.Priority
import DesignTokens.Proofs.Rename.Dotted
import DesignTokens.Proofs.Text.Trim
import DesignTokens.Proofs.Settings.Checking
import DesignTokens.Proofs.Settings.TokenFormat
import DesignTokens.Proofs.Log.Scope
import DesignTokens.Proofs.Theme.Records
import DesignTokens.Proofs.Generation.Records
import DesignTokens.Proofs.Script.Lexeme
import DesignTokens.Proofs.Script.Prologue
import DesignTokens.Proofs.Preset
