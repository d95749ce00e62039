import ScriptFront.CommandLine
import ScriptFront.Cursor.Basic
import ScriptFront.Cursor.Scan
import ScriptFront.Document.Basic
import ScriptFront.Document.Data
import ScriptFront.Document.Describe
import ScriptFront.Document.Outline
import ScriptFront.Error
import ScriptFront.Extension.Basic
import ScriptFront.Extension.Matching
import ScriptFront.Extension.Recipe
import ScriptFront.Extension.Registry
import ScriptFront.Extension.Standard
import ScriptFront.Frontend
import ScriptFront.Lexer.Basic
import ScriptFront.Lexer.Rules
import ScriptFront.Main
import ScriptFront.Number.Basic
import ScriptFront.Number.Reading
import ScriptFront.Number.Shortest
import ScriptFront.Number.Style
import ScriptFront.Parse.Basic
import ScriptFront.Parse.Block
import ScriptFront.Parse.Context
import ScriptFront.Parse.Expression
import ScriptFront.Parse.Operand
import ScriptFront.Parse.Run
import ScriptFront.Parse.Statement
import ScriptFront.Parse.Yard
import ScriptFront.Pattern.Basic
import ScriptFront.Pattern.Compile
import ScriptFront.Position
import ScriptFront.Program
import ScriptFront.Proofs.Agreement
import ScriptFront.Proofs.Balance
import ScriptFront.Proofs.Bounds
import ScriptFront.Proofs.Breakdowns
import ScriptFront.Proofs.CarriageReturns
import ScriptFront.Proofs.Composition
import ScriptFront.Proofs.Computation
import ScriptFront.Proofs.Cursor.Motion
import ScriptFront.Proofs.Cursor.Quoting
import ScriptFront.Proofs.Cursor.Scans
import ScriptFront.Proofs.Depth
import ScriptFront.Proofs.Extension.Claims
import ScriptFront.Proofs.Extension.Dates
import ScriptFront.Proofs.Extension.Independence
import ScriptFront.Proofs.Extension.Matching
import ScriptFront.Proofs.Extension.Operands
import ScriptFront.Proofs.Extension.Phrases
import ScriptFront.Proofs.Extension.Standard
import ScriptFront.Proofs.Extension.Tiling
import ScriptFront.Proofs.Extension.Widening
import ScriptFront.Proofs.FailurePlaces
import ScriptFront.Proofs.Lexer.Batching
import ScriptFront.Proofs.Lexer.Bodies
import ScriptFront.Proofs.Lexer.Chunks
import ScriptFront.Proofs.Lexer.Constants
import ScriptFront.Proofs.Lexer.Cuts
import ScriptFront.Proofs.Lexer.Delivery
import ScriptFront.Proofs.Lexer.Embedding
import ScriptFront.Proofs.Lexer.Endings
import ScriptFront.Proofs.Lexer.Failures
import ScriptFront.Proofs.Lexer.Genuine
import ScriptFront.Proofs.Lexer.Levels
import ScriptFront.Proofs.Lexer.PlainText
import ScriptFront.Proofs.Lexer.RawTokens
import ScriptFront.Proofs.Lexer.Rounds
import ScriptFront.Proofs.Lexer.Seam
import ScriptFront.Proofs.Lexer.Sections
import ScriptFront.Proofs.Lexer.Similar
import ScriptFront.Proofs.Lexer.Spacing
import ScriptFront.Proofs.Lexer.Standing
import ScriptFront.Proofs.LineBreaks
import ScriptFront.Proofs.Nesting
import ScriptFront.Proofs.Number.Numerals
import ScriptFront.Proofs.Number.Whole
import ScriptFront.Proofs.Operands
import ScriptFront.Proofs.Ownership
import ScriptFront.Proofs.Parse.Accounts
import ScriptFront.Proofs.Parse.Alongside
import ScriptFront.Proofs.Parse.Alternation
import ScriptFront.Proofs.Parse.Brackets
import ScriptFront.Proofs.Parse.Chains
import ScriptFront.Proofs.Parse.Order
import ScriptFront.Proofs.Parse.Precedence
import ScriptFront.Proofs.Parse.Rounds
import ScriptFront.Proofs.Parse.Scripts
import ScriptFront.Proofs.Parse.Sentences
import ScriptFront.Proofs.Parse.Separators
import ScriptFront.Proofs.Parse.Shapes
import ScriptFront.Proofs.Parse.Spans
import ScriptFront.Proofs.Parse.Stacks
import ScriptFront.Proofs.Parse.Stages
import ScriptFront.Proofs.Parse.Steps
import ScriptFront.Proofs.Parse.Yields
import ScriptFront.Proofs.Pattern.Image
import ScriptFront.Proofs.Pattern.Marks
import ScriptFront.Proofs.Pattern.Words
import ScriptFront.Proofs.Progress
import ScriptFront.Proofs.Recursion
import ScriptFront.Proofs.Renamings
import ScriptFront.Proofs.Replay
import ScriptFront.Proofs.RoundTrip
import ScriptFront.Proofs.Streaming
import ScriptFront.Proofs.Symbols.Answers
import ScriptFront.Proofs.Symbols.Declarations
import ScriptFront.Proofs.Symbols.Enclosed
import ScriptFront.Proofs.Symbols.Unplaced
import ScriptFront.Proofs.Tandem.Blocks
import ScriptFront.Proofs.Tandem.Expressions
import ScriptFront.Proofs.Tandem.Judgment
import ScriptFront.Proofs.Tandem.Operands
import ScriptFront.Proofs.Tandem.Programs
import ScriptFront.Proofs.Tandem.Statements
import ScriptFront.Proofs.Tandem.Steps
import ScriptFront.Proofs.Tree.Alike
import ScriptFront.Proofs.Tree.Layout
import ScriptFront.Proofs.Tree.Leaves
import ScriptFront.Proofs.Tree.Places
import ScriptFront.Proofs.Tree.Shape
import ScriptFront.Proofs.Window.Holding
import ScriptFront.Proofs.Window.Lockstep
import ScriptFront.Proofs.Window.Moves
import ScriptFront.Proofs.Window.Numbers
import ScriptFront.Proofs.Window.Operations
import ScriptFront.Proofs.Window.Separators
import ScriptFront.Proofs.Window.Stream
import ScriptFront.Proofs.Window.Walk
import ScriptFront.Proofs.Wordings
import ScriptFront.Settings.Basic
import ScriptFront.Settings.Describe
import ScriptFront.Settings.Reading
import ScriptFront.Settings.Scan
import ScriptFront.Symbols.Table
import ScriptFront.Text.Address
import ScriptFront.Text.Blank
import ScriptFront.Text.Escape
import ScriptFront.Text.Letter
import ScriptFront.Text.Ranges
import ScriptFront.Text.Visible
import ScriptFront.Token.Basic
import ScriptFront.Token.Vocabulary
import ScriptFront.Tree.Basic
import ScriptFront.Tree.Format
import ScriptFront.Tree.Operator
import ScriptFront.Value
import ScriptFront.Window.Basic
import ScriptFront.Window.Source


