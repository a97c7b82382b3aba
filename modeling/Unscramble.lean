import Unscramble.Arena.Basic
import Unscramble.Arena.Edit
import Unscramble.Arena.IdTree
import Unscramble.Arena.ParentIndex
import Unscramble.Arena.Plan
import Unscramble.Arena.Rule
import Unscramble.Arena.Selection
import Unscramble.Artifact
import Unscramble.CommandLine
import Unscramble.Document.Codec
import Unscramble.Document.Entity
import Unscramble.Document.Event
import Unscramble.Document.Marks
import Unscramble.Document.Markup
import Unscramble.Document.Reader
import Unscramble.Document.Writer
import Unscramble.Error
import Unscramble.Files.Access
import Unscramble.Files.Basic
import Unscramble.Interpreter
import Unscramble.Job
import Unscramble.JsonValue
import Unscramble.Main
import Unscramble.Optimizer
import Unscramble.Path
import Unscramble.Proofs.Arena.Accepted
import Unscramble.Proofs.Arena.Applying
import Unscramble.Proofs.Arena.Batch
import Unscramble.Proofs.Arena.Deciding
import Unscramble.Proofs.Arena.Drawing
import Unscramble.Proofs.Arena.Extending
import Unscramble.Proofs.Arena.Generation
import Unscramble.Proofs.Arena.Grafting
import Unscramble.Proofs.Arena.Growth
import Unscramble.Proofs.Arena.Index
import Unscramble.Proofs.Arena.Inlining
import Unscramble.Proofs.Arena.Outermost
import Unscramble.Proofs.Arena.Parts
import Unscramble.Proofs.Arena.Plans
import Unscramble.Proofs.Arena.Promoting
import Unscramble.Proofs.Arena.Propagating
import Unscramble.Proofs.Arena.Replacing
import Unscramble.Proofs.Arena.Respelling
import Unscramble.Proofs.Arena.Retaining
import Unscramble.Proofs.Arena.Reversing
import Unscramble.Proofs.Arena.Seats
import Unscramble.Proofs.Arena.Shape
import Unscramble.Proofs.Arena.Storing
import Unscramble.Proofs.Arena.Substitution
import Unscramble.Proofs.Arena.Traversal
import Unscramble.Proofs.Behaviour
import Unscramble.Proofs.ChangeFlag
import Unscramble.Proofs.Convergence
import Unscramble.Proofs.Document.Encoding
import Unscramble.Proofs.Document.Legible
import Unscramble.Proofs.Document.Markup
import Unscramble.Proofs.Document.Names
import Unscramble.Proofs.Document.Nesting
import Unscramble.Proofs.Document.RoundTrip
import Unscramble.Proofs.Document.Scan
import Unscramble.Proofs.Document.Tags
import Unscramble.Proofs.Document.Written
import Unscramble.Proofs.Driver
import Unscramble.Proofs.Execution
import Unscramble.Proofs.Files.Access
import Unscramble.Proofs.Files.Extensions
import Unscramble.Proofs.Files.Places
import Unscramble.Proofs.FixedPoint
import Unscramble.Proofs.Flow.DeadBranches
import Unscramble.Proofs.Flow.Decided
import Unscramble.Proofs.Flow.Exits
import Unscramble.Proofs.Flow.Meaning
import Unscramble.Proofs.Flow.Structure
import Unscramble.Proofs.Inlining.Burden
import Unscramble.Proofs.Inlining.Losses
import Unscramble.Proofs.Inlining.Submissions
import Unscramble.Proofs.Inlining.Termination
import Unscramble.Proofs.Jobs.Failure
import Unscramble.Proofs.Jobs.Independence
import Unscramble.Proofs.Jobs.Outputs
import Unscramble.Proofs.Literals.Characters
import Unscramble.Proofs.Literals.Comparison
import Unscramble.Proofs.Literals.Evaluation
import Unscramble.Proofs.Literals.Folding
import Unscramble.Proofs.Literals.Formatting
import Unscramble.Proofs.Literals.Lists
import Unscramble.Proofs.Literals.Operations
import Unscramble.Proofs.Literals.ReadBack
import Unscramble.Proofs.Literals.Replacing
import Unscramble.Proofs.NormalForm
import Unscramble.Proofs.Propagation.Filling
import Unscramble.Proofs.Propagation.ReadsOnly
import Unscramble.Proofs.Propagation.Spellings
import Unscramble.Proofs.Renaming.Injective
import Unscramble.Proofs.Renaming.Names
import Unscramble.Proofs.Renaming.Printed
import Unscramble.Proofs.Renaming.Settles
import Unscramble.Proofs.Rewriting.Basic
import Unscramble.Proofs.Rewriting.Branches
import Unscramble.Proofs.Rewriting.Catalog
import Unscramble.Proofs.Rewriting.Complete
import Unscramble.Proofs.Rewriting.Decrease
import Unscramble.Proofs.Rewriting.Elements
import Unscramble.Proofs.Rewriting.Formats
import Unscramble.Proofs.Rewriting.Grouping
import Unscramble.Proofs.Rewriting.LocalStep
import Unscramble.Proofs.Rewriting.Nodes
import Unscramble.Proofs.Rewriting.Outermost
import Unscramble.Proofs.Rewriting.Respelled
import Unscramble.Proofs.Rewriting.Rules
import Unscramble.Proofs.Rewriting.Spells
import Unscramble.Proofs.Rewriting.Statements
import Unscramble.Proofs.Rewriting.Walk
import Unscramble.Proofs.Rewriting.Weight
import Unscramble.Proofs.Script.Forms
import Unscramble.Proofs.Script.HereStrings
import Unscramble.Proofs.Script.Indentation
import Unscramble.Proofs.Script.Literals
import Unscramble.Proofs.Script.References
import Unscramble.Proofs.Scripts.Bindings
import Unscramble.Proofs.Scripts.Expressions
import Unscramble.Proofs.Scripts.Frames
import Unscramble.Proofs.Scripts.Meaning
import Unscramble.Proofs.Scripts.Parts
import Unscramble.Proofs.Scripts.Propagation
import Unscramble.Proofs.Scripts.Removal
import Unscramble.Proofs.Scripts.Structure
import Unscramble.Proofs.Scripts.Unread
import Unscramble.Proofs.Spelling.Arguments
import Unscramble.Proofs.Spelling.Converts
import Unscramble.Proofs.Spelling.Drives
import Unscramble.Proofs.Spelling.LongNames
import Unscramble.Proofs.Spelling.NewNames
import Unscramble.Proofs.Spelling.Rank
import Unscramble.Proofs.Spelling.Recasing
import Unscramble.Proofs.Spelling.SameNames
import Unscramble.Proofs.Spelling.Settled
import Unscramble.Proofs.Spelling.Words
import Unscramble.Proofs.Termination
import Unscramble.Proofs.Text.Ascii
import Unscramble.Proofs.Text.Lower
import Unscramble.Proofs.Text.Numerals
import Unscramble.Proofs.Text.Quoting
import Unscramble.Proofs.Text.Split
import Unscramble.Proofs.Traces.Basic
import Unscramble.Proofs.Traces.Known
import Unscramble.Proofs.Traces.LastWrite
import Unscramble.Proofs.Traces.Runs
import Unscramble.Proofs.Traces.Walk
import Unscramble.Proofs.WellFormed
import Unscramble.Report
import Unscramble.Scope
import Unscramble.Script.Piece
import Unscramble.Script.Printed
import Unscramble.Session
import Unscramble.Settings
import Unscramble.SettingsFile
import Unscramble.Simplify.DeadBranch
import Unscramble.Simplify.DeadVariable
import Unscramble.Simplify.EmptyList
import Unscramble.Simplify.Grouping
import Unscramble.Simplify.Inline
import Unscramble.Simplify.Literals
import Unscramble.Simplify.Memory
import Unscramble.Simplify.Propagation
import Unscramble.Simplify.Renaming
import Unscramble.Simplify.ReversedArray
import Unscramble.Simplify.Rule
import Unscramble.Simplify.Spelling
import Unscramble.Syntax.Attributes
import Unscramble.Syntax.Kind
import Unscramble.Syntax.Operator
import Unscramble.Syntax.Place
import Unscramble.Syntax.Quoting
import Unscramble.Syntax.Shape
import Unscramble.Syntax.Tree
import Unscramble.Syntax.Variables
import Unscramble.Text.Blank
import Unscramble.Text.Case
import Unscramble.Text.CaseTable
import Unscramble.Text.CodeRange
import Unscramble.Text.Letter
import Unscramble.Text.LetterTable
import Unscramble.Text.Number
import Unscramble.Text.Percentage
import Unscramble.Text.Split
import Unscramble.Toml.Reader
import Unscramble.Toml.Scalar
import Unscramble.Toml.Value
import Unscramble.Value.Basic
import Unscramble.Value.Cast
import Unscramble.Value.Compare
import Unscramble.Value.Fold
import Unscramble.Value.Format
import Unscramble.Value.Literal
import Unscramble.Value.Method
import Unscramble.Vocabulary
