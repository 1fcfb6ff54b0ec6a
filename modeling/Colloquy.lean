import Colloquy.Bus.Basic
import Colloquy.Bus.Delivery
import Colloquy.Cast.Action
import Colloquy.Cast.Basic
import Colloquy.Cast.Performance
import Colloquy.Dialogue.Basic
import Colloquy.Dialogue.Choices
import Colloquy.Dialogue.Flow
import Colloquy.Dialogue.Running
import Colloquy.Dialogue.Snapshot
import Colloquy.Dialogue.Wording
import Colloquy.Digest.Sha256
import Colloquy.Expression.Arithmetic
import Colloquy.Expression.Basic
import Colloquy.Expression.Postfix
import Colloquy.Expression.Token
import Colloquy.Graph.Basic
import Colloquy.Graph.ChoiceTree
import Colloquy.Graph.Form
import Colloquy.Json.Basic
import Colloquy.Json.Reader
import Colloquy.Json.Writer
import Colloquy.Number.Binary64
import Colloquy.Number.Decimal
import Colloquy.Number.Numeral
import Colloquy.Scene.Basic
import Colloquy.Script.Compile
import Colloquy.Script.Diagnostic
import Colloquy.Script.Draft
import Colloquy.Script.File
import Colloquy.Script.Line
import Colloquy.Script.Linking
import Colloquy.Script.Reading
import Colloquy.Script.Settings
import Colloquy.Script.Statement
import Colloquy.Script.TextId
import Colloquy.Script.Wiring
import Colloquy.Table
import Colloquy.Template
import Colloquy.Text.Characters
import Colloquy.Text.Fold
import Colloquy.Text.Line
import Colloquy.Text.Quoted
import Colloquy.Value.Basic
import Colloquy.Value.Datum
import Colloquy.Value.Saved
import Colloquy.Proofs.Expression.Reading
import Colloquy.Proofs.Expression.Tree
import Colloquy.Proofs.Expression.Grammar
import Colloquy.Proofs.Expression.Spelling
import Colloquy.Proofs.Script.Drafts
import Colloquy.Proofs.Script.Growing
import Colloquy.Proofs.Text.Fold
import Colloquy.Proofs.Script.Sheet
import Colloquy.Proofs.Script.Soundness
import Colloquy.Proofs.Script.Health
import Colloquy.Proofs.Script.Links
import Colloquy.Proofs.Script.Arena
import Colloquy.Proofs.Script.Compiled
import Colloquy.Proofs.Script.WellFormed
import Colloquy.Proofs.Graph.Search
import Colloquy.Proofs.Script.Numerals
import Colloquy.Proofs.Graph.Alike
import Colloquy.Proofs.Script.Totality
import Colloquy.Proofs.Script.Blocks
import Colloquy.Proofs.Graph.Form
import Colloquy.Proofs.Script.Saving
import Colloquy.Proofs.Script.Direct
import Colloquy.Proofs.Script.Outlook
import Colloquy.Proofs.Script.LooseEnds
import Colloquy.Proofs.Script.Wires
import Colloquy.Proofs.Script.Tracking
import Colloquy.Proofs.Script.Laid
import Colloquy.Proofs.Script.Course
import Colloquy.Proofs.Dialogue.Quiet
import Colloquy.Proofs.Dialogue.Simulation
import Colloquy.Proofs.Dialogue.Faithful
import Colloquy.Proofs.Number.Rounding
import Colloquy.Proofs.Expression.Completeness
import Colloquy.Proofs.Graph.Sturdy
import Colloquy.Proofs.Graph.Order
import Colloquy.Proofs.Graph.Admitting
import Colloquy.Proofs.Graph.Loading
import Colloquy.Proofs.Dialogue.Outcome
import Colloquy.Proofs.Dialogue.Steps
import Colloquy.Proofs.Dialogue.Offering
import Colloquy.Proofs.Dialogue.Calls
import Colloquy.Proofs.Dialogue.Failures
import Colloquy.Proofs.Dialogue.Conversation
import Colloquy.Proofs.Script.Contents
import Colloquy.Proofs.Script.Passage
import Colloquy.Proofs.Script.Acts
import Colloquy.Proofs.Script.Seated
import Colloquy.Proofs.Script.Falling
import Colloquy.Proofs.Script.Body
import Colloquy.Proofs.Script.Closing
import Colloquy.Proofs.Expression.Acceptance
import Colloquy.Proofs.Script.Gotos
import Colloquy.Proofs.Script.Naming
import Colloquy.Proofs.Dialogue.Comparing
import Colloquy.Proofs.Dialogue.Lasting
import Colloquy.Proofs.Dialogue.Restoring
import Colloquy.Proofs.Dialogue.Coherence
import Colloquy.Proofs.Dialogue.Stopping
import Colloquy.Proofs.Dialogue.Enacting
import Colloquy.Proofs.Dialogue.Protocol
import Colloquy.Proofs.Dialogue.Selecting
import Colloquy.Proofs.Graph.Unseen
import Colloquy.Proofs.Graph.Renumbered
import Colloquy.Proofs.Script.Shift
import Colloquy.Proofs.Script.Abreast
import Colloquy.Proofs.Script.Parallel
import Colloquy.Proofs.Script.Reindent
import Colloquy.Proofs.Script.Interspersed
import Colloquy.Proofs.Script.Notes
import Colloquy.Proofs.Script.Shutting
import Colloquy.Proofs.Script.Delaying
import Colloquy.Proofs.Script.Malformed
import Colloquy.Proofs.Script.Skipping
import Colloquy.Proofs.Bus.Using
import Colloquy.Proofs.Bus.Turns
import Colloquy.Proofs.Dialogue.Habit
import Colloquy.Proofs.Cast.Fair
import Colloquy.Proofs.Dialogue.Attended
import Colloquy.Proofs.Bus.Deliveries
import Colloquy.Proofs.Bus.OneShot
import Colloquy.Proofs.Expression.Locality
import Colloquy.Proofs.Dialogue.Announced
import Colloquy.Proofs.Number.Digits
import Colloquy.Proofs.Number.Decimal
import Colloquy.Proofs.Json.Numbers
import Colloquy.Proofs.Json.Texts
import Colloquy.Proofs.Json.RoundTrip
import Colloquy.Proofs.Dialogue.Snapshots
import Colloquy.Proofs.Script.Mixed
import Colloquy.Proofs.Dialogue.Inquiring
import Colloquy.Proofs.Dialogue.Walking
import Colloquy.Proofs.Dialogue.Loyal
import Colloquy.Proofs.Dialogue.Reentrant
import Colloquy.Proofs.Dialogue.Refusing
import Colloquy.Proofs.Dialogue.Resetting
import Colloquy.Proofs.Dialogue.Upholding
import Colloquy.Proofs.Dialogue.Remembering
import Colloquy.Proofs.Script.Outline
import Colloquy.Proofs.Script.Ledger
import Colloquy.Proofs.Script.Outlining
import Colloquy.Proofs.Script.Accounting
import Colloquy.Proofs.Graph.Roots
import Colloquy.Proofs.Script.Arguments
import Colloquy.Proofs.Script.Sources
import Colloquy.Proofs.Script.Commands
import Colloquy.Proofs.Text.Case
import Colloquy.Proofs.Script.Recasing
import Colloquy.Proofs.Listing
import Colloquy.Proofs.Expression.Lexemes
import Colloquy.Proofs.Expression.Variables
import Colloquy.Proofs.Number.Quotient
import Colloquy.Proofs.Expression.Division
import Colloquy.Proofs.Bus.Precedence
import Colloquy.Proofs.Template
import Colloquy.Proofs.Dialogue.Wording
import Colloquy.Proofs.Graph.Rewriting
import Colloquy.Proofs.Dialogue.Resaving
import Colloquy.Proofs.Script.Ordered
import Colloquy.Proofs.Script.Tended
import Colloquy.Proofs.Script.Searches
import Colloquy.Proofs.Script.Unresolved
