import StoryScript.Action.Operation
import StoryScript.Branch.Printer
import StoryScript.Branch.Stream
import StoryScript.Main
import StoryScript.Outer.Http
import StoryScript.Outer.Lenient
import StoryScript.Preview
import StoryScript.Proofs.Branch.Gating
import StoryScript.Proofs.Branch.Printing
import StoryScript.Proofs.Branch.Streaming
import StoryScript.Proofs.Validation.Braces
import StoryScript.Proofs.Validation.Chains
import StoryScript.Proofs.Condition.Answers
import StoryScript.Proofs.Host.Calm
import StoryScript.Proofs.Markup.Absent
import StoryScript.Proofs.Engine.Calm
import StoryScript.Proofs.Validation.Soundness
import StoryScript.Proofs.Engine.Invariant
import StoryScript.Proofs.Engine.Nesting
import StoryScript.Proofs.Engine.DryRun
import StoryScript.Proofs.Engine.Containment
import StoryScript.Proofs.Store.Amounts
import StoryScript.Proofs.World.Built
import StoryScript.Proofs.Action.Merging
import StoryScript.Proofs.Block.Objects
import StoryScript.Proofs.Engine.Blocks
import StoryScript.Proofs.Engine.Calls
import StoryScript.Proofs.Engine.Redirection
import StoryScript.Proofs.Engine.Output
import StoryScript.Proofs.Engine.Dispatch
import StoryScript.Proofs.World.Loading
import StoryScript.Proofs.Preview.Rejections
import StoryScript.Proofs.Number.Literals
import StoryScript.Proofs.Store.Operations
import StoryScript.Proofs.Store.Ledger
import StoryScript.Proofs.Validation.Conditions
import StoryScript.Proofs.Block.Outline
import StoryScript.Proofs.Engine.Extraction
import StoryScript.Proofs.Branch.Sources
import StoryScript.Branch.Builder
import StoryScript.Proofs.Branch.Building
import StoryScript.Proofs.Validation.Blocks
import StoryScript.Proofs.Markup.Filled
import StoryScript.Proofs.Validation.Placeholders
import StoryScript.Proofs.Engine.ClauseOrder
import StoryScript.Proofs.Condition.Integers
import StoryScript.Proofs.Engine.CodeSpans
import StoryScript.Proofs.Number.Alphabet
import StoryScript.Proofs.Store.Skipping
import StoryScript.Proofs.Store.Pairs
import StoryScript.Proofs.Text.Lines
import StoryScript.Proofs.Validation.Positions
import StoryScript.Proofs.Validation.Contexts
import StoryScript.Proofs.Markup.Speaking
import StoryScript.Proofs.Markup.Settling
import StoryScript.Proofs.Markup.Crossing
import StoryScript.Proofs.Block.Points
import StoryScript.Proofs.Engine.Triggers
import StoryScript.Proofs.Action.Ordering
import StoryScript.Proofs.Block.Matching
import StoryScript.Outer.Http
