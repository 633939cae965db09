import Predictive.Symbol.Names
import Predictive.Ordered.Map
import Predictive.Ordered.Set
import Predictive.Worklist
import Predictive.Grammar.LeftFactor
import Predictive.Grammar.Source.Reader
import Predictive.Analysis.Table
import Predictive.Lexer.Basic
import Predictive.Lexer.Stream
import Predictive.Parse.Log
import Predictive.Parse.Planting
import Predictive.Parse.Stacks
import Predictive.Ebnf.Analysis
import Predictive.Ebnf.Lowering
import Predictive.Ebnf.Descent
import Predictive.Ebnf.Planting
import Predictive.Command
import Predictive.Main
import Predictive.Pattern.Footprint
import Predictive.Text.Letter
import Predictive.Text.Numeral
import Predictive.Pattern.Bracket
import Predictive.Proofs.OrderedMap
import Predictive.Proofs.Saturation
import Predictive.Proofs.Derivation
import Predictive.Proofs.Names
import Predictive.Proofs.WellFormed
import Predictive.Proofs.First
import Predictive.Proofs.Follow
import Predictive.Proofs.Table
import Predictive.Proofs.Parse.Steps
import Predictive.Proofs.Parse.Unfolding
import Predictive.Proofs.Parse.Bound
import Predictive.Proofs.Parse.Spelling
import Predictive.Proofs.Parse.Prediction
import Predictive.Proofs.Ebnf.WellFormed
import Predictive.Proofs.Ebnf.Matching
import Predictive.Proofs.Ebnf.Lowering
import Predictive.Proofs.Ebnf.Growth
import Predictive.Proofs.Ebnf.Layout
import Predictive.Proofs.Ebnf.Site
import Predictive.Proofs.Ebnf.First
import Predictive.Proofs.Ebnf.Follow
import Predictive.Proofs.Ebnf.Table
import Predictive.Proofs.Ebnf.Decision
import Predictive.Proofs.Worklist
import Predictive.Proofs.LeftFactor.Step
import Predictive.Proofs.Parse.Snapshot
import Predictive.Proofs.Splicing
import Predictive.Proofs.Arena
import Predictive.Proofs.LeftFactor.Meaning
import Predictive.Proofs.Ambiguity
import Predictive.Proofs.Descent.Run
import Predictive.Proofs.Descent.Spelling
import Predictive.Proofs.Ebnf.Collision
import Predictive.Proofs.Descent.Ending
import Predictive.Proofs.Descent.Lookahead
import Predictive.Proofs.Descent.Trees
import Predictive.Proofs.Descent.Guidance
import Predictive.Proofs.Descent.Agreement
import Predictive.Proofs.Descent.Outcome
import Predictive.Proofs.Descent.Nodes
import Predictive.Proofs.Descent.Planting
import Predictive.Proofs.Definition
import Predictive.Proofs.Faults
import Predictive.Proofs.RoundTrip
import Predictive.Proofs.Parse.Completion
import Predictive.Proofs.Parse.Ending
import Predictive.Proofs.Parse.Expectation
import Predictive.Proofs.Selection
import Predictive.Proofs.LeftFactor.Ending
import Predictive.Proofs.LeftFactor.Analyses
import Predictive.Proofs.Ebnf.Naming
import Predictive.Proofs.Ebnf.Clash
import Predictive.Proofs.Source.Items
import Predictive.Proofs.Source.Position
import Predictive.Proofs.Source.Reading
import Predictive.Proofs.Parse.Preorder
import Predictive.Proofs.Descent.Depth
import Predictive.Proofs.Descent.Trailing
import Predictive.Proofs.Parse.Acceptance
import Predictive.Proofs.Nullability
import Predictive.Proofs.Declarations
import Predictive.Proofs.Ebnf.Validation
import Predictive.Proofs.Source.Progress
import Predictive.Proofs.Source.Conversion
import Predictive.Proofs.Lexer.Pieces
import Predictive.Proofs.Lexer.Calls
import Predictive.Tree.Navigation
import Predictive.Proofs.Navigation
import Predictive.Proofs.Descent.Restoring
import Predictive.Proofs.Ebnf.Conservation
import Predictive.Proofs.Printing
import Predictive.Proofs.Conflicts
import Predictive.Proofs.Passes
import Predictive.Proofs.Ebnf.Passes
import Predictive.Proofs.Interning
import Predictive.Proofs.Parse.Stacks
