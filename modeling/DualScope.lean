import DualScope.Directory
import DualScope.Main
import DualScope.Prompt.Completion
import DualScope.Prompt.Highlight
import DualScope.Value.Nodes
import DualScope.Proofs.Course
import DualScope.Proofs.Depth
import DualScope.Proofs.FrameEffect
import DualScope.Proofs.Isolation
import DualScope.Proofs.Termination
import DualScope.Proofs.Grammar
import DualScope.Proofs.Spelling
import DualScope.Proofs.Lexing
import DualScope.Proofs.RoundTrip
import DualScope.Proofs.Heap
import DualScope.Proofs.CallFrames
import DualScope.Proofs.Layers
import DualScope.Proofs.Likeness
import DualScope.Proofs.Likeness.State
import DualScope.Proofs.Likeness.Reader
import DualScope.Proofs.Likeness.Forms
import DualScope.Proofs.Likeness.Calls
import DualScope.Proofs.Likeness.Evaluator
import DualScope.Proofs.Spans
import DualScope.Proofs.CallChains
import DualScope.Proofs.Viability
import DualScope.Proofs.Lexemes
import DualScope.Proofs.Brackets
import DualScope.Proofs.Verdicts
import DualScope.Proofs.Displacement
import DualScope.Proofs.Layout
import DualScope.Proofs.Joining
import DualScope.Proofs.Extents
import DualScope.Proofs.Faults
import DualScope.Proofs.Fitting
import DualScope.Proofs.Fitting.Action
import DualScope.Proofs.Placement
import DualScope.Proofs.Fitting.Forms
import DualScope.Proofs.Fitting.Calls
import DualScope.Proofs.Fitting.Session
import DualScope.Proofs.Likeness.Parting
import DualScope.Proofs.Likeness.Issued
import DualScope.Proofs.Unmentioned
import DualScope.Proofs.Emissions
import DualScope.Proofs.Steps
import DualScope.Proofs.Reflection
import DualScope.Proofs.LetCall
import DualScope.Proofs.Sources
import DualScope.Proofs.Finality
import DualScope.Proofs.Unfolding
import DualScope.Proofs.Numerals
import DualScope.Proofs.Splitting
import DualScope.Proofs.Equality
import DualScope.Proofs.Sharing
import DualScope.Proofs.Sharing.Action
import DualScope.Proofs.Sharing.Forms
import DualScope.Proofs.Sharing.Calls
import DualScope.Proofs.Sharing.Session
import DualScope.Proofs.Nesting
import DualScope.Proofs.Malformed
import DualScope.Proofs.Loops
import DualScope.Proofs.LineStrings
import DualScope.Proofs.BracketScan
import DualScope.Proofs.Findings
import DualScope.Proofs.CommentedTokens
import DualScope.Proofs.Highlighting
import DualScope.Proofs.Completions
import DualScope.Proofs.NumericCalls
import DualScope.Proofs.FormalsFaults
