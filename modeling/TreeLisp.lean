import TreeLisp.Main
import TreeLisp.Slice
import TreeLisp.Proofs.Effect
import TreeLisp.Proofs.EvalEffect
import TreeLisp.Proofs.Call
import TreeLisp.Proofs.Confinement
import TreeLisp.Proofs.Grammar
import TreeLisp.Proofs.Lexing
import TreeLisp.Proofs.Parsing
import TreeLisp.Proofs.SyntaxErrors
import TreeLisp.Proofs.Printing
import TreeLisp.Proofs.Lines
import TreeLisp.Proofs.Alike
import TreeLisp.Proofs.Occurrence
import TreeLisp.Proofs.AlikeSelf
import TreeLisp.Proofs.AlikeCompute
import TreeLisp.Proofs.EvalParallel
import TreeLisp.Proofs.ErrorFree
import TreeLisp.Proofs.Isolation
import TreeLisp.Proofs.ReadFirst
import TreeLisp.Proofs.Stopping
import TreeLisp.Proofs.Terminal
import TreeLisp.Proofs.Nesting
import TreeLisp.Proofs.Unmentioned
import TreeLisp.Proofs.Grounded
import TreeLisp.Proofs.Repeatable
import TreeLisp.Proofs.EvalLaw
import TreeLisp.Proofs.Countable
import TreeLisp.Proofs.IntegerRange
import TreeLisp.Proofs.Conversation
import TreeLisp.Proofs.OneName
import TreeLisp.Proofs.Rooted
import TreeLisp.Proofs.Faultless
import TreeLisp.Proofs.StringText
import TreeLisp.Proofs.Levels
import TreeLisp.Proofs.TemplateExpansion
import TreeLisp.Proofs.DirectInvocation
import TreeLisp.Proofs.LetDefinitions
import TreeLisp.Proofs.IntegerLiterals
import TreeLisp.Proofs.LiteralKinds
import TreeLisp.Proofs.Answers
import TreeLisp.Proofs.ExactValues
import TreeLisp.Proofs.Equality
import TreeLisp.Proofs.Comparisons
import TreeLisp.Proofs.IntegerArithmetic
import TreeLisp.Proofs.InvocationFrames
import TreeLisp.Proofs.ParameterLists
import TreeLisp.Proofs.ClauseSelection
import TreeLisp.Proofs.TemplateMarks
import TreeLisp.Proofs.FrameHistories
import TreeLisp.Proofs.TokenConservation
import TreeLisp.Proofs.PreludeRoot
import TreeLisp.FileTree
