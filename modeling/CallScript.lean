import CallScript.Text.Blank
import CallScript.Text.Letter
import CallScript.Text.Quoted
import CallScript.Text.Bracket
import CallScript.Number.Binary
import CallScript.Number.Shortest
import CallScript.Number.Literal
import CallScript.Value
import CallScript.Signature
import CallScript.Error
import CallScript.Argument
import CallScript.Text.Quotation
import CallScript.Reference
import CallScript.Form
import CallScript.Expr
import CallScript.Typing
import CallScript.Binding
import CallScript.Scope
import CallScript.Bundle
import CallScript.Function
import CallScript.Registry
import CallScript.Memory
import CallScript.Evaluation
import CallScript.Invocation
import CallScript.Evaluator
import CallScript.Arithmetic
import CallScript.Builtin.Number
import CallScript.Builtin.Text
import CallScript.Builtin
import CallScript.CommandLine
import CallScript.Main
import CallScript.Proofs.Segments
import CallScript.Proofs.Pool
import CallScript.Proofs.Preparation
import CallScript.Proofs.Task
import CallScript.Proofs.Derivation
import CallScript.Proofs.Frame
import CallScript.Proofs.Checking
import CallScript.Proofs.Session
import CallScript.Proofs.ArgumentTypes
import CallScript.Proofs.WriteOnce
import CallScript.Proofs.SideBySide
import CallScript.Proofs.Layout
import CallScript.Proofs.StaticTypes
import CallScript.Proofs.Twins
import CallScript.Proofs.Transparency
import CallScript.Proofs.Grammar
import CallScript.Proofs.Termination
import CallScript.Proofs.CallDepth
import CallScript.Proofs.RecursionLimit
import CallScript.Proofs.CallTree
import CallScript.Proofs.InvocationOrder
import CallScript.Proofs.Moments
import CallScript.Proofs.ArgumentBundles
import CallScript.Proofs.TypedRuns
import CallScript.Proofs.ConversionFailures
import CallScript.Proofs.Determinism
import CallScript.Proofs.TargetedReading
import CallScript.Proofs.ScriptLines
import CallScript.Proofs.Lookups
import CallScript.Proofs.Masking
import CallScript.Proofs.Spacing
import CallScript.Proofs.WrittenLists
import CallScript.Proofs.ArgumentSpelling
import CallScript.Proofs.Interpolation
import CallScript.Proofs.ArithmeticGrammar
import CallScript.Proofs.Outcomes
import CallScript.Proofs.ConvertedOutcomes
import CallScript.Proofs.ReplacedArguments
import CallScript.Proofs.NamedParts
import CallScript.Proofs.UnclosedBraces
import CallScript.Proofs.QuotedTexts
import CallScript.Proofs.Grouping
import CallScript.Proofs.Literals
import CallScript.Proofs.ClosingBrackets
import CallScript.Proofs.ListRenderings
import CallScript.Proofs.ExactCounts
import CallScript.Proofs.Positions
