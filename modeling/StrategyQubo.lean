import StrategyQubo.Board
import StrategyQubo.CommandLine.Arguments
import StrategyQubo.CommandLine.Help
import StrategyQubo.CommandLine.Run
import StrategyQubo.Config
import StrategyQubo.Config.Moment
import StrategyQubo.Config.Notation
import StrategyQubo.Config.Toml
import StrategyQubo.Document
import StrategyQubo.Document.Builder
import StrategyQubo.Document.Variables
import StrategyQubo.Document.Weights
import StrategyQubo.Document.Wire
import StrategyQubo.Files
import StrategyQubo.Json
import StrategyQubo.Json.Parse
import StrategyQubo.Log
import StrategyQubo.Main
import StrategyQubo.Number.Binary64
import StrategyQubo.Number.Coefficient
import StrategyQubo.Number.Layout
import StrategyQubo.Number.Literal
import StrategyQubo.Number.Power
import StrategyQubo.Number.Shortest
import StrategyQubo.Proofs.AcceptedWeights
import StrategyQubo.Proofs.ActiveCalls
import StrategyQubo.Proofs.ArithmeticValue
import StrategyQubo.Proofs.Asking
import StrategyQubo.Proofs.CheapestCell
import StrategyQubo.Proofs.CollectionSizes
import StrategyQubo.Proofs.Course
import StrategyQubo.Proofs.DefaultPenalty
import StrategyQubo.Proofs.DepthCounters
import StrategyQubo.Proofs.DisplayRoom
import StrategyQubo.Proofs.ExactNumbers
import StrategyQubo.Proofs.ExhaustiveSearch
import StrategyQubo.Proofs.ExpansionEnergy
import StrategyQubo.Proofs.FinalErrors
import StrategyQubo.Proofs.FiniteBounds
import StrategyQubo.Proofs.FlipEnergy
import StrategyQubo.Proofs.Granting
import StrategyQubo.Proofs.GrayOrder
import StrategyQubo.Proofs.JsonReading
import StrategyQubo.Proofs.JsonTokens
import StrategyQubo.Proofs.JsonTrees
import StrategyQubo.Proofs.JsonValues
import StrategyQubo.Proofs.KnownNames
import StrategyQubo.Proofs.Ledger
import StrategyQubo.Proofs.LinearConstraints
import StrategyQubo.Proofs.Multilinear
import StrategyQubo.Proofs.NormalizedWeights
import StrategyQubo.Proofs.NumberTexts
import StrategyQubo.Proofs.Outcome
import StrategyQubo.Proofs.PassedDocuments
import StrategyQubo.Proofs.PlainNumbers
import StrategyQubo.Proofs.RaisedLimits
import StrategyQubo.Proofs.RepliedProblems
import StrategyQubo.Proofs.Residuals
import StrategyQubo.Proofs.ReturningPrograms
import StrategyQubo.Proofs.SafeEvaluations
import StrategyQubo.Proofs.SafeFunctions
import StrategyQubo.Proofs.SafeRules
import StrategyQubo.Proofs.ScopeArena
import StrategyQubo.Proofs.Sessions
import StrategyQubo.Proofs.Settled
import StrategyQubo.Proofs.SlackVariables
import StrategyQubo.Proofs.SoundLedgers
import StrategyQubo.Proofs.SoundMachines
import StrategyQubo.Proofs.SoundOperations
import StrategyQubo.Proofs.SpelledExpressions
import StrategyQubo.Proofs.SpelledPrograms
import StrategyQubo.Proofs.SpelledTrees
import StrategyQubo.Proofs.StoredDocuments
import StrategyQubo.Proofs.Submittable
import StrategyQubo.Proofs.SumPolynomials
import StrategyQubo.Proofs.TermBounds
import StrategyQubo.Proofs.TextSizes
import StrategyQubo.Proofs.ThrownValues
import StrategyQubo.Proofs.TokenSizes
import StrategyQubo.Proofs.TokenTexts
import StrategyQubo.Proofs.TokensWithin
import StrategyQubo.Proofs.Unhindered
import StrategyQubo.Proofs.WeightDocuments
import StrategyQubo.Proofs.WireDocuments
import StrategyQubo.Proofs.WrittenFormulas
import StrategyQubo.Proofs.WrittenSums
import StrategyQubo.Qubo.Cooling
import StrategyQubo.Qubo.Couplings
import StrategyQubo.Qubo.Expand
import StrategyQubo.Qubo.ExpansionFault
import StrategyQubo.Qubo.Expression
import StrategyQubo.Qubo.Polynomial
import StrategyQubo.Qubo.Quadratic
import StrategyQubo.Qubo.Solution
import StrategyQubo.Qubo.Sparse
import StrategyQubo.Qubo.Walk
import StrategyQubo.Random.Stream
import StrategyQubo.Reply
import StrategyQubo.Reply.Fault
import StrategyQubo.Reply.Response
import StrategyQubo.Script.Builtin
import StrategyQubo.Script.Convert
import StrategyQubo.Script.Display
import StrategyQubo.Script.Eval
import StrategyQubo.Script.Evaluate
import StrategyQubo.Script.Fault
import StrategyQubo.Script.Heap
import StrategyQubo.Script.Limits
import StrategyQubo.Script.Machine
import StrategyQubo.Script.Operation
import StrategyQubo.Script.Property
import StrategyQubo.Script.Rules
import StrategyQubo.Script.Syntax
import StrategyQubo.Script.Syntax.Cursor
import StrategyQubo.Script.Syntax.Parse
import StrategyQubo.Script.Token
import StrategyQubo.Script.Token.Scan
import StrategyQubo.Script.Value
import StrategyQubo.Settings
import StrategyQubo.Strategy.Compile
import StrategyQubo.Strategy.EntryPoint
import StrategyQubo.Strategy.Sample
import StrategyQubo.Strategy.Validation
import StrategyQubo.Text.Blank
import StrategyQubo.Text.Casing
import StrategyQubo.Text.Letter
import StrategyQubo.Text.Numeral
import StrategyQubo.Text.Printable
import StrategyQubo.Text.Quoted
import StrategyQubo.Text.Ranges
import StrategyQubo.Proofs.LaterErrands
import StrategyQubo.Proofs.Traces
import StrategyQubo.Proofs.ArrayVisits
import StrategyQubo.Proofs.TreeDepths
import StrategyQubo.Proofs.FirstFaults
import StrategyQubo.Proofs.HoleSources
import StrategyQubo.Proofs.BarredRuns
import StrategyQubo.Proofs.ContinuedTexts
import StrategyQubo.Proofs.ForHeaders
import StrategyQubo.Proofs.Annealing
import StrategyQubo.Proofs.JoinedPieces
import StrategyQubo.Proofs.NumericTexts
import StrategyQubo.Proofs.DistinctNames
import StrategyQubo.Proofs.QuietExpressions
import StrategyQubo.Proofs.GainedNames
import StrategyQubo.Proofs.DeclaredNames
import StrategyQubo.Proofs.BlockScopes
import StrategyQubo.Proofs.KeptNames
import StrategyQubo.Proofs.ArrayKeys
import StrategyQubo.Proofs.WrittenProperties
import StrategyQubo.Proofs.CanonicalForms
import StrategyQubo.Proofs.SplitTexts
import StrategyQubo.Proofs.ChangedProperties
import StrategyQubo.Proofs.ScopeRegions
import StrategyQubo.Proofs.LexicalCode
import StrategyQubo.Proofs.OwnEvents
import StrategyQubo.Proofs.SeparateIterations
import StrategyQubo.Proofs.CountedPlaces
import StrategyQubo.Proofs.LeadingNumerals
import StrategyQubo.Proofs.WholeDoubles
import StrategyQubo.Proofs.RadixTexts
import StrategyQubo.Proofs.HoistedNames
import StrategyQubo.Proofs.SlackWords
import StrategyQubo.Proofs.ArraySlots
