import SigilScript.Argument
import SigilScript.Fragment
import SigilScript.Number.Notation
import SigilScript.Number.Numeral
import SigilScript.Text.Letter
import SigilScript.Text.Utf8
import SigilScript.Token.Scan
import SigilScript.Validation
import SigilScript.Json.Reader
import SigilScript.Json.Writer
import SigilScript.Json.Path
import SigilScript.Expr.Eval
import SigilScript.TextType
import SigilScript.Inclusion
import SigilScript.Registry
import SigilScript.Directive.Table
import SigilScript.Session
import SigilScript.Bundled
import SigilScript.CommandLine
import SigilScript.Main
import SigilScript.Proofs.BlockGrammar
import SigilScript.Proofs.BlockTree
import SigilScript.Proofs.ValidatedProgram
import SigilScript.Proofs.Ending
import SigilScript.Proofs.BlockSemantics
import SigilScript.Proofs.ProgramCounter
import SigilScript.Proofs.ValidatedRun
import SigilScript.Proofs.WrittenText
import SigilScript.Proofs.WrittenCalls
import SigilScript.Proofs.CanonicalNodes
import SigilScript.Proofs.CallPlaces
import SigilScript.Proofs.Contract
import SigilScript.Proofs.BasicAction
import SigilScript.Proofs.MadeCalls
import SigilScript.Proofs.PluginModule
import SigilScript.Proofs.Precedence
import SigilScript.Proofs.ConfinedRun
import SigilScript.Proofs.HiddenRequire
import SigilScript.Proofs.NestedArguments
import SigilScript.Proofs.EngineContract
import SigilScript.Proofs.SessionContract
import SigilScript.Proofs.ClearSteps
import SigilScript.Proofs.FailSoft
import SigilScript.Proofs.InclusionChain
import SigilScript.Proofs.ExitFinal
import SigilScript.Proofs.VisitBound
import SigilScript.Proofs.DebugBlind
import SigilScript.Proofs.DebugRun
import SigilScript.Proofs.PolicyAgreement
import SigilScript.Proofs.ExprGrammar
import SigilScript.Proofs.ExprReading
import SigilScript.Proofs.TextRun
import SigilScript.Proofs.NumeralToken
import SigilScript.Proofs.NumericName
import SigilScript.Proofs.FileContents
import SigilScript.Proofs.DecimalReading
import SigilScript.Proofs.NumberText
import SigilScript.Proofs.JsonScalar
import SigilScript.Proofs.JsonText
import SigilScript.Proofs.JsonReading
import SigilScript.Proofs.JsonPath
import SigilScript.Proofs.StoredValue
import SigilScript.Proofs.StoredContent
import SigilScript.Proofs.ArgumentParts
import SigilScript.Proofs.RoundingError
import SigilScript.Proofs.LostExponent
import SigilScript.Proofs.NumberReading
import SigilScript.Proofs.ArithmeticText
import SigilScript.Proofs.AssignedNumber
import SigilScript.Proofs.LongestName
import SigilScript.Proofs.SeparatedCalls
import SigilScript.Proofs.WrittenEffects
import SigilScript.Proofs.FileWriters
import SigilScript.Proofs.LoopPasses
import SigilScript.Proofs.WhileCeiling
import SigilScript.Proofs.CountedPasses
import SigilScript.Proofs.FiniteResults
import SigilScript.Proofs.ReachedNames
import SigilScript.Proofs.StrictDivision
import SigilScript.Proofs.TypeAnswers
import SigilScript.Proofs.LineHead
import SigilScript.Proofs.BlockAccount
import SigilScript.Proofs.FirstFailure
import SigilScript.Proofs.SeparatePaths
import SigilScript.Proofs.TokenGrammar
import SigilScript.Proofs.TokenSpans
import SigilScript.Proofs.TokenCalls
import SigilScript.Proofs.FaultPlace
import SigilScript.Proofs.StoredNumber
import SigilScript.Proofs.RoundedWhole
import SigilScript.Proofs.IntegerParity
import SigilScript.Proofs.StringLiterals
import SigilScript.Proofs.BranchRanges
import SigilScript.Proofs.CanonicalPaths
