import DecimalCalc.Main
import DecimalCalc.Proofs.Acceptance
import DecimalCalc.Proofs.AnglePeriods
import DecimalCalc.Proofs.BarPairs
import DecimalCalc.Proofs.Bars
import DecimalCalc.Proofs.CycleSearch
import DecimalCalc.Proofs.DirectedRoots
import DecimalCalc.Proofs.DisplayedNumbers
import DecimalCalc.Proofs.DumpedLines
import DecimalCalc.Proofs.EqualDisplays
import DecimalCalc.Proofs.ExactTrees
import DecimalCalc.Proofs.FaithfulDisplay
import DecimalCalc.Proofs.ImpliedProducts
import DecimalCalc.Proofs.KnownTokens
import DecimalCalc.Proofs.LexingProgress
import DecimalCalc.Proofs.LiteralValues
import DecimalCalc.Proofs.MaximalMunch
import DecimalCalc.Proofs.OperatorCall
import DecimalCalc.Proofs.PolarRadius
import DecimalCalc.Proofs.Precedence
import DecimalCalc.Proofs.Reachability
import DecimalCalc.Proofs.Rebinding
import DecimalCalc.Proofs.ReferenceGraph
import DecimalCalc.Proofs.RegistryRuns
import DecimalCalc.Proofs.ReorderedTwice
import DecimalCalc.Proofs.ReportedFailures
import DecimalCalc.Proofs.Residues
import DecimalCalc.Proofs.RespelledFactorial
import DecimalCalc.Proofs.SpacedTokens
import DecimalCalc.Proofs.StackDepth
import DecimalCalc.Proofs.StackMachine
import DecimalCalc.Proofs.SuppliedSymbols
import DecimalCalc.Proofs.TokenPlaces
import DecimalCalc.Proofs.Transparency
import DecimalCalc.Proofs.UnaryMinus
import DecimalCalc.Proofs.UnreadSettings
import DecimalCalc.Proofs.Verdict
import DecimalCalc.Proofs.WhiteSpace
import DecimalCalc.Proofs.WrittenOrder
import DecimalCalc.Session
