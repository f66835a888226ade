import CalcLint.Benchmark
import CalcLint.Main
import CalcLint.Session
import CalcLint.Proofs.BareLines
import CalcLint.Proofs.Insertion
import CalcLint.Proofs.Matching
import CalcLint.Proofs.Chain
import CalcLint.Proofs.RuleFaults
import CalcLint.Proofs.ClosingRows
import CalcLint.Proofs.FixRun
import CalcLint.Proofs.KeywordMatch
import CalcLint.Proofs.MovedTokens
import CalcLint.Proofs.FixedBalance
import CalcLint.Proofs.TokenOrder
import CalcLint.Proofs.FixedChain
import CalcLint.Proofs.CommaLook
import CalcLint.Proofs.FixedDefects
import CalcLint.Proofs.CodeModes
import CalcLint.Proofs.DyckMatching
import CalcLint.Proofs.ChainGrammar
import CalcLint.Proofs.ChainBlame
import CalcLint.Proofs.Marks
import CalcLint.Proofs.MisplacedCommas
import CalcLint.Proofs.Checkpoints
import CalcLint.Proofs.WholeLines
import CalcLint.Proofs.LineEndings
import CalcLint.Proofs.SingleFixes
import CalcLint.Proofs.DiagnosticPlaces
import CalcLint.Proofs.ChainAsPair
import CalcLint.Proofs.CleanBlocks
import CalcLint.Proofs.ConfiguredRules
import CalcLint.Proofs.ReportedFailures
import CalcLint.Proofs.Utf8
import CalcLint.Proofs.ConfigLoading
import CalcLint.Proofs.FileWrites
import CalcLint.Proofs.LosslessFix
import CalcLint.Proofs.SortedReports
import CalcLint.Proofs.JsonText
import CalcLint.Proofs.CheckModes
import CalcLint.Proofs.LineBreaks
import CalcLint.Proofs.SimultaneousEdits
import CalcLint.Proofs.AddedLines
import CalcLint.Proofs.CommaBreaks
import CalcLint.Proofs.StringEnds
import CalcLint.Proofs.KeywordOrder
import CalcLint.Proofs.LineOffsets
import CalcLint.Proofs.ConfigDecoding
