import ScriptFrontend.Main
import ScriptFrontend.Session
import ScriptFrontend.Symbol.Interner
import ScriptFrontend.Token.Piece.Lemmas
import ScriptFrontend.Proofs.Grammar
import ScriptFrontend.Proofs.ParserRules
import ScriptFrontend.Proofs.ParserSoundness
import ScriptFrontend.Proofs.ParserCompleteness
import ScriptFrontend.Proofs.HostGrammar
import ScriptFrontend.Proofs.ShortestDecimal
import ScriptFrontend.Proofs.Boundary
import ScriptFrontend.Proofs.HostLexing
import ScriptFrontend.Proofs.HostReader
import ScriptFrontend.Proofs.HostText
import ScriptFrontend.Proofs.RoundTrip
import ScriptFrontend.Proofs.Checker
import ScriptFrontend.Proofs.ParserLedger
import ScriptFrontend.Proofs.Resynchronization
import ScriptFrontend.Proofs.OperandNames
import ScriptFrontend.Proofs.InlineChecking
import ScriptFrontend.Proofs.LoweredStatements
import ScriptFrontend.Proofs.WellScoped
import ScriptFrontend.Proofs.Segmentation
import ScriptFrontend.Proofs.MaximalMunch
import ScriptFrontend.Proofs.LoweringTotality
import ScriptFrontend.Proofs.LineEnds
import ScriptFrontend.Proofs.BlankLines
import ScriptFrontend.Proofs.Descent
import ScriptFrontend.Proofs.DescentCursor
import ScriptFrontend.Proofs.DescentOutlook
import ScriptFrontend.Proofs.DescentSteps
import ScriptFrontend.Proofs.DescentTermination
import ScriptFrontend.Proofs.StageDriver
import ScriptFrontend.Proofs.Recovery
import ScriptFrontend.Proofs.ScriptedPrograms
import ScriptFrontend.Proofs.HostLines
import ScriptFrontend.Proofs.TokenPlaces
import ScriptFrontend.Proofs.LineMapping
import ScriptFrontend.Proofs.DistinctTexts
import ScriptFrontend.Proofs.Rescanning
import ScriptFrontend.Proofs.FaultPlaces
import ScriptFrontend.Proofs.EndMark
import ScriptFrontend.Proofs.Rounding
import ScriptFrontend.Proofs.FloatRange
import ScriptFrontend.Proofs.FewestDigits
import ScriptFrontend.Proofs.FloatText
import ScriptFrontend.Proofs.TreeText
import ScriptFrontend.Proofs.Interning
