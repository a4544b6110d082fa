import BoxTree.Console.Reader
import BoxTree.Console.StyleReader
import BoxTree.Line.Outline
import BoxTree.Main
import BoxTree.Proofs.TreeOfForest
import BoxTree.Sgr.Screen
import BoxTree.Proofs.StreamMoves
import BoxTree.Proofs.CursorReturns
import BoxTree.Proofs.StreamDecisions
import BoxTree.Proofs.StreamOutline
import BoxTree.Proofs.SgrReading
import BoxTree.Proofs.TerminalText
import BoxTree.Proofs.ConsoleText
import BoxTree.Proofs.BuilderSpans
import BoxTree.Proofs.StreamConsumed
import BoxTree.Proofs.RenderOutcome
import BoxTree.Proofs.DocumentRenders
import BoxTree.Proofs.ReachedNodes
import BoxTree.Proofs.DecidedNodes
import BoxTree.Proofs.StyleReading
import BoxTree.Output.Shown
import BoxTree.Proofs.WriterContent
import BoxTree.Proofs.LineCalls
import BoxTree.Proofs.ModesAgree
import BoxTree.Proofs.LineBackground
import BoxTree.Proofs.WriterText
import BoxTree.Proofs.CallsTaken
import BoxTree.Proofs.StreamTexts
import BoxTree.Proofs.ColorlessCalls
import BoxTree.Syntax.Nesting
import BoxTree.Proofs.StepGrammar
import BoxTree.Proofs.BuilderOutcome
import BoxTree.Proofs.BuiltForest
import BoxTree.Proofs.PartNodes
import BoxTree.Proofs.DocumentNesting
import BoxTree.Proofs.AddedNodes
import BoxTree.Syntax.Pruning
import BoxTree.Proofs.PlantedTrees
import BoxTree.Proofs.CursorMoves
import BoxTree.Proofs.PrunedTrees
import BoxTree.Proofs.TreeCourse
import BoxTree.Proofs.LimitedWalks
import BoxTree.Proofs.PeekShortcut
import BoxTree.Proofs.OutOfClimbs
import BoxTree.Proofs.JoinedPushes
import BoxTree.Proofs.NearestEntry
import BoxTree.Syntax.Moves
import BoxTree.Proofs.CursorTrips
import BoxTree.Output.Directives
import BoxTree.Proofs.DirectiveCount
import BoxTree.Syntax.Tour
import BoxTree.Proofs.OrderOfVisits
import BoxTree.Line.Block
import BoxTree.Proofs.RowsOfLines
import BoxTree.Sgr.Range
import BoxTree.Proofs.SequencesApart
import BoxTree.Output.Pieces
import BoxTree.Proofs.DirectiveParams
import BoxTree.Process
import BoxTree.Proofs.ClosestLevels
import BoxTree.Proofs.RememberedSupport
import BoxTree.SupportHistory
import BoxTree.Proofs.FittedColors
