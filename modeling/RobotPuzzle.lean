import RobotPuzzle.Main
import RobotPuzzle.Run.Direct
import RobotPuzzle.Proofs.Machine.Transition
import RobotPuzzle.Proofs.Machine.Tickets
import RobotPuzzle.Proofs.Program.Lookup
import RobotPuzzle.Proofs.Program.Tree
import RobotPuzzle.Proofs.Program.Nesting
import RobotPuzzle.Proofs.Program.WellFormed
import RobotPuzzle.Proofs.Run.Conclusion
import RobotPuzzle.Proofs.Run.Evaluation
import RobotPuzzle.Proofs.Run.Report
import RobotPuzzle.Proofs.Program.Denotation
import RobotPuzzle.Proofs.Machine.Path
import RobotPuzzle.Proofs.Program.Planting
import RobotPuzzle.Proofs.Notation.Lexing
import RobotPuzzle.Proofs.Notation.Acceptance
import RobotPuzzle.Proofs.Notation.Grammar
import RobotPuzzle.Proofs.Program.Counts
import RobotPuzzle.Proofs.Notation.RoundTrip
import RobotPuzzle.Proofs.Catalog.Safety
import RobotPuzzle.Proofs.Json.Canonical
import RobotPuzzle.Proofs.Json.Shape
import RobotPuzzle.Proofs.Machine.Coherence
import RobotPuzzle.Proofs.Machine.FreshStart
import RobotPuzzle.Proofs.Run.Course
import RobotPuzzle.Proofs.Run.Cancellation
import RobotPuzzle.Proofs.Run.Order
import RobotPuzzle.Proofs.Catalog.Decoding
import RobotPuzzle.Proofs.Catalog.RoundTrip
import RobotPuzzle.Proofs.CommandLine.Play
import RobotPuzzle.Proofs.Program.Removal
import RobotPuzzle.Proofs.Program.Reordering
import RobotPuzzle.Proofs.Machine.Limit
import RobotPuzzle.Proofs.Machine.WordRange
import RobotPuzzle.Proofs.Program.Identity
import RobotPuzzle.Proofs.Notation.Offered
import RobotPuzzle.Proofs.Notation.Faults
import RobotPuzzle.Proofs.Machine.Exhaustion
import RobotPuzzle.Proofs.Run.Undisturbed
import RobotPuzzle.Proofs.Run.Replay
import RobotPuzzle.Proofs.Program.Rewriting
import RobotPuzzle.Proofs.Run.Abbreviation
import RobotPuzzle.Proofs.Run.NeutralTurns
import RobotPuzzle.Proofs.Board.QuarterTurn
import RobotPuzzle.Proofs.Run.QuarterTurn
import RobotPuzzle.Proofs.Program.Kinds
import RobotPuzzle.Proofs.CommandLine.Palette
import RobotPuzzle.Proofs.Session.Stars
import RobotPuzzle.Proofs.CommandLine.UnitLimit
import RobotPuzzle.Proofs.Settings.File
import RobotPuzzle.Proofs.Catalog.Progress
import RobotPuzzle.Proofs.Board.Drawing
import RobotPuzzle.Proofs.Session.AtRest
import RobotPuzzle.Proofs.Notation.Writing
import RobotPuzzle.Proofs.Report.Template
import RobotPuzzle.Proofs.Report.Reading
