import FrameMachine.Config.Reader
import FrameMachine.Config.Writer
import FrameMachine.Native.Stock
import FrameMachine.Proofs.FreshFrames
import FrameMachine.Proofs.Brackets
import FrameMachine.Proofs.Confinement
import FrameMachine.Proofs.Recall
import FrameMachine.Proofs.Lockstep
import FrameMachine.Proofs.Shape
import FrameMachine.Proofs.Budget
import FrameMachine.Proofs.DepthLimit
import FrameMachine.Proofs.SharedLocals
import FrameMachine.Proofs.Discipline
import FrameMachine.Proofs.Mishap
import FrameMachine.Proofs.Ending
import FrameMachine.Proofs.Unraised
import FrameMachine.Proofs.Relabelling
import FrameMachine.Proofs.StackBottom
import FrameMachine.Proofs.Tale
import FrameMachine.Proofs.Telling
import FrameMachine.Proofs.OperandMemory
import FrameMachine.Proofs.ForwardCode
import FrameMachine.Proofs.Surplus
import FrameMachine.Proofs.ValueText
import FrameMachine.Proofs.Listing
import FrameMachine.Proofs.JsonGrammar
import FrameMachine.Proofs.JsonNumerals
import FrameMachine.Proofs.JsonLexing
import FrameMachine.Proofs.JsonSkipping
import FrameMachine.Proofs.ConfigForms
import FrameMachine.Proofs.ConfigReading
import FrameMachine.Proofs.ConfigDrafts
import FrameMachine.Proofs.ConfigRefusals
import FrameMachine.Proofs.ConfigRoundTrip
import FrameMachine.Proofs.Checks
import FrameMachine.Proofs.Subroutines
import FrameMachine.Proofs.NativeCalls
import FrameMachine.Proofs.ConfigUnknowns
import FrameMachine.Proofs.FaultPlaces
import FrameMachine.Proofs.LastInFirstOut
