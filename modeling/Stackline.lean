import Stackline.Main
import Stackline.Session
import Stackline.Proofs.Errors
import Stackline.Proofs.Classification
import Stackline.Proofs.ControlFlow
import Stackline.Proofs.AliasElimination
import Stackline.Proofs.Grammar
import Stackline.Proofs.Renumbering
import Stackline.Proofs.StackLocality
import Stackline.Proofs.Appending
import Stackline.Proofs.BlankLines
import Stackline.Proofs.Positions
import Stackline.Proofs.Printing
import Stackline.Proofs.Rendering
import Stackline.Proofs.UnreadableLines
import Stackline.Proofs.Sinks
import Stackline.Proofs.WholeTexts
import Stackline.Proofs.Sessions
import Stackline.Proofs.ForwardJumps
import Stackline.Proofs.References
import Stackline.Proofs.Preamble
import Stackline.Proofs.ValueBounds
import Stackline.Proofs.Arguments
import Stackline.Proofs.FailedSteps
import Stackline.Proofs.FailedResolution
import Stackline.Proofs.Operations
import Stackline.Proofs.Numerals
import Stackline.Proofs.InputLines
import Stackline.Proofs.Traces
import Stackline.Proofs.StackTexts
import Stackline.Proofs.Loops
