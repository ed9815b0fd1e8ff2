import FiniteState.Main
import FiniteState.Workbench
import FiniteState.Proofs.Closure
import FiniteState.Proofs.Acceptance
import FiniteState.Proofs.Discovery
import FiniteState.Proofs.Subset
import FiniteState.Proofs.Determinization
import FiniteState.Proofs.Numbering
import FiniteState.Proofs.Minimization
import FiniteState.Proofs.Minimality
import FiniteState.Proofs.Bridging
import FiniteState.Proofs.Splicing
import FiniteState.Proofs.Thompson
import FiniteState.Proofs.Unsupported
import FiniteState.Proofs.Grammar
import FiniteState.Proofs.Reading
import FiniteState.Proofs.Classes
import FiniteState.Proofs.Parsing
import FiniteState.Proofs.Printing
import FiniteState.Proofs.Grouping
import FiniteState.Proofs.Matching
import FiniteState.Proofs.Canonical
import FiniteState.Proofs.Consistency
import FiniteState.Proofs.Programs
import FiniteState.Proofs.Commands
import FiniteState.Proofs.Sessions
import FiniteState.Proofs.Dialogues
import FiniteState.Proofs.Exits
import FiniteState.Proofs.StateNames
import FiniteState.Proofs.LineOrder
import FiniteState.Proofs.Writing
import FiniteState.Proofs.RoundTrip
import FiniteState.Proofs.Complaints
import FiniteState.Proofs.Loads
import FiniteState.Proofs.Combinations
import FiniteState.Proofs.Chains
import FiniteState.Proofs.Escaping
import FiniteState.Proofs.Places
import FiniteState.Proofs.Failures
import FiniteState.Proofs.Constructions
import FiniteState.Proofs.Heights
import FiniteState.Proofs.Tokens
import FiniteState.Proofs.Faults
import FiniteState.Proofs.Views
import FiniteState.Proofs.Declarations
import FiniteState.Proofs.Keywords
import FiniteState.Proofs.Pieces
import FiniteState.Proofs.Dumps
import FiniteState.Proofs.Outlines
import FiniteState.Proofs.Blocks
import FiniteState.Proofs.Endpoints
import FiniteState.Proofs.SetOrder
import FiniteState.Proofs.Layout
import FiniteState.Proofs.NameOrder
import FiniteState.Proofs.Conversions
