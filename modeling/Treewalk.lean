import Treewalk.CommandLine.Directory
import Treewalk.Main
import Treewalk.Syntax.Equality
import Treewalk.Value.Equality
import Treewalk.Proofs.Evaluation.Reclamation
import Treewalk.Proofs.Scope.Collection
import Treewalk.Proofs.Syntax.Concatenation
import Treewalk.Proofs.Syntax.Recognition
import Treewalk.Proofs.Scope.Links
import Treewalk.Proofs.Scope.Guards
import Treewalk.Proofs.Evaluation.Account
import Treewalk.Proofs.Evaluation.Conduct
import Treewalk.Proofs.Evaluation.Standing
import Treewalk.Proofs.Evaluation.Failures
import Treewalk.Proofs.Evaluation.Returns
import Treewalk.Proofs.Session.Chunks
import Treewalk.Proofs.Evaluation.Captured
import Treewalk.Proofs.Evaluation.Balance
import Treewalk.Proofs.Evaluation.Frame
import Treewalk.Proofs.Scope.Agreement
import Treewalk.Proofs.Evaluation.Confinement
import Treewalk.Proofs.Scope.Names
import Treewalk.Proofs.Evaluation.Termination
import Treewalk.Proofs.Evaluation.Limits
import Treewalk.Proofs.Syntax.Rendering
import Treewalk.Proofs.Token.Layout
import Treewalk.Proofs.Session.Errors
import Treewalk.Proofs.Evaluation.Literals
import Treewalk.Proofs.Evaluation.Walks
import Treewalk.Proofs.Evaluation.Blocks
import Treewalk.Proofs.Syntax.Beginnings
import Treewalk.Proofs.Evaluation.Occupancy
import Treewalk.Proofs.Evaluation.Arithmetic
import Treewalk.Proofs.Value.Equality
import Treewalk.Proofs.Evaluation.Dictionaries
import Treewalk.Proofs.Value.Sequences
import Treewalk.Proofs.Session.Listing
import Treewalk.Proofs.Syntax.Recovery
