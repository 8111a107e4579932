import Narrowing.Binary64.Rounding
import Narrowing.Deferred
import Narrowing.Definitions
import Narrowing.Json.Printer
import Narrowing.Json.Reader
import Narrowing.Reason.Text
import Narrowing.Shape
import Narrowing.Validator.Rules
import Narrowing.Value.Json
import Narrowing.Proofs.Definitions
import Narrowing.Proofs.Calls
import Narrowing.Proofs.Connectives
import Narrowing.Proofs.Containers
import Narrowing.Proofs.Guarded
import Narrowing.Proofs.Indices
import Narrowing.Proofs.Loose
import Narrowing.Proofs.ClosedShapes
import Narrowing.Proofs.Blame
import Narrowing.Proofs.Agreement
import Narrowing.Proofs.Documents
import Narrowing.Proofs.Stored
import Narrowing.Proofs.RoundTrip
import Narrowing.Proofs.InsertionOrder
import Narrowing.Proofs.Equivariance
import Narrowing.Proofs.Contexts
import Narrowing.Proofs.Reasons
import Narrowing.Proofs.Characters
import Narrowing.Proofs.Deferred
import Narrowing.Proofs.StrictEquality
import Narrowing.Proofs.Enumeration
import Narrowing.Proofs.Shapes
import Narrowing.Proofs.Dictionaries
import Narrowing.Proofs.Counts
import Narrowing.Proofs.Arrays
import Narrowing.Proofs.ExtraKeys
import Narrowing.Proofs.Relaxation
import Narrowing.Proofs.Classes
import Narrowing.Proofs.Displays
import Narrowing.Proofs.Visible
import Narrowing.Proofs.NumericKeys
import Narrowing.Proofs.ReasonLines
import Narrowing.Proofs.AllowedValues
import Narrowing.Proofs.ReasonDocuments
import Narrowing.Proofs.Presence
import Narrowing.Proofs.IndexNumerals
