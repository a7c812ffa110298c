import Cascade.PropSet.Lemmas
import Cascade.PropSet.Session
import Cascade.Compile
import Cascade.Reset
import Cascade.Proofs.Outcome
import Cascade.Proofs.Fault
import Cascade.Proofs.Concatenation
import Cascade.Proofs.Reading.Compact
import Cascade.Proofs.Reading.Pretty
import Cascade.Proofs.Identifier.Colon
import Cascade.Proofs.Identifier.Whole
import Cascade.Proofs.Naming
import Cascade.Proofs.Override
import Cascade.Proofs.Streaming
import Cascade.Proofs.History
import Cascade.Proofs.Equality
import Cascade.Proofs.Lowering
import Cascade.Proofs.Log
import Cascade.Proofs.Validation
import Cascade.Proofs.TypedSetting
import Cascade.Proofs.Binary64.Nearest
import Cascade.Proofs.Binary64.Rounding
import Cascade.Proofs.Binary64.Shortest
import Cascade.Proofs.Positional
import Cascade.Proofs.LengthText
import Cascade.Proofs.Expansion
import Cascade.Proofs.Visible
import Cascade.Proofs.Session
import Cascade.Proofs.Merging
import Cascade.Proofs.HexColor
import Cascade.Proofs.IntegerText
import Cascade.Proofs.FewestDigits
