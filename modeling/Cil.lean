import Cil.Batch
import Cil.Binary
import Cil.Bytes
import Cil.Capability
import Cil.Decimal.Layout
import Cil.Decimal.Shortest
import Cil.Decoder
import Cil.Error
import Cil.Instruction
import Cil.Instruction.Decode
import Cil.Listed
import Cil.Member
import Cil.Opcode
import Cil.Operand
import Cil.Proofs.Asking
import Cil.Proofs.Calls
import Cil.Proofs.Capabilities
import Cil.Proofs.Concatenation
import Cil.Proofs.Conventions
import Cil.Proofs.Encoding
import Cil.Proofs.Failures
import Cil.Proofs.Forgetting
import Cil.Proofs.Growth
import Cil.Proofs.Influence
import Cil.Proofs.Invariant
import Cil.Proofs.Invertibility
import Cil.Proofs.Labels
import Cil.Proofs.Leftovers
import Cil.Proofs.LineParts
import Cil.Proofs.Listing
import Cil.Proofs.OneLine
import Cil.Proofs.Quoting
import Cil.Proofs.RawDigits
import Cil.Proofs.Records
import Cil.Proofs.Remembering
import Cil.Proofs.Rendering
import Cil.Proofs.Requests
import Cil.Proofs.Restart
import Cil.Proofs.Targets
import Cil.Proofs.Tokens
import Cil.Proofs.Truncation
import Cil.Proofs.Walk
import Cil.Proofs.WholeBody
import Cil.Record
import Cil.Resolver
import Cil.Scope
import Cil.Session
import Cil.Shape
import Cil.Source
import Cil.Style
import Cil.Style.Terse
import Cil.Text.Hex
import Cil.Text.Quoted
import Cil.Text.Utf16
import Cil.Token
