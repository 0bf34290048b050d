import CilAudit.Assembly.Hierarchy
import CilAudit.Bytes.SevenBit
import CilAudit.Code.Assembler
import CilAudit.Code.Decode
import CilAudit.Code.Listing
import CilAudit.Code.Opcode.Table
import CilAudit.Code.StackEffect
import CilAudit.Code.Target
import CilAudit.Code.Token
import CilAudit.Resource.Entry
import CilAudit.Resource.Writer
import CilAudit.Rule.Report
import CilAudit.Text.Quoted
import CilAudit.Trace.Resolution
import CilAudit.Proofs.Answer
import CilAudit.Proofs.Execution
import CilAudit.Proofs.Provenance
import CilAudit.Proofs.Reading
import CilAudit.Proofs.Spelling
import CilAudit.Proofs.Stored
import CilAudit.Proofs.Layout
import CilAudit.Proofs.HeaderRecovery
import CilAudit.Proofs.BlobRoundTrip
import CilAudit.Proofs.Scanning
import CilAudit.Proofs.Linking
import CilAudit.Proofs.DecodedBody
import CilAudit.Proofs.Reencoding
import CilAudit.Proofs.Assembling
import CilAudit.Proofs.WrittenCode
import CilAudit.Proofs.AssembledCode
import CilAudit.Proofs.DebugLine
import CilAudit.Proofs.Aliasing
import CilAudit.Proofs.Reachability
import CilAudit.Proofs.DisposableRoot
import CilAudit.Proofs.CacheTransparency
import CilAudit.Proofs.Reporting
import CilAudit.Proofs.Loosening
import CilAudit.Proofs.Visits
import CilAudit.Proofs.RootRules
import CilAudit.Proofs.Concatenation
import CilAudit.Proofs.Locality
import CilAudit.Proofs.Judgement
import CilAudit.Proofs.Refusals
import CilAudit.Proofs.BaseChain
import CilAudit.Proofs.InterfaceSearch
import CilAudit.Proofs.AssembledBody
import CilAudit.Proofs.InsertionOrder
import CilAudit.Proofs.TrailingBytes
import CilAudit.Proofs.Geometry
import CilAudit.Proofs.Format
import CilAudit.Proofs.OlderFormat
import CilAudit.Proofs.SevenBitNumbers
import CilAudit.Proofs.CursorDiscipline
import CilAudit.Proofs.TaggedStack
