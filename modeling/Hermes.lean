import Hermes.CLib.Outcome
import Hermes.CLib.Bytes
import Hermes.CLib.Numeral
import Hermes.CLib.Memory
import Hermes.CLib.Socket
import Hermes.Message
import Hermes.Parser
import Hermes.Framing
import Hermes.HeaderText
import Hermes.Trimming
import Hermes.CLib.Keyed
import Hermes.Consistency
import Hermes.Decode
import Hermes.Accept
import Hermes.Encode
import Hermes.Wire
import Hermes.Parsed
import Hermes.Reading
import Hermes.Operations
import Hermes.RoundTrip
import Hermes.Robust
import Hermes.Endpoint
import Hermes.Send
import Hermes.Connection
import Hermes.DefaultServer
import Hermes.Server
import Hermes.ServerInv
import Hermes.Shutdown
import Hermes.Ownership
import Hermes.CLib.Ring
import Hermes.ListHead
import Hermes.Linked
import Hermes.Headers
import Hermes.Checksum
import Hermes.HashtableVisit
import Hermes.CopyThreads
import Hermes.TpoolRuns
import Hermes.ListHeads
import Hermes.ParserTest
