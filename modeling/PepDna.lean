import PepDna.Lts
import PepDna.GoBackN
import PepDna.SockWrite
import PepDna.Minip.Delivery
import PepDna.Tcp.Machine
import PepDna.Tcp.Refcount
import PepDna.Tcp.Stream
import PepDna.Minip.Teardown
import PepDna.Minip.Window
import PepDna.Minip.OrderlyClose
import PepDna.Minip.Handshake
import PepDna.Minip.Ending
import PepDna.Minip.Stranded
import PepDna.Minip.PreHook
import PepDna.Minip.Timer
import PepDna.Wakeup
import PepDna.Minip.Wraparound
import PepDna.Connect
import PepDna.Rina.Tuple
import PepDna.Buckets
import PepDna.Table
import PepDna.Unload
import PepDna.Accept
import PepDna.Rina.InstanceName
import PepDna.Rina.FlowName
import PepDna.Rina.Events
import PepDna.Rina.FdMap
import PepDna.Minip.Relabel
import PepDna.Minip.Incarnation
import PepDna.Minip.Credit
import PepDna.Minip.Timeout
import PepDna.Minip.AckClass
import PepDna.Words
import PepDna.Traced
import PepDna.FirstMatch
import PepDna.Minip.Wire
import PepDna.Minip.Receive
import PepDna.Chunks
import PepDna.Minip.SendBatch
import PepDna.Rina.FlowWrite
import PepDna.Rina.Refcount
import PepDna.Rina.Requests
import PepDna.Ccn
import PepDna.CcnRequest
import PepDna.Backfill
import PepDna.Ndn.Encode
import PepDna.Ndn.Decode
import PepDna.Ndn.RoundTrip
import PepDna.Ndn.Request
import PepDna.Rina.FlowRead
import PepDna.Rina.Hop
import PepDna.Minip.Recovery
import PepDna.Ndn.Relay
import PepDna.Ndn.RelayEffects
import PepDna.Ndn.RelayTables
import PepDna.Ndn.RelayFlow
import PepDna.Ndn.RelayStore
import PepDna.Guarded
import PepDna.ModuleLoad
import PepDna.Numbering
import PepDna.Rina.Efcp
import PepDna.Rina.EfcpOrder
import PepDna.Rina.EfcpQueue
import PepDna.Rina.EfcpSender
import PepDna.Rina.EfcpPeers
import PepDna.Rina.EfcpWindow
