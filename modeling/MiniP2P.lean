import MiniP2P.Core.Frame
import MiniP2P.Core.MultiaddrText
import MiniP2P.Discovery.Dials
import MiniP2P.Discovery.Pending
import MiniP2P.Ffi.Doorbell
import MiniP2P.NatTraversal.Prober
import MiniP2P.Pubsub.Authenticity
import MiniP2P.Quic.Retry
import MiniP2P.RelayServer.Buckets
import MiniP2P.RelayServer.Coherence
import MiniP2P.SecureMux.Established
import MiniP2P.Transport.Set
import MiniP2P.Yamux.Accounting
import MiniP2P.Yamux.Chunking
import MiniP2P.Yamux.Lifecycle
