import Ursa.Theory.Outcome
import Ursa.Theory.Run
import Ursa.Theory.LinkedChain
import Ursa.Theory.Cbor
import Ursa.Theory.Worklist
import Ursa.Theory.LiveSearch
import Ursa.Theory.Varint
import Ursa.Theory.Json
import Ursa.Theory.Locks
import Ursa.Theory.TwoPhase
import Ursa.Theory.Correlation
import Ursa.Theory.Toggle
import Ursa.Theory.Drain
import Ursa.Theory.Base64
import Ursa.Theory.Pem
import Ursa.Types
import Ursa.DagCbor
import Ursa.IndexProvider.Advertisement
import Ursa.IndexProvider.Provider
import Ursa.IndexProvider.PlainDeps
import Ursa.IndexProvider.Chain
import Ursa.IndexProvider.Drafts
import Ursa.IndexProvider.Signature
import Ursa.IndexProvider.SignedHead
import Ursa.IndexProvider.Announcement
import Ursa.IndexProvider.Locks
import Ursa.IndexProvider.Interleaving
import Ursa.Store.Store
import Ursa.Store.DagTraversal
import Ursa.Store.MissingBlocks
import Ursa.Store.Sync
import Ursa.Metrics.Events
import Ursa.Network.Discovery
import Ursa.Network.Kademlia
import Ursa.Network.Contacts
import Ursa.Network.Behaviour
import Ursa.Network.Codec
import Ursa.Network.Publish
import Ursa.Network.Service
import Ursa.Network.Indexing
import Ursa.Network.Queue
import Ursa.Network.Catalogue
import Ursa.Network.Inbound
import Ursa.Network.Reachability
import Ursa.Network.Responses
import Ursa.Network.Exchange
import Ursa.Network.Requests
import Ursa.Network.Peers
import Ursa.Metrics.Totals
import Ursa.Metrics.Gauge
import Ursa.Rpc.Api
import Ursa.Rpc.Transfer
import Ursa.Rpc.Failures
import Ursa.Rpc.Uploads
import Ursa.Rpc.Node
import Ursa.Rpc.Client
import Ursa.Rpc.Http
import Ursa.Rpc.Restart
import Ursa.Rpc.Download
import Ursa.Rpc.Indexer
import Ursa.Identity.Path
import Ursa.Identity.Manager
import Ursa.Identity.KeyFiles
import Ursa.Identity.Isolation
