import Selendra.Collections.List
import Selendra.Collections.Map
import Selendra.Collections.Lru
import Selendra.Block.Basic
import Selendra.Sync.Forest.Vertex
import Selendra.Sync.Forest.Basic
import Selendra.Sync.Forest.Prune
import Selendra.Sync.Forest.Bounds
import Selendra.Sync.Forest.Links
import Selendra.Sync.Forest.Connected
import Selendra.Sync.Forest.Finalize
import Selendra.Block.ChainStatus
import Selendra.Control.Loop
import Selendra.Session.Basic
import Selendra.Sync.Data
import Selendra.Sync.Handler.RequestHandler
import Selendra.Sync.Handler.Response
import Selendra.DataIo.Proposal
import Selendra.DataIo.ChainInfo
import Selendra.DataIo.StatusProvider
import Selendra.Collections.HashSet
import Selendra.DataIo.DataStore
import Selendra.DataIo.DataStoreLinks
import Selendra.DataIo.DataStoreRelease
import Selendra.DataIo.DataInterpreter
import Selendra.DataIo.DataProvider
import Selendra.DataIo.ChainTracker
import Selendra.Verification.Cache
import Selendra.Verification.CacheRuns
import Selendra.Network.Connections
import Selendra.Network.Handler
import Selendra.Network.Manager
import Selendra.Network.ManagerRuns
import Selendra.Arithmetic.PerThing
import Selendra.Pallets.CommitteeManagement
import Selendra.Pallets.Aleph
import Selendra.Sync.Forest.Knowledge
import Selendra.Sync.Handler.Finalize
import Selendra.Codec.Scale
import Selendra.Sync.MessageLimiter
import Selendra.DataIo.ChainInfoCache
import Selendra.Collections.Quorum
import Selendra.Justification.Basic
import Selendra.Verification.Multisignature
import Selendra.Codec.Decode
import Selendra.Justification.Compatibility
import Selendra.Clique.Manager
import Selendra.RateLimiter.TokenBucket
import Selendra.Aggregator.Basic
import Selendra.Session.MapUpdater
import Selendra.Network.HandlerRuns
import Selendra.Pallets.CommitteeRotation
import Selendra.Pallets.SessionManager
import Selendra.Pallets.SessionManagerRuns
import Selendra.Network.BaseProtocol
import Selendra.Network.Versioned
import Selendra.Party.Backup
import Selendra.Control.Steps
import Selendra.Sync.Forest.Queries
import Selendra.Sync.Handler.Calls
import Selendra.Clique.Handshake
import Selendra.Clique.Negotiation
import Selendra.Clique.Connection
