import P2P.Spec.MapSafety
import P2P.Spec.Shutdown
import P2P.Spec.Pipeline
import P2P.Spec.PathContainment
import P2P.Spec.MetadataRecovery
import P2P.Spec.Upload
import P2P.Spec.Completion
import P2P.Spec.Bans
import P2P.Spec.HalfOpen
import P2P.Spec.Disconnects
import P2P.Spec.SimultaneousOpen
import P2P.Spec.Availability
import P2P.Spec.Rarity
import P2P.Spec.LateMetadata
import P2P.Spec.CacheShape
import P2P.Spec.BlockOwnership
import P2P.Spec.MseAcceptor
import P2P.Spec.PlaintextFallback
import P2P.Spec.WriteResults
import P2P.Spec.UploadSlots
import P2P.Spec.InFlight
import P2P.Spec.UdpListener
import P2P.Spec.AnnounceQuery
import P2P.Spec.AnnounceResults
import P2P.Spec.DhtQueries
import P2P.Spec.DhtTokens
import P2P.Spec.DhtPeers
import P2P.Spec.ResumeFile
import P2P.Spec.DhtLookup
import P2P.Spec.DhtState
import P2P.Spec.TrackerState
import P2P.Spec.Extensions
import P2P.Spec.ClientState
import P2P.Spec.ConnectionLife
import P2P.Spec.HaveMessages
import P2P.Spec.Announces
import P2P.Spec.Backoff
import P2P.Spec.BlockTiling
import P2P.Spec.OwnerLists
import P2P.Spec.ResumeEndgame
import P2P.Spec.Resumers
import P2P.Spec.BencodeWords
import P2P.Spec.LsdDiscovery
import P2P.Spec.MagnetUri
import P2P.Spec.Pex
import P2P.Spec.PexLoop
import P2P.Spec.PieceScheduler
import P2P.Spec.RefillTimer
