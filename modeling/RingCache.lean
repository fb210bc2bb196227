import RingCache.Cluster.Monitor
import RingCache.Http.Gateway
import RingCache.Main
import RingCache.Proofs.EnvelopeText
import RingCache.Proofs.MemoryPurges
import RingCache.Proofs.PrimaryReads
import RingCache.Proofs.ServingClusters
import RingCache.Proofs.EnvelopeProviders
import RingCache.Proofs.Interchange
import RingCache.Proofs.PurgeRaces
import RingCache.Proofs.ReplicaPurges
import RingCache.Proofs.WriteReports
import RingCache.Proofs.BitStreams
import RingCache.Proofs.Compression
import RingCache.Proofs.Requests
import RingCache.Proofs.WrittenValues
import RingCache.Proofs.ReplicaSets
import RingCache.Proofs.Placement
import RingCache.Proofs.ReadableValues
import RingCache.Proofs.CallAccounts
import RingCache.Proofs.KeyGate
import RingCache.Proofs.HealthRounds
import RingCache.Proofs.EntryTargets
import RingCache.Proofs.ServedNodes
import RingCache.Proofs.ReadTokens
import RingCache.Proofs.ReadDocuments
import RingCache.Proofs.GatewayWrites
import RingCache.Proofs.Failover
import RingCache.Proofs.Lifetimes
import RingCache.Proofs.Retries
import RingCache.Proofs.CommandLines
import RingCache.Proofs.ProbeCadence
import RingCache.Proofs.Shutdowns
import RingCache.Proofs.PeerOverrides
import RingCache.Proofs.KeyHashes
import RingCache.Proofs.EndpointTexts
