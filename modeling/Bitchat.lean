import Bitchat.AssemblyIsolation
import Bitchat.BleChunks
import Bitchat.BlePeerTable
import Bitchat.BloomFilterSafety
import Bitchat.ChallengeUse
import Bitchat.ChannelIdentities
import Bitchat.ConnectionBooks
import Bitchat.ConnectionRuns
import Bitchat.DecomposedDelivery
import Bitchat.DedupWindow
import Bitchat.DeliveryCleanup
import Bitchat.DeliveryCoupling
import Bitchat.FileSessions
import Bitchat.GroupConvergence
import Bitchat.GroupMembership
import Bitchat.GroupUpdates
import Bitchat.HealthChecks
import Bitchat.IdentityBlocking
import Bitchat.MeshStorm
import Bitchat.MessageIds
import Bitchat.MessageQueries
import Bitchat.Negotiation
import Bitchat.NostrPadding
import Bitchat.Padding
import Bitchat.ParserSafety
import Bitchat.RateEviction
import Bitchat.RateFairness
import Bitchat.ReceiptMemory
import Bitchat.RejectedFragments
import Bitchat.RekeyTrigger
import Bitchat.RelayLoading
import Bitchat.RelaySelection
import Bitchat.RelaySigning
import Bitchat.RetryAgreement
import Bitchat.RoutingRules
import Bitchat.RuntimeLifecycle
import Bitchat.SecureChannel
import Bitchat.SendTraces
import Bitchat.SessionMerge
import Bitchat.SupervisorHealth
import Bitchat.SyncNetwork
import Bitchat.TerminalSession
import Bitchat.TransportSelection
import Bitchat.UnknownTlvs
import Bitchat.VersionNegotiation
import Bitchat.BleFlood
