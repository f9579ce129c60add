import Hypersync.Lib.Machine
import Hypersync.Lib.Word
import Hypersync.Lib.OrdMap
import Hypersync.Lib.Lz4
import Hypersync.Lib.KeyMap
import Hypersync.Protocol.BlockRound
import Hypersync.Failover.Core
import Hypersync.Failover.Run
import Hypersync.Failover.GapFree
import Hypersync.Protocol.Rounds
import Hypersync.Push.Live
import Hypersync.Gateway.ClientBlocks
import Hypersync.Failover.Session
import Hypersync.Failover.World
import Hypersync.Failover.Blacklisted
import Hypersync.Lib.Runs
import Hypersync.Protocol.Clusters
import Hypersync.Peerd.Tip
import Hypersync.Push.Freshest
import Hypersync.Gateway.Prefetch
import Hypersync.Gateway.PrefetchServing
import Hypersync.Gateway.PinSessions
import Hypersync.Gateway.BootstrapCache
import Hypersync.Gateway.Captured
import Hypersync.Gateway.Vetting
import Hypersync.Priority
import Hypersync.Gateway.LiveSelect
import Hypersync.Gateway.ExclusiveTier
import Hypersync.Gateway.ClientRace
import Hypersync.Gateway.RaceOrder
import Hypersync.Failover.Roster
import Hypersync.Failover.Membership
import Hypersync.Gateway.Evictions
import Hypersync.Addresses
import Hypersync.Peerd.PeersFile
import Hypersync.Gateway.DialPool
import Hypersync.Push.Guards
import Hypersync.Push.Staleness
import Hypersync.Gateway.CatchUp
import Hypersync.Push.Gates
import Hypersync.Failover.Policy
import Hypersync.Failover.Switch
import Hypersync.Failover.Matches
import Hypersync.Lib.Versioned
import Hypersync.Push.Proxy
import Hypersync.Settings
import Hypersync.EnvCheck
import Hypersync.Peerd.QueryPeers
import Hypersync.Protocol.FrameRounds
import Hypersync.Lib.Rotation
import Hypersync.Peerd.ProbeRotation
import Hypersync.Lib.Reach
import Hypersync.Peerd.Crawl
import Hypersync.Lib.WholeWord
import Hypersync.Redaction
import Hypersync.Peerd.Probe
import Hypersync.Failover.Ahead
import Hypersync.Gateway.BootstrapSweep
import Hypersync.Gateway.CacheFloor
import Hypersync.Lib.PrefixCode
import Hypersync.Protocol.FrameCount
import Hypersync.Gateway.CacheDisk
import Hypersync.Gateway.CacheReplay
import Hypersync.Lib.Pipe
import Hypersync.Push.NodeQueue
import Hypersync.Gateway.CacheRefresh
import Hypersync.Gateway.PeerFeed
import Hypersync.Peerd.Daemon
import Hypersync.Lib.Pump
import Hypersync.Push.Relay
import Hypersync.Gateway.BootstrapRelay
import Hypersync.Gateway.Faults
import Hypersync.Failover.Readers
import Hypersync.Gateway.Watchdogs
import Hypersync.Gateway.LiveConnect
import Hypersync.Gateway.Pace
