import BugMuseum.Foundation.Runs
import BugMuseum.Foundation.BlockHeap
import BugMuseum.Foundation.Ownership
import BugMuseum.Foundation.LiveBlocks
import BugMuseum.Foundation.SlotTable
import BugMuseum.Foundation.LinkedQueue
import BugMuseum.Foundation.ByteStrings
import BugMuseum.Foundation.ByteReader
import BugMuseum.Foundation.PackedRecords
import BugMuseum.Foundation.Framing
import BugMuseum.Foundation.BindingList
import BugMuseum.Foundation.PrefixWrites
import BugMuseum.Foundation.CheckedAccess
import BugMuseum.Foundation.Placeholders
import BugMuseum.Foundation.KeyedSearch
import BugMuseum.Foundation.DigitPairs
import BugMuseum.Foundation.ItemPrefix
import BugMuseum.Foundation.Terminated
import BugMuseum.Foundation.PaddedCopies
import BugMuseum.Encore.SpoolStore
import BugMuseum.Encore.SpoolCore
import BugMuseum.Encore.ReadyQueue
import BugMuseum.Encore.JobTable
import BugMuseum.Encore.Calls
import BugMuseum.Encore.TableRuns
import BugMuseum.Encore.Holdings
import BugMuseum.Encore.Cancellation
import BugMuseum.Encore.ActiveJob
import BugMuseum.Encore.FailedCalls
import BugMuseum.Encore.CancelledRender
import BugMuseum.Encore.Documents
import BugMuseum.Encore.FlushOrder
import BugMuseum.Encore.AppendRealloc
import BugMuseum.Encore.SharedMetadata
import BugMuseum.Encore.ScratchBuffer
import BugMuseum.Encore.FilterContract
import BugMuseum.Encore.Spoold
import BugMuseum.Encore.Threads
import BugMuseum.Encore.PrintService
import BugMuseum.Encore.Spooling
import BugMuseum.Encore.Spoolc
import BugMuseum.Encore.BatchReplay
import BugMuseum.Revenant.SessStore
import BugMuseum.Revenant.SessCore
import BugMuseum.Revenant.Uses
import BugMuseum.Revenant.SessTable
import BugMuseum.Revenant.RecentSession
import BugMuseum.Revenant.DeferredBatch
import BugMuseum.Revenant.Sessiond
import BugMuseum.Revenant.Requests
import BugMuseum.Revenant.Connections
import BugMuseum.Revenant.Capacity
import BugMuseum.Revenant.PlainHandles
import BugMuseum.Revenant.PlainService
import BugMuseum.Revenant.OpLog
import BugMuseum.Revenant.SameState
import BugMuseum.Revenant.Replay
import BugMuseum.Revenant.Threads
import BugMuseum.Revenant.Reception
import BugMuseum.Revenant.DeferFlag
import BugMuseum.Revenant.CachedPath
import BugMuseum.Revenant.AppendText
import BugMuseum.Revenant.FlushEffect
import BugMuseum.Cascade.Profile
import BugMuseum.Cascade.ParseBlob
import BugMuseum.Cascade.Cprof
import BugMuseum.Cascade.ParseGrammar
import BugMuseum.Cascade.Overlay
import BugMuseum.Cascade.Templates
import BugMuseum.Cascade.Cfgsvcd
import BugMuseum.Cascade.PeekedBlob
import BugMuseum.Cascade.PushPaths
import BugMuseum.Cascade.TcpReplies
import BugMuseum.Cascade.AcceptedBundle
import BugMuseum.Cascade.IntegerFields
import BugMuseum.Cascade.MergeFailures
import BugMuseum.Cascade.TemplateText
import BugMuseum.Cascade.Delivery
import BugMuseum.Cascade.KeyedLookup
import BugMuseum.Cascade.PeekBounds
import BugMuseum.Cascade.PeekAgrees
import BugMuseum.Cascade.Labels
import BugMuseum.Cascade.ProviderReg
import BugMuseum.Cascade.Memory
import BugMuseum.Cascade.MemoryRules
import BugMuseum.Cascade.ParseMemory
import BugMuseum.Cascade.MergeMemory
import BugMuseum.Cascade.Clients
import BugMuseum.Cascade.ServiceMemory
import BugMuseum.Cascade.Settings
import BugMuseum.Cascade.SettingsService
import BugMuseum.Cascade.Threads
import BugMuseum.Cascade.Cfgapply
import BugMuseum.Cascade.EnvProvider
import BugMuseum.Cascade.Regimport
import BugMuseum.Avalanche.CacheCore
import BugMuseum.Avalanche.Chains
import BugMuseum.Avalanche.BindingStore
import BugMuseum.Avalanche.CacheRuns
import BugMuseum.Avalanche.EntryChains
import BugMuseum.Avalanche.DeletedKeys
import BugMuseum.Avalanche.PipeLookup
import BugMuseum.Avalanche.Cached
import BugMuseum.Avalanche.FastPath
import BugMuseum.Avalanche.WireKeys
import BugMuseum.Avalanche.Threads
import BugMuseum.Avalanche.FailedSet
import BugMuseum.Avalanche.HexCodec
import BugMuseum.Avalanche.StatsLines
import BugMuseum.Avalanche.KeyValues
import BugMuseum.Avalanche.KeyValueService
import BugMuseum.Avalanche.CacheFree
import BugMuseum.Avalanche.LoaderBlocks
import BugMuseum.Avalanche.RequestBlocks
import BugMuseum.Avalanche.DecodedId
import BugMuseum.Avalanche.Snapshot
import BugMuseum.Persistent.WireFraming
