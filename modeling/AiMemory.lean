import AiMemory.Relay.Settlement
import AiMemory.Store.Watermark
import AiMemory.Store.PurgeTerminal
import AiMemory.Store.Generations
import AiMemory.Wikisync.Converge
import AiMemory.Store.InboxLaw
import AiMemory.Store.HandoffIsolation
import AiMemory.Store.HandoffLaw
import AiMemory.Store.Windows
import AiMemory.Store.IdentityRouting
import AiMemory.Store.PortablePaths
import AiMemory.Store.MergeLossless
import AiMemory.Store.ExactlyOnce
import AiMemory.Store.MergeAccess
import AiMemory.Store.ScopeMoves
import AiMemory.Store.WorkstreamReplay
import AiMemory.Store.WorkstreamDelivery
import AiMemory.Core.PointerMap
import AiMemory.Core.DefaultGlobal
import AiMemory.Store.ProposalLaw
import AiMemory.Hooks.Imported
import AiMemory.Hooks.Brief
import AiMemory.Hooks.Fields
import AiMemory.Hooks.Unevaluated
import AiMemory.Consolidate.LinkGuard
import AiMemory.Store.PurgePreview
import AiMemory.Consolidate.Streaming
import AiMemory.Hooks.Candidates
import AiMemory.Hooks.Sequences
import AiMemory.Consolidate.ColdCluster
import AiMemory.Consolidate.PathSanitize
import AiMemory.Hooks.JsonRepair
import AiMemory.Wiki.YamlBounds
import AiMemory.Store.Coordinates
import AiMemory.Store.SessionTimes
import AiMemory.Store.TokenUsage
import AiMemory.Wiki.Redirected
import AiMemory.Wiki.Markdown
import AiMemory.Wiki.RelativeLinks
import AiMemory.Store.FtsOperators
import AiMemory.Store.FtsColumns
import AiMemory.Core.RemoteSpellings
import AiMemory.Core.Truncation
import AiMemory.Core.LogLedger
import AiMemory.Core.CleanText
import AiMemory.Core.ShadowSpans
import AiMemory.Consolidate.KeepTokens
import AiMemory.Hooks.SavedOutputs
import AiMemory.Wikisync.PageCodec
import AiMemory.Wikisync.Ceiling
