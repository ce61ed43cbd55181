import AcdpRegistry.Core.CursorAnchor
import AcdpRegistry.Auth.ChallengeUse
import AcdpRegistry.Auth.Revoked
import AcdpRegistry.Store.Lineage
import AcdpRegistry.Store.Idempotent
import AcdpRegistry.Store.Withdrawal
import AcdpRegistry.Store.EventReceipts
import AcdpRegistry.Core.PublishReplay
import AcdpRegistry.Core.MintHandler
import AcdpRegistry.Core.LogInclusion
import AcdpRegistry.Core.HintCoverage
import AcdpRegistry.Store.SupersessionTarget
import AcdpRegistry.Core.SearchPages
import AcdpRegistry.Core.Redact
import AcdpRegistry.Core.FirstRead
import AcdpRegistry.Server.MemoryStore
import AcdpRegistry.Server.FeedBackends
import AcdpRegistry.Core.Served
import AcdpRegistry.Core.PageBytes
import AcdpRegistry.Core.ChangesKey
import AcdpRegistry.Core.HintRetry
import AcdpRegistry.Core.Quota
import AcdpRegistry.Auth.Poller
import AcdpRegistry.Core.Charge
import AcdpRegistry.Auth.RateWindow
import AcdpRegistry.Core.RateTrace
import AcdpRegistry.Core.CidrMatch
import AcdpRegistry.Core.JwksSpacing
import AcdpRegistry.Store.TimeOrder
import AcdpRegistry.Store.StatusFilter
import AcdpRegistry.Core.FtsQuery
import AcdpRegistry.Store.OneStatus
import AcdpRegistry.Server.KeylessBackends
import AcdpRegistry.Store.HashBackfill
import AcdpRegistry.Core.Admin
import AcdpRegistry.Webhook
import AcdpRegistry.Auth.ReadToken
