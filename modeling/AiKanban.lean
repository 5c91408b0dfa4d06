import AiKanban.Transactions.Program
import AiKanban.Transactions.Contract
import AiKanban.Relational.Table
import AiKanban.Transactions.Interleaving
import AiKanban.Domain.Entities
import AiKanban.Domain.Errors
import AiKanban.Domain.Events
import AiKanban.Domain.Commands
import AiKanban.Domain.Policy
import AiKanban.Policy.PolicyEngine
import AiKanban.Relational.Statements
import AiKanban.Db.Store
import AiKanban.Db.CardRepository
import AiKanban.Db.Repositories
import AiKanban.Services.BoardAccess
import AiKanban.Services.CardCreate
import AiKanban.Services.CardMove
import AiKanban.Services.CardLifecycle
import AiKanban.Services.CardService
import AiKanban.Server.AdminServices
import AiKanban.Services.BoardService
import AiKanban.Services.CardCollaboration
import AiKanban.Application.Operations
import AiKanban.Db.Seed
import AiKanban.Effects.Guards
import AiKanban.Effects.Rewrites
import AiKanban.Effects.Footprint
import AiKanban.Effects.Tags
import AiKanban.Effects.Edits
import AiKanban.Effects.Changes
import AiKanban.Effects.Lifecycle
import AiKanban.Effects.Administration
import AiKanban.Effects.Threads
import AiKanban.Effects.Steps
import AiKanban.Invariants.Placement
import AiKanban.Invariants.WaitingLane
import AiKanban.Invariants.DoneLane
import AiKanban.Invariants.Discards
import AiKanban.Invariants.Dossier
import AiKanban.Invariants.Archived
import AiKanban.Invariants.Audited
import AiKanban.EventSourcing.Projection
import AiKanban.Invariants.CardView
import AiKanban.Invariants.AuditReplay
import AiKanban.Invariants.LogOrder
import AiKanban.Invariants.WaitingTrail
import AiKanban.Invariants.CancelReopen
import AiKanban.Application.Authority
import AiKanban.Effects.Roles
import AiKanban.Transitions.Runs
import AiKanban.Server.ServiceTokenService
import AiKanban.Invariants.Administrators
import AiKanban.Effects.RoleHolders
import AiKanban.Invariants.RoleReferences
import AiKanban.Application.Concurrency
import AiKanban.Invariants.Demotions
import AiKanban.Transactions.Alone
import AiKanban.Transactions.Rejection
import AiKanban.Server.LocalBlobStore
import AiKanban.Invariants.ReadScope
import AiKanban.Invariants.BoardIntegrity
import AiKanban.Services.BoardCatalog
import AiKanban.Effects.Access
import AiKanban.Invariants.CatalogView
import AiKanban.Effects.Tables
import AiKanban.Invariants.PolicyVersions
import AiKanban.Invariants.WaitingReasons
import AiKanban.Application.PolicySessions
import AiKanban.Transactions.Locking
import AiKanban.Invariants.PolicyRaces
import AiKanban.Invariants.FirstAdmin
import AiKanban.Transactions.Copies
import AiKanban.Application.AccountSessions
import AiKanban.Invariants.AccountCopies
import AiKanban.Invariants.IdentityWrites
import AiKanban.Invariants.Relations
import AiKanban.Invariants.CommentThreads
import AiKanban.Invariants.LaneOrder
import AiKanban.Invariants.Lanes
import AiKanban.Invariants.UploadQuotas
import AiKanban.Invariants.BlobTotals
import AiKanban.Invariants.AttachmentCap
import AiKanban.Server.AttachmentFaults
import AiKanban.Invariants.AttachmentBlobs
import AiKanban.Trees.StackWalk
import AiKanban.Invariants.Locations
import AiKanban.Pagination.Keyset
import AiKanban.Formats.Base64
import AiKanban.Domain.Cursor
import AiKanban.Db.Listings
import AiKanban.Services.BoardPages
import AiKanban.Invariants.Pages
import AiKanban.Server.Authentication
import AiKanban.Invariants.SessionLifetime
import AiKanban.Domain.Dates
import AiKanban.Web.WorkProgress
import AiKanban.Web.ActionHistory
import AiKanban.Domain.Sse
import AiKanban.Web.EventStream
import AiKanban.Formats.Utf8
import AiKanban.Formats.FormUrlEncoded
import AiKanban.Formats.UriComponent
import AiKanban.Domain.Filters
import AiKanban.Web.FilterUrl
import AiKanban.Collections.InsertionMap
import AiKanban.Transitions.KeyedQueue
import AiKanban.Server.LoginBackoff
import AiKanban.Invariants.LoginBursts
import AiKanban.Server.StreamRoutes
import AiKanban.Invariants.StreamRegistry
import AiKanban.Domain.Envelopes
import AiKanban.Web.BoardCache
import AiKanban.Effects.Places
import AiKanban.Invariants.OptimisticOrder
import AiKanban.Invariants.UndoneMoves
import AiKanban.Effects.Acceptance
import AiKanban.Web.ActionEntries
import AiKanban.Invariants.UndoneActions
import AiKanban.Invariants.OptimisticCard
import AiKanban.Invariants.ExactPlaces
import AiKanban.Transactions.Snapshots
import AiKanban.Invariants.Rebalance
import AiKanban.Invariants.Arrivals
import AiKanban.Invariants.BusinessMeasure
import AiKanban.Formats.Like
import AiKanban.Formats.Replace
import AiKanban.Formats.Words
import AiKanban.Db.TextSearch
import AiKanban.Db.UnitOfWork
import AiKanban.Invariants.SerialUnits
import AiKanban.Transitions.Fairness
import AiKanban.Invariants.SettledUnits
import AiKanban.Invariants.TagFilter
import AiKanban.Services.Notifications
import AiKanban.Invariants.CommentNotices
import AiKanban.Formats.Digits
import AiKanban.Formats.Calendar
import AiKanban.Formats.IsoDateTime
import AiKanban.Services.ActivityTexts
import AiKanban.Invariants.ActivityBound
import AiKanban.Formats.Json
import AiKanban.Domain.CursorTexts
import AiKanban.Invariants.TagResolution
import AiKanban.Invariants.WipMarker
import AiKanban.Web.FlushTimers
import AiKanban.Transitions.Answers
import AiKanban.Transitions.SlidingWindow
import AiKanban.Server.SlackGuards
import AiKanban.Server.SlackGrammar
import AiKanban.Server.ContentDisposition
import AiKanban.Invariants.SlackThrottle
import AiKanban.Collections.Recency
import AiKanban.Invariants.SlackDedup
import AiKanban.Invariants.MentionGrammar
import AiKanban.Invariants.AttachmentHeader
import AiKanban.Invariants.LaneKeys
import AiKanban.Web.RenderMentions
import AiKanban.Server.OAuth
import AiKanban.Server.AuthorizationServer
import AiKanban.Server.CredentialChange
import AiKanban.Application.Grants
import AiKanban.Effects.Grants
import AiKanban.Effects.Issuance
import AiKanban.Invariants.RefreshFamilies
import AiKanban.Transactions.Failures
import AiKanban.Invariants.SpentCodes
import AiKanban.Invariants.RevokedTokens
import AiKanban.Invariants.CredentialChanges
import AiKanban.Invariants.GrantOrigins
import AiKanban.Transactions.Agreement
import AiKanban.Application.BoardReads
import AiKanban.Transactions.Denial
