import DonutMonitor.Presentation.EmbedLimits
import DonutMonitor.Application.Deliveries
import DonutMonitor.Application.PollBudget
import DonutMonitor.Infrastructure.IconManifest
import DonutMonitor.Core.HeaderRedaction
import DonutMonitor.Infrastructure.PriceText
import DonutMonitor.Domain.DeadBand
import DonutMonitor.Core.Redaction
import DonutMonitor.Foundations.Regex
import DonutMonitor.Foundations.Transition
import DonutMonitor.Foundations.Table
import DonutMonitor.Foundations.SlidingWindow
import DonutMonitor.Core.ItemIds
import DonutMonitor.Infrastructure.RequestBudget
import DonutMonitor.Infrastructure.TokenBackoff
import DonutMonitor.Domain.Schemas
import DonutMonitor.Domain.Hysteresis
import DonutMonitor.Persistence.Repositories
import DonutMonitor.Application.System
import DonutMonitor.Application.AlertCooldown
import DonutMonitor.Infrastructure.Icons
import DonutMonitor.Application.AddCalls
import DonutMonitor.Application.AddRollback
import DonutMonitor.Application.InitialAlert
import DonutMonitor.Application.Polls
import DonutMonitor.Application.TokenRace
import DonutMonitor.Application.RuleIdentity
import DonutMonitor.Application.Coordinator
import DonutMonitor.Infrastructure.EndlessBlock
import DonutMonitor.Application.PollEnding
import DonutMonitor.Application.GroupIsolation
import DonutMonitor.Domain.PriceHistory
import DonutMonitor.Domain.Refiring
import DonutMonitor.Application.PausedRule
import DonutMonitor.Application.SnapshotOrder
import DonutMonitor.Application.Erasure
import DonutMonitor.Application.DisplayNumbers
import DonutMonitor.Application.Rejections
import DonutMonitor.Persistence.Renaming
import DonutMonitor.Application.UserOperations
import DonutMonitor.Application.UserFrame
import DonutMonitor.Application.UserIsolation
import DonutMonitor.Core.RedactionFields
import DonutMonitor.Core.RedactionFixed
import DonutMonitor.Foundations.TextPieces
import DonutMonitor.Foundations.PercentFormat
import DonutMonitor.Core.RedactionParts
import DonutMonitor.Core.LogRedaction
import DonutMonitor.Infrastructure.InteractiveReserve
import DonutMonitor.Infrastructure.WaitingHints
import DonutMonitor.Infrastructure.LongOutage
import DonutMonitor.Infrastructure.RetryAfter
import DonutMonitor.Infrastructure.RequestAttempts
import DonutMonitor.Domain.ListingValidation
import DonutMonitor.Foundations.LeastByKey
import DonutMonitor.Infrastructure.GetPrice
import DonutMonitor.Infrastructure.PriceScan
import DonutMonitor.Infrastructure.LowestPrice
import DonutMonitor.Application.PollGroups
import DonutMonitor.Application.CanonicalItems
import DonutMonitor.Foundations.Latest
import DonutMonitor.Infrastructure.ApiHealth
import DonutMonitor.Application.StoredTokens
import DonutMonitor.Application.Authentication
import DonutMonitor.Application.PendingNotifications
import DonutMonitor.Application.MonitoringLoop
import DonutMonitor.Foundations.SqlText
import DonutMonitor.Application.ItemIdMigration
import DonutMonitor.Application.RuleKeys
import DonutMonitor.Presentation.AlertActions
import DonutMonitor.Application.Observations
import DonutMonitor.Application.UserStatus
import DonutMonitor.Infrastructure.BudgetReset
import DonutMonitor.Foundations.Rank
import DonutMonitor.Presentation.RuleCommands
import DonutMonitor.Presentation.AuthModal
import DonutMonitor.Application.PollSchedule
import DonutMonitor.Foundations.Best
import DonutMonitor.Presentation.ItemChoices
