import QiongQi.KernelAgreement
import QiongQi.StreamDelivery
import QiongQi.LeaseFences
import QiongQi.RunExecutors
import QiongQi.SteeringDelivery
import QiongQi.OpenItems
import QiongQi.OwnerListings
import QiongQi.ItemUpdates
import QiongQi.EffectRecords
import QiongQi.StaleWorkers
import QiongQi.SpokenTexts
import QiongQi.ProtectedSegments
import QiongQi.MiddlewareChains
import QiongQi.StreamedCalls
import QiongQi.RunVersions
import QiongQi.OutboxFlushes
import QiongQi.OutboxDelivery
import QiongQi.ToolCallBudgets
import QiongQi.ToolDispatch
import QiongQi.Delegations
import QiongQi.LockedCalls
import QiongQi.EventAppends
import QiongQi.CompactionTransactions
import QiongQi.RuntimeReplays
import QiongQi.UsageRestarts
import QiongQi.TurnDiscards
import QiongQi.ApprovalGates
import QiongQi.A2aTasks
import QiongQi.AttachmentScopes
import QiongQi.InlineReasoning
import QiongQi.ThreadStatuses
import QiongQi.RunStoreEquivalence
import QiongQi.GraphCycles
import QiongQi.GraphEntries
import QiongQi.GovernorRuns
import QiongQi.TodoHistories
import QiongQi.NodeRetries
import QiongQi.PlanPatches
import QiongQi.CommandRuns
import QiongQi.DecodedChunks
import QiongQi.UniqueEdits
import QiongQi.HistoryPairing
import QiongQi.RequestBudgets
import QiongQi.ContextCompactions
import QiongQi.EvidenceCounts
import QiongQi.CanonicalCommands
import QiongQi.ReadTrackers
import QiongQi.ToolResultBudgets
import QiongQi.CompletionFlags
import QiongQi.UntaggedTexts
import QiongQi.StreamedUsage
import QiongQi.LruCaches
import QiongQi.ThreadRoundTrips
import QiongQi.AuthLogouts
import QiongQi.KernelLogs
import QiongQi.FinishedRuns
