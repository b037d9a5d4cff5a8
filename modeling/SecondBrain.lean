import SecondBrain.Lib.Calendar
import SecondBrain.GoogleOauth.Decoding
import SecondBrain.ContextHub.Continuation
import SecondBrain.AgentRuns.ResultHistory
import SecondBrain.AgentRuns.LateResults
import SecondBrain.AgentRuns.Replays
import SecondBrain.AgentRuns.Decisions
import SecondBrain.AgentRuns.Quiet
import SecondBrain.Calendar.Query
import SecondBrain.Calendar.Versions
import SecondBrain.Calendar.Settlement
import SecondBrain.Connectors.Settlement
import SecondBrain.Connectors.Drift
import SecondBrain.Connectors.Importing
import SecondBrain.RetrievalEvaluation.Service
import SecondBrain.Calendar.Sharing
import SecondBrain.Memories.Reembedding
import SecondBrain.Lib.Succession
import SecondBrain.Lib.Locks
import SecondBrain.Knowledge.CaptureKeys
import SecondBrain.ContextHub.Access
import SecondBrain.GoogleOauth.Fencing
import SecondBrain.Automations.Coordinator
import SecondBrain.Knowledge.Evidence
import SecondBrain.Calendar.Privacy
import SecondBrain.Automations.CatchUp
import SecondBrain.Memories.PlainSearch
import SecondBrain.AgentPlanning.Agreement
import SecondBrain.AgentPlanning.Freezing
import SecondBrain.MemoryQuality.Contradiction
import SecondBrain.MemoryQuality.Similarity
import SecondBrain.Answers.Service
import SecondBrain.Knowledge.CapturePages
import SecondBrain.Agents.CuratorAcceptance
import SecondBrain.AgentRuns.RecoveryScan
import SecondBrain.ContextHub.TextFilter
import SecondBrain.Knowledge.Promotions
import SecondBrain.Automations.Rows
import SecondBrain.Automations.Service
import SecondBrain.Automations.Scheduler
import SecondBrain.Automations.SchedulerSteps
import SecondBrain.Automations.SchedulerRuns
import SecondBrain.Automations.OneRun
import SecondBrain.Automations.Leases
import SecondBrain.Automations.OpenSlots
import SecondBrain.Automations.Capacity
import SecondBrain.Automations.Notices
import SecondBrain.Knowledge.Supersession
