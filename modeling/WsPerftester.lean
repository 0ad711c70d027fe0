import WsPerftester.Lib.TransitionSystem
import WsPerftester.Lib.Observations
import WsPerftester.Lib.Fairness
import WsPerftester.Lib.Population
import WsPerftester.Lib.TextStream
import WsPerftester.Lib.EarlyExit
import WsPerftester.Lib.Deviations
import WsPerftester.Lib.Registers
import WsPerftester.Lib.Bytes
import WsPerftester.Lib.QuotedString
import WsPerftester.Messages.Broadcasts
import WsPerftester.Messages.ResultStream
import WsPerftester.Messages.Statistics
import WsPerftester.Coordination.Parties
import WsPerftester.Coordination.Changes
import WsPerftester.Coordination.System
import WsPerftester.Coordination.Subscriptions
import WsPerftester.Coordination.ListenerBarrier
import WsPerftester.Coordination.OneIteration
import WsPerftester.Coordination.ProcessBarrier
import WsPerftester.Coordination.StartBarriers
import WsPerftester.Coordination.Collection
import WsPerftester.Coordination.Results
import WsPerftester.Coordination.Requests
import WsPerftester.Coordination.DoTheWork
import WsPerftester.Coordination.Reaping
import WsPerftester.Coordination.Script
import WsPerftester.Coordination.Following
import WsPerftester.Coordination.Leftovers
import WsPerftester.Coordination.Families
import WsPerftester.Coordination.Deaths
import WsPerftester.Coordination.Calls
import WsPerftester.Coordination.Gathering
import WsPerftester.Coordination.Filling
import WsPerftester.Coordination.Finishing
import WsPerftester.Coordination.Ending
import WsPerftester.Coordination.Stranded
import WsPerftester.Coordination.Reading
import WsPerftester.Client.TelemetryClient
import WsPerftester.Client.Echoes
import WsPerftester.Client.Verdict
import WsPerftester.Client.Completion
import WsPerftester.Client.Termination
import WsPerftester.Client.SendDiscipline
import WsPerftester.Client.Links
import WsPerftester.Client.PrimaryLookup
import WsPerftester.Client.Closing
import WsPerftester.Client.ClientId
import WsPerftester.Client.Handover
import WsPerftester.Reports.RoundTrip
import WsPerftester.Reports.Pooling
import WsPerftester.Reports.SetupLatency
import WsPerftester.Reports.SetupTime
import WsPerftester.Reports.Overflow
import WsPerftester.Reports.Workload
import WsPerftester.Reports.ConnectOnly
import WsPerftester.Reports.Iteration
import WsPerftester.Reports.Service
import WsPerftester.Reports.Returning
import WsPerftester.Reports.PlainClient
