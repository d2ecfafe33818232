import ElasticFramework.Construction.Inversion
import ElasticFramework.Properties.Bookkeeping
import ElasticFramework.Properties.Coherence
import ElasticFramework.Properties.Tokens
import ElasticFramework.Properties.SerialExecution
import ElasticFramework.Properties.Scheduling
import ElasticFramework.Properties.Fairness
import ElasticFramework.Properties.Pairing
import ElasticFramework.Properties.DeferredArgs
import ElasticFramework.Properties.RoundTrip
import ElasticFramework.Properties.Framing
import ElasticFramework.Properties.Constants
import ElasticFramework.Properties.ControlMessages
import ElasticFramework.Construction.Handles
import ElasticFramework.Construction.Session
import ElasticFramework.Properties.Replies
import ElasticFramework.Properties.HandleAgreement
import ElasticFramework.Construction.Catchers
import ElasticFramework.Properties.Landing
import ElasticFramework.Construction.Transfers
import ElasticFramework.Properties.WakeUps
import ElasticFramework.Construction.Teardown
import ElasticFramework.Properties.TearingDown
import ElasticFramework.Construction.Clients
import ElasticFramework.Properties.Isolation
import ElasticFramework.Construction.Dispatcher
import ElasticFramework.Properties.Nodes
import ElasticFramework.Properties.Direction
import ElasticFramework.Properties.Lookup
import ElasticFramework.Properties.Deregistration
import ElasticFramework.Construction.Backlog
import ElasticFramework.Properties.Dangling
import ElasticFramework.Framework.Cosine
import ElasticFramework.Properties.QueueChoice
import ElasticFramework.Construction.Rounds
import ElasticFramework.Properties.BufferArgs
import ElasticFramework.Construction.Geometry
import ElasticFramework.Construction.BestNodes
import ElasticFramework.Properties.LaunchGeometry
import ElasticFramework.Properties.BestNodes
import ElasticFramework.Construction.NodeList
import ElasticFramework.Properties.NodeList
import ElasticFramework.Construction.RecvLoop
import ElasticFramework.Properties.RecvLoop
import ElasticFramework.Construction.SourceArgs
import ElasticFramework.Properties.SourceArgs
import ElasticFramework.Construction.CopyRange
import ElasticFramework.Properties.CopyRange
import ElasticFramework.Properties.Binding
import ElasticFramework.Construction.Registration
import ElasticFramework.Properties.Registration
import ElasticFramework.Construction.Devices
import ElasticFramework.Properties.Devices
import ElasticFramework.Construction.ElasticIO
import ElasticFramework.Properties.ElasticIO
import ElasticFramework.Properties.ElasticRun
import ElasticFramework.Properties.History
import ElasticFramework.Properties.Parameters
import ElasticFramework.Properties.Comments
import ElasticFramework.Framework.Loop
import ElasticFramework.Construction.Platforms
import ElasticFramework.Properties.Platforms
import ElasticFramework.Construction.SockIO
import ElasticFramework.Properties.SockIO
import ElasticFramework.Construction.CpuTime
import ElasticFramework.Properties.CpuTime
import ElasticFramework.Construction.RunThreads
import ElasticFramework.Properties.RunThreads
import ElasticFramework.Construction.Singleton
import ElasticFramework.Properties.Singleton
import ElasticFramework.Framework.Rounding
import ElasticFramework.Construction.HistoryLookup
import ElasticFramework.Properties.HistoryLookup
import ElasticFramework.Construction.NodeMemory
import ElasticFramework.Framework.Deferred
import ElasticFramework.Properties.Naming
import ElasticFramework.Properties.Owed
import ElasticFramework.Properties.SessionNames
import ElasticFramework.Properties.Transparency
import ElasticFramework.Properties.EndToEnd
import ElasticFramework.Properties.Draining
import ElasticFramework.Properties.FinishReturns
import ElasticFramework.Properties.OneDevice
import ElasticFramework.Properties.WinnerTakesAll
import ElasticFramework.Construction.LevelCalls
import ElasticFramework.Construction.ElasticRun
import ElasticFramework.Properties.NeverReturns
import ElasticFramework.Framework.Steering
import ElasticFramework.Properties.Shares
import ElasticFramework.Properties.CleanSlate
