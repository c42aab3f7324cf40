import EveBox.Lib.KWayMerge
import EveBox.Lib.Transition
import EveBox.Rust.Prelude
import EveBox.Pcap.Writer
import EveBox.Pcap.Fetch
import EveBox.Pcap.FetchTheorems
import EveBox.Pcap.Outcome
import EveBox.Pcap.Spool
import EveBox.Pcap.SpoolTheorems
import EveBox.Agent.Protocol
import EveBox.Agent.ChannelWriter
import EveBox.Agent.Job
import EveBox.Agent.JobTheorems
import EveBox.Server.Agents
import EveBox.Server.AgentsTheorems
import EveBox.Server.LaneTheorems
import EveBox.Server.Tasks
import EveBox.Server.Dispatch
import EveBox.Server.TasksTheorems
import EveBox.Server.DispatchTheorems
import EveBox.Server.Classify
import EveBox.Server.Stream
import EveBox.Server.StreamTheorems
import EveBox.Server.Upload
import EveBox.Capture.System
import EveBox.Capture.Agreement
import EveBox.Server.LocalWriter
import EveBox.Server.Local
import EveBox.Server.LocalTheorems
import EveBox.Agent.Connection
import EveBox.Agent.JobProgress
import EveBox.Agent.ConnectionTheorems
import EveBox.Lib.Lines
import EveBox.Rust.Text
import EveBox.Eve.Reader
import EveBox.Eve.Processor
import EveBox.Eve.ProcessorTheorems
import EveBox.Eve.Resume
import EveBox.Eve.Restart
import EveBox.Eve.Rotation
import EveBox.Eve.RotationLaw
import EveBox.Eve.Event
import EveBox.Sink.Agent
import EveBox.Sink.Sqlite
import EveBox.Sink.EventSink
import EveBox.Sink.BatchTheorems
import EveBox.Sink.Bulk
import EveBox.Sink.BulkTheorems
import EveBox.Sqlite.Value
import EveBox.Lib.Grouping
import EveBox.Sqlite.Alerts
import EveBox.Sqlite.AlertsTheorems
import EveBox.Sqlite.AlertGroup
import EveBox.Sqlite.ArchiveTheorems
import EveBox.Elastic.AlertGroup
import EveBox.Elastic.ScriptTheorems
import EveBox.Sqlite.AlertGroupTheorems
import EveBox.Elastic.AlertGroupTheorems
import EveBox.Lib.SqlTokens
import EveBox.Repo.AlertGroupTheorems
import EveBox.Repo.QueryParser
import EveBox.Sqlite.Builder
import EveBox.Pcap.RoundTrip
import EveBox.Repo.QueryParserTheorems
import EveBox.Server.Routing
import EveBox.Lib.OnesComplement
import EveBox.Rust.Net
import EveBox.Pcap.Payload
import EveBox.Pcap.PayloadTheorems
import EveBox.Lib.Bpf
import EveBox.Pcap.FlowFilter
import EveBox.Pcap.FlowFilterTheorems
import EveBox.Server.AutoArchive
import EveBox.Server.AutoArchiveTheorems
import EveBox.Sqlite.Fts
import EveBox.Sqlite.FtsTheorems
import EveBox.Pcap.Accounting
import EveBox.Elastic.QueryString
import EveBox.Elastic.QueryStringTheorems
import EveBox.Lib.Kleene
import EveBox.Sqlite.Search
import EveBox.Sqlite.SearchTheorems
import EveBox.Repo.AlertBounds
import EveBox.Sqlite.Retention
import EveBox.Sqlite.RetentionTheorems
import EveBox.Sqlite.Agg
import EveBox.Sqlite.Histogram
import EveBox.Sqlite.References
import EveBox.Sqlite.AggTheorems
import EveBox.Sqlite.HistogramTheorems
import EveBox.Lib.Fts5
import EveBox.Sqlite.MatchText
import EveBox.Eve.DateTimeTheorems
import EveBox.Lib.Unicode61
import EveBox.Sqlite.Prefilter
import EveBox.Eve.Filters
import EveBox.Eve.FiltersTheorems
import EveBox.Sink.SubmitTheorems
import EveBox.Lib.SqlParts
import EveBox.Rust.Numbers
import EveBox.Lib.SortedMap
import EveBox.Eve.Inputs
import EveBox.Sqlite.Dhcp
import EveBox.Sqlite.Stats
import EveBox.Sqlite.StatsTheorems
import EveBox.Pcap.FileName
import EveBox.Sqlite.TokenStructure
import EveBox.Sqlite.TokenStructureTheorems
import EveBox.Agent.Upload
import EveBox.Agent.UploadTheorems
import EveBox.Lib.Calendar
import EveBox.Lib.FixedPattern
import EveBox.Elastic.Retention
import EveBox.Elastic.RetentionTheorems
import EveBox.Rules.Load
import EveBox.Rules.LoadTheorems
import EveBox.Rules.Watch
import EveBox.Rules.WatchTheorems
import EveBox.Eve.Socket
import EveBox.Eve.SocketTheorems
import EveBox.Pcap.Timeframe
import EveBox.Pcap.TimeframeTheorems
import EveBox.Rust.JsonText
import EveBox.Agent.AsciiJson
import EveBox.Lib.JsonTokens
import EveBox.Server.Session
import EveBox.Server.SessionTheorems
import EveBox.Server.SessionLifetime
import EveBox.Server.AgentKeys
import EveBox.Server.AgentKeysTheorems
import EveBox.Pcap.Purge
import EveBox.Pcap.PurgeTheorems
import EveBox.Server.FilterMatch
import EveBox.Repo.History
import EveBox.Elastic.ScriptLaws
import EveBox.Elastic.AutoArchive
import EveBox.Elastic.AutoArchiveDocs
import EveBox.Elastic.AutoArchiveTheorems
import EveBox.Repo.Triage
import EveBox.Sqlite.Triage
import EveBox.Elastic.Triage
import EveBox.Repo.TriageTheorems
import EveBox.Rust.Utf8
import EveBox.Rust.JsonRoundTrip
import EveBox.Server.Submit
import EveBox.Server.SubmitTheorems
import EveBox.Eve.Watcher
import EveBox.Eve.WatcherTheorems
import EveBox.Server.RoutingTable
import EveBox.Server.RoutingTableTheorems
