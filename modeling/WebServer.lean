import WebServer.Base.Bytes
import WebServer.Base.BoundedMap
import WebServer.Base.CLib
import WebServer.Base.Entries
import WebServer.Base.FileSystem
import WebServer.Base.Holding
import WebServer.Base.Machine
import WebServer.Base.History
import WebServer.Base.Interrupt
import WebServer.Base.Rank
import WebServer.Base.Landing
import WebServer.Base.Reader
import WebServer.Base.Recency
import WebServer.Base.Nested
import WebServer.Base.Layers
import WebServer.Base.Serial
import WebServer.Base.Sectioned
import WebServer.Base.Tally
import WebServer.Http.Request
import WebServer.Http.Response
import WebServer.Http.Parser
import WebServer.Http.Feed
import WebServer.Server.Connection
import WebServer.Server.Conversation
import WebServer.Server.Handler
import WebServer.Server.Steps
import WebServer.Server.Crowd
import WebServer.Json.Grammar
import WebServer.Json.Lexer
import WebServer.Json.Flat
import WebServer.Api.Text
import WebServer.Http.Client
import WebServer.Http.Query
import WebServer.Http.Router
import WebServer.Api.KvStore
import WebServer.Api.Sharing
import WebServer.Static.LruCache
import WebServer.Static.Handler
import WebServer.Static.Sharing
import WebServer.Server.Routes
import WebServer.Server.Site
import WebServer.Config.Settings
import WebServer.Log.Logger
import WebServer.Metrics.Counters
import WebServer.Metrics.Recorders
import WebServer.Metrics.Stats
import WebServer.Pool.Model
import WebServer.Pool.Waiting
import WebServer.Pool.Sections
import WebServer.Server.Hosting
import WebServer.Pool.Server
import WebServer.Reactor.Model
import WebServer.Reactor.Sections
import WebServer.Reactor.Server
import WebServer.Laws.Http.Parse
import WebServer.Laws.Http.Grammar
import WebServer.Laws.Http.HeaderTable
import WebServer.Laws.Http.Refusals
import WebServer.Laws.Http.Framing
import WebServer.Laws.Http.Chunking
import WebServer.Laws.Http.RoundTrip
import WebServer.Laws.Http.Client
import WebServer.Laws.Http.Decimal
import WebServer.Laws.Http.Query
import WebServer.Laws.Http.Router
import WebServer.Laws.Http.Retention
import WebServer.Laws.Http.LineFeeds
import WebServer.Laws.Server.Calls
import WebServer.Laws.Server.Steps
import WebServer.Laws.Server.Crowd
import WebServer.Laws.Server.Delivery
import WebServer.Laws.Server.Answers
import WebServer.Laws.Server.EndOfStream
import WebServer.Laws.Server.LastWord
import WebServer.Laws.Server.Mirror
import WebServer.Laws.Server.ReadBuffer
import WebServer.Laws.Server.Responses
import WebServer.Laws.Server.Dialogue
import WebServer.Laws.Server.Hosting
import WebServer.Server.Main
import WebServer.Laws.Server.Errands
import WebServer.Laws.Server.Main
import WebServer.Laws.Server.Published
import WebServer.Laws.Server.Sent
import WebServer.Laws.Api.Escape
import WebServer.Laws.Api.Listing
import WebServer.Laws.Api.FlatJson
import WebServer.Laws.Api.RoundTrip
import WebServer.Laws.Api.BoundedMap
import WebServer.Laws.Api.Form
import WebServer.Laws.Api.Fetch
import WebServer.Laws.Api.Restore
import WebServer.Laws.Static.Cache
import WebServer.Laws.Static.Lru
import WebServer.Laws.Static.Inclusion
import WebServer.Laws.Static.Bounded
import WebServer.Laws.Static.Containment
import WebServer.Laws.Static.Sharing
import WebServer.Laws.Config.Layers
import WebServer.Laws.Config.Port
import WebServer.Laws.Log.Logger
import WebServer.Laws.Log.Records
import WebServer.Laws.Metrics.Counters
import WebServer.Laws.Metrics.Percentile
import WebServer.Laws.Metrics.Recorders
import WebServer.Laws.Metrics.Stats
import WebServer.Laws.Metrics.StatsText
import WebServer.Laws.Pool.Moves
import WebServer.Laws.Pool.Wakeup
import WebServer.Laws.Pool.Descriptors
import WebServer.Laws.Pool.Ownership
import WebServer.Laws.Pool.Serving
import WebServer.Laws.Pool.Server
import WebServer.Laws.Pool.Idle
import WebServer.Laws.Pool.Accounting
import WebServer.Laws.Pool.Heard
import WebServer.Laws.Pool.Shutdown
import WebServer.Laws.Pool.Sweep
import WebServer.Laws.Reactor.Moves
import WebServer.Laws.Reactor.Tables
import WebServer.Laws.Reactor.Server
import WebServer.Laws.Reactor.Idle
import WebServer.Laws.Reactor.Sweep
import WebServer.Laws.Idle
import WebServer.Laws.Reactor.Shutdown
import WebServer.Laws.Reactor.Accounting
import WebServer.Laws.Shutdown
import WebServer.Laws.Main
import WebServer.Laws.Signal
