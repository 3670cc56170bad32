import GeistServe.Lib.Machine
import GeistServe.Lib.Agree
import GeistServe.Geistd.Wire
import GeistServe.Geistd.Platform
import GeistServe.Geistd.Session
import GeistServe.Geistd.Chat
import GeistServe.Geistd.Handle
import GeistServe.Proofs.SessionMirror
import GeistServe.Geistd.Plain
import GeistServe.Geistd.Main
import GeistServe.Proofs.HelloGate
import GeistServe.App.Held
import GeistServe.Proofs.ChatSend
import GeistServe.Proofs.ChatTable
import GeistServe.Proofs.ChatMirror
import GeistServe.Proofs.FollowUp
import GeistServe.Lib.Files
import GeistServe.Perf.Journal
import GeistServe.Perf.Plain
import GeistServe.Proofs.Segments
import GeistServe.Proofs.Compaction
import GeistServe.Proofs.Durability
import GeistServe.Supervisor.Child
import GeistServe.Supervisor.Sections
import GeistServe.Supervisor.Threads
import GeistServe.Proofs.OwnedProcess
import GeistServe.Supervisor.Moves
import GeistServe.Proofs.Backend
import GeistServe.Proofs.Deeds
import GeistServe.Proofs.Admission
import GeistServe.Proofs.Attribution
import GeistServe.Proofs.Fallback
import GeistServe.Proofs.Comparison
import GeistServe.Proofs.Selection
import GeistServe.Client.Framing
import GeistServe.Proofs.Framing
import GeistServe.Proofs.Eviction
import GeistServe.Json.Jsmn
import GeistServe.Json.Reader
import GeistServe.Json.Tree
import GeistServe.Proofs.Tokens
import GeistServe.Proofs.Lookup
import GeistServe.Json.Writer
import GeistServe.Client.Chat
import GeistServe.Geistd.ChatBody
import GeistServe.Proofs.ChatWire
import GeistServe.Proofs.PrefixReuse
import GeistServe.Lib.Seqlock
import GeistServe.Lifecycle.Channel
import GeistServe.Proofs.Lifecycle
import GeistServe.Perf.Service
import GeistServe.Lib.Window
import GeistServe.Proofs.Retention
import GeistServe.App.Observe
import GeistServe.Proofs.Recorded
import GeistServe.Proofs.Requests
import GeistServe.Proofs.Contention
import GeistServe.Proofs.Background
import GeistServe.Proofs.FailedStart
import GeistServe.App.Catalog
import GeistServe.Proofs.Catalog
import GeistServe.App.Proxy
import GeistServe.App.Reading
import GeistServe.Proofs.Events
import GeistServe.Geistd.Logits
import GeistServe.Lib.Best
import GeistServe.Proofs.Topk
import GeistServe.Proofs.Generate
import GeistServe.Geistd.Checked
import GeistServe.Proofs.Numbers
import GeistServe.Proofs.Growth
import GeistServe.Client.Hello
import GeistServe.Proofs.Hello
import GeistServe.Json.Spaced
import GeistServe.Proofs.Spaced
import GeistServe.Client.Strings
import GeistServe.Proofs.Codecs
import GeistServe.Proofs.Members
import GeistServe.Proofs.Trailing
import GeistServe.App.Activity
import GeistServe.Proofs.Activity
import GeistServe.Proofs.Memory
import GeistServe.Perf.Fields
import GeistServe.Perf.View
import GeistServe.Proofs.View
import GeistServe.Gguf.Meta
import GeistServe.Proofs.Prompt
import GeistServe.Gguf.Layout
import GeistServe.Proofs.Gguf
import GeistServe.Proofs.Split
import GeistServe.App.Jobs
import GeistServe.Proofs.Jobs
import GeistServe.Lib.Float
import GeistServe.Lib.Numeral
import GeistServe.Json.Number
import GeistServe.Perf.Text
import GeistServe.Proofs.RecordText
import GeistServe.Proofs.RoundTrip
import GeistServe.Lib.Fgets
import GeistServe.Perf.Load
import GeistServe.Proofs.Load
import GeistServe.Proofs.Room
import GeistServe.App.Storage
import GeistServe.Proofs.Storage
import GeistServe.Client.Copies
import GeistServe.Proofs.Copies
import GeistServe.Lib.Quantile
import GeistServe.Perf.Aggregate
import GeistServe.Proofs.Aggregate
import GeistServe.App.ProcStat
import GeistServe.Lib.Words
import GeistServe.Proofs.ProcStat
import GeistServe.App.Resources
import GeistServe.Proofs.Resources
import GeistServe.App.Recommend
import GeistServe.Proofs.Recommend
import GeistServe.Quality.Evidence
import GeistServe.Proofs.Evidence
import GeistServe.Lib.Search
import GeistServe.Lib.Peer
import GeistServe.App.Request
import GeistServe.Proofs.Arrival
import GeistServe.Proofs.Http
import GeistServe.Perf.Writer
import GeistServe.Proofs.Writer
import GeistServe.App.Compat
import GeistServe.Proofs.Primitive
import GeistServe.Proofs.Elements
import GeistServe.Proofs.Compat
import GeistServe.Proofs.Spelling
import GeistServe.Proofs.Answers
