import Kids.Lib.Run
import Kids.Lib.Index
import Kids.Lib.Resumable
import Kids.Util.Bytes
import Kids.Util.Protocol
import Kids.Util.String2ll
import Kids.Buffer.Basic
import Kids.Buffer.Lemmas
import Kids.Buffer.Outgoing
import Kids.Client.Request
import Kids.Client.RequestMachine
import Kids.Client.RequestLemmas
import Kids.Client.Chunking
import Kids.Client.Encoding
import Kids.Client.Reply
import Kids.Client.ReplyLemmas
import Kids.Client.Command
import Kids.Client.Framing
import Kids.Client.EventLoop
import Kids.Client.Closing
import Kids.Client.Ownership
import Kids.Client.OwnershipLemmas
import Kids.Lib.SharedLog
import Kids.Message
import Kids.MessageQueue.Basic
import Kids.MessageQueue.Lemmas
import Kids.MessageQueue.Safety
import Kids.Notify.Basic
import Kids.Notify.Protocol
import Kids.Worker.PubSub
import Kids.Worker.PubSubLemmas
import Kids.Worker.PubSubSafety
import Kids.Master.MaxClients
import Kids.Master.DropStat
import Kids.Storer.Reload
import Kids.Store.File
import Kids.Store.FileLemmas
import Kids.Store.FileStore
import Kids.Store.FileStoreLemmas
import Kids.Store.FileStoreFaults
import Kids.Store.FileStoreFaultsLemmas
import Kids.Store.BufferStore
import Kids.Store.BufferStoreLemmas
import Kids.Store.BufferRun
import Kids.Store.BufferStat
import Kids.Store.FileOrder
import Kids.Store.BufferOrder
import Kids.Store.StoreTree
import Kids.Store.StoreTreeLemmas
import Kids.Store.Recovery
import Kids.Store.Agent
import Kids.Store.AgentLemmas
import Kids.Store.Forwarding
import Kids.Store.NetworkStore
import Kids.Store.NetworkStoreLemmas
import Kids.Lib.ShiftReduce
import Kids.Util.Units
import Kids.Conf.Config
import Kids.Conf.Lexer
import Kids.Conf.LexerLemmas
import Kids.Conf.Parser
import Kids.Conf.Syntax
import Kids.Conf.SyntaxLemmas
import Kids.Conf.ParserLemmas
import Kids.Conf.Reading
import Kids.Store.Create
import Kids.Conf.Accepted
import Kids.Conf.Instantiate
import Kids.Lib.Wildcard
import Kids.Util.StringMatch
import Kids.Util.Pattern
import Kids.Util.StringMatchLemmas
import Kids.Util.Glob
import Kids.Util.IgnoreCase
import Kids.GoClient.Response
import Kids.GoClient.ServerFrames
import Kids.GoClient.Routine
import Kids.GoClient.Pairing
import Kids.Store.AgentReplies
import Kids.Store.FileReader
import Kids.Store.Draining
import Kids.Store.DrainingLemmas
import Kids.Lib.LexicalPath
import Kids.Lib.Template
import Kids.Store.FileName
import Kids.Store.FileNameLemmas
import Kids.Store.LogPath
import Kids.Store.TransferQueue
import Kids.Client.SoftLimit
import Kids.Client.Confirmations
import Kids.Store.Rotation
import Kids.Util.UnitsLemmas
import Kids.Conf.Limits
import Kids.Store.RotateInterval
import Kids.Store.TopicFilter
import Kids.Conf.Words
import Kids.Lib.Heap
import Kids.Buffer.Memory
import Kids.Buffer.MemoryLemmas
import Kids.Buffer.Allocation
import Kids.Buffer.Range
import Kids.Buffer.Sharing
import Kids.Buffer.Values
import Kids.Lib.Overwrite
import Kids.Conf.Fields
import Kids.Conf.Ordering
import Kids.Notify.QueueBound
import Kids.Master.Handoff
import Kids.Util.Ll2string
import Kids.Store.MakeName
import Kids.Buffer.Printf
import Kids.Server.Thread
import Kids.Server.Basic
import Kids.Server.Transition
import Kids.Server.ThreadLemmas
import Kids.Server.Broadcast
import Kids.Server.Subscriptions
import Kids.Server.Says
import Kids.Server.Stream
import Kids.Server.Requests
import Kids.Server.Accounting
import Kids.Server.Provenance
import Kids.GoClient.Request
import Kids.Server.GoCalls
import Kids.Conf.Resumption
import Kids.Conf.Completeness
import Kids.Store.ReplyLines
import Kids.Server.LogAnswers
import Kids.Server.Traffic
import Kids.Server.Relay
import Kids.Lib.Spread
import Kids.Store.Ledger
import Kids.Store.Policies
import Kids.Storer.Ledger
import Kids.Store.Defined
