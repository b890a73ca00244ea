import Kids.Client.Reply
import Kids.Client.Request
import Kids.Worker.PubSub

/-!
`ProcessCommand` and the command handlers of `client.cc` and `pubsub.cc`: the replies they make and what
they do to the subscriptions of the client. A protocol error that `ParseRequestBuffer` replies to is here
as well. The tables of the worker that the handlers keep beside the subscriptions are those of `Worker`.
-/

namespace Kids

open Bytes

inductive Command
  | quit
  | ping
  | info
  | log
  | subscribe
  | psubscribe
  | unsubscribe
  | punsubscribe
  | shutdown
  | select
  | hello
  | other
  deriving DecidableEq, Repr

namespace Command

-- the comparisons of `ProcessCommand`, in their order
def names : List (String × Command) := [
  ("quit", .quit),
  ("ping", .ping),
  ("info", .info),
  ("publish", .log),
  ("log", .log),
  ("subscribe", .subscribe),
  ("psubscribe", .psubscribe),
  ("unsubscribe", .unsubscribe),
  ("punsubscribe", .punsubscribe),
  ("shutdown", .shutdown),
  ("select", .select),
  ("hello", .hello)
]

def ofName (name : Bytes) : Command :=
  match names.find? (fun entry => strcaseeq name (ofString entry.1)) with
  | some entry => entry.2
  | none => .other

end Command

inductive SubscriptionKind
  | topic
  | pattern

namespace SubscriptionKind

def subscribebulk : SubscriptionKind → Bytes
  | topic => ofString "$9\r\nsubscribe\r\n"
  | pattern => ofString "$10\r\npsubscribe\r\n"

def unsubscribebulk : SubscriptionKind → Bytes
  | topic => ofString "$11\r\nunsubscribe\r\n"
  | pattern => ofString "$12\r\npunsubscribe\r\n"

def wrongNumber : SubscriptionKind → Bytes
  | topic => ofString "wrong number of arguments for 'subscribe' command"
  | pattern => ofString "wrong number of arguments for 'psubscribe' command"

end SubscriptionKind

namespace Subscriber

def names (sub : Subscriber) : SubscriptionKind → List Bytes
  | .topic => sub.subTopics
  | .pattern => sub.subPatterns

def setNames (sub : Subscriber) (k : SubscriptionKind) (names : List Bytes) : Subscriber :=
  match k with
  | .topic => { sub with subTopics := names }
  | .pattern => { sub with subPatterns := names }

-- `sub_topics_.size() + sub_patterns_.size()`
def count (sub : Subscriber) : Nat :=
  sub.subTopics.length + sub.subPatterns.length

def insert (sub : Subscriber) (k : SubscriptionKind) (name : Bytes) : Subscriber :=
  if (sub.names k).contains name then
    sub
  else
    sub.setNames k (sub.names k ++ [name])

def erase (sub : Subscriber) (k : SubscriptionKind) (name : Bytes) : Subscriber :=
  sub.setNames k ((sub.names k).erase name)

end Subscriber

/--
What a command reads from outside of its client: the configured limits and the clock, whether
`PutMessage` takes the message of a `log`, the text that `ProcessInfo` has put together, and where `begin` of
its sets stands.
-/
structure CommandEnv where
  nlimit : LimitType → LimitConfig
  unixtime : Int
  putMessage : Bool
  info : Bytes
  order : BeginOrder Bytes

structure Session where
  reply : Reply
  sub : Subscriber

namespace Session

def replyEnv (env : CommandEnv) (s : Session) : ReplyEnv where
  nlimit := env.nlimit
  unixtime := env.unixtime
  subscribed := s.sub.subTopics.length > 0 || s.sub.subPatterns.length > 0

def call (env : CommandEnv) (s : Session) (r : ReplyCall) : Option Session :=
  (r.run (s.replyEnv env) s.reply).map fun reply => { s with reply := reply }

def repOk : Bytes := ofString "+OK\r\n"
def repPong : Bytes := ofString "+PONG\r\n"

def notifyClient (env : CommandEnv) (s : Session) (kindbulk name : Bytes) : Option Session := do
  let s ← s.call env (.reply Reply.repMbulk3)
  let s ← s.call env (.reply kindbulk)
  let s ← s.call env (.replyBulk name)
  s.call env (.replyLongLong s.sub.count)

def subscribeEach (k : SubscriptionKind) (env : CommandEnv) (s : Session) : List Bytes → Option Session
  | [] => some s
  | name :: names => do
    let s ← { s with sub := s.sub.insert k name }.notifyClient env k.subscribebulk name
    s.subscribeEach k env names

def subscribeNames (k : SubscriptionKind) (env : CommandEnv) (s : Session) (args : List Bytes) : Option Session :=
  if args = [] then
    s.call env (.replyErrorFormat k.wrongNumber)
  else
    s.subscribeEach k env args

def unsubscribeName (k : SubscriptionKind) (env : CommandEnv) (s : Session) (name : Bytes) : Option Session := do
  -- the reply is made before the name goes, with the number of subscriptions until then
  let s ← s.notifyClient env k.unsubscribebulk name
  some { s with sub := s.sub.erase k name }

def unsubscribeEach (k : SubscriptionKind) (env : CommandEnv) (s : Session) : List Bytes → Option Session
  | [] => some s
  | name :: names => do
    let s ← s.unsubscribeName k env name
    s.unsubscribeEach k env names

-- a round of the loop removes a name, so the number of names is enough fuel
def unsubscribeAll (k : SubscriptionKind) (env : CommandEnv) (fuel : Nat) (s : Session) : Option Session :=
  match fuel, s.sub.names k with
  | _, [] => some s
  | 0, _ :: _ => none
  | fuel + 1, name :: names => do
    let s ← s.unsubscribeName k env (env.order.first name names)
    unsubscribeAll k env fuel s

def unsubscribeNames (k : SubscriptionKind) (env : CommandEnv) (s : Session) (args : List Bytes) : Option Session :=
  if args = [] then
    s.unsubscribeAll k env (s.sub.names k).length
  else
    s.unsubscribeEach k env args

def processSubscribe : CommandEnv → Session → List Bytes → Option Session :=
  subscribeNames .topic

def processPSubscribe : CommandEnv → Session → List Bytes → Option Session :=
  subscribeNames .pattern

def processUnSubscribe : CommandEnv → Session → List Bytes → Option Session :=
  unsubscribeNames .topic

def processPUnSubscribe : CommandEnv → Session → List Bytes → Option Session :=
  unsubscribeNames .pattern

def processQuit (env : CommandEnv) (s : Session) : Option Session := do
  let s ← s.call env (.reply repOk)
  some { s with reply.closeAfterReply := true }

def processLog (env : CommandEnv) (s : Session) (args : List Bytes) : Option Session :=
  if args.length ≠ 2 then
    s.call env (.replyErrorFormat (ofString "invalid argments of log"))
  else if env.putMessage then
    s.call env (.reply Reply.repCone)
  else
    s.call env (.replyErrorFormat (ofString "Some thing bad happens!"))

def redisCmd : List String := [
  "get", "set", "setnx", "setex", "psetex", "append", "strlen", "del", "exists", "setbit", "getbit", "setrange",
  "getrange", "substr", "incr", "decr", "mget", "rpush", "lpush", "rpushx", "lpushx", "linsert", "rpop", "lpop",
  "brpop", "brpoplpush", "blpop", "llen", "lindex", "lset", "lrange", "ltrim", "lrem", "rpoplpush", "sadd", "srem",
  "smove", "sismember", "scard", "spop", "srandmember", "sinter", "sinterstore", "sunion", "sunionstore", "sdiff",
  "sdiffstore", "smembers", "zadd", "zincrby", "zrem", "zremrangebyscore", "zremrangebyrank", "zunionstore",
  "zinterstore", "zrange", "zrangebyscore", "zrevrangebyscore", "zcount", "zrevrange", "zcard", "zscore", "zrank",
  "zrevrank", "hset", "hsetnx", "hget", "hmset", "hmget", "hincrby", "hincrbyfloat", "hdel", "hlen", "hkeys",
  "hvals", "hgetall", "hexists", "incrby", "decrby", "incrbyfloat", "getset", "mset", "msetnx", "randomkey",
  "select", "move", "rename", "renamenx", "expire", "expireat", "pexpire", "pexpireat", "keys", "dbsize", "auth",
  "ping", "echo", "save", "bgsave", "bgrewriteaof", "shutdown", "lastsave", "type", "multi", "exec", "discard",
  "sync", "flushdb", "flushall", "sort", "info", "monitor", "ttl", "pttl", "persist", "slaveof", "debug", "config",
  "subscribe", "unsubscribe", "psubscribe", "punsubscribe", "publish", "watch", "unwatch", "cluster", "restore",
  "migrate", "asking", "dump", "object", "client", "eval", "evalsha", "slowlog", "script"
]

def otherText (name : Bytes) : Bytes :=
  if redisCmd.any (fun cmd => strcaseeq (ofString cmd) name) then
    ofString "Sorry this is KIDS but not Redis, '" ++ cstr name ++ ofString "' is not supported"
  else
    ofString "Unknown command '" ++ cstr name ++ ofString "'"

def processOther (env : CommandEnv) (s : Session) (name : Bytes) : Option Session :=
  s.call env (.replyErrorFormat (otherText name))

/--
`ProcessCommand`. The value that it returns says whether the argument vector is reset.
-/
def processCommand (env : CommandEnv) (s : Session) (argv : List Bytes) : Option (Session × Bool) :=
  let name := argv.headD []
  let args := argv.tail
  match Command.ofName name with
  | .quit => (s.processQuit env).map (., false)
  | .ping => (s.call env (.reply repPong)).map (., true)
  | .info => (s.call env (.replyBulk env.info)).map (., true)
  | .log => (s.processLog env args).map (., true)
  | .subscribe => (s.processSubscribe env args).map (., true)
  | .psubscribe => (s.processPSubscribe env args).map (., true)
  | .unsubscribe => (s.processUnSubscribe env args).map (., true)
  | .punsubscribe => (s.processPUnSubscribe env args).map (., true)
  -- the signal that the process sends to itself is not answered
  | .shutdown => some (s, true)
  | .select => (s.call env (.reply repOk)).map (., true)
  | .hello => (s.call env (.replyStatusFormat (ofString "World!"))).map (., true)
  | .other => (s.processOther env name).map (., true)

def protocolErrorText (got : UInt8) : Bytes :=
  ofString "Protocol error: expected '$', got '" ++ [got] ++ ofString "'"

def replyProtocolError (env : CommandEnv) (s : Session) : ProtocolError → Option Session
  -- the one error that is not answered
  | .invalidMultibulkLength => some s
  | .expectedDollar got => s.call env (.replyErrorFormat (protocolErrorText got))
  | .invalidBulkLength => s.call env (.replyErrorFormat (ofString "Protocol error: invalid bulk length"))

def processProtocolError (env : CommandEnv) (s : Session) (err : ProtocolError) : Option Session := do
  let s ← s.replyProtocolError env err
  some { s with reply.closeAfterReply := true }

def handle (env : CommandEnv) (s : Session) : RequestEvent → Option Session
  | .command argv => (s.processCommand env argv).map Prod.fst
  | .protocolError err => s.processProtocolError env err

end Session
end Kids
