import Kids.Client.EventLoop
import Kids.Message

/-!
A worker thread with its clients: the tables of `Worker`, the rest of each client and where the thread is in
`ProcessRequestBuffer`. The functions are the callbacks of its event loop, with `PutMessage` and the message
queue left to the whole server.
-/

namespace Kids

namespace Delivery

def client : Delivery → ClientId
  | message c => c
  | patternMessage c _ => c

-- what `PublishMessage` calls for a delivery
def call (m : Message) : Delivery → ReplyCall
  | message _ => .receiveMessage m.topic.data m.content.data
  | patternMessage _ pattern => .receivePatternMessage m.topic.data m.content.data pattern

end Delivery

/--
What a client is told: the answer to a request, with the subscriptions before it, or a published message.
-/
inductive Output
  | answer (env : CommandEnv) (sub : Subscriber) (e : RequestEvent)
  | publish (d : Delivery) (m : Message)

/--
A client without its subscriptions, which are in the tables of the worker. The last three fields are history:
the bytes that were read from the socket, those that `write` has taken, and what the client was told.
-/
structure Endpoint where
  request : Request
  reply : Reply
  received : Bytes
  written : Bytes
  outputs : List Output

namespace Endpoint

def init (fd : Int) : Endpoint where
  request := .init
  reply := .init fd
  received := []
  written := []
  outputs := []

end Endpoint

/--
Where a worker is: in the poll of the event loop, in `ProcessRequestBuffer` of a client, or in the
`PutMessage` that a `log` of this client has called.
-/
inductive Task
  | waiting
  | processing (c : ClientId)
  | logging (c : ClientId)
  deriving DecidableEq

structure WorkerStat where
  msgIn : Nat
  msgInTraffic : Nat
  msgOut : Nat
  msgOutTraffic : Nat

/--
`published` is history: the messages that `PublishMessage` has got, and to whom it gave them.
-/
structure Thread where
  tables : Worker
  endpoint : ClientId → Endpoint
  task : Task
  stat : WorkerStat
  published : List (Message × List Delivery)

namespace Client

/--
What a round of the loop of `ProcessRequestBuffer` dispatches.
-/
def nextEvent (c : Client) : Option RequestEvent :=
  if c.request.req.size = 0 ∨ c.request.closeAfterReply then
    none
  else
    match c.request.parseRequestBuffer with
    | none => none
    | some ⟨_, some err, _⟩ => some (.protocolError err)
    | some ⟨_, none, false⟩ => none
    | some ⟨request, none, true⟩ => if request.argv.length = 0 then none else some (.command request.argv)

-- the loop goes on behind a round in which `ParseRequestBuffer` returned true
def loops (c : Client) : Bool :=
  if c.request.req.size = 0 ∨ c.request.closeAfterReply then
    false
  else
    match c.request.parseRequestBuffer with
    | none => false
    | some r => r.ret

end Client

namespace RequestEvent

/--
The message that `ProcessLog` puts into the queue. The parser takes no argument that does not fit an `sds`.
-/
def logged : RequestEvent → Option Message
  | .command [name, topic, content] =>
    if Command.ofName name = .log then
      if h : topic.length < 2 ^ 31 ∧ content.length < 2 ^ 31 then
        some ⟨⟨topic, h.1⟩, ⟨content, h.2⟩⟩
      else
        none
    else
      none
  | _ => none

end RequestEvent

namespace Worker

-- what a command does to the tables; no reply is over a limit here
def processEvent (order : BeginOrder Bytes) (w : Worker) (c : ClientId) : RequestEvent → Option Worker
  | .command argv =>
    match Command.ofName (argv.headD []) with
    | .subscribe => w.processSubscribe c (fun _ => false) argv.tail
    | .psubscribe => w.processPSubscribe c (fun _ => false) argv.tail
    | .unsubscribe => w.processUnSubscribe order c (fun _ => false) argv.tail
    | .punsubscribe => w.processPUnSubscribe order c (fun _ => false) argv.tail
    | _ => some w
  | .protocolError _ => some w

end Worker

namespace Thread

def init : Thread where
  tables := .init
  endpoint := fun _ => .init 0
  task := .waiting
  stat := ⟨0, 0, 0, 0⟩
  published := []

def client (t : Thread) (c : ClientId) : Option Client :=
  (t.tables.heap c).map fun sub => ⟨(t.endpoint c).request, ⟨(t.endpoint c).reply, sub⟩, false⟩

def setEndpoint (t : Thread) (c : ClientId) (p : Endpoint) : Thread :=
  { t with endpoint := Function.update t.endpoint c p }

def getNewConnection (t : Thread) (c : ClientId) (fd : Int) : Thread :=
  { t with tables := t.tables.getNewConnection c }.setEndpoint c (.init fd)

-- nothing that is left tells in which order the subscriptions of the client have gone
def freeClient (t : Thread) (c : ClientId) : Option Thread :=
  (t.tables.freeClient .insertion c).map fun tables => { t with tables := tables }

def readRequest (t : Thread) (c : ClientId) : ReadResult → Option Thread
  | .again => some t
  | .failed => t.freeClient c
  | .data buf =>
    let p := t.endpoint c
    if buf.length = 0 then
      t.freeClient c
    else
      match p.request.req.append buf with
      | none => none
      | some req =>
        let t := t.setEndpoint c { p with request.req := req, received := p.received ++ buf }
        if req.size > maxQuerybufLen then
          t.freeClient c
        else
          some { t with task := .processing c }

-- the output limit is checked behind each reply, and `FreeClientAsync` does nothing the second time
def settle (t : Thread) (c : ClientId) : Thread :=
  { t with tables := t.tables.reply c (t.endpoint c).reply.closeAsap }

def countIn (t : Thread) (m : Message) : Thread :=
  { t with stat.msgIn := t.stat.msgIn + 1, stat.msgInTraffic := t.stat.msgInTraffic + m.memory }

/--
A round of `ProcessRequestBuffer`. A `log` is done here once `PutMessage` has returned.
-/
def processRound (env : CommandEnv) (t : Thread) (c : ClientId) : Option Thread :=
  match t.client c with
  | none => none
  | some client =>
    match client.processRound env with
    | none => none
    | some client' =>
      match client.nextEvent with
      | none => some ({ t with task := if client.loops then .processing c else .waiting }.setEndpoint c
          { t.endpoint c with request := client'.request, reply := client'.session.reply })
      | some e =>
        match t.tables.processEvent env.order c e with
        | none => none
        | some tables =>
          let p : Endpoint := { t.endpoint c with
            request := client'.request
            reply := client'.session.reply
            outputs := (t.endpoint c).outputs ++ [.answer env client.session.sub e]
          }
          let t := { t with tables := tables, task := if client.loops then .processing c else .waiting }
          some ((t.setEndpoint c p).settle c)

def deliver (env : CommandEnv) (m : Message) (t : Thread) (d : Delivery) : Option Thread :=
  match t.client d.client with
  | none => none
  | some client =>
    match client.session.call env (d.call m) with
    | none => none
    | some session =>
      let p := t.endpoint d.client
      let t := t.setEndpoint d.client { p with reply := session.reply, outputs := p.outputs ++ [.publish d m] }
      let t := { t with stat.msgOut := t.stat.msgOut + 1, stat.msgOutTraffic := t.stat.msgOutTraffic + m.memory }
      some (t.settle d.client)

def publishMessage (stringMatch : Bytes → Bytes → Bool) (env : CommandEnv) (t : Thread) (m : Message)
    : Option Thread :=
  match t.tables.publishMessage stringMatch m.topic.data (fun _ => false) with
  | none => none
  | some (_, deliveries) =>
    deliveries.foldlM (deliver env m) { t with published := t.published ++ [(m, deliveries)] }

def sendReply (t : Thread) (c : ClientId) (rs : List WriteResult) : Option Thread :=
  let p := t.endpoint c
  match p.reply.sendReply rs with
  | none => none
  | some ⟨reply, bytes, freed⟩ =>
    let t := t.setEndpoint c { p with reply := reply, written := p.written ++ bytes }
    if freed then t.freeClient c else some t

def freeClientsInAsyncFreeQueue (t : Thread) : Option Thread :=
  (t.tables.freeClientsInAsyncFreeQueue .insertion).map fun tables => { t with tables := tables }

end Thread
end Kids
