import Kids.Client.Command

/-!
A whole `Client`: the request half, the replies and the subscriptions. Its steps are the callbacks of the
event loop, with `ProcessRequestBuffer` taken one round of its loop at a time.
-/

namespace Kids

open Bytes

/--
What `read` returns. `data []` is the end of the stream.
-/
inductive ReadResult
  | again
  | failed
  | data (buf : Bytes)

structure Client where
  request : Request
  session : Session
  freed : Bool

namespace Client

def init (fd : Int) : Client where
  request := .init
  session := ⟨.init fd, ⟨[], []⟩⟩
  freed := false

-- `FreeClientAsync` has taken a client that is marked `CLIENT_CLOSE_ASAP` out of `clients_`
def freeClient (c : Client) : Client :=
  if c.session.reply.closeAsap then c else { c with freed := true }

-- `ReadRequest`, up to the call of `ProcessRequestBuffer`
def readRequest (c : Client) : ReadResult → Option Client
  | .again => some c
  | .failed => some c.freeClient
  | .data buf =>
    if buf.length = 0 then
      some c.freeClient
    else
      match c.request.req.append buf with
      | none => none
      | some req =>
        let c := { c with request.req := req }
        some (if req.size > maxQuerybufLen then c.freeClient else c)

-- a round of the loop of `ProcessRequestBuffer`
def processRound (env : CommandEnv) (c : Client) : Option Client :=
  if c.request.req.size = 0 ∨ c.request.closeAfterReply then
    some c
  else
    match c.request.parseRequestBuffer with
    | none => none
    | some ⟨request, some err, _⟩ =>
      (c.session.processProtocolError env err).map fun session => { c with request := request, session := session }
    | some ⟨request, none, false⟩ => some { c with request := request }
    | some ⟨request, none, true⟩ =>
      if request.argv.length = 0 then
        some { c with request := request.resetArgumentVector }
      else
        (c.session.processCommand env request.argv).map fun (session, ret) => { c with
          request := if ret then request.resetArgumentVector else request.processCommand.1
          session := session
        }

def sendReply (c : Client) (rs : List WriteResult) : Option Client :=
  -- the event loop calls `SendReply` for an armed event only
  if c.session.reply.writable then
    (c.session.reply.sendReply rs).map fun r =>
      let c := { c with session.reply := r.client }
      if r.freed then c.freeClient else c
  else
    some c

-- `FreeClientsInAsyncFreeQueue`
def cron (c : Client) : Client :=
  if c.session.reply.closeAsap then { c with freed := true } else c

inductive Label
  | readRequest (r : ReadResult)
  | processRound (env : CommandEnv)
  | receiveMessage (env : CommandEnv) (topic content : Bytes)
  | receivePatternMessage (env : CommandEnv) (topic content pattern : Bytes)
  | sendReply (rs : List WriteResult)
  | cron

def step (c : Client) (l : Label) : Option Client :=
  -- a deleted client has no more events
  if c.freed then
    some c
  else
    match l with
    | .readRequest r => c.readRequest r
    | .processRound env => c.processRound env
    | .receiveMessage env topic content =>
      (c.session.call env (.receiveMessage topic content)).map fun session => { c with session := session }
    | .receivePatternMessage env topic content pattern =>
      (c.session.call env (.receivePatternMessage topic content pattern)).map fun session =>
        { c with session := session }
    | .sendReply rs => c.sendReply rs
    | .cron => some c.cron

end Client
end Kids
