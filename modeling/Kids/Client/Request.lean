import Kids.Buffer.Basic
import Kids.Util.String2ll

/-!
The request half of a `Client`: `ReadRequest`, `ProcessRequestBuffer` and `ParseRequestBuffer` of
`client.cc`. What the parser does to the rest of the program is recorded as a list of events, the
argument vectors it hands to `ProcessCommand` and the protocol errors it raises.
-/

namespace Kids

open Bytes

def iobufLen : Nat := 1024 * 16
def maxQuerybufLen : Nat := 1024 * 1024 * 1024
def maxMultibulkLen : Int := 1024 * 1024
def maxBulkLen : Int := 512 * 1024 * 1024

inductive ProtocolError
  | invalidMultibulkLength
  | expectedDollar (got : UInt8)
  | invalidBulkLength
  deriving DecidableEq, Repr

inductive RequestEvent
  | command (argv : List Bytes)
  | protocolError (err : ProtocolError)
  deriving DecidableEq, Repr

/--
`curArglen` is `none` where the source has `cur_arglen_ == -1`.
-/
structure Request where
  req : Buffer
  argc : Nat
  curArglen : Option Nat
  argv : List Bytes
  closeAfterReply : Bool

-- a pointer difference, converted to the `size_t` parameter it is passed to
def sizeT (n : Int) : Nat :=
  (n % 2 ^ 64).toNat

namespace Request

def init : Request where
  req := .empty
  argc := 0
  curArglen := none
  argv := []
  closeAfterReply := false

inductive Arglen
  | needMore
  | error (err : ProtocolError)
  | known (pos len : Nat)

def readArglen (data : Bytes) (pos : Nat) (curArglen : Option Nat) : Arglen :=
  match curArglen with
  | some len => .known pos len
  | none =>
    match strchr (data.drop pos) cr with
    | none => .needMore
    | some newline =>
      if data.length < pos + newline + 2 then
        .needMore
      else
        let first := (data.drop pos).headD nul
        if first ≠ dollar then
          .error (.expectedDollar first)
        else
          match string2ll (data.drop (pos + 1)) (sizeT ((newline : Int) - 1)) with
          | none => .error .invalidBulkLength
          | some ll =>
            if ll < 0 ∨ ll > maxBulkLen then
              .error .invalidBulkLength
            else
              .known (pos + newline + 2) ll.toNat

structure ArgsResult where
  pos : Nat
  curArglen : Option Nat
  argv : List Bytes
  err : Option ProtocolError

-- the loop `while (argv_.size() < argc_)`; the first number is `argc_ - argv_.size()`
def parseArgs (data : Bytes) : Nat → Nat → Option Nat → List Bytes → ArgsResult
  | 0, pos, curArglen, argv => ⟨pos, curArglen, argv, none⟩
  | n + 1, pos, curArglen, argv =>
    match readArglen data pos curArglen with
    | .needMore => ⟨pos, curArglen, argv, none⟩
    | .error err => ⟨pos, curArglen, argv, some err⟩
    | .known pos len =>
      if data.length - pos < len + 2 then
        ⟨pos, some len, argv, none⟩
      else
        parseArgs data n (pos + len + 2) none (argv ++ [(data.drop pos).take len])

structure ParseResult where
  client : Request
  err : Option ProtocolError
  ret : Bool

def protocolError (c : Request) (err : ProtocolError) : ParseResult where
  client := { c with closeAfterReply := true }
  err := some err
  ret := false

def parseArguments (c : Request) (pos : Nat) : Option ParseResult :=
  let r := parseArgs c.req.data (c.argc - c.argv.length) pos c.curArglen c.argv
  let c := { c with curArglen := r.curArglen, argv := r.argv }
  match r.err with
  -- a protocol error returns before the buffer is trimmed
  | some err => some (c.protocolError err)
  | none =>
    match c.req.removeFront r.pos with
    | none => none
    | some req => some {
        client := { c with req := req }
        err := none
        ret := c.argc = c.argv.length
      }

def parseRequestBuffer (c : Request) : Option ParseResult :=
  if c.argc = 0 then
    match strchr c.req.data cr with
    | none => some ⟨c, none, false⟩
    | some newline =>
      if c.req.size < newline + 2 then
        some ⟨c, none, false⟩
      else
        match string2ll (c.req.data.drop 1) (sizeT ((newline : Int) - 1)) with
        | none => some (c.protocolError .invalidMultibulkLength)
        | some ll =>
          if ll > maxMultibulkLen then
            some (c.protocolError .invalidMultibulkLength)
          else if ll ≤ 0 then
            match c.req.removeFront (newline + 2) with
            | none => none
            | some req => some ⟨{ c with req := req }, none, true⟩
          else
            parseArguments { c with argc := ll.toNat, argv := [] } (newline + 2)
  else
    parseArguments c 0

def resetArgumentVector (c : Request) : Request :=
  { c with argv := [], curArglen := none, argc := 0 }

def isQuit (argv : List Bytes) : Bool :=
  strcaseeq (argv.headD []) (ofString "quit")

def processCommand (c : Request) : Request × Bool :=
  -- the one command that marks the client and keeps its argument vector
  if isQuit c.argv then
    ({ c with closeAfterReply := true }, false)
  else
    (c, true)

/--
The loop of `ProcessRequestBuffer`; `none` is an undefined buffer access or a loop that is not done
after `fuel` rounds.
-/
def processRequestBuffer.go (fuel : Nat) (c : Request) : Option (Request × List RequestEvent) :=
  match fuel with
  | 0 => none
  | fuel + 1 =>
    if c.req.size = 0 ∨ c.closeAfterReply then
      some (c, [])
    else
      match c.parseRequestBuffer with
      | none => none
      | some ⟨c, err, false⟩ => some (c, err.toList.map .protocolError)
      | some ⟨c, _, true⟩ =>
        if c.argv.length = 0 then
          go fuel c.resetArgumentVector
        else
          let argv := c.argv
          let (c, ret) := c.processCommand
          (go fuel (if ret then c.resetArgumentVector else c)).map fun (c, evs) =>
            (c, .command argv :: evs)

def processRequestBuffer (c : Request) : Option (Request × List RequestEvent) :=
  -- a round that does not end the loop takes at least two bytes
  (processRequestBuffer.go (c.req.size + 1) c).map fun (c, evs) =>
    (if c.req.size = 0 then { c with req := c.req.clear } else c, evs)

def feed (c : Request) (piece : Bytes) : Option (Request × List RequestEvent) :=
  match c.req.append piece with
  | none => none
  | some req => { c with req := req }.processRequestBuffer

structure ReadOutcome where
  client : Request
  events : List RequestEvent
  freed : Bool

def readRequest (c : Request) (buf : Bytes) : Option ReadOutcome :=
  -- the end of the stream
  if buf.length = 0 then
    some ⟨c, [], true⟩
  else
    match c.req.append buf with
    | none => none
    | some req =>
      let c := { c with req := req }
      if c.req.size > maxQuerybufLen then
        some ⟨c, [], true⟩
      else
        c.processRequestBuffer.map fun (c, evs) => ⟨c, evs, false⟩

def feedAll (c : Request) : List Bytes → Option (Request × List RequestEvent)
  | [] => some (c, [])
  | piece :: pieces =>
    match c.feed piece with
    | none => none
    | some (c, evs) => (c.feedAll pieces).map fun (c, evs') => (c, evs ++ evs')

end Request
end Kids
