import DeepFeeder.Fanout.Wiring
import DeepFeeder.Fanout.RuntimeBridge

set_option autoImplicit false

namespace DeepFeeder.Client

open Gapless (Request)

def streamId [Uppercase] (provider dataSchema symbol : String) (exchange : Option String) :
    String :=
  streamKey provider dataSchema symbol exchange

/-- The fields of a `DeepFeederStream` that its URL is built from, and those that `_handle_envelope`
writes; `fields` is split already. -/
structure StreamWorker where
  provider : String
  dataSchema : String
  symbol : String
  fields : Option (List String) := none
  onlyCompleted : Option Bool := none
  sinceNs : Option Int := none
  exchange : Option String := none
  lastWatermarkNs : Option Int := none
  lastSeq : Option Nat := none
  reconnects : Nat := 0

namespace StreamWorker

def request (stream : StreamWorker) : Request :=
  { provider := stream.provider, dataSchema := stream.dataSchema, symbol := stream.symbol
    exchange := stream.exchange.filter (· ≠ "")
    fields := stream.fields.filter (· ≠ [])
    onlyCompleted := stream.onlyCompleted.getD (isBarSchema stream.provider stream.dataSchema)
    startNs := stream.sinceNs
    snapshotBatch := true }

def handleEnvelope (stream : StreamWorker) (event : Gapless.Event) (seq : Nat) : StreamWorker :=
  { stream with
    lastWatermarkNs := event.watermarkNs.or stream.lastWatermarkNs
    lastSeq := some seq }

end StreamWorker

/-- The server, and a stream that connects to it again and again. Each connection is a client of the
server; of what it is sent the stream has handled the first so many events. -/
structure Session where
  server : Gapless.State
  stream : StreamWorker
  connection : Option (Nat × Nat) := none

inductive Action where
  | server (a : Gapless.Action)
  | connect (client : Nat)
  | recv
  | disconnect

namespace Session

def connect (requests : Nat → Request) (s : Session) (client : Nat) : Option Session :=
  match s.connection, s.server.pc client with
  | none, .begin =>
      if requests client = s.stream.request then
        some { s with
          connection := some (client, 0)
          stream := { s.stream with reconnects := s.stream.reconnects + 1 } }
      else none
  | _, _ => none

def recv (s : Session) : Option Session :=
  match s.connection with
  | none => none
  | some (client, handled) =>
      (s.server.received client)[handled]?.map fun sent =>
        { s with
          stream := s.stream.handleEnvelope sent.1 sent.2
          connection := some (client, handled + 1) }

-- The events of the connection that were not handled are lost.
def disconnect (s : Session) : Option Session :=
  s.connection.map fun _ => { s with connection := none }

def step [Uppercase] [QueryLanguage] (requests : Nat → Request) (s : Session) :
    Action → Option Session
  | .server a => (Gapless.step requests s.server a).map fun server => { s with server }
  | .connect client => s.connect requests client
  | .recv => s.recv
  | .disconnect => s.disconnect

end Session

end DeepFeeder.Client
