import AgsCli.Library.Events
import AgsCli.Library.OrderedMap
import AgsCli.Tunnel.IdGenerator
import AgsCli.Tunnel.Wire

/-! # Session streams

One end of a tunnel session: its logical streams, the tasks that open them, the reader with the
teardown after it, the read pumps and the writer. One event is one step of one task between two
awaits or locks, and the tasks interleave in any order. -/
namespace Session

open OrderedMap Tunnel IdGenerator

inductive SessionRole
  | client
  | server
  deriving DecidableEq, Repr

/-- The parity of the ids this side hands out. -/
def SessionRole.parity : SessionRole → IdParity
  | .client => .even
  | .server => .odd

def SessionRole.expectOddFromPeer : SessionRole → Bool
  | .client => true
  | .server => false

/-- The parity check of `handle_open_stream`. -/
def SessionRole.expects (role : SessionRole) (streamId : Nat) : Bool :=
  if role.expectOddFromPeer then streamId % 2 = 1 else streamId % 2 = 0

inductive PumpPoint
  | unstarted
  | reading
  | sendingData (bytes : List UInt8)
  | sendingFin
  | markingEof
  | sendingRst
  | closing
  | aborting
  | stopped
  deriving DecidableEq, Repr

/-- How far the task that registered a stream has come: OPEN or OPEN_ACK to send, pump to start,
or entry to remove and stream to close when the send failed. -/
inductive TaskPoint
  | announcing
  | starting
  | removing
  | closing
  | done
  deriving DecidableEq, Repr

/-- A registered stream with its tasks. `opening` is the OPEN of a stream this end opened;
`canWrite` says whether the local connection still takes bytes; `readBytes` and `written` are what
was read from it and written to it. -/
structure Stream where
  id : Nat
  opening : Option OpenPayload
  late : Bool
  pending : Bool
  localEof : Bool
  remoteEof : Bool
  closed : Bool
  canWrite : Bool
  pump : PumpPoint
  task : TaskPoint
  readBytes : List UInt8
  written : List UInt8
  deriving DecidableEq, Repr

/-- How far the handling of an OPEN frame has come, up to the registration of its stream. -/
inductive AcceptorPoint
  | checking
  | dialing
  | waiting
  | redialing
  | connected
  | nacking (reason : String) (retryable : Option Bool)
  | registered
  | finished
  deriving DecidableEq, Repr

structure Acceptor where
  streamId : Nat
  payload : OpenPayload
  point : AcceptorPoint
  deriving DecidableEq, Repr

/-- How far `run` has come: the reader loop with the frame it dispatches, then the teardown. -/
inductive RunPoint
  | reading
  | replying (reply : Frame)
  | writing (handle : Nat) (rest : List UInt8)
  | resetting (handle : Nat)
  | shutting (handle : Nat)
  | marking (handle : Nat)
  | closing (handle : Nat)
  | ended
  | clearing (todo : BTreeMap Nat Nat)
  | dropping (handle : Nat) (todo : BTreeMap Nat Nat)
  | joining
  | returned

/-- The teardown has taken the streams map. -/
def RunPoint.torn : RunPoint → Bool
  | .clearing _ | .dropping _ _ | .joining | .returned => true
  | _ => false

/-- The state of one end. `table` lists the streams ever registered and `streams` maps an id to
its place there. `enqueued` and `taken` are the frames put into the outbound channel and taken by
the reader, `resets` the ids this end has set out to reset. -/
structure Endpoint where
  role : SessionRole
  table : List Stream
  streams : BTreeMap Nat Nat
  generator : Generator
  acceptors : List Acceptor
  run : RunPoint
  cancelled : Bool
  outbound : List Frame
  channelOpen : Bool
  enqueued : List Frame
  taken : List Frame
  resets : List Nat

def initial (role : SessionRole) : Endpoint :=
  { role, table := [], streams := .empty, generator := new role.parity, acceptors := []
    run := .reading, cancelled := false, outbound := [], channelOpen := true, enqueued := []
    taken := [], resets := [] }

def outboundCapacity : Nat := 128

inductive PumpEvent
  | read (bytes : List UInt8)
  | readEof
  | readError
  | cancel
  | send
  | mark
  | close

inductive TaskEvent
  | announce
  | start
  | remove
  | close

inductive AcceptorEvent
  | check
  | dial (ok : Bool)
  | retry
  | giveUp
  | register
  | nack

inductive RunEvent
  | receive (f : Frame)
  | reply
  | writeSome (n : Nat)
  | writeError
  | sendReset
  | shutWrite
  | markRemote
  | close
  | endReader
  | take
  | clear (id : Nat)
  | drop
  | cancel
  | join

inductive Event
  | openStream (payload : OpenPayload)
  | task (h : Nat) (e : TaskEvent)
  | pump (h : Nat) (e : PumpEvent)
  | shutdown (h : Nat)
  | accept (a : Nat) (e : AcceptorEvent)
  | run (e : RunEvent)
  | prune
  | cancel
  | control (f : Frame)
  | writeOut
  | writerExit

namespace Endpoint

variable (s : Endpoint)

/-- `outbound_tx.send`: it waits while the channel is full and fails once it is closed. -/
def SendReady : Prop := s.channelOpen = false ∨ s.outbound.length < outboundCapacity

instance : Decidable s.SendReady := inferInstanceAs (Decidable (_ ∨ _))

def send (f : Frame) : Endpoint :=
  if s.channelOpen then { s with outbound := s.outbound ++ [f], enqueued := s.enqueued ++ [f] }
  else s

def setStream (h : Nat) (st : Stream) : Endpoint := { s with table := s.table.set h st }

def withStream (h : Nat) (f : Stream → Endpoint) : Endpoint :=
  match s.table[h]? with
  | some st => f st
  | none => s

def withAcceptor (a : Nat) (f : Acceptor → Endpoint) : Endpoint :=
  match s.acceptors[a]? with
  | some acc => f acc
  | none => s

def setAcceptor (a : Nat) (point : AcceptorPoint) : Endpoint :=
  { s with acceptors := s.acceptors.modify a fun acc => { acc with point } }

def setRun (run : RunPoint) : Endpoint := { s with run }

def noteReset (id : Nat) : Endpoint := { s with resets := id :: s.resets }

/-- `Stream::new` and the insertion into the map, in one hold of the lock. -/
def registerStream (id : Nat) (opening : Option OpenPayload) : Endpoint :=
  { s with
    table := s.table ++ [
      { id, opening, late := s.run.torn, pending := true, localEof := false, remoteEof := false
        closed := false, canWrite := true, pump := .unstarted, task := .announcing
        readBytes := [], written := [] }]
    streams := s.streams.insert id s.table.length }

def taskAt (h : Nat) (point : TaskPoint) : Prop := (s.table[h]?).map (·.task) = some point
def pumpAt (h : Nat) (point : PumpPoint) : Prop := (s.table[h]?).map (·.pump) = some point
def acceptorAt (a : Nat) (point : AcceptorPoint) : Prop :=
  (s.acceptors[a]?).map (·.point) = some point

def closedAt (h : Nat) : Prop := (s.table[h]?).map (·.closed) = some true
def canWriteAt (h : Nat) : Prop := (s.table[h]?).map (·.canWrite) = some true

def writesTo (h : Nat) : Prop := ∃ rest, s.run = .writing h rest

end Endpoint

/-- `close`: the connection is shut down later, when its write half is free. -/
def Stream.close (st : Stream) : Stream := { st with closed := true }

/-- `read_pump` takes its read half once: a second start returns at once. -/
def Stream.startPump (st : Stream) : Stream :=
  { st with pending := false, pump := if st.pump = .unstarted then .reading else st.pump }

/-- The frame that announces a stream: OPEN from the end that opens it, OPEN_ACK from the other. -/
def Stream.announcement (st : Stream) : Frame :=
  match st.opening with
  | some payload => .newOpen st.id payload
  | none => .newOpenAck st.id

/-- `open_remote_stream`, up to the OPEN. -/
def openRemoteStream (s : Endpoint) (payload : OpenPayload) : Endpoint :=
  match s.generator.next s.streams.keys with
  | some (id, generator) => { s with generator }.registerStream id (some payload)
  | none => s

/-- The opener has nothing left to do once OPEN is sent; the acceptor starts the pump. -/
def announce (s : Endpoint) (h : Nat) (st : Stream) : Endpoint :=
  if s.channelOpen then
    (s.send st.announcement).setStream h
      { st with task := if st.opening.isSome then .done else .starting }
  else s.setStream h { st with task := .removing }

/-- The first half of `handle_open_stream`: parity, then a stream already active. -/
def checkOpen (s : Endpoint) (a : Nat) (acc : Acceptor) : Endpoint :=
  if !s.role.expects acc.streamId then
    s.setAcceptor a (.nacking invalidStreamId (some false))
  else if s.streams.contains acc.streamId then
    s.setAcceptor a (.nacking streamIdConflict (some false))
  else s.setAcceptor a .dialing

def dialed (s : Endpoint) (a : Nat) (acc : Acceptor) (ok : Bool) : Endpoint :=
  if ok then s.setAcceptor a .connected
  else if acc.point = .dialing then s.setAcceptor a .waiting
  else s.setAcceptor a (.nacking noLocalListener none)

/-- The second duplicate check and the insertion. A conflicting connection is closed and dropped
without having been registered. -/
def registerAccepted (s : Endpoint) (a : Nat) (acc : Acceptor) : Endpoint :=
  if s.streams.contains acc.streamId then
    s.setAcceptor a (.nacking streamIdConflict (some false))
  else (s.registerStream acc.streamId none).setAcceptor a .registered

def sendNack (s : Endpoint) (a : Nat) (acc : Acceptor) : Endpoint :=
  match acc.point with
  | .nacking reason retryable =>
    (s.send (.newNack acc.streamId reason retryable)).setAcceptor a .finished
  | _ => s

/-- The `send` of a read pump; only a failed DATA is noticed. -/
def pumpSend (s : Endpoint) (h : Nat) (st : Stream) : Endpoint :=
  match st.pump with
  | .sendingData bytes =>
    (s.send (.newData st.id bytes)).setStream h
      { st with pump := if s.channelOpen then .reading else .aborting }
  | .sendingFin => (s.send (.newFin st.id)).setStream h { st with pump := .markingEof }
  | .sendingRst =>
    (s.send (.newRst st.id localReadError)).setStream h { st with pump := .closing }
  | _ => s

def pumpNext (s : Endpoint) (h : Nat) (st : Stream) : PumpEvent → Endpoint
  | .read bytes => s.setStream h
      { st with readBytes := st.readBytes ++ bytes, pump := .sendingData bytes }
  | .readEof => s.setStream h { st with pump := .sendingFin }
  | .readError => (s.noteReset st.id).setStream h { st with pump := .sendingRst }
  | .cancel => s.setStream h { st with pump := .stopped }
  | .send => pumpSend s h st
  | .mark => s.setStream h
      { st with localEof := true, pump := if st.remoteEof then .closing else .stopped }
  | .close => s.setStream h { st.close with pump := .stopped }

/-- A DATA or FIN frame for a stream that is not in the map. -/
def replyUnknown (s : Endpoint) (id : Nat) : Endpoint :=
  (s.noteReset id).setRun (.replying (.newRst id streamUnknown))

/-- `dispatch_frame`, with `dispatch` of the stream, up to its first await. -/
def dispatchFrame (s : Endpoint) (f : Frame) : Endpoint :=
  match f.body with
  | .ping => s.setRun (.replying .newPong)
  | .openAck =>
    match s.streams.get? f.streamId with
    | some h => s.withStream h fun st => s.setStream h st.startPump
    | none => s
  | .nack (some _) =>
    match s.streams.get? f.streamId with
    | some h => { s with streams := s.streams.erase f.streamId }.setRun (.closing h)
    | none => s
  | .open (some payload) =>
    { s with acceptors := s.acceptors ++ [⟨f.streamId, payload, .checking⟩] }
  | .data bytes =>
    match s.streams.get? f.streamId with
    | some h => s.setRun (.writing h bytes)
    | none => replyUnknown s f.streamId
  | .fin =>
    match s.streams.get? f.streamId with
    | some h => s.setRun (.shutting h)
    | none => replyUnknown s f.streamId
  | .rst _ =>
    match s.streams.get? f.streamId with
    | some h => s.setRun (.closing h)
    | none => s
  | _ => s

/-- The reader takes a frame and drops it when it is not valid. -/
def receive (s : Endpoint) (f : Frame) : Endpoint :=
  let s := { s with taken := s.taken ++ [f] }
  if f.valid then dispatchFrame s f else s

def isControl (f : Frame) : Bool :=
  f.streamId == 0 && match f.body with
    | .ping | .pong | .cmd _ | .cmdResponse _ | .sessionAck _ => true
    | _ => false

def TaskEnabled (s : Endpoint) (h : Nat) : TaskEvent → Prop
  | .announce => s.taskAt h .announcing ∧ s.SendReady
  | .start => s.taskAt h .starting
  | .remove => s.taskAt h .removing
  | .close => s.taskAt h .closing

def PumpEnabled (s : Endpoint) (h : Nat) : PumpEvent → Prop
  | .read bytes => s.pumpAt h .reading ∧ bytes ≠ [] ∧ bytes.length ≤ readBufferSize
  | .readEof | .readError => s.pumpAt h .reading
  | .cancel => s.pumpAt h .reading ∧ s.closedAt h
  | .send => s.SendReady
  | .mark => s.pumpAt h .markingEof
  | .close => s.pumpAt h .closing ∨ s.pumpAt h .aborting

def AcceptorEnabled (s : Endpoint) (a : Nat) : AcceptorEvent → Prop
  | .check => s.acceptorAt a .checking
  | .dial _ => s.acceptorAt a .dialing ∨ s.acceptorAt a .redialing
  | .retry => s.acceptorAt a .waiting
  | .giveUp => s.acceptorAt a .waiting ∧ s.cancelled = true
  | .register => s.acceptorAt a .connected
  | .nack => s.SendReady

/-- A write needs an open connection, and may fail while there are bytes left. The send of a reply
or of an RST waits for the channel. -/
def RunEnabled (s : Endpoint) : RunEvent → Prop
  | .receive _ | .endReader => s.run = .reading
  | .reply => s.SendReady ∧ ∃ f, s.run = .replying f
  | .writeSome n => ∃ h rest, s.run = .writing h rest ∧ n ≤ rest.length ∧
      (rest = [] ∨ s.canWriteAt h)
  | .writeError => ∃ h rest, s.run = .writing h rest ∧ rest ≠ []
  | .sendReset => s.SendReady ∧ ∃ h, s.run = .resetting h
  | .shutWrite => ∃ h, s.run = .shutting h
  | .markRemote => ∃ h, s.run = .marking h
  | .close => ∃ h, s.run = .closing h
  | .take => s.run = .ended
  | .clear id => s.SendReady ∧ ∃ todo h, s.run = .clearing todo ∧ todo.get? id = some h
  | .drop => ∃ h todo, s.run = .dropping h todo
  | .cancel => s.run = .clearing .empty
  | .join => s.run = .joining

def Enabled (s : Endpoint) : Event → Prop
  | .openStream _ => (s.generator.next s.streams.keys).isSome = true
  | .task h e => TaskEnabled s h e
  | .pump h e => PumpEnabled s h e
  | .shutdown h => s.closedAt h ∧ ¬ s.writesTo h
  | .accept a e => AcceptorEnabled s a e
  | .run e => RunEnabled s e
  | .prune => s.run ≠ .returned
  | .cancel => True
  | .control f => s.SendReady ∧ isControl f = true
  | .writeOut => s.channelOpen = true ∧ s.outbound ≠ []
  | .writerExit => s.channelOpen = true

def taskNext (s : Endpoint) (h : Nat) (st : Stream) : TaskEvent → Endpoint
  | .announce => announce s h st
  | .start => s.setStream h { st.startPump with task := .done }
  | .remove => { s.setStream h { st with task := .closing } with streams := s.streams.erase st.id }
  | .close => s.setStream h { st.close with task := .done }

def acceptorNext (s : Endpoint) (a : Nat) (acc : Acceptor) : AcceptorEvent → Endpoint
  | .check => checkOpen s a acc
  | .dial ok => dialed s a acc ok
  | .retry => s.setAcceptor a .redialing
  | .giveUp => s.setAcceptor a .finished
  | .register => registerAccepted s a acc
  | .nack => sendNack s a acc

/-- A part of the frame is written; the reader goes on after the last byte. -/
def writeSome (s : Endpoint) (n h : Nat) (rest : List UInt8) (st : Stream) : Endpoint :=
  (s.setStream h { st with written := st.written ++ rest.take n }).setRun
    (if rest.drop n = [] then .reading else .writing h (rest.drop n))

/-- The steps of `run`: the reader loop, `rst_all_streams` and what follows. -/
def runNext (s : Endpoint) : RunEvent → Endpoint
  | .receive f => receive s f
  | .reply =>
    match s.run with
    | .replying f => (s.send f).setRun .reading
    | _ => s
  | .writeSome n =>
    match s.run with
    | .writing h rest => s.withStream h (writeSome s n h rest)
    | _ => s
  | .writeError =>
    match s.run with
    | .writing h _ => s.withStream h fun st =>
        ((s.noteReset st.id).setStream h { st with canWrite := false }).setRun (.resetting h)
    | _ => s
  | .sendReset =>
    match s.run with
    | .resetting h => s.withStream h fun st =>
        (s.send (.newRst st.id localWriteError)).setRun (.closing h)
    | _ => s
  | .shutWrite =>
    match s.run with
    | .shutting h => s.withStream h fun st =>
        (s.setStream h { st with canWrite := false }).setRun (.marking h)
    | _ => s
  | .markRemote =>
    match s.run with
    | .marking h => s.withStream h fun st =>
        (s.setStream h { st with remoteEof := true }).setRun
          (if st.localEof then .closing h else .reading)
    | _ => s
  | .close =>
    match s.run with
    | .closing h => s.withStream h fun st => (s.setStream h st.close).setRun .reading
    | _ => s
  | .endReader => s.setRun .ended
  | .take => { s with streams := .empty }.setRun (.clearing s.streams)
  | .clear id =>
    match s.run with
    | .clearing todo =>
      match todo.get? id with
      | some h => ((s.noteReset id).send (.newRst id sessionClosed)).setRun
          (.dropping h (todo.erase id))
      | none => s
    | _ => s
  | .drop =>
    match s.run with
    | .dropping h todo => s.withStream h fun st =>
        (s.setStream h st.close).setRun (.clearing todo)
    | _ => s
  | .cancel => { s with cancelled := true }.setRun .joining
  | .join => s.setRun .returned

/-- `stream_cleanup_loop`: the entries of closed streams are dropped. -/
def prune (s : Endpoint) : Endpoint :=
  { s with streams := s.streams.retain fun _ h => (s.table[h]?).map (·.closed) != some true }

def next (s : Endpoint) : Event → Endpoint
  | .openStream payload => openRemoteStream s payload
  | .task h e => s.withStream h fun st => taskNext s h st e
  | .pump h e => s.withStream h fun st => pumpNext s h st e
  | .shutdown h => s.withStream h fun st => s.setStream h { st with canWrite := false }
  | .accept a e => s.withAcceptor a fun acc => acceptorNext s a acc e
  | .run e => runNext s e
  | .prune => prune s
  | .cancel => { s with cancelled := true }
  | .control f => s.send f
  | .writeOut => { s with outbound := s.outbound.tail }
  | .writerExit => { s with channelOpen := false, outbound := [] }

/-- One end with an arbitrary peer. -/
def system : Events.System Endpoint Event := ⟨Enabled, next⟩

end Session
