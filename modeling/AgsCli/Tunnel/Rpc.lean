import AgsCli.Library.Events
import AgsCli.Library.OrderedMap
import AgsCli.Tunnel.Frame

/-! # Session RPC

The caller and callee sides of a session's RPC channel, one event for each step between two
awaits or locks: calls, their timeouts, the reader, the spawned handlers and the writer interleave
in any order. The outbound channel is shared and bounded. -/
namespace Rpc

open OrderedMap Json Tunnel

def outboundCapacity : Nat := 128

def maxHandlers : Nat := 32

structure RpcResult where
  response : Option Value
  error : Option String
  deriving DecidableEq

inductive Outcome
  | ok (response : Option Value)
  | callee (message : String)
  | timeout
  | sessionClosed
  deriving DecidableEq

def RpcResult.outcome (r : RpcResult) : Outcome :=
  match r.error with
  | some message => .callee message
  | none => .ok r.response

inductive CallPoint
  | numbered
  | registered
  | refused
  | waiting
  | expired
  | completed (outcome : Outcome)
  deriving DecidableEq

/-- The call's oneshot channel; empty while its sender is held, closed when it is gone unused. -/
inductive Mailbox
  | empty
  | filled (result : RpcResult)
  | closed
  deriving DecidableEq

structure Call where
  cmdId : Nat
  name : String
  params : Option Value
  point : CallPoint
  mailbox : Mailbox
  deriving DecidableEq

/-- The receiver is dropped when the timeout elapses or the call returns. -/
def Call.receiverAlive (c : Call) : Bool :=
  match c.point with
  | .expired | .completed _ => false
  | _ => true

inductive CommandPoint
  | busy
  | spawned
  | found
  | running
  | answering (response : Frame)
  | answered
  | unsent
  | panicked
  deriving DecidableEq

structure Command where
  payload : CmdPayload
  point : CommandPoint
  deriving DecidableEq

def Command.over (c : Command) : Bool :=
  match c.point with
  | .answered | .unsent | .panicked => true
  | _ => false

inductive ReaderPoint
  | idle
  | delivering (call : Nat) (result : RpcResult)
  | answeringBusy (command : Nat)
  deriving DecidableEq

/-- Who put a frame into the outbound channel. -/
inductive Origin
  | call (i : Nat)
  | command (j : Nat)
  deriving DecidableEq

structure Enqueued where
  origin : Origin
  frame : Frame
  deriving DecidableEq

structure State where
  nextCmdId : Nat
  calls : List Call
  inFlight : BTreeMap Nat Nat
  reader : ReaderPoint
  commands : List Command
  handlers : List String
  permits : Nat
  outbound : List Frame
  channelOpen : Bool
  enqueued : List Enqueued
  received : List CmdResponsePayload
  completions : List (Nat × Outcome)

def initial : State :=
  { nextCmdId := 1, calls := [], inFlight := .empty, reader := .idle, commands := [], handlers := []
    permits := maxHandlers, outbound := [], channelOpen := true, enqueued := [], received := []
    completions := [] }

inductive HandlerEnd
  | ok (response : Option Value)
  | err (message : String)
  | panic (message : String)
  deriving DecidableEq

inductive Event
  | call (name : String) (params : Option Value)
  | register (i : Nat)
  | send (i : Nat)
  | retract (i : Nat)
  | expire (i : Nat)
  | remove (i : Nat)
  | receive (i : Nat)
  | cmdResponse (payload : CmdResponsePayload)
  | deliver
  | cmd (payload : CmdPayload)
  | answerBusy
  | registerHandler (name : String)
  | lookup (j : Nat)
  | invoke (j : Nat)
  | invokePanic (j : Nat)
  | finish (j : Nat) (result : HandlerEnd)
  | answer (j : Nat)
  | write
  | writerExit

namespace State

variable (s : State)

def callPoint? (i : Nat) : Option CallPoint := (s.calls[i]?).map (·.point)
def commandPoint? (j : Nat) : Option CommandPoint := (s.commands[j]?).map (·.point)

def setCall (i : Nat) (f : Call → Call) : State := { s with calls := s.calls.modify i f }

def setCommand (j : Nat) (point : CommandPoint) : State :=
  { s with commands := s.commands.modify j fun c => { c with point } }

/-- `outbound_tx.send`: it waits while the channel is full and fails once it is closed. -/
def SendReady : Prop := s.channelOpen = false ∨ s.outbound.length < outboundCapacity

instance : Decidable s.SendReady := inferInstanceAs (Decidable (_ ∨ _))

def enqueue (origin : Origin) (frame : Frame) : State :=
  { s with outbound := s.outbound ++ [frame], enqueued := s.enqueued ++ [⟨origin, frame⟩] }

def complete (i : Nat) (outcome : Outcome) : State :=
  { s.setCall i fun c => { c with point := .completed outcome } with
    completions := s.completions ++ [(i, outcome)] }

/-- A sender dropped without being used closes its mailbox. -/
def dropSender (owner : Option Nat) : State :=
  match owner with
  | none => s
  | some i => s.setCall i fun c => { c with
      mailbox := if c.mailbox = .empty then .closed else c.mailbox }

def insertEntry (id i : Nat) : State :=
  { s.dropSender (s.inFlight.get? id) with inFlight := s.inFlight.insert id i }

def removeEntry (id : Nat) : State :=
  { s.dropSender (s.inFlight.get? id) with inFlight := s.inFlight.erase id }

/-- A command's last write: the response is enqueued, or the channel is closed. -/
def answerWith (j : Nat) (frame : Frame) : State :=
  if s.channelOpen then (s.enqueue (.command j) frame).setCommand j .answered
  else s.setCommand j .unsent

def release : State := { s with permits := s.permits + 1 }

end State

def newCall (s : State) (name : String) (params : Option Value) : State :=
  { s with
    nextCmdId := (s.nextCmdId + 1) % 2 ^ 64
    calls := s.calls ++ [⟨(s.nextCmdId + 1) % 2 ^ 64, name, params, .numbered, .empty⟩] }

def resultOf (payload : CmdResponsePayload) : RpcResult :=
  ⟨payload.response, if payload.error.isEmpty then none else some payload.error⟩

def handleCmdResponse (s : State) (payload : CmdResponsePayload) : State :=
  let s := { s with received := s.received ++ [payload] }
  match s.inFlight.get? payload.cmdId with
  | none => s
  | some i => { s with
      inFlight := s.inFlight.erase payload.cmdId
      reader := .delivering i (resultOf payload) }

/-- `tx.send(result)`: the sender is used up even when the receiver is gone. -/
def deliver (s : State) (i : Nat) (result : RpcResult) : State :=
  { s.setCall i fun c => { c with
      mailbox := if c.receiverAlive then .filled result else .closed } with
    reader := .idle }

/-- The `Cmd` arm of `dispatch_frame`: a task with a permit, or a busy answer by the reader. -/
def dispatchCmd (s : State) (payload : CmdPayload) : State :=
  if 0 < s.permits then
    { s with permits := s.permits - 1, commands := s.commands ++ [⟨payload, .spawned⟩] }
  else { s with commands := s.commands ++ [⟨payload, .busy⟩]
                reader := .answeringBusy s.commands.length }

def lookupHandler (s : State) (j : Nat) : State :=
  match s.commands[j]? with
  | none => s
  | some c =>
    if s.handlers.contains c.payload.name then s.setCommand j .found
    else s.setCommand j
      (.answering (.newCmdErrorResponse c.payload.cmdId "command not found"))

def responseFrame (cmdId : Nat) : HandlerEnd → Frame
  | .ok response => .newCmdResponse cmdId response
  | .err message => .newCmdErrorResponse cmdId message
  | .panic message => .newCmdErrorResponse cmdId s!"handler panic: {message}"

def Enabled (s : State) : Event → Prop
  | .call _ _ | .registerHandler _ | .writerExit => True
  | .register i => s.callPoint? i = some .numbered
  | .send i => s.callPoint? i = some .registered ∧ s.SendReady
  | .retract i => s.callPoint? i = some .refused
  | .expire i => s.callPoint? i = some .waiting ∧ (s.calls[i]?).map (·.mailbox) = some .empty
  | .remove i => s.callPoint? i = some .expired
  | .receive i => s.callPoint? i = some .waiting ∧ (s.calls[i]?).map (·.mailbox) ≠ some .empty
  | .cmdResponse payload =>
    s.reader = .idle ∧ (Frame.mk 0 (.cmdResponse (some payload))).valid = true
  | .deliver => s.reader ≠ .idle
  | .cmd payload => s.reader = .idle ∧ (Frame.mk 0 (.cmd (some payload))).valid = true
  | .answerBusy => s.reader ≠ .idle ∧ s.SendReady
  | .lookup j => s.commandPoint? j = some .spawned
  | .invoke j | .invokePanic j => s.commandPoint? j = some .found
  | .finish j _ => s.commandPoint? j = some .running
  | .answer _ => s.SendReady
  | .write => s.channelOpen = true ∧ s.outbound ≠ []

def next (s : State) : Event → State
  | .call name params => newCall s name params
  | .register i =>
    match s.calls[i]? with
    | none => s
    | some c => (s.insertEntry c.cmdId i).setCall i fun c => { c with point := .registered }
  | .send i =>
    match s.calls[i]? with
    | none => s
    | some c =>
      if s.channelOpen then
        (s.enqueue (.call i) (.newCmd c.cmdId c.name c.params)).setCall i
          fun c => { c with point := .waiting }
      else s.setCall i fun c => { c with point := .refused }
  | .retract i =>
    match s.calls[i]? with
    | none => s
    | some c => (s.removeEntry c.cmdId).complete i .sessionClosed
  | .expire i => s.setCall i fun c => { c with point := .expired }
  | .remove i =>
    match s.calls[i]? with
    | none => s
    | some c => (s.removeEntry c.cmdId).complete i .timeout
  | .receive i =>
    match (s.calls[i]?).map Call.mailbox with
    | some (.filled result) => s.complete i result.outcome
    | some .closed => s.complete i .sessionClosed
    | _ => s
  | .cmdResponse payload => handleCmdResponse s payload
  | .deliver =>
    match s.reader with
    | .delivering i result => deliver s i result
    | _ => s
  | .cmd payload => dispatchCmd s payload
  | .answerBusy =>
    match s.reader with
    | .answeringBusy j =>
      match s.commands[j]? with
      | none => s
      | some c => { s.answerWith j (.newCmdErrorResponse c.payload.cmdId "server busy") with
          reader := .idle }
    | _ => s
  | .registerHandler name => { s with handlers := name :: s.handlers }
  | .lookup j => lookupHandler s j
  | .invoke j => s.setCommand j .running
  | .invokePanic j => (s.setCommand j .panicked).release
  | .finish j result =>
    match s.commands[j]? with
    | none => s
    | some c => s.setCommand j (.answering (responseFrame c.payload.cmdId result))
  | .answer j =>
    match s.commandPoint? j with
    | some (.answering frame) => (s.answerWith j frame).release
    | _ => s
  | .write => { s with outbound := s.outbound.tail }
  | .writerExit => { s with channelOpen := false, outbound := [] }

def system : Events.System State Event := ⟨Enabled, next⟩

end Rpc
