import AgsCli.Protocol.Json

/-! # Tunnel frames

The frames of the extend-proxy tunnel, their validation and their JSON text. One WebSocket
message is one frame. -/
namespace Tunnel

open Json

inductive FrameType
  | sessionInit
  | sessionAck
  | open
  | openAck
  | nack
  | data
  | fin
  | rst
  | ping
  | pong
  | cmd
  | cmdResponse
  | unknown (wire : String)
  deriving DecidableEq, Repr

def FrameType.asWireStr : FrameType → String
  | .sessionInit => "SESSION_INIT"
  | .sessionAck => "SESSION_ACK"
  | .open => "OPEN"
  | .openAck => "OPEN_ACK"
  | .nack => "NACK"
  | .data => "DATA"
  | .fin => "FIN"
  | .rst => "RST"
  | .ping => "PING"
  | .pong => "PONG"
  | .cmd => "CMD"
  | .cmdResponse => "CMD_RESPONSE"
  | .unknown wire => wire

structure SessionInitPayload where
  clientVersion : Int
  capabilities : List String
  interceptPorts : List Int
  deriving DecidableEq, Repr

structure SessionAckPayload where
  serverVersion : Int
  sessionId : String
  idleTimeoutSec : Int
  deriving DecidableEq, Repr

structure OpenPayload where
  targetHost : String
  targetPort : Int
  remoteAddr : String
  deriving DecidableEq, Repr

structure NackPayload where
  streamId : Nat
  reasonCode : String
  retryable : Option Bool
  deriving DecidableEq, Repr

structure CmdPayload where
  cmdId : Nat
  name : String
  params : Option Value
  deriving DecidableEq

structure CmdResponsePayload where
  cmdId : Nat
  response : Option Value
  error : String
  deriving DecidableEq

inductive FrameBody
  | sessionInit (payload : Option SessionInitPayload)
  | sessionAck (payload : Option SessionAckPayload)
  | open (payload : Option OpenPayload)
  | openAck
  | nack (payload : Option NackPayload)
  | data (bytes : List UInt8)
  | fin
  | rst (reason : String)
  | ping
  | pong
  | cmd (payload : Option CmdPayload)
  | cmdResponse (payload : Option CmdResponsePayload)
  | unknown (wire : String)
  deriving DecidableEq

structure Frame where
  streamId : Nat
  body : FrameBody
  deriving DecidableEq

namespace Frame

def newOpen (streamId : Nat) (payload : OpenPayload) : Frame := ⟨streamId, .open (some payload)⟩
def newOpenAck (streamId : Nat) : Frame := ⟨streamId, .openAck⟩
def newNack (streamId : Nat) (reason : String) (retryable : Option Bool) : Frame :=
  ⟨streamId, .nack (some ⟨streamId, reason, retryable⟩)⟩
def newData (streamId : Nat) (bytes : List UInt8) : Frame := ⟨streamId, .data bytes⟩
def newFin (streamId : Nat) : Frame := ⟨streamId, .fin⟩
def newRst (streamId : Nat) (reason : String) : Frame := ⟨streamId, .rst reason⟩
def newPong : Frame := ⟨0, .pong⟩
def newCmd (cmdId : Nat) (name : String) (params : Option Value) : Frame :=
  ⟨0, .cmd (some ⟨cmdId, name, params⟩)⟩
def newCmdResponse (cmdId : Nat) (response : Option Value) : Frame :=
  ⟨0, .cmdResponse (some ⟨cmdId, response, ""⟩)⟩
def newCmdErrorResponse (cmdId : Nat) (error : String) : Frame :=
  ⟨0, .cmdResponse (some ⟨cmdId, none, error⟩)⟩

def frameType (f : Frame) : FrameType :=
  match f.body with
  | .sessionInit _ => .sessionInit
  | .sessionAck _ => .sessionAck
  | .open _ => .open
  | .openAck => .openAck
  | .nack _ => .nack
  | .data _ => .data
  | .fin => .fin
  | .rst _ => .rst
  | .ping => .ping
  | .pong => .pong
  | .cmd _ => .cmd
  | .cmdResponse _ => .cmdResponse
  | .unknown wire => .unknown wire

end Frame

/-- The reason codes of NACK and RST frames. -/
def noLocalListener : String := "no_local_listener"
def localReadError : String := "local_read_error"
def localWriteError : String := "local_write_error"
def streamUnknown : String := "stream_unknown"
def invalidStreamId : String := "invalid_stream_id"
def streamIdConflict : String := "stream_id_conflict"
def sessionClosed : String := "session closed"

inductive ValidationError
  | sessionFrameHasStreamId (frameType : FrameType) (streamId : Nat)
  | openMissingStreamId
  | openMissingPayload
  | openInvalidTargetPort (port : Int)
  | openMissingTargetHost
  | openAckMissingStreamId
  | nackMissingStreamId
  | nackMissingPayload
  | dataLikeFrameMissingStreamId (frameType : FrameType)
  | cmdHasStreamId (streamId : Nat)
  | cmdMissingPayload
  | cmdMissingCmdId
  | cmdMissingName
  | cmdResponseHasStreamId (streamId : Nat)
  | cmdResponseMissingPayload
  | cmdResponseMissingCmdId
  | unknownFrameType (wire : String)
  deriving DecidableEq, Repr

def validateOpen (streamId : Nat) (payload : Option OpenPayload) : Except ValidationError Unit :=
  if streamId = 0 then .error .openMissingStreamId
  else match payload with
    | none => .error .openMissingPayload
    | some p =>
      if p.targetPort ≤ 0 ∨ p.targetPort > 65535 then .error (.openInvalidTargetPort p.targetPort)
      else if p.targetHost.isEmpty then .error .openMissingTargetHost
      else .ok ()

def validateCmd (streamId : Nat) (payload : Option CmdPayload) : Except ValidationError Unit :=
  if streamId ≠ 0 then .error (.cmdHasStreamId streamId)
  else match payload with
    | none => .error .cmdMissingPayload
    | some p =>
      if p.cmdId = 0 then .error .cmdMissingCmdId
      else if p.name.isEmpty then .error .cmdMissingName
      else .ok ()

def validateCmdResponse (streamId : Nat) (payload : Option CmdResponsePayload) :
    Except ValidationError Unit :=
  if streamId ≠ 0 then .error (.cmdResponseHasStreamId streamId)
  else match payload with
    | none => .error .cmdResponseMissingPayload
    | some p => if p.cmdId = 0 then .error .cmdResponseMissingCmdId else .ok ()

/-- `Frame::validate`: checked on every decoded frame before it is dispatched. -/
def Frame.validate (f : Frame) : Except ValidationError Unit :=
  match f.body with
  | .sessionInit _ | .sessionAck _ =>
    if f.streamId ≠ 0 then .error (.sessionFrameHasStreamId f.frameType f.streamId) else .ok ()
  | .open payload => validateOpen f.streamId payload
  | .openAck => if f.streamId = 0 then .error .openAckMissingStreamId else .ok ()
  | .nack payload =>
    if f.streamId = 0 then .error .nackMissingStreamId
    else if payload.isNone then .error .nackMissingPayload else .ok ()
  | .data _ | .fin | .rst _ =>
    if f.streamId = 0 then .error (.dataLikeFrameMissingStreamId f.frameType) else .ok ()
  | .ping | .pong => .ok ()
  | .cmd payload => validateCmd f.streamId payload
  | .cmdResponse payload => validateCmdResponse f.streamId payload
  | .unknown wire => .error (.unknownFrameType wire)

def Frame.valid (f : Frame) : Bool :=
  match f.validate with
  | .ok _ => true
  | .error _ => false

end Tunnel
