import AgsCli.Tunnel.Frame
import Mathlib.Data.Nat.Digits.Defs

/-! # Tunnel wire format

The JSON text of a frame, with the size limit the writer task enforces: the frames that carry a
stream's bytes always fit, so the writer never drops one. -/
namespace Tunnel

open Json

def maxFrameSizeBytes : Nat := 64 * 1024

/-- `READ_BUFFER_SIZE`: the most a read pump reads at once. -/
def readBufferSize : Nat := 32 * 1024

def base64Char (n : Nat) : Char :=
  if n < 26 then Char.ofNat (65 + n)
  else if n < 52 then Char.ofNat (97 + (n - 26))
  else if n < 62 then Char.ofNat (48 + (n - 52))
  else if n = 62 then '+' else '/'

/-- Four characters for every three bytes, the last group padded. -/
def base64Encode : List UInt8 → List Char
  | [] => []
  | [a] => [base64Char (a.toNat / 4), base64Char (a.toNat % 4 * 16), '=', '=']
  | [a, b] => [base64Char (a.toNat / 4), base64Char (a.toNat % 4 * 16 + b.toNat / 16),
      base64Char (b.toNat % 16 * 4), '=']
  | a :: b :: c :: rest =>
    base64Char (a.toNat / 4) :: base64Char (a.toNat % 4 * 16 + b.toNat / 16) ::
      base64Char (b.toNat % 16 * 4 + c.toNat / 64) :: base64Char (c.toNat % 64) ::
        base64Encode rest

example : String.ofList (base64Encode [104, 101, 108, 108, 111]) = "aGVsbG8=" := by decide

def natValue (n : Nat) : Value := .number (.int n)

def intValue (n : Int) : Value := .number (.int n)

def sessionInitValue (p : SessionInitPayload) : Value :=
  .object ([("client_version", intValue p.clientVersion)] ++
    (if p.capabilities.isEmpty then [] else [("capabilities", .array (p.capabilities.map .string))])
    ++ [("intercept_ports", .array (p.interceptPorts.map intValue))])

def sessionAckValue (p : SessionAckPayload) : Value :=
  .object [("server_version", intValue p.serverVersion), ("session_id", .string p.sessionId),
    ("idle_timeout_sec", intValue p.idleTimeoutSec)]

def openValue (p : OpenPayload) : Value :=
  .object ([("target_host", .string p.targetHost), ("target_port", intValue p.targetPort)] ++
    if p.remoteAddr.isEmpty then [] else [("remote_addr", .string p.remoteAddr)])

def nackValue (p : NackPayload) : Value :=
  .object ([("stream_id", natValue p.streamId), ("reason_code", .string p.reasonCode)] ++
    (p.retryable.map fun retryable => ("retryable", Value.bool retryable)).toList)

def cmdValue (p : CmdPayload) : Value :=
  .object ([("cmd_id", natValue p.cmdId), ("name", .string p.name)] ++
    (p.params.map fun params => ("params", params)).toList)

def cmdResponseValue (p : CmdResponsePayload) : Value :=
  .object ([("cmd_id", natValue p.cmdId)] ++
    (p.response.map fun response => ("response", response)).toList ++
    if p.error.isEmpty then [] else [("error", .string p.error)])

def payloadMember (f : Frame) : List (String × Value) :=
  match f.body with
  | .sessionInit p => (p.map fun p => ("session_init", sessionInitValue p)).toList
  | .sessionAck p => (p.map fun p => ("session_ack", sessionAckValue p)).toList
  | .open p => (p.map fun p => ("open", openValue p)).toList
  | .openAck => [("open_ack", .object [("stream_id", natValue f.streamId)])]
  | .nack p => (p.map fun p => ("nack", nackValue p)).toList
  | .data bytes =>
    if bytes.isEmpty then [] else [("data", .string (String.ofList (base64Encode bytes)))]
  | .rst reason => if reason.isEmpty then [] else [("reason", .string reason)]
  | .cmd p => (p.map fun p => ("cmd", cmdValue p)).toList
  | .cmdResponse p => (p.map fun p => ("cmd_response", cmdResponseValue p)).toList
  | .fin | .ping | .pong | .unknown _ => []

/-- `WireFrame`: the type, the stream id when it is not 0, and the payload. -/
def wireFrame (f : Frame) : Value :=
  .object ([("type", .string f.frameType.asWireStr)] ++
    (if f.streamId = 0 then [] else [("stream_id", natValue f.streamId)]) ++ payloadMember f)

def encode (f : Frame) : String := (wireFrame f).render

def Frame.fits (f : Frame) : Bool := (encode f).utf8ByteSize ≤ maxFrameSizeBytes

example : encode (.newData 7 [104, 101, 108, 108, 111]) =
    "\x7b\"type\":\"DATA\",\"stream_id\":7,\"data\":\"aGVsbG8=\"\x7d" := by decide

section Sizes

def PlainChar (c : Char) : Prop := c.utf8Size = 1 ∧ escapeChar c = [c]

theorem length_base64Encode (bytes : List UInt8) :
    (base64Encode bytes).length = 4 * ((bytes.length + 2) / 3) := by
  induction bytes using base64Encode.induct with
  | case1 => rfl
  | case2 a => simp [base64Encode]
  | case3 a b => simp [base64Encode]
  | case4 a b c rest ih =>
    simp only [base64Encode, List.length_cons, ih]
    omega

theorem plain_base64Char (n : Nat) : PlainChar (base64Char n) := by
  by_cases h : n < 62
  · have hall : ∀ m < 62, PlainChar (base64Char m) := by unfold PlainChar; decide
    exact hall n h
  · have hlast : base64Char n = '+' ∨ base64Char n = '/' := by
      unfold base64Char
      rw [if_neg (by omega), if_neg (by omega), if_neg h]
      split <;> simp
    unfold PlainChar
    rcases hlast with hlast | hlast <;> rw [hlast] <;> decide

theorem plain_base64Encode (bytes : List UInt8) : ∀ c ∈ base64Encode bytes, PlainChar c := by
  have hpad : PlainChar '=' := by unfold PlainChar; decide
  induction bytes using base64Encode.induct with
  | case1 => simp [base64Encode]
  | case2 a => simp [base64Encode, plain_base64Char, hpad]
  | case3 a b => simp [base64Encode, plain_base64Char, hpad]
  | case4 a b c rest ih => simpa [base64Encode, plain_base64Char] using ih

theorem utf8ByteSize_ofList_plain {l : List Char} (h : ∀ c ∈ l, PlainChar c) :
    (String.ofList l).utf8ByteSize = l.length := by
  induction l with
  | nil => rfl
  | cons c rest ih =>
    have hcons : String.ofList (c :: rest) = String.singleton c ++ String.ofList rest := by
      rw [← List.singleton_append, String.ofList_append]
      rfl
    rw [hcons, String.utf8ByteSize_append, String.utf8ByteSize_singleton,
      (h c List.mem_cons_self).1, ih fun d hd => h d (List.mem_cons_of_mem _ hd)]
    simp [Nat.add_comm]

theorem flatMap_escapeChar_plain {l : List Char} (h : ∀ c ∈ l, PlainChar c) :
    l.flatMap escapeChar = l := by
  induction l with
  | nil => rfl
  | cons c rest ih =>
    rw [List.flatMap_cons, (h c List.mem_cons_self).2,
      ih fun d hd => h d (List.mem_cons_of_mem _ hd)]
    rfl

/-- Quoting plain text adds the two quotes. -/
theorem utf8ByteSize_renderString_plain {l : List Char} (h : ∀ c ∈ l, PlainChar c) :
    (renderString (String.ofList l)).utf8ByteSize = l.length + 2 := by
  unfold renderString
  rw [String.toList_ofList, flatMap_escapeChar_plain h, String.utf8ByteSize_append,
    String.utf8ByteSize_append, utf8ByteSize_ofList_plain h]
  have hquote : "\"".utf8ByteSize = 1 := by decide
  omega

theorem utf8ByteSize_repr {n : Nat} (h : n < 10 ^ 20) : (Nat.repr n).utf8ByteSize ≤ 20 := by
  have hdigits : ∀ c ∈ Nat.toDigits 10 n, PlainChar c := by
    intro c hc
    have hdigit : c.isDigit = true := Nat.isDigit_of_mem_toDigits (by decide) (by decide) hc
    obtain ⟨hlo, hhi⟩ : 48 ≤ c.toNat ∧ c.toNat ≤ 57 := by
      simpa [Char.isDigit, UInt32.le_iff_toNat_le] using hdigit
    have hchar : c = Char.ofNat c.toNat := (Char.ofNat_toNat c).symm
    have hall : ∀ m ≤ 57, 48 ≤ m → PlainChar (Char.ofNat m) := by unfold PlainChar; decide
    rw [hchar]
    exact hall c.toNat hhi hlo
  have hlength : (Nat.toDigits 10 n).length ≤ 20 := Nat.toDigits_length 10 n 20 (by decide) h
  have hrepr : Nat.repr n = String.ofList (Nat.toDigits 10 n) := rfl
  rw [hrepr, utf8ByteSize_ofList_plain hdigits]
  exact hlength

theorem utf8ByteSize_natValue {n : Nat} (h : n < 10 ^ 20) :
    (natValue n).render.utf8ByteSize ≤ 20 := by
  have hrender : (natValue n).render = Nat.repr n := rfl
  rw [hrender]
  exact utf8ByteSize_repr h

/-- What a member adds to the text of its object, its comma included. -/
def memberSize (e : String × Value) : Nat :=
  (renderString e.1).utf8ByteSize + e.2.render.utf8ByteSize + 2

theorem utf8ByteSize_renderMembers : ∀ members : List (String × Value),
    (renderMembers members).utf8ByteSize ≤ (members.map memberSize).sum
  | [] => by simp [renderMembers]
  | [(k, v)] => by
    have hcolon : ":".utf8ByteSize = 1 := by decide
    simp only [renderMembers, String.utf8ByteSize_append, List.map_cons, List.map_nil,
      List.sum_cons, List.sum_nil, memberSize]
    omega
  | (k, v) :: e :: rest => by
    have hcolon : ":".utf8ByteSize = 1 := by decide
    have hcomma : ",".utf8ByteSize = 1 := by decide
    have ih := utf8ByteSize_renderMembers (e :: rest)
    rw [List.map_cons, List.sum_cons]
    simp only [renderMembers, String.utf8ByteSize_append, memberSize] at ih ⊢
    omega

theorem utf8ByteSize_encode (f : Frame) : (encode f).utf8ByteSize ≤
    2 + memberSize ("type", .string f.frameType.asWireStr) +
      memberSize ("stream_id", natValue f.streamId) + ((payloadMember f).map memberSize).sum := by
  have hopen : "\x7b".utf8ByteSize = 1 := by decide
  have hclose : "\x7d".utf8ByteSize = 1 := by decide
  unfold encode wireFrame
  rw [Value.render, String.utf8ByteSize_append, String.utf8ByteSize_append, hopen, hclose]
  refine Nat.le_trans (Nat.add_le_add_right
    (Nat.add_le_add_left (utf8ByteSize_renderMembers _) _) _) ?_
  rw [List.map_append, List.map_append, List.sum_append, List.sum_append]
  split
  · simp only [List.map_cons, List.map_nil, List.sum_cons, List.sum_nil]
    omega
  · simp only [List.map_cons, List.map_nil, List.sum_cons, List.sum_nil]
    omega

theorem memberSize_streamId {k : Nat} (hk : k < 2 ^ 64) :
    memberSize ("stream_id", natValue k) ≤ 33 := by
  have hid := utf8ByteSize_natValue (n := k) (by omega)
  have hname : (renderString "stream_id").utf8ByteSize = 11 := by decide
  simp only [memberSize, hname]
  omega

theorem fits_newData {k : Nat} {bytes : List UInt8} (hk : k < 2 ^ 64)
    (hbytes : bytes.length ≤ readBufferSize) : (Frame.newData k bytes).fits = true := by
  have hsize := utf8ByteSize_encode (Frame.newData k bytes)
  have hid : memberSize ("stream_id", natValue (Frame.newData k bytes).streamId) ≤ 33 :=
    memberSize_streamId hk
  have htype : memberSize ("type", .string (Frame.newData k bytes).frameType.asWireStr) = 14 := by
    simp only [Frame.newData, Frame.frameType, FrameType.asWireStr]
    decide
  have hname : (renderString "data").utf8ByteSize = 6 := by decide
  have hpayload : ((payloadMember (Frame.newData k bytes)).map memberSize).sum ≤
      4 * ((bytes.length + 2) / 3) + 10 := by
    simp only [payloadMember, Frame.newData]
    split
    · simp
    · simp only [List.map_cons, List.map_nil, List.sum_cons, List.sum_nil, memberSize, hname,
        Value.render, utf8ByteSize_renderString_plain (plain_base64Encode bytes),
        length_base64Encode]
      omega
  unfold readBufferSize at hbytes
  unfold Frame.fits maxFrameSizeBytes
  exact decide_eq_true (by omega)

end Sizes

end Tunnel
