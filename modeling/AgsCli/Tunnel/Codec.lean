import AgsCli.Protocol.JsonText
import AgsCli.Tunnel.Wire

/-! # Tunnel frame codec

`decode` of the JSON text of a message, for any JSON reader, and the frames that survive `encode`
and `decode`: all but those whose RPC value is a JSON null. -/
namespace Codec

open Json Tunnel OrderedMap

def fromWireStr (s : String) : FrameType :=
  if s = "SESSION_INIT" then .sessionInit
  else if s = "SESSION_ACK" then .sessionAck
  else if s = "OPEN" then .open
  else if s = "OPEN_ACK" then .openAck
  else if s = "NACK" then .nack
  else if s = "DATA" then .data
  else if s = "FIN" then .fin
  else if s = "RST" then .rst
  else if s = "PING" then .ping
  else if s = "PONG" then .pong
  else if s = "CMD" then .cmd
  else if s = "CMD_RESPONSE" then .cmdResponse
  else .unknown s

inductive DecodeError
  | malformed
  | notAnObject
  | missingField (name : String)
  | duplicateField (name : String)
  | invalidField (name : String)
  deriving DecidableEq, Repr

section Base64

def base64Value (c : Char) : Option Nat :=
  if 'A' ≤ c ∧ c ≤ 'Z' then some (c.toNat - 65)
  else if 'a' ≤ c ∧ c ≤ 'z' then some (c.toNat - 71)
  else if '0' ≤ c ∧ c ≤ '9' then some (c.toNat + 4)
  else if c = '+' then some 62
  else if c = '/' then some 63
  else none

/-- A group of four characters that is not the last one. -/
def fullGroup (a b c d : Char) : Option (List UInt8) := do
  let w ← base64Value a
  let x ← base64Value b
  let y ← base64Value c
  let z ← base64Value d
  some [UInt8.ofNat (w * 4 + x / 16), UInt8.ofNat (x % 16 * 16 + y / 4),
    UInt8.ofNat (y % 4 * 64 + z)]

/-- The last group; the bits the padding leaves over must be 0. -/
def lastGroup (a b c d : Char) : Option (List UInt8) :=
  if d = '=' then
    if c = '=' then
      match base64Value a, base64Value b with
      | some w, some x => if x % 16 = 0 then some [UInt8.ofNat (w * 4 + x / 16)] else none
      | _, _ => none
    else
      match base64Value a, base64Value b, base64Value c with
      | some w, some x, some y =>
        if y % 4 = 0 then
          some [UInt8.ofNat (w * 4 + x / 16), UInt8.ofNat (x % 16 * 16 + y / 4)]
        else none
      | _, _, _ => none
  else fullGroup a b c d

def base64Decode : List Char → Option (List UInt8)
  | [] => some []
  | [a, b, c, d] => lastGroup a b c d
  | a :: b :: c :: d :: rest =>
    match fullGroup a b c d, base64Decode rest with
    | some bytes, some more => some (bytes ++ more)
    | _, _ => none
  | _ => none

theorem base64Value_base64Char {n : Nat} (h : n < 64) : base64Value (base64Char n) = some n := by
  have hall : ∀ m < 64, base64Value (base64Char m) = some m := by decide
  exact hall n h

theorem base64Char_ne_pad (n : Nat) : base64Char n ≠ '=' := by
  by_cases h : n < 63
  · have hall : ∀ m < 63, base64Char m ≠ '=' := by decide
    exact hall n h
  · have hlast : base64Char n = '/' := by
      unfold base64Char
      rw [if_neg (by omega), if_neg (by omega), if_neg (by omega), if_neg (by omega)]
    rw [hlast]
    decide

theorem fullGroup_base64Char (a b c : UInt8) :
    fullGroup (base64Char (a.toNat / 4)) (base64Char (a.toNat % 4 * 16 + b.toNat / 16))
      (base64Char (b.toNat % 16 * 4 + c.toNat / 64)) (base64Char (c.toNat % 64)) =
        some [a, b, c] := by
  have ha := a.toNat_lt
  have hb := b.toNat_lt
  have hc := c.toNat_lt
  unfold fullGroup
  rw [base64Value_base64Char (by omega), base64Value_base64Char (by omega),
    base64Value_base64Char (by omega), base64Value_base64Char (by omega)]
  have h1 : a.toNat / 4 * 4 + (a.toNat % 4 * 16 + b.toNat / 16) / 16 = a.toNat := by omega
  have h2 : (a.toNat % 4 * 16 + b.toNat / 16) % 16 * 16 +
      (b.toNat % 16 * 4 + c.toNat / 64) / 4 = b.toNat := by omega
  have h3 : (b.toNat % 16 * 4 + c.toNat / 64) % 4 * 64 + c.toNat % 64 = c.toNat := by omega
  simp only [Option.bind_eq_bind, Option.bind_some, h1, h2, h3, UInt8.ofNat_toNat]

theorem base64Decode_base64Encode (bytes : List UInt8) :
    base64Decode (base64Encode bytes) = some bytes := by
  induction bytes using base64Encode.induct with
  | case1 => rfl
  | case2 a =>
    have ha := a.toNat_lt
    have h1 : a.toNat / 4 * 4 + a.toNat % 4 * 16 / 16 = a.toNat := by omega
    have h2 : a.toNat % 4 * 16 % 16 = 0 := by omega
    simp only [base64Encode, base64Decode, lastGroup, if_true]
    rw [base64Value_base64Char (by omega), base64Value_base64Char (by omega)]
    simp only [h1, h2, if_true, UInt8.ofNat_toNat]
  | case3 a b =>
    have ha := a.toNat_lt
    have hb := b.toNat_lt
    have h1 : a.toNat / 4 * 4 + (a.toNat % 4 * 16 + b.toNat / 16) / 16 = a.toNat := by omega
    have h2 : (a.toNat % 4 * 16 + b.toNat / 16) % 16 * 16 + b.toNat % 16 * 4 / 4 = b.toNat := by
      omega
    have h3 : b.toNat % 16 * 4 % 4 = 0 := by omega
    simp only [base64Encode, base64Decode, lastGroup, if_true, if_neg (base64Char_ne_pad _)]
    rw [base64Value_base64Char (by omega), base64Value_base64Char (by omega),
      base64Value_base64Char (by omega)]
    simp only [h1, h2, h3, if_true, UInt8.ofNat_toNat]
  | case4 a b c rest ih =>
    rw [base64Encode]
    cases hrest : base64Encode rest with
    | nil =>
      rw [hrest] at ih
      have hnil : rest = [] := (Option.some.inj ih).symm
      rw [base64Decode, lastGroup, if_neg (base64Char_ne_pad _), fullGroup_base64Char, hnil]
    | cons d more =>
      rw [base64Decode, fullGroup_base64Char, ← hrest, ih]
      · rfl
      · intro heq
        cases heq

end Base64

section Fields

abbrev Members := List (String × Value)

variable {α : Type}

def member (members : Members) (name : String) : Except DecodeError (Option Value) :=
  match members.filter fun e => e.1 = name with
  | [] => .ok none
  | [(_, v)] => .ok (some v)
  | _ => .error (.duplicateField name)

def readAs (name : String) (read : Value → Option α) (v : Value) : Except DecodeError α :=
  match read v with
  | some a => .ok a
  | none => .error (.invalidField name)

def required (members : Members) (name : String) (read : Value → Option α) :
    Except DecodeError α :=
  match member members name with
  | .error e => .error e
  | .ok none => .error (.missingField name)
  | .ok (some v) => readAs name read v

/-- An `Option` field: a null reads like a missing one. -/
def optional (members : Members) (name : String) (read : Value → Option α) :
    Except DecodeError (Option α) :=
  match member members name with
  | .error e => .error e
  | .ok none | .ok (some .null) => .ok none
  | .ok (some v) => (readAs name read v).map some

def defaulted (members : Members) (name : String) (dflt : α) (read : Value → Option α) :
    Except DecodeError α :=
  match member members name with
  | .error e => .error e
  | .ok none => .ok dflt
  | .ok (some v) => readAs name read v

/-- A `default` field with `null_as_default`. -/
def nullAsDefault (members : Members) (name : String) (dflt : α) (read : Value → Option α) :
    Except DecodeError α :=
  (optional members name read).map fun a => a.getD dflt

def u64? : Value → Option Nat
  | .number (.int n) => if 0 ≤ n ∧ n < 2 ^ 64 then some n.toNat else none
  | _ => none

def i64? : Value → Option Int
  | .number (.int n) => if -2 ^ 63 ≤ n ∧ n < 2 ^ 63 then some n else none
  | _ => none

def i32? : Value → Option Int
  | .number (.int n) => if -2 ^ 31 ≤ n ∧ n < 2 ^ 31 then some n else none
  | _ => none

def bool? : Value → Option Bool
  | .bool b => some b
  | _ => none

def list? (read : Value → Option α) : Value → Option (List α)
  | .array items => items.mapM read
  | _ => none

def bytes? : Value → Option (List UInt8)
  | .string s => base64Decode s.toList
  | _ => none

mutual

/-- `serde_json::Value` keeps its objects as sorted maps. -/
def canonical : Value → Value
  | .array items => .array (canonicalItems items)
  | .object members => .ofPairs (canonicalMembers members)
  | v => v

def canonicalItems : List Value → List Value
  | [] => []
  | v :: rest => canonical v :: canonicalItems rest

def canonicalMembers : Members → Members
  | [] => []
  | (k, v) :: rest => (k, canonical v) :: canonicalMembers rest

end

def json? (v : Value) : Option Value := some (canonical v)

end Fields

section Payloads

def sessionInit? (v : Value) : Option SessionInitPayload := do
  let members ← v.asObject?
  (do
    let clientVersion ← required members "client_version" i64?
    let capabilities ← nullAsDefault members "capabilities" [] (list? Value.asStr?)
    let interceptPorts ← nullAsDefault members "intercept_ports" [] (list? i32?)
    return ⟨clientVersion, capabilities, interceptPorts⟩ :
      Except DecodeError SessionInitPayload).toOption

def sessionAck? (v : Value) : Option SessionAckPayload := do
  let members ← v.asObject?
  (do
    let serverVersion ← required members "server_version" i64?
    let sessionId ← required members "session_id" Value.asStr?
    let idleTimeoutSec ← required members "idle_timeout_sec" i64?
    return ⟨serverVersion, sessionId, idleTimeoutSec⟩ :
      Except DecodeError SessionAckPayload).toOption

def open? (v : Value) : Option OpenPayload := do
  let members ← v.asObject?
  (do
    let targetHost ← required members "target_host" Value.asStr?
    let targetPort ← required members "target_port" i32?
    let remoteAddr ← defaulted members "remote_addr" "" Value.asStr?
    return ⟨targetHost, targetPort, remoteAddr⟩ : Except DecodeError OpenPayload).toOption

/-- `WireOpenAck`: read and then discarded. -/
def openAck? (v : Value) : Option Nat := do
  let members ← v.asObject?
  (required members "stream_id" u64?).toOption

def nack? (v : Value) : Option NackPayload := do
  let members ← v.asObject?
  (do
    let streamId ← required members "stream_id" u64?
    let reasonCode ← required members "reason_code" Value.asStr?
    let retryable ← optional members "retryable" bool?
    return ⟨streamId, reasonCode, retryable⟩ : Except DecodeError NackPayload).toOption

def cmd? (v : Value) : Option CmdPayload := do
  let members ← v.asObject?
  (do
    let cmdId ← required members "cmd_id" u64?
    let name ← required members "name" Value.asStr?
    let params ← optional members "params" json?
    return ⟨cmdId, name, params⟩ : Except DecodeError CmdPayload).toOption

def cmdResponse? (v : Value) : Option CmdResponsePayload := do
  let members ← v.asObject?
  (do
    let cmdId ← required members "cmd_id" u64?
    let response ← optional members "response" json?
    let error ← defaulted members "error" "" Value.asStr?
    return ⟨cmdId, response, error⟩ : Except DecodeError CmdResponsePayload).toOption

end Payloads

structure WireFrame where
  frameType : String
  streamId : Nat
  sessionInit : Option SessionInitPayload
  sessionAck : Option SessionAckPayload
  open' : Option OpenPayload
  openAck : Option Nat
  nack : Option NackPayload
  data : Option (List UInt8)
  reason : String
  cmd : Option CmdPayload
  cmdResponse : Option CmdResponsePayload

def readWireFrame (members : Members) : Except DecodeError WireFrame := do
  let frameType ← required members "type" Value.asStr?
  let streamId ← defaulted members "stream_id" 0 u64?
  let sessionInit ← optional members "session_init" sessionInit?
  let sessionAck ← optional members "session_ack" sessionAck?
  let open' ← optional members "open" open?
  let openAck ← optional members "open_ack" openAck?
  let nack ← optional members "nack" nack?
  let data ← optional members "data" bytes?
  let reason ← nullAsDefault members "reason" "" Value.asStr?
  let cmd ← optional members "cmd" cmd?
  let cmdResponse ← optional members "cmd_response" cmdResponse?
  return ⟨frameType, streamId, sessionInit, sessionAck, open', openAck, nack, data, reason, cmd,
    cmdResponse⟩

/-- The type decides which field is the payload. -/
def WireFrame.bodyAs (w : WireFrame) : FrameType → FrameBody
  | .sessionInit => .sessionInit w.sessionInit
  | .sessionAck => .sessionAck w.sessionAck
  | .open => .open w.open'
  | .openAck => .openAck
  | .nack => .nack w.nack
  | .data => .data (w.data.getD [])
  | .fin => .fin
  | .rst => .rst w.reason
  | .ping => .ping
  | .pong => .pong
  | .cmd => .cmd w.cmd
  | .cmdResponse => .cmdResponse w.cmdResponse
  | .unknown s => .unknown s

def WireFrame.toFrame (w : WireFrame) : Frame :=
  ⟨w.streamId, w.bodyAs (fromWireStr w.frameType)⟩

/-- A JSON array is no frame here; serde's derived reader would take one, field by field. -/
def decode (r : Reader) (text : String) : Except DecodeError Frame :=
  match r.read text with
  | none => .error .malformed
  | some (.object members) => (readWireFrame members).map WireFrame.toFrame
  | some _ => .error .notAnObject

def wireNames : List String :=
  ["SESSION_INIT", "SESSION_ACK", "OPEN", "OPEN_ACK", "NACK", "DATA", "FIN", "RST", "PING", "PONG",
    "CMD", "CMD_RESPONSE"]

def InI64 (n : Int) : Prop := -2 ^ 63 ≤ n ∧ n < 2 ^ 63

def InI32 (n : Int) : Prop := -2 ^ 31 ≤ n ∧ n < 2 ^ 31

/-- The integers are in the range of their types, objects are sorted maps, and an unknown type is
not one of the known ones. -/
def BodyTyped : FrameBody → Prop
  | .sessionInit p => ∀ q ∈ p, InI64 q.clientVersion ∧ ∀ port ∈ q.interceptPorts, InI32 port
  | .sessionAck p => ∀ q ∈ p, InI64 q.serverVersion ∧ InI64 q.idleTimeoutSec
  | .open p => ∀ q ∈ p, InI32 q.targetPort
  | .nack p => ∀ q ∈ p, q.streamId < 2 ^ 64
  | .cmd p => ∀ q ∈ p, q.cmdId < 2 ^ 64 ∧ ∀ v ∈ q.params, canonical v = v ∧ v.isSized = true
  | .cmdResponse p => ∀ q ∈ p, q.cmdId < 2 ^ 64 ∧
    ∀ v ∈ q.response, canonical v = v ∧ v.isSized = true
  | .unknown s => s ∉ wireNames
  | _ => True

structure WellTyped (f : Frame) : Prop where
  streamId : f.streamId < 2 ^ 64
  body : BodyTyped f.body

def CarriesNull : FrameBody → Prop
  | .cmd p => ∃ q ∈ p, q.params = some .null
  | .cmdResponse p => ∃ q ∈ p, q.response = some .null
  | _ => False

section Payloads

theorem u64?_natValue {n : Nat} (h : n < 2 ^ 64) : u64? (natValue n) = some n := by
  have hn : (0 : Int) ≤ n ∧ (n : Int) < 2 ^ 64 := by omega
  simp only [u64?, natValue, if_pos hn, Int.toNat_natCast]

theorem i64?_intValue {n : Int} (h : InI64 n) : i64? (intValue n) = some n := by
  simp only [i64?, intValue, if_pos (show -2 ^ 63 ≤ n ∧ n < 2 ^ 63 from h)]

theorem i32?_intValue {n : Int} (h : InI32 n) : i32? (intValue n) = some n := by
  simp only [i32?, intValue, if_pos (show -2 ^ 31 ≤ n ∧ n < 2 ^ 31 from h)]

theorem list?_map {α : Type} {read : Value → Option α} {write : α → Value} {items : List α}
    (h : ∀ a ∈ items, read (write a) = some a) :
    list? read (.array (items.map write)) = some items := by
  unfold list?
  induction items with
  | nil => rfl
  | cons a rest ih =>
    have ih := ih fun b hb => h b (List.mem_cons_of_mem _ hb)
    simp only at ih
    simp only [List.map_cons, List.mapM_cons, h a List.mem_cons_self, ih]
    rfl

theorem open?_openValue {p : OpenPayload} (h : InI32 p.targetPort) :
    open? (openValue p) = some p := by
  obtain ⟨host, port, addr⟩ := p
  have hport := i32?_intValue h
  unfold openValue
  split_ifs with haddr
  · have hempty : addr = "" := by simpa using haddr
    simp [open?, Value.asObject?, required, defaulted, member, readAs, Value.asStr?, hport, hempty]
    rfl
  · simp [open?, Value.asObject?, required, defaulted, member, readAs, Value.asStr?, hport]
    rfl

theorem sessionInit?_sessionInitValue {p : SessionInitPayload} (hversion : InI64 p.clientVersion)
    (hports : ∀ port ∈ p.interceptPorts, InI32 port) :
    sessionInit? (sessionInitValue p) = some p := by
  obtain ⟨version, capabilities, ports⟩ := p
  have hversion := i64?_intValue hversion
  have hports : list? i32? (.array (ports.map intValue)) = some ports :=
    list?_map fun port hport => i32?_intValue (hports port hport)
  have hcapabilities : list? Value.asStr? (.array (capabilities.map .string)) =
      some capabilities := list?_map fun _ _ => rfl
  unfold sessionInitValue
  split_ifs with hempty
  · have hnil : capabilities = [] := by simpa using hempty
    simp [sessionInit?, Value.asObject?, required, nullAsDefault, optional, member, readAs,
      hversion, hports, hnil, Except.map]
    rfl
  · simp [sessionInit?, Value.asObject?, required, nullAsDefault, optional, member, readAs,
      hversion, hports, hcapabilities, Except.map]
    rfl

theorem sessionAck?_sessionAckValue {p : SessionAckPayload} (hversion : InI64 p.serverVersion)
    (htimeout : InI64 p.idleTimeoutSec) : sessionAck? (sessionAckValue p) = some p := by
  obtain ⟨version, id, timeout⟩ := p
  have hversion := i64?_intValue hversion
  have htimeout := i64?_intValue htimeout
  simp [sessionAck?, sessionAckValue, Value.asObject?, required, member, readAs, Value.asStr?,
    hversion, htimeout]
  rfl

theorem readAs_eq {α : Type} {name : String} {read : Value → Option α} {v : Value} {a : α}
    (h : read v = some a) : readAs name read v = .ok a := by
  rw [readAs, h]

theorem required_eq {α : Type} {members : Members} {name : String} {read : Value → Option α}
    {v : Value} {a : α} (hmember : member members name = .ok (some v)) (h : read v = some a) :
    required members name read = .ok a := by
  rw [required, hmember]
  exact readAs_eq h

theorem optional_eq {α : Type} {members : Members} {name : String} {read : Value → Option α}
    {v : Value} {a : α} (hmember : member members name = .ok (some v)) (hnull : v ≠ .null)
    (h : read v = some a) : optional members name read = .ok (some a) := by
  unfold optional
  rw [hmember]
  cases v with
  | null => exact absurd rfl hnull
  | _ => simp only [readAs_eq h, Except.map]

theorem optional_absent {α : Type} {members : Members} {name : String}
    (read : Value → Option α) (hmember : member members name = .ok none) :
    optional members name read = .ok none := by
  rw [optional, hmember]

theorem defaulted_eq {α : Type} {members : Members} {name : String} {dflt : α}
    {read : Value → Option α} {v : Value} {a : α}
    (hmember : member members name = .ok (some v)) (h : read v = some a) :
    defaulted members name dflt read = .ok a := by
  rw [defaulted, hmember]
  exact readAs_eq h

theorem defaulted_absent {α : Type} {members : Members} {name : String} {dflt : α}
    (read : Value → Option α) (hmember : member members name = .ok none) :
    defaulted members name dflt read = .ok dflt := by
  rw [defaulted, hmember]

theorem nullAsDefault_eq {α : Type} {members : Members} {name : String} {dflt : α}
    {read : Value → Option α} {v : Value} {a : α}
    (hmember : member members name = .ok (some v)) (hnull : v ≠ .null) (h : read v = some a) :
    nullAsDefault members name dflt read = .ok a := by
  rw [nullAsDefault, optional_eq hmember hnull h]
  rfl

theorem openAck?_object {members : Members} {id : Nat}
    (hid : required members "stream_id" u64? = .ok id) :
    openAck? (.object members) = some id := by
  simp only [openAck?, Value.asObject?, Option.bind_eq_bind, Option.bind_some, hid]
  rfl

theorem openAck?_natValue {id : Nat} (h : id < 2 ^ 64) :
    openAck? (.object [("stream_id", natValue id)]) = some id :=
  openAck?_object (required_eq (by simp [member]) (u64?_natValue h))

theorem nack?_object {members : Members} {id : Nat} {reason : String} {retryable : Option Bool}
    (hid : required members "stream_id" u64? = .ok id)
    (hreason : required members "reason_code" Value.asStr? = .ok reason)
    (hretryable : optional members "retryable" bool? = .ok retryable) :
    nack? (.object members) = some ⟨id, reason, retryable⟩ := by
  simp only [nack?, Value.asObject?, Option.bind_eq_bind, Option.bind_some, hid, hreason,
    hretryable]
  rfl

theorem nack?_nackValue {p : NackPayload} (h : p.streamId < 2 ^ 64) :
    nack? (nackValue p) = some p := by
  obtain ⟨id, reason, retryable⟩ := p
  refine nack?_object (required_eq ?_ (u64?_natValue h)) (required_eq (v := .string reason) ?_ rfl)
    ?_
  · cases retryable <;> simp [member]
  · cases retryable <;> simp [member]
  · cases retryable with
    | none => exact optional_absent _ (by simp [member])
    | some retryable =>
      exact optional_eq (v := .bool retryable) (by simp [member]) Value.noConfusion rfl

theorem cmd?_object {members : Members} {id : Nat} {name : String} {params : Option Value}
    (hid : required members "cmd_id" u64? = .ok id)
    (hname : required members "name" Value.asStr? = .ok name)
    (hparams : optional members "params" json? = .ok params) :
    cmd? (.object members) = some ⟨id, name, params⟩ := by
  simp only [cmd?, Value.asObject?, Option.bind_eq_bind, Option.bind_some, hid, hname, hparams]
  rfl

/-- A JSON value that is not null is read back. -/
theorem optional_json {members : Members} {name : String} {v : Option Value}
    (hmember : member members name = .ok v) (hcanonical : ∀ w ∈ v, canonical w = w)
    (hnull : v ≠ some .null) : optional members name json? = .ok v := by
  cases v with
  | none => exact optional_absent _ hmember
  | some v =>
    exact optional_eq hmember (fun heq => hnull (by rw [heq]))
      (by rw [json?, hcanonical v rfl])

theorem cmd?_null {id : Nat} {name : String} (hid : id < 2 ^ 64) :
    cmd? (cmdValue ⟨id, name, some .null⟩) = some ⟨id, name, none⟩ := by
  refine cmd?_object (required_eq ?_ (u64?_natValue hid)) (required_eq (v := .string name) ?_ rfl)
    ?_
  · simp [member]
  · simp [member]
  · simp [optional, member]

theorem cmd?_cmdValue {p : CmdPayload} (hid : p.cmdId < 2 ^ 64)
    (hcanonical : ∀ v ∈ p.params, canonical v = v) (hnull : p.params ≠ some .null) :
    cmd? (cmdValue p) = some p := by
  obtain ⟨id, name, params⟩ := p
  refine cmd?_object (required_eq ?_ (u64?_natValue hid)) (required_eq (v := .string name) ?_ rfl)
    (optional_json ?_ hcanonical hnull)
  · cases params <;> simp [member]
  · cases params <;> simp [member]
  · cases params <;> simp [member]

theorem cmdResponse?_object {members : Members} {id : Nat} {response : Option Value}
    {error : String} (hid : required members "cmd_id" u64? = .ok id)
    (hresponse : optional members "response" json? = .ok response)
    (herror : defaulted members "error" "" Value.asStr? = .ok error) :
    cmdResponse? (.object members) = some ⟨id, response, error⟩ := by
  simp only [cmdResponse?, Value.asObject?, Option.bind_eq_bind, Option.bind_some, hid, hresponse,
    herror]
  rfl

theorem cmdResponse?_cmdResponseValue {p : CmdResponsePayload} (hid : p.cmdId < 2 ^ 64)
    (hcanonical : ∀ v ∈ p.response, canonical v = v) (hnull : p.response ≠ some .null) :
    cmdResponse? (cmdResponseValue p) = some p := by
  obtain ⟨id, response, error⟩ := p
  refine cmdResponse?_object (required_eq ?_ (u64?_natValue hid))
    (optional_json ?_ hcanonical hnull) ?_
  · cases response <;> by_cases hempty : error = "" <;> simp [member, hempty]
  · cases response <;> by_cases hempty : error = "" <;> simp [member, hempty]
  · by_cases hempty : error = ""
    · rw [hempty]
      exact defaulted_absent _ (by cases response <;> simp [member])
    · exact defaulted_eq (v := .string error)
        (by cases response <;> simp [member, hempty]) rfl

end Payloads

section Frames

def header (f : Frame) : Members :=
  ("type", .string f.frameType.asWireStr) ::
    if f.streamId = 0 then [] else [("stream_id", natValue f.streamId)]

theorem member_header (f : Frame) {name : String} (members : Members) (htype : "type" ≠ name)
    (hid : "stream_id" ≠ name) : member (header f ++ members) name = member members name := by
  unfold header member
  split_ifs <;> simp [htype, hid]

theorem optional_header {α : Type} (f : Frame) {name : String} (members : Members)
    (read : Value → Option α) (htype : "type" ≠ name) (hid : "stream_id" ≠ name) :
    optional (header f ++ members) name read = optional members name read := by
  unfold optional
  rw [member_header f members htype hid]

theorem filter_of_member_none {members : Members} {name : String}
    (h : member members name = .ok none) : members.filter (fun e => e.1 = name) = [] := by
  unfold member at h
  split at h
  · assumption
  · cases h
  · cases h

theorem required_type (f : Frame) {members : Members} (h : member members "type" = .ok none) :
    required (header f ++ members) "type" Value.asStr? = .ok f.frameType.asWireStr := by
  have hnone := filter_of_member_none h
  refine required_eq (v := .string f.frameType.asWireStr) ?_ rfl
  unfold header member
  split_ifs <;> simp only [List.cons_append, List.nil_append, List.filter_cons, hnone] <;> rfl

theorem defaulted_streamId {f : Frame} {members : Members}
    (h : member members "stream_id" = .ok none) (hid : f.streamId < 2 ^ 64) :
    defaulted (header f ++ members) "stream_id" 0 u64? = .ok f.streamId := by
  have hnone := filter_of_member_none h
  by_cases hzero : f.streamId = 0
  · rw [hzero]
    refine defaulted_absent _ ?_
    simp only [header, member, if_pos hzero, List.cons_append, List.nil_append, List.filter_cons,
      hnone]
    rfl
  · refine defaulted_eq (v := natValue f.streamId) ?_ (u64?_natValue hid)
    simp only [header, member, if_neg hzero, List.cons_append, List.nil_append, List.filter_cons,
      hnone]
    rfl

/-- What is read of a frame whose payload member is `members`. -/
theorem readWireFrame_header {f : Frame} {members : Members} (hid : f.streamId < 2 ^ 64)
    (htype : member members "type" = .ok none) (hstream : member members "stream_id" = .ok none) :
    readWireFrame (header f ++ members) = (do
      let sessionInit ← optional members "session_init" sessionInit?
      let sessionAck ← optional members "session_ack" sessionAck?
      let open' ← optional members "open" open?
      let openAck ← optional members "open_ack" openAck?
      let nack ← optional members "nack" nack?
      let data ← optional members "data" bytes?
      let reason ← nullAsDefault members "reason" "" Value.asStr?
      let cmd ← optional members "cmd" cmd?
      let cmdResponse ← optional members "cmd_response" cmdResponse?
      return ⟨f.frameType.asWireStr, f.streamId, sessionInit, sessionAck, open', openAck, nack,
        data, reason, cmd, cmdResponse⟩) := by
  have hreason : nullAsDefault (header f ++ members) "reason" "" Value.asStr? =
      nullAsDefault members "reason" "" Value.asStr? := by
    unfold nullAsDefault
    rw [optional_header f members _ (by decide) (by decide)]
  unfold readWireFrame
  rw [required_type f htype, defaulted_streamId hstream hid,
    optional_header f members _ (by decide) (by decide),
    optional_header f members _ (by decide) (by decide),
    optional_header f members _ (by decide) (by decide),
    optional_header f members _ (by decide) (by decide),
    optional_header f members _ (by decide) (by decide),
    optional_header f members _ (by decide) (by decide), hreason,
    optional_header f members _ (by decide) (by decide),
    optional_header f members _ (by decide) (by decide)]
  rfl

theorem optional_single_ne {α : Type} {wire name : String} (v : Value)
    (read : Value → Option α) (h : wire ≠ name) : optional [(wire, v)] name read = .ok none :=
  optional_absent read (by simp [member, h])

theorem optional_single {α : Type} {name : String} {v : Value} {read : Value → Option α} {a : α}
    (hnull : v ≠ .null) (h : read v = some a) : optional [(name, v)] name read = .ok (some a) :=
  optional_eq (by simp [member]) hnull h

theorem member_single_ne {wire name : String} (v : Value) (h : wire ≠ name) :
    member [(wire, v)] name = .ok none := by
  simp [member, h]

theorem fromWireStr_asWireStr (f : Frame) (h : BodyTyped f.body) :
    fromWireStr f.frameType.asWireStr = f.frameType := by
  obtain ⟨id, body⟩ := f
  cases body with
  | unknown s =>
    have hnot : s ∉ wireNames := h
    simp only [wireNames, List.mem_cons, List.not_mem_nil, or_false, not_or] at hnot
    simp only [Frame.frameType, FrameType.asWireStr, fromWireStr, hnot, if_false]
  | _ => simp only [Frame.frameType, FrameType.asWireStr]; decide

theorem toFrame_eq {w : WireFrame} {f : Frame} (htype : fromWireStr w.frameType = f.frameType)
    (hid : w.streamId = f.streamId) (hbody : w.bodyAs f.frameType = f.body) : w.toFrame = f := by
  unfold WireFrame.toFrame
  rw [htype, hid, hbody]

theorem toFrame_bare {f : Frame} (hid : f.streamId < 2 ^ 64) (hbare : payloadMember f = [])
    (htype : fromWireStr f.frameType.asWireStr = f.frameType)
    (hbody : WireFrame.bodyAs ⟨f.frameType.asWireStr, f.streamId, none, none, none, none, none,
      none, "", none, none⟩ f.frameType = f.body) :
    (readWireFrame (header f ++ payloadMember f)).map WireFrame.toFrame = .ok f := by
  rw [hbare, readWireFrame_header hid rfl rfl]
  exact congrArg Except.ok (toFrame_eq htype rfl hbody)

/-- A frame with the payload member `(name, v)`. -/
theorem readWireFrame_single {f : Frame} {name : String} {v : Value} (hid : f.streamId < 2 ^ 64)
    (hpayload : payloadMember f = [(name, v)]) (htype : name ≠ "type")
    (hstream : name ≠ "stream_id") : readWireFrame (header f ++ payloadMember f) = (do
      let sessionInit ← optional [(name, v)] "session_init" sessionInit?
      let sessionAck ← optional [(name, v)] "session_ack" sessionAck?
      let open' ← optional [(name, v)] "open" open?
      let openAck ← optional [(name, v)] "open_ack" openAck?
      let nack ← optional [(name, v)] "nack" nack?
      let data ← optional [(name, v)] "data" bytes?
      let reason ← nullAsDefault [(name, v)] "reason" "" Value.asStr?
      let cmd ← optional [(name, v)] "cmd" cmd?
      let cmdResponse ← optional [(name, v)] "cmd_response" cmdResponse?
      return ⟨f.frameType.asWireStr, f.streamId, sessionInit, sessionAck, open', openAck, nack,
        data, reason, cmd, cmdResponse⟩) := by
  rw [hpayload]
  exact readWireFrame_header hid (member_single_ne v htype) (member_single_ne v hstream)

theorem toFrame_readWireFrame {f : Frame} (htyped : WellTyped f) (hnull : ¬ CarriesNull f.body) :
    (readWireFrame (header f ++ payloadMember f)).map WireFrame.toFrame = .ok f := by
  obtain ⟨hid, hbody⟩ := htyped
  have htype := fromWireStr_asWireStr f hbody
  obtain ⟨id, body⟩ := f
  cases body with
  | sessionInit p =>
    cases p with
    | none => exact toFrame_bare hid rfl htype rfl
    | some p =>
      obtain ⟨hversion, hports⟩ := hbody p rfl
      rw [readWireFrame_single hid rfl (by decide) (by decide),
        optional_single Value.noConfusion (sessionInit?_sessionInitValue hversion hports)]
      simp (disch := decide) only [optional_single_ne, nullAsDefault]
      exact congrArg Except.ok (toFrame_eq htype rfl rfl)
  | sessionAck p =>
    cases p with
    | none => exact toFrame_bare hid rfl htype rfl
    | some p =>
      obtain ⟨hversion, htimeout⟩ := hbody p rfl
      rw [readWireFrame_single hid rfl (by decide) (by decide),
        optional_single Value.noConfusion (sessionAck?_sessionAckValue hversion htimeout)]
      simp (disch := decide) only [optional_single_ne, nullAsDefault]
      exact congrArg Except.ok (toFrame_eq htype rfl rfl)
  | «open» p =>
    cases p with
    | none => exact toFrame_bare hid rfl htype rfl
    | some p =>
      rw [readWireFrame_single hid rfl (by decide) (by decide),
        optional_single Value.noConfusion (open?_openValue (hbody p rfl))]
      simp (disch := decide) only [optional_single_ne, nullAsDefault]
      exact congrArg Except.ok (toFrame_eq htype rfl rfl)
  | openAck =>
    rw [readWireFrame_single hid rfl (by decide) (by decide),
      optional_single Value.noConfusion (openAck?_natValue hid)]
    simp (disch := decide) only [optional_single_ne, nullAsDefault]
    exact congrArg Except.ok (toFrame_eq htype rfl rfl)
  | nack p =>
    cases p with
    | none => exact toFrame_bare hid rfl htype rfl
    | some p =>
      rw [readWireFrame_single hid rfl (by decide) (by decide),
        optional_single Value.noConfusion (nack?_nackValue (hbody p rfl))]
      simp (disch := decide) only [optional_single_ne, nullAsDefault]
      exact congrArg Except.ok (toFrame_eq htype rfl rfl)
  | data bytes =>
    cases bytes with
    | nil => exact toFrame_bare hid rfl htype rfl
    | cons b rest =>
      have hdata : bytes? (.string (String.ofList (base64Encode (b :: rest)))) =
          some (b :: rest) := by
        rw [bytes?, String.toList_ofList, base64Decode_base64Encode]
      rw [readWireFrame_single hid rfl (by decide) (by decide),
        optional_single Value.noConfusion hdata]
      simp (disch := decide) only [optional_single_ne, nullAsDefault]
      exact congrArg Except.ok (toFrame_eq htype rfl rfl)
  | rst reason =>
    by_cases hempty : reason = ""
    · rw [hempty] at htype ⊢
      exact toFrame_bare hid rfl htype rfl
    · have hpayload : payloadMember ⟨id, .rst reason⟩ = [("reason", .string reason)] := by
        simp [payloadMember, hempty]
      have hreason : nullAsDefault [("reason", Value.string reason)] "reason" "" Value.asStr? =
          .ok reason := nullAsDefault_eq (v := .string reason) rfl Value.noConfusion rfl
      rw [readWireFrame_single hid hpayload (by decide) (by decide), hreason]
      simp (disch := decide) only [optional_single_ne]
      exact congrArg Except.ok (toFrame_eq htype rfl rfl)
  | cmd p =>
    cases p with
    | none => exact toFrame_bare hid rfl htype rfl
    | some p =>
      obtain ⟨hcmd, hcanonical⟩ := hbody p rfl
      have hparams : p.params ≠ some .null := fun h => hnull ⟨p, rfl, h⟩
      rw [readWireFrame_single hid rfl (by decide) (by decide),
        optional_single Value.noConfusion
          (cmd?_cmdValue hcmd (fun v hv => (hcanonical v hv).1) hparams)]
      simp (disch := decide) only [optional_single_ne, nullAsDefault]
      exact congrArg Except.ok (toFrame_eq htype rfl rfl)
  | cmdResponse p =>
    cases p with
    | none => exact toFrame_bare hid rfl htype rfl
    | some p =>
      obtain ⟨hcmd, hcanonical⟩ := hbody p rfl
      have hresponse : p.response ≠ some .null := fun h => hnull ⟨p, rfl, h⟩
      rw [readWireFrame_single hid rfl (by decide) (by decide),
        optional_single Value.noConfusion
          (cmdResponse?_cmdResponseValue hcmd (fun v hv => (hcanonical v hv).1) hresponse)]
      simp (disch := decide) only [optional_single_ne, nullAsDefault]
      exact congrArg Except.ok (toFrame_eq htype rfl rfl)
  | _ => exact toFrame_bare hid rfl htype rfl

theorem isSized_natValue {n : Nat} (h : n < 2 ^ 64) : (natValue n).isSized = true :=
  isSized_int.mpr ⟨by omega, by omega⟩

theorem isSized_intValue {n : Int} (h : InI64 n) : (intValue n).isSized = true :=
  isSized_int.mpr ⟨h.1, h.2.trans (by decide)⟩

theorem inI64_of_inI32 {n : Int} (h : InI32 n) : InI64 n := by
  unfold InI32 at h
  unfold InI64
  omega

theorem sizedMembers_append {members more : Members} : sizedMembers (members ++ more) =
    (sizedMembers members && sizedMembers more) := by
  induction members with
  | nil => rfl
  | cons e rest ih => rw [List.cons_append, sizedMembers, sizedMembers, ih, Bool.and_assoc]

theorem sizedMembers_optional {α : Type} {name : String} {value : α → Value} {p : Option α}
    (h : ∀ q ∈ p, (value q).isSized = true) :
    sizedMembers (p.map fun q => (name, value q)).toList = true := by
  cases p with
  | none => rfl
  | some q => exact Bool.and_eq_true_iff.mpr ⟨h q rfl, rfl⟩

theorem isSized_sessionInitValue {p : SessionInitPayload} (hversion : InI64 p.clientVersion)
    (hports : ∀ port ∈ p.interceptPorts, InI32 port) : (sessionInitValue p).isSized = true := by
  have hcapabilities : sizedItems (p.capabilities.map .string) = true :=
    sizedItems_iff.mpr (List.forall_mem_map.mpr fun _ _ => rfl)
  have hitems : sizedItems (p.interceptPorts.map intValue) = true :=
    sizedItems_iff.mpr (List.forall_mem_map.mpr fun port hport =>
      isSized_intValue (inI64_of_inI32 (hports port hport)))
  unfold sessionInitValue
  split_ifs <;>
    simp [Value.isSized, sizedMembers, hcapabilities, hitems, isSized_intValue hversion]

theorem isSized_nackValue {p : NackPayload} (hid : p.streamId < 2 ^ 64) :
    (nackValue p).isSized = true := by
  have hretryable : sizedMembers
      (p.retryable.map fun retryable => ("retryable", Value.bool retryable)).toList = true :=
    sizedMembers_optional fun _ _ => rfl
  simp only [nackValue, Value.isSized, sizedMembers_append, sizedMembers, hretryable,
    isSized_natValue hid, Bool.and_true]

theorem isSized_cmdValue {p : CmdPayload} (hcmd : p.cmdId < 2 ^ 64)
    (hparams : ∀ v ∈ p.params, v.isSized = true) : (cmdValue p).isSized = true := by
  have hoptional : sizedMembers (p.params.map fun params => ("params", params)).toList = true :=
    sizedMembers_optional hparams
  simp only [cmdValue, Value.isSized, sizedMembers_append, sizedMembers, hoptional,
    isSized_natValue hcmd, Bool.and_true]

theorem isSized_cmdResponseValue {p : CmdResponsePayload} (hcmd : p.cmdId < 2 ^ 64)
    (hresponse : ∀ v ∈ p.response, v.isSized = true) : (cmdResponseValue p).isSized = true := by
  have hoptional : sizedMembers
      (p.response.map fun response => ("response", response)).toList = true :=
    sizedMembers_optional hresponse
  unfold cmdResponseValue
  split_ifs <;>
    simp only [Value.isSized, sizedMembers_append, sizedMembers, hoptional, isSized_natValue hcmd,
      Bool.and_true]

theorem sizedMembers_payloadMember {f : Frame} (h : WellTyped f) :
    sizedMembers (payloadMember f) = true := by
  obtain ⟨hid, hbody⟩ := h
  obtain ⟨id, body⟩ := f
  cases body with
  | sessionInit p =>
    exact sizedMembers_optional fun q hq =>
      isSized_sessionInitValue (hbody q hq).1 (hbody q hq).2
  | sessionAck p =>
    refine sizedMembers_optional fun q hq => ?_
    simp only [sessionAckValue, Value.isSized, sizedMembers, isSized_intValue (hbody q hq).1,
      isSized_intValue (hbody q hq).2, Bool.and_true]
  | «open» p =>
    refine sizedMembers_optional fun q hq => ?_
    unfold openValue
    split_ifs <;>
      simp [Value.isSized, sizedMembers, isSized_intValue (inI64_of_inI32 (hbody q hq))]
  | openAck =>
    simp only [payloadMember, Value.isSized, sizedMembers, isSized_natValue hid, Bool.and_true]
  | nack p => exact sizedMembers_optional fun q hq => isSized_nackValue (hbody q hq)
  | data bytes =>
    cases bytes <;> rfl
  | rst reason =>
    simp only [payloadMember]
    split_ifs <;> rfl
  | cmd p =>
    exact sizedMembers_optional fun q hq =>
      isSized_cmdValue (hbody q hq).1 fun v hv => ((hbody q hq).2 v hv).2
  | cmdResponse p =>
    exact sizedMembers_optional fun q hq =>
      isSized_cmdResponseValue (hbody q hq).1 fun v hv => ((hbody q hq).2 v hv).2
  | fin | ping | pong | unknown _ => rfl

theorem isSized_wireFrame {f : Frame} (h : WellTyped f) : (wireFrame f).isSized = true := by
  rw [wireFrame, Value.isSized, sizedMembers_append, sizedMembers_append,
    sizedMembers_payloadMember h]
  split_ifs
  · rfl
  · exact Bool.and_eq_true_iff.mpr ⟨Bool.and_eq_true_iff.mpr
      ⟨rfl, Bool.and_eq_true_iff.mpr ⟨isSized_natValue h.streamId, rfl⟩⟩, rfl⟩

end Frames

/-- Decoding undoes encoding for every frame whose RPC value is not a JSON null, as deep as the
reader goes. -/
theorem decode_encode (r : Reader) {f : Frame} (htyped : WellTyped f)
    (hnull : ¬ CarriesNull f.body) (hnest : (wireFrame f).nesting ≤ recursionLimit)
    (hexact : ∀ t ∈ (wireFrame f).floats, r.exact t = true) : decode r (encode f) = .ok f := by
  have hread : r.read (encode f) = some (.object (header f ++ payloadMember f)) :=
    r.read_render (wireFrame f) (isSized_wireFrame htyped) hnest hexact
  simp only [decode, hread]
  exact toFrame_readWireFrame htyped hnull

/-- A command with nested parameters comes back. -/
theorem decode_encode_cmd :
    let f := Frame.newCmd 7 "ping" (some (.object [("deep", .array [.null, .number (.float "1.5")])]))
    decode textReader (encode f) = .ok f :=
  decode_encode textReader ⟨by decide, by
    intro p hp
    cases hp
    refine ⟨by decide, ?_⟩
    intro v hv
    cases hv
    exact ⟨rfl, rfl⟩⟩ (by
    rintro ⟨p, hp, h⟩
    cases hp
    cases h) (by decide) (by decide)

def deepArray : Nat → Value
  | 0 => .array []
  | n + 1 => .array [deepArray n]

theorem nesting_deepArray (n : Nat) : (deepArray n).nesting = n + 1 := by
  induction n with
  | zero => rfl
  | succ n ih =>
    simp only [deepArray, Value.nesting, nestingItems, ih]
    omega

theorem floats_deepArray (n : Nat) : (deepArray n).floats = [] := by
  induction n with
  | zero => rfl
  | succ n ih => simp only [deepArray, Value.floats, floatsItems, ih, List.append_nil]

theorem decode_null (r : Reader) {id : Nat} {name : String} (hid : id < 2 ^ 64) :
    decode r (encode (.newCmd id name (some .null))) = .ok (.newCmd id name none) := by
  have hwire : wireFrame (.newCmd id name (some .null)) = .object
      [("type", .string "CMD"), ("cmd", cmdValue ⟨id, name, some .null⟩)] := rfl
  have htyped : WellTyped (.newCmd id name (some .null)) := by
    refine ⟨Nat.two_pow_pos 64, ?_⟩
    rintro q ⟨⟩
    refine ⟨hid, ?_⟩
    rintro v ⟨⟩
    exact ⟨rfl, rfl⟩
  have hread : r.read (encode (.newCmd id name (some .null))) = some (.object
      (header (.newCmd id name (some .null)) ++ payloadMember (.newCmd id name (some .null)))) :=
    r.read_render (wireFrame (.newCmd id name (some .null))) (isSized_wireFrame htyped)
      (by simp [hwire, cmdValue, natValue, Value.nesting, nestingMembers, recursionLimit])
      (by simp [hwire, cmdValue, natValue, Value.floats, floatsMembers])
  simp only [decode, hread]
  rw [readWireFrame_single (Nat.two_pow_pos 64) rfl (by decide) (by decide),
    optional_single Value.noConfusion (cmd?_null hid)]
  simp (disch := decide) only [optional_single_ne, nullAsDefault]
  rfl

theorem decode_deep (r : Reader) {id n : Nat} {name : String} (h : 124 < n) :
    decode r (encode (.newCmd id name (some (deepArray n)))) = .error .malformed := by
  have hwire : wireFrame (.newCmd id name (some (deepArray n))) = .object
      [("type", .string "CMD"), ("cmd", .object [("cmd_id", natValue id),
        ("name", .string name), ("params", deepArray n)])] := rfl
  have hread : r.read (encode (.newCmd id name (some (deepArray n)))) = none := by
    refine r.read_deep (wireFrame (.newCmd id name (some (deepArray n)))) ?_ ?_
    · simp only [hwire, natValue, Value.nesting, nestingMembers, nesting_deepArray, recursionLimit]
      omega
    · simp [hwire, natValue, Value.floats, floatsMembers, floats_deepArray]
  simp only [decode, hread]

/-- A null is lost, and a value nested too deep is refused. -/
theorem decode_encode_fails :
    decode textReader (encode (.newCmd 7 "ping" (some .null))) = .ok (.newCmd 7 "ping" none) ∧
      decode textReader (encode (.newCmd 7 "ping" (some (deepArray 200)))) =
        .error .malformed :=
  ⟨decode_null textReader (by decide), decode_deep textReader (by decide)⟩

end Codec
