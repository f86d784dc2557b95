import AgsCli.Tunnel.Session

/-! # What the steps of a session touch

The parts of the state each building block of a step leaves alone, and the streams that a step
reads and writes. -/
namespace SessionFacts

open OrderedMap Tunnel IdGenerator Session

variable {s : Endpoint} {h j a : Nat} {st st' : Stream} {acc : Acceptor}

section Projections

variable (f : Frame) (id : Nat) (point : AcceptorPoint)

@[simp] theorem send_role : (s.send f).role = s.role := by unfold Endpoint.send; split <;> rfl
@[simp] theorem send_table : (s.send f).table = s.table := by unfold Endpoint.send; split <;> rfl
@[simp] theorem send_streams : (s.send f).streams = s.streams := by
  unfold Endpoint.send; split <;> rfl
@[simp] theorem send_generator : (s.send f).generator = s.generator := by
  unfold Endpoint.send; split <;> rfl
@[simp] theorem send_acceptors : (s.send f).acceptors = s.acceptors := by
  unfold Endpoint.send; split <;> rfl
@[simp] theorem send_run : (s.send f).run = s.run := by unfold Endpoint.send; split <;> rfl
@[simp] theorem send_taken : (s.send f).taken = s.taken := by unfold Endpoint.send; split <;> rfl
@[simp] theorem send_resets : (s.send f).resets = s.resets := by
  unfold Endpoint.send; split <;> rfl
@[simp] theorem send_channelOpen : (s.send f).channelOpen = s.channelOpen := by
  unfold Endpoint.send; split <;> rfl

theorem send_enqueued :
    (s.send f).enqueued = if s.channelOpen then s.enqueued ++ [f] else s.enqueued := by
  unfold Endpoint.send; split <;> rfl

theorem send_outbound :
    (s.send f).outbound = if s.channelOpen then s.outbound ++ [f] else s.outbound := by
  unfold Endpoint.send; split <;> rfl

theorem table_setStream (hst : s.table[h]? = some st) :
    (s.setStream h st').table[j]? = if h = j then some st' else s.table[j]? := by
  have hlt : h < s.table.length := (List.getElem?_eq_some_iff.mp hst).1
  unfold Endpoint.setStream
  rw [List.getElem?_set]
  split_ifs with heq
  · rfl
  · rfl

theorem acceptors_setAcceptor : (s.setAcceptor a point).acceptors[j]? =
    (s.acceptors[j]?).map fun acc => if a = j then { acc with point } else acc :=
  List.getElem?_modify _ a s.acceptors j

end Projections

theorem withStream_eq {f : Stream → Endpoint} (hst : s.table[h]? = some st) :
    s.withStream h f = f st := by
  simp only [Endpoint.withStream, hst]

/-- What holds without the step and after it holds of a step on a stream that may not exist. -/
theorem of_withStream {P : Endpoint → Prop} {f : Stream → Endpoint} (hs : P s)
    (hf : ∀ st, s.table[h]? = some st → P (f st)) : P (s.withStream h f) := by
  unfold Endpoint.withStream
  split
  · next st hst => exact hf st hst
  · exact hs

theorem of_withAcceptor {P : Endpoint → Prop} {f : Acceptor → Endpoint} (hs : P s)
    (hf : ∀ acc, s.acceptors[a]? = some acc → P (f acc)) : P (s.withAcceptor a f) := by
  unfold Endpoint.withAcceptor
  split
  · next acc hacc => exact hf acc hacc
  · exact hs

end SessionFacts
