import AgsCli.Tunnel.SessionFacts
import AgsCli.Tunnel.StreamIds

/-! # The bytes of a stream at one end

What one end of a session keeps, as long as its peer announces every id once and sends data only
for streams that are known here: the frames it has sent carry what its streams read, and its
streams have written what the frames it took carry. -/
namespace StreamBytes

open OrderedMap Tunnel IdGenerator Session SessionFacts

def payload (id : Nat) (f : Frame) : List UInt8 :=
  match f.body with
  | .data bytes => if f.streamId = id then bytes else []
  | _ => []

def carried (id : Nat) (l : List Frame) : List UInt8 := l.flatMap (payload id)

def openId (f : Frame) : Option Nat :=
  match f.body with
  | .open _ => some f.streamId
  | _ => none

/-- DATA and FIN. -/
def Streams (f : Frame) : Prop :=
  match f.body with
  | .data _ | .fin => True
  | _ => False

/-- Frames that neither announce a stream nor carry or end its bytes. -/
def Quiet (f : Frame) : Prop :=
  match f.body with
  | .data _ | .fin | .open _ | .openAck => False
  | _ => True

def inHand : PumpPoint → List UInt8
  | .sendingData bytes => bytes
  | _ => []

def unfinished : PumpPoint → Bool
  | .unstarted | .reading | .sendingData _ | .sendingFin => true
  | _ => false

structure Sends (sent taken : List Frame) (st : Stream) : Prop where
  announcing : st.task = .announcing → st.id ∉ sent.filterMap openId
  starting : st.task = .starting → .newOpenAck st.id ∈ sent
  started : st.pump ≠ .unstarted → .newOpenAck st.id ∈ sent ∨ .newOpenAck st.id ∈ taken
  fresh : st.pump = .unstarted → st.readBytes = []
  unit : ∀ bytes, st.pump = .sendingData bytes → bytes.length ≤ readBufferSize
  progress : unfinished st.pump = true →
    carried st.id sent ++ inHand st.pump = st.readBytes ∧ .newFin st.id ∉ sent
  ahead : carried st.id sent <+: st.readBytes
  finished : ∀ l, l <+: sent → .newFin st.id ∈ l → carried st.id l = st.readBytes

def writes (run : RunPoint) (h : Nat) : Prop := ∃ rest, run = .writing h rest

/-- What the reader has still to write to a stream. -/
def rest (run : RunPoint) (h : Nat) : List UInt8 :=
  match run with
  | .writing h' rest => if h' = h then rest else []
  | _ => []

def ends (run : RunPoint) (h : Nat) : Prop := run = .shutting h ∨ run = .marking h

/-- What the stream has written of the data taken for it. -/
structure Receives (taken : List Frame) (streams : BTreeMap Nat Nat) (run : RunPoint)
    (resets : List Nat) (h : Nat) (st : Stream) : Prop where
  behind : st.written <+: carried st.id taken
  live : st.canWrite = true → streams.get? st.id = some h ∨ writes run h →
    st.written ++ rest run h = carried st.id taken
  kept : st.id ∉ resets → st.written ++ rest run h = carried st.id taken
  eof : st.remoteEof = true ∨ ends run h → .newFin st.id ∈ taken
  settled : st.remoteEof = true → rest run h = []

/-- A stream's id is of this end's own parity and handed out, or was asked for and accepted. -/
structure Listed (s : Endpoint) (st : Stream) : Prop where
  nonzero : st.id ≠ 0
  own : st.opening.isSome = true → s.role.expects st.id = false ∧ st.id < s.generator.current
  invited : st.opening.isSome = false → s.role.expects st.id = true ∧
    ∃ acc ∈ s.acceptors, acc.streamId = st.id ∧ acc.point = .registered

def Known (s : Endpoint) (id : Nat) : Prop := ∃ (h : Nat) (st : Stream),
  s.table[h]? = some st ∧ st.id = id

def checked : AcceptorPoint → Bool
  | .dialing | .waiting | .redialing | .connected | .registered => true
  | _ => false

structure Outbox (s : Endpoint) : Prop where
  once : (s.enqueued.filterMap openId).Nodup
  opened : ∀ id ∈ s.enqueued.filterMap openId, ∃ (h : Nat) (st : Stream),
    s.table[h]? = some st ∧ st.id = id ∧ st.opening.isSome = true
  acked : ∀ id, .newOpenAck id ∈ s.enqueued → ∃ (h : Nat) (st : Stream),
    s.table[h]? = some st ∧ st.id = id ∧ st.opening.isSome = false
  streaming : ∀ f ∈ s.enqueued, Streams f → ∃ (h : Nat) (st : Stream),
    s.table[h]? = some st ∧ st.id = f.streamId ∧ st.pump ≠ .unstarted
  sized : ∀ id bytes, .newData id bytes ∈ s.enqueued → bytes.length ≤ readBufferSize

structure Inbox (s : Endpoint) : Prop where
  mapped : ∀ id h, s.streams.get? id = some h → ∃ st, s.table[h]? = some st ∧ st.id = id
  handled : ∀ h, writes s.run h ∨ ends s.run h → ∃ st, s.table[h]? = some st
  replies : ∀ f, s.run = .replying f → Quiet f
  heard : ∀ f ∈ s.taken, Streams f → Known s f.streamId
  distinct : (s.acceptors.map (·.streamId)).Nodup
  asked : ∀ acc ∈ s.acceptors, acc.streamId ∈ s.taken.filterMap openId ∧ acc.streamId ≠ 0 ∧
    (checked acc.point = true → s.role.expects acc.streamId = true)

structure Framed (s : Endpoint) : Prop where
  generator : StreamIds.Invariant s.role.parity s.generator
  unique : ∀ (h h' : Nat) (st st' : Stream), s.table[h]? = some st → s.table[h']? = some st' →
    st.id = st'.id → h = h'
  listed : ∀ (h : Nat) (st : Stream), s.table[h]? = some st → Listed s st
  receives : ∀ (h : Nat) (st : Stream), s.table[h]? = some st →
    Receives s.taken s.streams s.run s.resets h st
  outbox : Outbox s
  inbox : Inbox s

structure Sound (s : Endpoint) : Prop extends Framed s where
  sends : ∀ (h : Nat) (st : Stream), s.table[h]? = some st → Sends s.enqueued s.taken st

/-- The generator has not started again, and what arrives for streams is for known ones. -/
def Expected (s : Endpoint) : Event → Prop
  | .openStream _ => s.generator.current < overflowThreshold
  | .run (.receive f) => (Streams f → Known s f.streamId) ∧
      (∀ id ∈ openId f, id ∉ s.taken.filterMap openId) ∧
        (.newFin f.streamId ∈ s.taken → payload f.streamId f = [])
  | _ => True

variable {s s' : Endpoint} {h j id : Nat} {st st' : Stream} {f : Frame}
  {sent taken : List Frame} {streams : BTreeMap Nat Nat} {run : RunPoint} {resets : List Nat}

section Frames

theorem carried_append (id : Nat) (l m : List Frame) :
    carried id (l ++ m) = carried id l ++ carried id m := List.flatMap_append

theorem carried_concat (id : Nat) (l : List Frame) (f : Frame) :
    carried id (l ++ [f]) = carried id l ++ payload id f := by
  rw [carried_append]
  simp [carried]

@[simp] theorem payload_newData (id : Nat) (bytes : List UInt8) :
    payload id (.newData id bytes) = bytes := by simp [payload, Frame.newData]

theorem payload_eq_nil (hf : f.streamId ≠ id ∨ Quiet f) : payload id f = [] := by
  unfold payload
  split
  · next bytes hbody =>
    rcases hf with hne | hquiet
    · exact if_neg hne
    · simp [Quiet, hbody] at hquiet
  · rfl

theorem carried_mono {l m : List Frame} (id : Nat) (hl : l <+: m) :
    carried id l <+: carried id m := by
  obtain ⟨t, rfl⟩ := hl
  rw [carried_append]
  exact List.prefix_append _ _

theorem carried_eq_nil {l : List Frame} (hl : ∀ f ∈ l, Streams f → f.streamId ≠ id) :
    carried id l = [] := by
  refine List.flatMap_eq_nil_iff.mpr fun f hf => ?_
  have hne := hl f hf
  unfold payload
  split
  · next bytes hbody => exact if_neg (hne (by simp [Streams, hbody]))
  · rfl

theorem openId_eq_none (hf : Quiet f) : openId f = none := by
  unfold openId
  split
  · next hbody => simp [Quiet, hbody] at hf
  · rfl

theorem opens_concat (l : List Frame) (f : Frame) :
    (l ++ [f]).filterMap openId = l.filterMap openId ++ (openId f).toList := by
  rw [List.filterMap_append]
  cases hid : openId f <;> simp [hid]

theorem streamId_of_openId (h : openId f = some id) : f.streamId = id := by
  unfold openId at h
  split at h
  · exact Option.some.inj h
  · cases h

theorem not_streams (hf : Quiet f) : ¬ Streams f := by
  unfold Quiet Streams at *
  split at hf <;> simp_all

end Frames

section Sending

theorem Sends.congr (hs : Sends sent taken st) (hid : st'.id = st.id) (htask : st'.task = st.task)
    (hpump : st'.pump = st.pump) (hread : st'.readBytes = st.readBytes) :
    Sends sent taken st' := by
  obtain ⟨h1, h2, h3, h4, h5, h6, h7, h8⟩ := hs
  constructor <;> simpa only [hid, htask, hpump, hread]

/-- A move of the announcing task that has sent nothing. -/
theorem Sends.withTask (hs : Sends sent taken st) {task : TaskPoint} (h1 : task ≠ .announcing)
    (h2 : task ≠ .starting) : Sends sent taken { st with task } :=
  ⟨fun h => absurd h h1, fun h => absurd h h2, hs.started, hs.fresh, hs.unit, hs.progress,
    hs.ahead, hs.finished⟩

theorem Sends.withPump (hs : Sends sent taken st) {pump : PumpPoint}
    (hstarted : st.pump ≠ .unstarted) (hpump : unfinished pump = false) :
    Sends sent taken { st with pump } := by
  refine ⟨hs.announcing, hs.starting, fun _ => hs.started hstarted, ?_, ?_, ?_, hs.ahead,
    hs.finished⟩
  · rintro rfl
    cases hpump
  · rintro bytes rfl
    cases hpump
  · intro h
    rw [hpump] at h
    cases h

theorem Sends.startPump (hs : Sends sent taken st)
    (hack : .newOpenAck st.id ∈ sent ∨ .newOpenAck st.id ∈ taken) :
    Sends sent taken st.startPump := by
  by_cases hpump : st.pump = .unstarted
  · have hread := hs.fresh hpump
    have hprogress := hs.progress (by rw [hpump]; rfl)
    rw [hpump] at hprogress
    have hstart : st.startPump = { st with pending := false, pump := .reading } := by
      simp [Stream.startPump, hpump]
    rw [hstart]
    refine ⟨hs.announcing, hs.starting, fun _ => hack, ?_, ?_, fun _ => hprogress, hs.ahead,
      hs.finished⟩
    · intro h
      cases h
    · intro bytes h
      cases h
  · have hstart : st.startPump = { st with pending := false } := by
      simp [Stream.startPump, hpump]
    rw [hstart]
    exact hs.congr rfl rfl rfl rfl

theorem Sends.read (hs : Sends sent taken st) (hpump : st.pump = .reading) {bytes : List UInt8}
    (hsize : bytes.length ≤ readBufferSize) :
    Sends sent taken
      { st with readBytes := st.readBytes ++ bytes, pump := .sendingData bytes } := by
  obtain ⟨hall, hfin⟩ := hs.progress (by rw [hpump]; rfl)
  rw [hpump, show inHand _ = [] from rfl, List.append_nil] at hall
  refine ⟨hs.announcing, hs.starting, fun _ => hs.started (by simp [hpump]), ?_, ?_, ?_, ?_, ?_⟩
  · intro h
    cases h
  · rintro b hb
    cases hb
    exact hsize
  · intro _
    exact ⟨by rw [← hall]; rfl, hfin⟩
  · exact hs.ahead.trans (List.prefix_append _ _)
  · intro l hl hmem
    exact absurd (hl.subset hmem) hfin

theorem Sends.readEof (hs : Sends sent taken st) (hpump : st.pump = .reading) :
    Sends sent taken { st with pump := .sendingFin } := by
  have hprogress := hs.progress (by rw [hpump]; rfl)
  rw [hpump] at hprogress
  refine ⟨hs.announcing, hs.starting, fun _ => hs.started (by simp [hpump]), ?_, ?_,
    fun _ => hprogress, hs.ahead, hs.finished⟩
  · intro h
    cases h
  · intro bytes h
    cases h

theorem Sends.send (hs : Sends sent taken st) (hf : f.streamId ≠ st.id ∨ Quiet f) :
    Sends (sent ++ [f]) taken st := by
  have hcarried : carried st.id (sent ++ [f]) = carried st.id sent := by
    rw [carried_concat, payload_eq_nil hf, List.append_nil]
  have hfin : f ≠ .newFin st.id := by
    rintro rfl
    rcases hf with hf | hf
    · exact hf rfl
    · exact hf
  have hopen : st.id ∉ [f].filterMap openId := by
    intro hmem
    obtain ⟨g, hg, hid⟩ := List.mem_filterMap.mp hmem
    obtain rfl := List.mem_singleton.mp hg
    rcases hf with hf | hf
    · exact hf (streamId_of_openId hid)
    · rw [openId_eq_none hf] at hid
      cases hid
  refine ⟨?_, ?_, ?_, hs.fresh, hs.unit, ?_, ?_, ?_⟩
  · intro htask
    rw [List.filterMap_append, List.mem_append, not_or]
    exact ⟨hs.announcing htask, hopen⟩
  · exact fun htask => List.mem_append_left _ (hs.starting htask)
  · exact fun hpump => (hs.started hpump).imp_left (List.mem_append_left _)
  · intro hpump
    rw [hcarried, List.mem_append, not_or]
    exact ⟨(hs.progress hpump).1, (hs.progress hpump).2, by simpa using hfin.symm⟩
  · rw [hcarried]
    exact hs.ahead
  · intro l hl hmem
    rcases List.prefix_concat_iff.mp hl with rfl | hl
    · rw [hcarried]
      refine hs.finished sent (List.prefix_refl _) ?_
      rcases List.mem_append.mp hmem with hmem | hmem
      · exact hmem
      · exact absurd (List.mem_singleton.mp hmem).symm hfin
    · exact hs.finished l hl hmem

theorem Sends.take (hs : Sends sent taken st) (f : Frame) : Sends sent (taken ++ [f]) st :=
  ⟨hs.announcing, hs.starting, fun h => (hs.started h).imp_right (List.mem_append_left _),
    hs.fresh, hs.unit, hs.progress, hs.ahead, hs.finished⟩

theorem Sends.sendData (hs : Sends sent taken st) {bytes : List UInt8}
    (hpump : st.pump = .sendingData bytes) :
    Sends (sent ++ [.newData st.id bytes]) taken { st with pump := .reading } := by
  obtain ⟨hall, hfin⟩ := hs.progress (by rw [hpump]; rfl)
  rw [hpump, inHand] at hall
  have hcarried : carried st.id (sent ++ [.newData st.id bytes]) = st.readBytes := by
    rw [carried_concat, payload_newData, hall]
  have hnofin : Frame.newFin st.id ∉ sent ++ [.newData st.id bytes] := by
    rw [List.mem_append, not_or]
    exact ⟨hfin, by simp [Frame.newFin, Frame.newData]⟩
  refine ⟨?_, ?_, ?_, ?_, ?_, ?_, ?_, ?_⟩
  · intro htask
    simpa [openId, Frame.newData] using hs.announcing htask
  · exact fun htask => List.mem_append_left _ (hs.starting htask)
  · exact fun _ => (hs.started (by simp [hpump])).imp_left (List.mem_append_left _)
  · intro h
    cases h
  · intro b h
    cases h
  · intro _
    exact ⟨(List.append_nil _).trans hcarried, hnofin⟩
  · exact ⟨[], (List.append_nil _).trans hcarried⟩
  · intro l hl hmem
    exact absurd (hl.subset hmem) hnofin

theorem Sends.sendFin (hs : Sends sent taken st) (hpump : st.pump = .sendingFin) :
    Sends (sent ++ [.newFin st.id]) taken { st with pump := .markingEof } := by
  obtain ⟨hall, hfin⟩ := hs.progress (by rw [hpump]; rfl)
  rw [hpump, show inHand _ = [] from rfl, List.append_nil] at hall
  have hcarried : carried st.id (sent ++ [.newFin st.id]) = st.readBytes := by
    rw [carried_concat, ← hall]
    simp [payload, Frame.newFin]
  refine ⟨?_, ?_, ?_, ?_, ?_, ?_, ?_, ?_⟩
  · intro htask
    simpa [openId, Frame.newFin] using hs.announcing htask
  · exact fun htask => List.mem_append_left _ (hs.starting htask)
  · exact fun _ => (hs.started (by simp [hpump])).imp_left (List.mem_append_left _)
  · intro h
    cases h
  · intro b h
    cases h
  · intro h
    cases h
  · exact ⟨[], (List.append_nil _).trans hcarried⟩
  · intro l hl hmem
    rcases List.prefix_concat_iff.mp hl with rfl | hl
    · exact hcarried
    · exact absurd (hl.subset hmem) hfin

theorem announcement_cases (st : Stream) :
    (∃ opened, st.opening = some opened ∧ st.announcement = .newOpen st.id opened) ∨
      (st.opening = none ∧ st.announcement = .newOpenAck st.id) := by
  cases ho : st.opening with
  | some opened => exact Or.inl ⟨opened, rfl, by simp [Stream.announcement, ho]⟩
  | none => exact Or.inr ⟨rfl, by simp [Stream.announcement, ho]⟩

theorem Sends.announce (hs : Sends sent taken st) : Sends (sent ++ [st.announcement]) taken
    { st with task := if st.opening.isSome then .done else .starting } := by
  have hcarried : carried st.id (sent ++ [st.announcement]) = carried st.id sent := by
    rw [carried_concat]
    rcases announcement_cases st with ⟨opened, -, hann⟩ | ⟨-, hann⟩
    · rw [hann]
      simp [payload, Frame.newOpen]
    · rw [hann]
      simp [payload, Frame.newOpenAck]
  have hfin : st.announcement ≠ .newFin st.id := by
    rcases announcement_cases st with ⟨opened, -, hann⟩ | ⟨-, hann⟩
    · rw [hann]
      simp [Frame.newOpen, Frame.newFin]
    · rw [hann]
      simp [Frame.newOpenAck, Frame.newFin]
  have hkept : ∀ l, l <+: sent ++ [st.announcement] → .newFin st.id ∈ l → .newFin st.id ∈ sent := by
    intro l hl hmem
    rcases List.mem_append.mp (hl.subset hmem) with hmem | hmem
    · exact hmem
    · exact absurd (List.mem_singleton.mp hmem).symm hfin
  refine ⟨?_, ?_, fun hpump => (hs.started hpump).imp_left (List.mem_append_left _), hs.fresh,
    hs.unit, ?_, ?_, ?_⟩
  · intro htask
    change (if st.opening.isSome then TaskPoint.done else .starting) = _ at htask
    split at htask <;> cases htask
  · intro htask
    change (if st.opening.isSome then TaskPoint.done else .starting) = _ at htask
    rcases announcement_cases st with ⟨opened, ho, -⟩ | ⟨-, hann⟩
    · rw [ho] at htask
      cases htask
    · rw [hann]
      exact List.mem_append_right _ (List.mem_singleton.mpr rfl)
  · intro hpump
    refine ⟨?_, fun hmem => (hs.progress hpump).2 (hkept _ (List.prefix_refl _) hmem)⟩
    rw [hcarried]
    exact (hs.progress hpump).1
  · rw [hcarried]
    exact hs.ahead
  · intro l hl hmem
    rcases List.prefix_concat_iff.mp hl with rfl | hl'
    · rw [hcarried]
      exact hs.finished sent (List.prefix_refl _) (hkept _ hl hmem)
    · exact hs.finished l hl' hmem

end Sending

section Receiving

/-- Fewer entries, more resets, and a reader that has the same left to write. -/
theorem Receives.weaken {streams' : BTreeMap Nat Nat} {run' : RunPoint} {resets' : List Nat}
    (hr : Receives taken streams run resets h st)
    (hstreams : streams'.get? st.id = some h → streams.get? st.id = some h)
    (hwrites : writes run' h → writes run h) (hrest : rest run' h = rest run h)
    (hends : ends run' h → ends run h) (hresets : ∀ i ∈ resets, i ∈ resets') :
    Receives taken streams' run' resets' h st := by
  refine ⟨hr.behind, ?_, ?_, ?_, fun heof => hrest.trans (hr.settled heof)⟩
  · intro hcan hon
    rw [hrest]
    exact hr.live hcan (hon.imp hstreams hwrites)
  · intro hid
    rw [hrest]
    exact hr.kept fun hmem => hid (hresets _ hmem)
  · exact fun heof => hr.eof (heof.imp_right hends)

theorem Receives.congr (hr : Receives taken streams run resets h st) (hid : st'.id = st.id)
    (hcan : st'.canWrite = true → st.canWrite = true) (hwritten : st'.written = st.written)
    (heof : st'.remoteEof = true → st.remoteEof = true) :
    Receives taken streams run resets h st' := by
  obtain ⟨h1, h2, h3, h4, h5⟩ := hr
  refine ⟨by rwa [hid, hwritten], ?_, by rwa [hid, hwritten], ?_, fun he => h5 (heof he)⟩
  · rw [hid, hwritten]
    exact fun hc => h2 (hcan hc)
  · rw [hid]
    exact fun he => h4 (he.imp_left heof)

theorem Receives.same (hr : Receives taken streams run resets h st) (hid : st'.id = st.id)
    (hcan : st'.canWrite = st.canWrite) (hwritten : st'.written = st.written)
    (heof : st'.remoteEof = st.remoteEof) : Receives taken streams run resets h st' :=
  hr.congr hid (fun hc => hcan ▸ hc) hwritten fun he => heof ▸ he

theorem Receives.take (hr : Receives taken streams run resets h st)
    (hf : payload st.id f = []) : Receives (taken ++ [f]) streams run resets h st := by
  have hcarried : carried st.id (taken ++ [f]) = carried st.id taken := by
    rw [carried_concat, hf, List.append_nil]
  refine ⟨?_, ?_, ?_, ?_, hr.settled⟩
  · rw [hcarried]
    exact hr.behind
  · rw [hcarried]
    exact hr.live
  · rw [hcarried]
    exact hr.kept
  · exact fun heof => List.mem_append_left _ (hr.eof heof)

theorem Receives.takeData (hr : Receives taken streams .reading resets h st)
    (hget : streams.get? st.id = some h) {bytes : List UInt8}
    (hover : .newFin st.id ∈ taken → bytes = []) :
    Receives (taken ++ [.newData st.id bytes]) streams (.writing h bytes) resets h st := by
  have hcarried : carried st.id (taken ++ [.newData st.id bytes]) =
      carried st.id taken ++ bytes := by
    rw [carried_concat, payload_newData]
  have hrest : rest (.writing h bytes) h = bytes := if_pos rfl
  refine ⟨?_, ?_, ?_, ?_, fun heof => hrest.trans (hover (hr.eof (Or.inl heof)))⟩
  · rw [hcarried]
    exact hr.behind.trans (List.prefix_append _ _)
  · intro hcan _
    rw [hcarried, hrest, ← hr.live hcan (Or.inl hget)]
    simp [rest]
  · intro hid
    rw [hcarried, hrest, ← hr.kept hid]
    simp [rest]
  · rintro (heof | hends | hends)
    · exact List.mem_append_left _ (hr.eof (Or.inl heof))
    · cases hends
    · cases hends

/-- Data for a stream that is no longer in the map is lost, and the stream is reset. -/
theorem Receives.takeLost (hr : Receives taken streams .reading resets h st)
    (hget : streams.get? st.id = none) (bytes : List UInt8) (reply : Frame) :
    Receives (taken ++ [.newData st.id bytes]) streams (.replying reply) (st.id :: resets) h
      st := by
  refine ⟨?_, ?_, ?_, ?_, fun _ => rfl⟩
  · rw [carried_concat]
    exact hr.behind.trans (List.prefix_append _ _)
  · rintro - (hon | ⟨l, hl⟩)
    · rw [hget] at hon
      cases hon
    · cases hl
  · exact fun hid => absurd List.mem_cons_self hid
  · rintro (heof | hends | hends)
    · exact List.mem_append_left _ (hr.eof (Or.inl heof))
    · cases hends
    · cases hends

theorem Receives.takeFin (hr : Receives taken streams .reading resets h st) :
    Receives (taken ++ [.newFin st.id]) streams (.shutting h) resets h st := by
  have htake := hr.take (f := .newFin st.id) (by simp [payload, Frame.newFin])
  refine ⟨htake.behind, ?_, htake.kept, fun _ => (by simp), fun _ => rfl⟩
  rintro hcan (hon | ⟨l, hl⟩)
  · exact htake.live hcan (Or.inl hon)
  · cases hl

/-- A part of the data is written. -/
theorem Receives.writeSome {l : List UInt8} (hr : Receives taken streams (.writing h l) resets h st)
    (n : Nat) (hcan : l = [] ∨ st.canWrite = true) :
    Receives taken streams (if l.drop n = [] then .reading else .writing h (l.drop n)) resets h
      { st with written := st.written ++ l.take n } := by
  have hrest : rest (.writing h l) h = l := if_pos rfl
  have hrest' : rest (if l.drop n = [] then .reading else .writing h (l.drop n)) h =
      l.drop n := by
    split
    · next hdrop => rw [hdrop]; rfl
    · exact if_pos rfl
  have hsplit : (st.written ++ l.take n) ++ l.drop n = st.written ++ l := by
    rw [List.append_assoc, List.take_append_drop]
  refine ⟨?_, ?_, ?_, ?_, fun heof => ?_⟩
  · rcases hcan with rfl | hcan
    · simpa using hr.behind
    · rw [← hr.live hcan (Or.inr ⟨l, rfl⟩), hrest, ← hsplit]
      exact List.prefix_append _ _
  · intro hcan' _
    rw [hrest', hsplit, ← hr.live hcan' (Or.inr ⟨l, rfl⟩), hrest]
  · intro hid
    rw [hrest', hsplit, ← hr.kept hid, hrest]
  · rintro (heof | hends)
    · exact hr.eof (Or.inl heof)
    · split at hends
      · rcases hends with hends | hends <;> cases hends
      · rcases hends with hends | hends <;> cases hends
  · rw [hrest', hrest.symm.trans (hr.settled heof)]
    exact List.drop_nil

end Receiving

section States

theorem exists_setStream {P : Stream → Prop} (hst : s.table[h]? = some st) (hP : P st → P st')
    (hex : ∃ (j : Nat) (su : Stream), s.table[j]? = some su ∧ P su) :
    ∃ (j : Nat) (su : Stream), (s.setStream h st').table[j]? = some su ∧ P su := by
  obtain ⟨j, su, hsu, hPsu⟩ := hex
  by_cases hj : h = j
  · subst hj
    obtain rfl := Option.some.inj (hst.symm.trans hsu)
    exact ⟨h, st', (table_setStream hst).trans (if_pos rfl), hP hPsu⟩
  · exact ⟨j, su, (table_setStream hst).trans ((if_neg hj).trans hsu), hPsu⟩

theorem of_setStream {P : Nat → Stream → Prop} (hst : s.table[h]? = some st) (hP : P h st')
    (hall : ∀ (j : Nat) (su : Stream), h ≠ j → s.table[j]? = some su → P j su) (j : Nat)
    (su : Stream) (hsu : (s.setStream h st').table[j]? = some su) : P j su := by
  rw [table_setStream hst] at hsu
  split at hsu
  · next hj =>
    obtain rfl := Option.some.inj hsu
    exact hj ▸ hP
  · next hj => exact hall j su hj hsu

/-- The ids in the table after a step of one stream. -/
theorem id_setStream (hst : s.table[h]? = some st) (hid : st'.id = st.id) {su : Stream}
    (hsu : (s.setStream h st').table[j]? = some su) :
    ∃ sv, s.table[j]? = some sv ∧ sv.id = su.id := by
  rw [table_setStream hst] at hsu
  split at hsu
  · next hj =>
    obtain rfl := Option.some.inj hsu
    exact ⟨st, hj ▸ hst, hid.symm⟩
  · exact ⟨su, hsu, rfl⟩

theorem Framed.work (hs : Framed s) (hst : s.table[h]? = some st) (hid : st'.id = st.id)
    (hopening : st'.opening = st.opening) (hpump : st.pump ≠ .unstarted → st'.pump ≠ .unstarted)
    (hreceives : Receives s.taken s.streams run resets h st')
    (hothers : ∀ (j : Nat) (su : Stream), h ≠ j → s.table[j]? = some su →
      Receives s.taken s.streams run resets j su)
    (hhandled : ∀ j, writes run j ∨ ends run j → ∃ su, s.table[j]? = some su)
    (hreplies : ∀ f, run = .replying f → Quiet f) :
    Framed { s.setStream h st' with run, resets } := by
  refine ⟨hs.generator, ?_, ?_, ?_, ?_, ?_⟩
  · intro j j' su su' hsu hsu' heq
    obtain ⟨sv, hsv, hidv⟩ := id_setStream hst hid hsu
    obtain ⟨sv', hsv', hidv'⟩ := id_setStream hst hid hsu'
    exact hs.unique j j' sv sv' hsv hsv' (hidv.trans (heq.trans hidv'.symm))
  · intro j su hsu
    have hlisted : Listed s su := by
      refine of_setStream (P := fun _ su => Listed s su) hst ?_
        (fun j su _ => hs.listed j su) j su hsu
      obtain ⟨h1, h2, h3⟩ := hs.listed h st hst
      exact ⟨hid ▸ h1, by rwa [hopening, hid], by rwa [hopening, hid]⟩
    exact ⟨hlisted.nonzero, hlisted.own, hlisted.invited⟩
  · exact of_setStream hst hreceives hothers
  · obtain ⟨h1, h2, h3, h4, h5⟩ := hs.outbox
    refine ⟨h1, fun id hmem => ?_, fun id hmem => ?_, fun f hf hstream => ?_, h5⟩
    · exact exists_setStream (P := fun su => su.id = id ∧ su.opening.isSome = true) hst
        (by rw [hid, hopening]; exact fun h => h) (h2 id hmem)
    · exact exists_setStream (P := fun su => su.id = id ∧ su.opening.isSome = false) hst
        (by rw [hid, hopening]; exact fun h => h) (h3 id hmem)
    · exact exists_setStream (P := fun su => su.id = f.streamId ∧ su.pump ≠ .unstarted) hst
        (by rw [hid]; exact fun h => ⟨h.1, hpump h.2⟩) (h4 f hf hstream)
  · obtain ⟨h1, h2, hq, h3, h4, h5⟩ := hs.inbox
    have hsome : ∀ j : Nat, (∃ su, s.table[j]? = some su) →
        ∃ su, (s.setStream h st').table[j]? = some su := by
      rintro j ⟨su, hsu⟩
      rw [table_setStream hst]
      split_ifs
      · exact ⟨st', rfl⟩
      · exact ⟨su, hsu⟩
    refine ⟨?_, fun j hj => hsome j (hhandled j hj), hreplies, fun f hf hstream => ?_, h4, h5⟩
    · intro id j hget
      obtain ⟨su, hsu, hsid⟩ := h1 id j hget
      change ∃ su, (s.setStream h st').table[j]? = some su ∧ su.id = id
      rw [table_setStream hst]
      by_cases hj : h = j
      · subst hj
        obtain rfl := Option.some.inj (hst.symm.trans hsu)
        exact ⟨st', if_pos rfl, hid.trans hsid⟩
      · exact ⟨su, (if_neg hj).trans hsu, hsid⟩
    · exact exists_setStream (P := fun su => su.id = f.streamId) hst (by rw [hid]; exact fun h => h)
        (h3 f hf hstream)

theorem Framed.setStream (hs : Framed s) (hst : s.table[h]? = some st) (hid : st'.id = st.id)
    (hopening : st'.opening = st.opening) (hpump : st.pump ≠ .unstarted → st'.pump ≠ .unstarted)
    (hreceives : Receives s.taken s.streams s.run s.resets h st') : Framed (s.setStream h st') :=
  hs.work hst hid hopening hpump hreceives (fun j su _ => hs.receives j su) hs.inbox.handled
    hs.inbox.replies

theorem Sound.setStream (hs : Sound s) (hst : s.table[h]? = some st) (hid : st'.id = st.id)
    (hopening : st'.opening = st.opening) (hpump : st.pump ≠ .unstarted → st'.pump ≠ .unstarted)
    (hsends : Sends s.enqueued s.taken st')
    (hreceives : Receives s.taken s.streams s.run s.resets h st') : Sound (s.setStream h st') :=
  ⟨hs.toFramed.setStream hst hid hopening hpump hreceives,
    of_setStream hst hsends fun j su _ => hs.sends j su⟩

theorem Sound.work (hs : Sound s) (hst : s.table[h]? = some st) (hid : st'.id = st.id)
    (hopening : st'.opening = st.opening) (htask : st'.task = st.task) (hpump : st'.pump = st.pump)
    (hread : st'.readBytes = st.readBytes)
    (hreceives : Receives s.taken s.streams run resets h st')
    (hothers : ∀ (j : Nat) (su : Stream), h ≠ j → s.table[j]? = some su →
      Receives s.taken s.streams run resets j su)
    (hhandled : ∀ j, writes run j ∨ ends run j → j = h) (hreplies : ∀ f, run ≠ .replying f) :
    Sound { s.setStream h st' with run, resets } := by
  refine ⟨hs.toFramed.work hst hid hopening (by rw [hpump]; exact fun h => h) hreceives hothers
    (fun j hj => ?_) fun f hf => absurd hf (hreplies f), ?_⟩
  · rw [hhandled j hj]
    exact ⟨st, hst⟩
  · exact of_setStream hst ((hs.sends h st hst).congr hid htask hpump hread)
      fun j su _ => hs.sends j su

/-- A step that touches no stream, frame or acceptor. -/
theorem Sound.relax (hs : Sound s) (hrole : s'.role = s.role) (htable : s'.table = s.table)
    (hacceptors : s'.acceptors = s.acceptors) (henqueued : s'.enqueued = s.enqueued)
    (htaken : s'.taken = s.taken) (hgenerator : StreamIds.Invariant s.role.parity s'.generator)
    (hle : s.generator.current ≤ s'.generator.current)
    (hreceives : ∀ (h : Nat) (st : Stream), s.table[h]? = some st →
      Receives s.taken s'.streams s'.run s'.resets h st)
    (hmapped : ∀ id h, s'.streams.get? id = some h → s.streams.get? id = some h)
    (hhandled : ∀ h, writes s'.run h ∨ ends s'.run h → ∃ st, s.table[h]? = some st)
    (hreplies : ∀ f, s'.run = .replying f → Quiet f) : Sound s' := by
  refine ⟨⟨hrole ▸ hgenerator, ?_, ?_, ?_, ?_, ?_⟩, ?_⟩
  · rw [htable]
    exact hs.unique
  · rw [htable]
    intro h st hst
    obtain ⟨h1, h2, h3⟩ := hs.listed h st hst
    refine ⟨h1, fun ho => ?_, ?_⟩
    · rw [hrole]
      exact ⟨(h2 ho).1, (h2 ho).2.trans_le hle⟩
    · rwa [hrole, hacceptors]
  · rw [htable, htaken]
    exact hreceives
  · obtain ⟨h1, h2, h3, h4, h5⟩ := hs.outbox
    constructor <;> simpa only [henqueued, htable]
  · obtain ⟨h1, h2, hq, h3, h4, h5⟩ := hs.inbox
    refine ⟨fun id h hget => ?_, ?_, hreplies, ?_, ?_, ?_⟩
    · rw [htable]
      exact h1 id h (hmapped id h hget)
    · rw [htable]
      exact hhandled
    · unfold Known at *
      rwa [htaken, htable]
    · rwa [hacceptors]
    · rwa [hacceptors, htaken, hrole]
  · rw [htable, henqueued, htaken]
    exact hs.sends

theorem Framed.enqueue (hs : Framed s) (hopen : s.channelOpen = true)
    (hannounce : ∀ id ∈ openId f, id ∉ s.enqueued.filterMap openId ∧ ∃ (h : Nat) (st : Stream),
      s.table[h]? = some st ∧ st.id = id ∧ st.opening.isSome = true)
    (hack : ∀ id, f = .newOpenAck id → ∃ (h : Nat) (st : Stream),
      s.table[h]? = some st ∧ st.id = id ∧ st.opening.isSome = false)
    (hstream : Streams f → ∃ (h : Nat) (st : Stream),
      s.table[h]? = some st ∧ st.id = f.streamId ∧ st.pump ≠ .unstarted)
    (hsize : ∀ id bytes, f = .newData id bytes → bytes.length ≤ readBufferSize) :
    Framed (s.send f) := by
  have henq : (s.send f).enqueued = s.enqueued ++ [f] := by rw [send_enqueued, if_pos hopen]
  obtain ⟨h1, h2, h3, h4, h5⟩ := hs.outbox
  refine ⟨?_, ?_, ?_, ?_, ?_, ?_⟩
  · rw [send_role, send_generator]
    exact hs.generator
  · rw [send_table]
    exact hs.unique
  · rw [send_table]
    intro h st hst
    obtain ⟨h1, h2, h3⟩ := hs.listed h st hst
    exact ⟨h1, by rwa [send_role, send_generator], by rwa [send_role, send_acceptors]⟩
  · rw [send_table, send_taken, send_streams, send_run, send_resets]
    exact hs.receives
  · constructor
    · rw [henq, opens_concat, List.nodup_append]
      refine ⟨h1, ?_, ?_⟩
      · cases openId f <;> simp
      · rintro id hid _ hmem rfl
        exact (hannounce id (by simpa using hmem)).1 hid
    · rw [henq, opens_concat, send_table]
      intro id hmem
      rcases List.mem_append.mp hmem with hmem | hmem
      · exact h2 id hmem
      · exact (hannounce id (by simpa using hmem)).2
    · rw [henq, send_table]
      intro id hmem
      rcases List.mem_append.mp hmem with hmem | hmem
      · exact h3 id hmem
      · exact hack id (List.mem_singleton.mp hmem).symm
    · rw [henq, send_table]
      intro g hmem hg
      rcases List.mem_append.mp hmem with hmem | hmem
      · exact h4 g hmem hg
      · obtain rfl := List.mem_singleton.mp hmem
        exact hstream hg
    · rw [henq]
      intro id bytes hmem
      rcases List.mem_append.mp hmem with hmem | hmem
      · exact h5 id bytes hmem
      · exact hsize id bytes (List.mem_singleton.mp hmem).symm
  · obtain ⟨h1, h2, hq, h3, h4, h5⟩ := hs.inbox
    unfold Known at h3
    constructor
    · rwa [send_streams, send_table]
    · rwa [send_run, send_table]
    · rwa [send_run]
    · unfold Known
      rwa [send_taken, send_table]
    · rwa [send_acceptors]
    · rwa [send_acceptors, send_taken, send_role]

theorem Sound.send_closed (hs : Sound s) (hclosed : s.channelOpen = false) (f : Frame) :
    Sound (s.send f) := by
  unfold Endpoint.send
  rw [if_neg (by simp [hclosed])]
  exact hs

theorem Sound.send (hs : Sound s) (hf : Quiet f) : Sound (s.send f) := by
  by_cases hopen : s.channelOpen = true
  · refine ⟨hs.toFramed.enqueue hopen ?_ ?_ ?_ ?_, ?_⟩
    · intro id hid
      rw [openId_eq_none hf] at hid
      cases hid
    · rintro id rfl
      exact hf.elim
    · exact fun hstream => absurd hstream (not_streams hf)
    · rintro id bytes rfl
      exact hf.elim
    · rw [send_table, send_enqueued, if_pos hopen, send_taken]
      exact fun h st hst => (hs.sends h st hst).send (Or.inr hf)
  · exact hs.send_closed (by simpa using hopen) f

theorem Sound.noteReset (hs : Sound s) (id : Nat) : Sound (s.noteReset id) := by
  refine hs.relax rfl rfl rfl rfl rfl hs.generator le_rfl ?_ (fun _ _ h => h) hs.inbox.handled
    hs.inbox.replies
  intro h st hst
  exact (hs.receives h st hst).weaken (fun h => h) (fun h => h) rfl (fun h => h)
    fun i hi => List.mem_cons_of_mem _ hi

/-- The reader moves on with nothing left to write or end. -/
theorem Sound.setRun (hs : Sound s) {run : RunPoint} (hrest : ∀ h, rest s.run h = [])
    (hwrites : ∀ h, ¬ writes run h) (hends : ∀ h, ¬ ends run h)
    (hreplies : ∀ f, run = .replying f → Quiet f) : Sound (s.setRun run) := by
  refine hs.relax rfl rfl rfl rfl rfl hs.generator le_rfl ?_ (fun _ _ h => h) ?_ hreplies
  · intro h st hst
    refine (hs.receives h st hst).weaken (fun h => h) (fun hw => absurd hw (hwrites h)) ?_
      (fun he => absurd he (hends h)) fun i hi => hi
    rw [hrest h]
    change rest run h = []
    unfold rest
    split
    · next h' l => exact absurd ⟨l, rfl⟩ (hwrites h')
    · rfl
  · rintro h (hw | he)
    · exact absurd hw (hwrites h)
    · exact absurd he (hends h)

theorem mem_setAcceptor {a : Nat} {acc acc' : Acceptor} {point : AcceptorPoint}
    (hacc : s.acceptors[a]? = some acc) (hmem : acc' ∈ (s.setAcceptor a point).acceptors) :
    acc' = { acc with point } ∨ acc' ∈ s.acceptors := by
  obtain ⟨j, hj⟩ := List.mem_iff_getElem?.mp hmem
  rw [acceptors_setAcceptor] at hj
  obtain ⟨b, hb, heq⟩ := Option.map_eq_some_iff.mp hj
  split at heq
  · next ha =>
    subst ha
    obtain rfl := Option.some.inj (hacc.symm.trans hb)
    exact Or.inl heq.symm
  · exact Or.inr (heq ▸ List.mem_iff_getElem?.mpr ⟨j, hb⟩)

theorem Sound.setAcceptor (hs : Sound s) {a : Nat} {acc : Acceptor} {point : AcceptorPoint}
    (hacc : s.acceptors[a]? = some acc) (hregistered : acc.point ≠ .registered)
    (hchecked : checked point = true → s.role.expects acc.streamId = true) :
    Sound (s.setAcceptor a point) := by
  have hmem : acc ∈ s.acceptors := List.mem_iff_getElem?.mpr ⟨a, hacc⟩
  refine ⟨⟨hs.generator, hs.unique, ?_, hs.receives, ?_, ?_⟩, hs.sends⟩
  · intro h st hst
    obtain ⟨h1, h2, h3⟩ := hs.listed h st hst
    refine ⟨h1, h2, fun ho => ⟨(h3 ho).1, ?_⟩⟩
    obtain ⟨b, hb, hid, hpoint⟩ := (h3 ho).2
    obtain ⟨j, hj⟩ := List.mem_iff_getElem?.mp hb
    have hne : a ≠ j := by
      rintro rfl
      obtain rfl := Option.some.inj (hacc.symm.trans hj)
      exact hregistered hpoint
    refine ⟨b, List.mem_iff_getElem?.mpr ⟨j, ?_⟩, hid, hpoint⟩
    rw [acceptors_setAcceptor, hj]
    simp [hne]
  · obtain ⟨h1, h2, h3, h4, h5⟩ := hs.outbox
    exact ⟨h1, h2, h3, h4, h5⟩
  · obtain ⟨h1, h2, hq, h3, h4, h5⟩ := hs.inbox
    refine ⟨h1, h2, hq, h3, ?_, ?_⟩
    · have hids : (s.setAcceptor a point).acceptors.map (·.streamId) =
          s.acceptors.map (·.streamId) := by
        refine List.ext_getElem? fun j => ?_
        rw [List.getElem?_map, List.getElem?_map, acceptors_setAcceptor, Option.map_map]
        congr 1
        funext b
        simp only [Function.comp_apply]
        split <;> rfl
      rwa [hids]
    · intro b hb
      rcases mem_setAcceptor hacc hb with rfl | hb
      · exact ⟨(h5 acc hmem).1, (h5 acc hmem).2.1, hchecked⟩
      · exact h5 b hb

theorem Sound.register (hs : Sound s) {opening : Option OpenPayload} (hnew : ¬ Known s id)
    (hlisted : ∀ st : Stream, st.id = id → st.opening = opening → Listed s st) :
    Sound (s.registerStream id opening) := by
  have hcases : ∀ {j : Nat} {su : Stream}, (s.registerStream id opening).table[j]? = some su →
      s.table[j]? = some su ∨ (j = s.table.length ∧ su.id = id ∧ su.opening = opening ∧
        su.task = .announcing ∧ su.pump = .unstarted ∧ su.readBytes = [] ∧ su.written = [] ∧
        su.remoteEof = false) := by
    intro j su hsu
    unfold Endpoint.registerStream at hsu
    rw [List.getElem?_append] at hsu
    split at hsu
    · exact Or.inl hsu
    · next hlt =>
      rw [List.getElem?_singleton] at hsu
      split at hsu
      · obtain rfl := Option.some.inj hsu
        exact Or.inr ⟨by omega, rfl, rfl, rfl, rfl, rfl, rfl, rfl⟩
      · cases hsu
  have hold : ∀ {j : Nat} {su : Stream}, s.table[j]? = some su →
      (s.registerStream id opening).table[j]? = some su := by
    intro j su hsu
    have hlt : j < s.table.length := (List.getElem?_eq_some_iff.mp hsu).1
    exact (List.getElem?_append_left hlt).trans hsu
  have hex : ∀ {P : Stream → Prop}, (∃ (j : Nat) (su : Stream), s.table[j]? = some su ∧ P su) →
      ∃ (j : Nat) (su : Stream), (s.registerStream id opening).table[j]? = some su ∧ P su := by
    rintro P ⟨j, su, hsu, hP⟩
    exact ⟨j, su, hold hsu, hP⟩
  have hunheard : ∀ l, (∀ f ∈ l, Streams f → Known s f.streamId) →
      carried id l = [] ∧ .newFin id ∉ l := by
    intro l hl
    refine ⟨carried_eq_nil fun f hf hstream heq => hnew (heq ▸ hl f hf hstream), fun hfin => ?_⟩
    exact hnew (hl _ hfin trivial)
  have htaken := hunheard s.taken hs.inbox.heard
  have hsent := hunheard s.enqueued fun f hf hstream => by
    obtain ⟨j, su, hsu, hid, -⟩ := hs.outbox.streaming f hf hstream
    exact ⟨j, su, hsu, hid⟩
  have hidle : ∀ {j}, writes s.run j ∨ ends s.run j → j ≠ s.table.length := by
    rintro j hj rfl
    obtain ⟨su, hsu⟩ := hs.inbox.handled _ hj
    simp at hsu
  refine ⟨⟨hs.generator, ?_, ?_, ?_, ?_, ?_⟩, ?_⟩
  · intro j j' su su' hsu hsu' heq
    rcases hcases hsu with hsu | ⟨hj, hid, -⟩
    · rcases hcases hsu' with hsu' | ⟨hj', hid', -⟩
      · exact hs.unique j j' su su' hsu hsu' heq
      · exact absurd ⟨j, su, hsu, heq.trans hid'⟩ hnew
    · rcases hcases hsu' with hsu' | ⟨hj', hid', -⟩
      · exact absurd ⟨j', su', hsu', heq.symm.trans hid⟩ hnew
      · rw [hj, hj']
  · intro j su hsu
    have hl : Listed s su := by
      rcases hcases hsu with hsu | ⟨-, hid, hopening, -⟩
      · exact hs.listed j su hsu
      · exact hlisted su hid hopening
    exact ⟨hl.nonzero, hl.own, hl.invited⟩
  · intro j su hsu
    rcases hcases hsu with hsu' | ⟨hj, hid, -, -, -, -, hwritten, heof⟩
    · refine (hs.receives j su hsu').weaken (fun hget => ?_) (fun h => h) rfl (fun h => h)
        fun i hi => hi
      change (s.streams.insert id s.table.length).get? su.id = some j at hget
      rwa [BTreeMap.get?_insert_of_ne] at hget
      rintro rfl
      exact hnew ⟨j, su, hsu', rfl⟩
    · change Receives s.taken (s.streams.insert id s.table.length) s.run s.resets j su
      have hrest : rest s.run j = [] := by
        cases hrun : s.run with
        | writing h' l =>
          have hne := hidle (Or.inl ⟨l, hrun⟩ : writes s.run h' ∨ ends s.run h')
          exact if_neg (hj ▸ hne)
        | _ => rfl
      have hall : su.written ++ rest s.run j = carried su.id s.taken := by
        rw [hwritten, hrest, hid, htaken.1]
        rfl
      refine ⟨?_, fun _ _ => hall, fun _ => hall, ?_, fun _ => hrest⟩
      · rw [hwritten]
        exact List.nil_prefix
      · rintro (h | h)
        · rw [heof] at h
          cases h
        · exact absurd hj (hidle (Or.inr h))
  · obtain ⟨h1, h2, h3, h4, h5⟩ := hs.outbox
    exact ⟨h1, fun i hi => hex (h2 i hi), fun i hi => hex (h3 i hi),
      fun f hf hstream => hex (h4 f hf hstream), h5⟩
  · obtain ⟨h1, h2, hq, h3, h4, h5⟩ := hs.inbox
    refine ⟨?_, ?_, hq, fun f hf hstream => hex (h3 f hf hstream), h4, h5⟩
    · intro i j hget
      change (s.streams.insert id s.table.length).get? i = some j at hget
      rw [BTreeMap.get?_insert] at hget
      split at hget
      · next hi =>
        obtain rfl := Option.some.inj hget
        exact ⟨_, List.getElem?_concat_length, hi.symm⟩
      · obtain ⟨su, hsu, hsid⟩ := h1 i j hget
        exact ⟨su, hold hsu, hsid⟩
    · intro j hj
      obtain ⟨su, hsu⟩ := h2 j hj
      exact ⟨su, hold hsu⟩
  · intro j su hsu
    rcases hcases hsu with hsu | ⟨-, hid, -, htask, hpump, hread, -, -⟩
    · exact hs.sends j su hsu
    · change Sends s.enqueued s.taken su
      refine ⟨fun _ hmem => ?_, ?_, fun h => absurd hpump h, fun _ => hread, ?_, fun _ => ?_, ?_,
        fun l hl hfin => ?_⟩
      · obtain ⟨j, sv, hsv, hsid, -⟩ := hs.outbox.opened su.id hmem
        exact hnew ⟨j, sv, hsv, hsid.trans hid⟩
      · rw [htask]
        intro h
        cases h
      · rw [hpump]
        intro bytes h
        cases h
      · rw [hid, hpump, hread, hsent.1]
        exact ⟨rfl, hsent.2⟩
      · rw [hid, hsent.1]
        exact List.nil_prefix
      · exact absurd (hl.subset (hid ▸ hfin)) hsent.2

theorem Sound.transmit (hs : Sound s) (hopen : s.channelOpen = true)
    (hst : s.table[h]? = some st) (hid : st'.id = st.id) (hopening : st'.opening = st.opening)
    (hpump : st.pump ≠ .unstarted → st'.pump ≠ .unstarted) (hf : f.streamId = st.id)
    (hsends : Sends (s.enqueued ++ [f]) s.taken st')
    (hreceives : Receives s.taken s.streams s.run s.resets h st')
    (hannounce : openId f ≠ none →
      st.id ∉ s.enqueued.filterMap openId ∧ st.opening.isSome = true)
    (hack : f = .newOpenAck st.id → st.opening.isSome = false)
    (hstream : Streams f → st.pump ≠ .unstarted)
    (hsize : ∀ bytes, f = .newData st.id bytes → bytes.length ≤ readBufferSize) :
    Sound ((s.send f).setStream h st') := by
  have hst' : (s.send f).table[h]? = some st := by rwa [send_table]
  have hframed : Framed (s.send f) := by
    refine hs.toFramed.enqueue hopen ?_ ?_ ?_ ?_
    · intro id hmem
      obtain rfl : st.id = id := hf.symm.trans (streamId_of_openId hmem)
      obtain ⟨hnew, ho⟩ := hannounce fun hnone => by
        rw [hnone] at hmem
        cases hmem
      exact ⟨hnew, h, st, hst, rfl, ho⟩
    · rintro id rfl
      obtain rfl : st.id = id := hf.symm
      exact ⟨h, st, hst, rfl, hack rfl⟩
    · exact fun hstr => ⟨h, st, hst, hf.symm, hstream hstr⟩
    · rintro id bytes rfl
      obtain rfl : st.id = id := hf.symm
      exact hsize bytes rfl
  refine ⟨hframed.setStream hst' hid hopening hpump ?_, ?_⟩
  · rwa [send_taken, send_streams, send_run, send_resets]
  · refine of_setStream hst' ?_ fun j su hj hsu => ?_
    · change Sends (s.send f).enqueued (s.send f).taken st'
      rwa [send_enqueued, if_pos hopen, send_taken]
    · change Sends (s.send f).enqueued (s.send f).taken su
      rw [send_table] at hsu
      rw [send_enqueued, if_pos hopen, send_taken]
      refine (hs.sends j su hsu).send (Or.inl fun heq => hj ?_)
      exact hs.unique h j st su hst hsu (hf.symm.trans heq)

end States

end StreamBytes
