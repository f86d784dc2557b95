import AgsCli.Upload.Pipeline

/-! # Multipart reassembly

In every state of an upload: the finalized list names, part by part, the ETag of a PUT of exactly
that part's bytes; no range computation leaves 64 bits; nothing is finalized or completed after a
part has failed; and every failure once the image exists names it. -/
namespace ImageUpload

open Chunks

variable {u : Upload}

def partBytes (u : Upload) (i : Nat) : List UInt8 :=
  between u.archive (first u.chunkBytes i) (last u.archiveBytes u.chunkBytes i)

/-- A PUT of the part's bytes was answered with the ETag. -/
def Stored (u : Upload) (log : List Sent) (i : Nat) (etag : String) : Prop :=
  ∃ status detail, isSuccess status = true ∧
    .put i (partBytes u i) (.answered status (some etag) detail) ∈ log

theorem Stored.mono {log log' : List Sent} {i : Nat} {etag : String} (h : Stored u log i etag)
    (hsub : log ⊆ log') : Stored u log' i etag := by
  obtain ⟨status, detail, hsuccess, hmem⟩ := h
  exact ⟨status, detail, hsuccess, hsub hmem⟩

section Ranges

theorem parts_pos (u : Upload) : 0 < u.parts := by
  unfold Upload.parts partCount
  split_ifs with hsmall
  · exact Nat.one_pos
  · have hzero : first u.chunkBytes 0 < u.archiveBytes := by
      rw [first]
      have := u.chunk_pos
      omega
    exact (first_lt_iff u.chunk_pos).mp hzero

theorem parts_eq_count (h : 1 < u.parts) :
    u.parts = count u.archiveBytes u.chunkBytes ∧ u.chunkBytes < u.archiveBytes := by
  unfold Upload.parts partCount at h ⊢
  split_ifs at h ⊢ with hsmall
  · exact absurd h (Nat.lt_irrefl 1)
  · exact ⟨rfl, Nat.lt_of_not_le hsmall⟩

/-- The ranges are computed without leaving 64 bits. -/
theorem partRange?_eq (h : 1 < u.parts) {i : Nat} (hi : i < u.parts) :
    u.partRange? i = some ⟨first u.chunkBytes i,
      last u.archiveBytes u.chunkBytes i - first u.chunkBytes i⟩ := by
  have hcount := (parts_eq_count h).1
  rw [hcount] at hi
  have hfirst := (first_lt_iff u.chunk_pos).mpr hi
  have hsize : u.archiveBytes < 2 ^ 64 := u.archive_lt
  have hmul : u64Mul? i u.chunkBytes = some (first u.chunkBytes i) :=
    if_pos (Nat.lt_trans hfirst hsize)
  have hsub : u64Sub? u.archiveBytes (first u.chunkBytes i) =
      some (u.archiveBytes - first u.chunkBytes i) := if_pos (Nat.le_of_lt hfirst)
  simp only [Upload.partRange?, hmul, hsub, Option.bind_eq_bind, Option.bind_some,
    last_sub_first]

theorem range?_body {i : Nat} (hi : i < u.parts) :
    ∃ range, u.range? i = some range ∧ u.uploadBody range = partBytes u i := by
  by_cases h : 1 < u.parts
  · exact ⟨_, (if_pos h).trans (partRange?_eq h hi), rfl⟩
  · refine ⟨u.wholeRange, if_neg h, ?_⟩
    have hone : i = 0 := by
      have := parts_pos u
      omega
    have hsmall : u.archiveBytes ≤ u.chunkBytes := by
      by_contra hlarge
      have htwo : first u.chunkBytes 1 < u.archiveBytes := by
        rw [first]
        omega
      have hcount := (first_lt_iff u.chunk_pos).mp htwo
      rw [Upload.parts, partCount, if_neg hlarge] at h
      exact h hcount
    subst hone
    have hlast : last u.archiveBytes u.chunkBytes 0 - first u.chunkBytes 0 = u.archiveBytes := by
      rw [last_sub_first, first]
      omega
    have hfirst : first u.chunkBytes 0 = 0 := Nat.zero_mul _
    rw [partBytes, between, hlast, hfirst]
    rfl

structure Covers (u : Upload) : Prop where
  nonempty : ∀ i < u.parts,
    first u.chunkBytes i < last u.archiveBytes u.chunkBytes i
  disjoint : ∀ i j, i < j →
    last u.archiveBytes u.chunkBytes i ≤ first u.chunkBytes j
  together : (List.range u.parts).flatMap (partBytes u) = u.archive

theorem covers (h : 1 < u.parts) : Covers u where
  nonempty i hi := by
    rw [(parts_eq_count h).1] at hi
    exact first_lt_last u.chunk_pos hi
  disjoint i j hij := last_le_first hij
  together := by
    rw [(parts_eq_count h).1]
    exact flatMap_chunks u.archive u.chunk_pos

end Ranges

/-- Presigning and PUTs, which the part tasks send. -/
def Sent.isTransfer : Sent → Bool
  | .presign _ | .put .. => true
  | _ => false

def LogClosed (log : List Sent) : Prop := (∃ parts, .finalizeMultipart parts ∈ log) ∨ .complete ∈ log

/-- The phases of an upload whose image exists, a failure naming the image. -/
def OwnedBy (u : Upload) (imageId : String) : Phase → Prop
  | .creating | .overflowed => False
  | .initiating id | .joining id | .single id | .completing id | .returned (.ok id) => id = imageId
  | .returned (.error e) => ∃ source, e = u.orphan imageId source

def Phase.isLate : Phase → Bool
  | .completing _ | .returned _ => true
  | _ => false

structure Invariant (u : Upload) (s : State) : Prop where
  tasks : s.tasks = [] ∨ s.tasks.length = u.parts
  fresh : s.phase = .creating → s.log = [] ∧ s.tasks = []
  initiating : ∀ id, s.phase = .initiating id → 1 < u.parts ∧ ¬ LogClosed s.log
  joining : ∀ id, s.phase = .joining id → 1 < u.parts ∧ s.tasks.length = u.parts ∧
    s.etags.length = u.parts
  single : ∀ id, s.phase = .single id → s.tasks.length = 1
  done : 1 < u.parts → ∀ i etag, s.tasks[i]? = some (.running (.done (.ok etag))) →
    Stored u s.log i etag
  etags : ∀ i etag, s.etags[i]? = some (some etag) → Stored u s.log i etag
  finalized : ∀ parts, .finalizeMultipart parts ∈ s.log → 1 < u.parts ∧ parts.length = u.parts ∧
    ∀ i etag, parts[i]? = some etag → Stored u s.log i etag
  settled : (∃ id, s.phase = .completing id) ∨ LogClosed s.log → ∀ t ∈ s.tasks, t.isJoined = true
  created : ∀ id, .createImage (.ok id) ∈ s.log → OwnedBy u id s.phase
  computed : s.phase ≠ .overflowed

theorem invariant_init (u : Upload) : Invariant u .init where
  tasks := Or.inl rfl
  fresh _ := ⟨rfl, rfl⟩
  initiating _ h := by cases h
  joining _ h := by cases h
  single _ h := by cases h
  done _ _ _ h := by cases h
  etags _ _ h := by cases h
  finalized _ h := absurd h List.not_mem_nil
  settled _ _ h := absurd h List.not_mem_nil
  created _ h := absurd h List.not_mem_nil
  computed h := by cases h

section Steps

variable {s : State}

theorem mem_append_transfer {log extra : List Sent} {sent : Sent}
    (hextra : ∀ x ∈ extra, x.isTransfer = true) (hsent : sent.isTransfer = false) :
    sent ∈ log ++ extra ↔ sent ∈ log := by
  rw [List.mem_append]
  refine or_iff_left fun hmem => ?_
  rw [hextra _ hmem] at hsent
  cases hsent

theorem logClosed_append {log extra : List Sent} (hextra : ∀ x ∈ extra, x.isTransfer = true) :
    LogClosed (log ++ extra) ↔ LogClosed log :=
  or_congr (exists_congr fun _ => mem_append_transfer hextra rfl) (mem_append_transfer hextra rfl)

/-- A task moves: what it sends are transfers, and a part it finishes with is stored. -/
theorem invariant_task (extra : List Sent) {i : Nat} {old : Task} {transfer : Transfer}
    (h : Invariant u s) (hold : s.tasks[i]? = some old) (hjoined : old.isJoined = false)
    (hextra : ∀ x ∈ extra, x.isTransfer = true)
    (hdone : 1 < u.parts → ∀ etag, transfer = .done (.ok etag) → Stored u (s.log ++ extra) i etag) :
    Invariant u { s with
      tasks := s.tasks.set i (.running transfer)
      log := s.log ++ extra } where
  tasks := by
    rcases h.tasks with hnil | hlength
    · rw [hnil] at hold
      cases hold
    · exact Or.inr ((List.length_set ..).trans hlength)
  fresh hphase := by
    rw [(h.fresh hphase).2] at hold
    cases hold
  initiating id hphase := by
    rw [logClosed_append hextra]
    exact h.initiating id hphase
  joining id hphase := by
    obtain ⟨hparts, htasks, hetags⟩ := h.joining id hphase
    exact ⟨hparts, (List.length_set ..).trans htasks, hetags⟩
  single id hphase := (List.length_set ..).trans (h.single id hphase)
  done hparts j etag hj := by
    rw [List.getElem?_set] at hj
    split_ifs at hj with heq
    · subst heq
      exact hdone hparts etag (by injection hj with hj; injection hj)
    · exact (h.done hparts j etag hj).mono (List.subset_append_left _ _)
  etags j etag hj := (h.etags j etag hj).mono (List.subset_append_left _ _)
  finalized parts hmem := by
    obtain ⟨hparts, hlength, hstored⟩ := h.finalized parts ((mem_append_transfer hextra rfl).mp hmem)
    exact ⟨hparts, hlength, fun j etag hj =>
      (hstored j etag hj).mono (List.subset_append_left _ _)⟩
  settled hclosing := by
    rw [logClosed_append hextra] at hclosing
    have hall := h.settled hclosing old (List.mem_of_getElem? hold)
    rw [hjoined] at hall
    cases hall
  created id hmem := h.created id ((mem_append_transfer hextra rfl).mp hmem)
  computed := h.computed

/-- A call is made and the upload closes; the tasks stay, all joined unless it has failed. -/
theorem invariant_call {sent : Sent} {phase : Phase} (h : Invariant u s)
    (hlate : phase.isLate = true)
    (hfinalized : ∀ parts, sent = .finalizeMultipart parts → 1 < u.parts ∧
      parts.length = u.parts ∧ ∀ i etag, parts[i]? = some etag → Stored u s.log i etag)
    (hsettled : (∃ id, phase = .completing id) ∨ LogClosed (s.log ++ [sent]) →
      ∀ t ∈ s.tasks, t.isJoined = true)
    (hcreated : ∀ id, .createImage (.ok id) ∈ s.log ++ [sent] → OwnedBy u id phase) :
    Invariant u { s with phase := phase, log := s.log ++ [sent] } where
  tasks := h.tasks
  fresh hphase := by
    obtain rfl : phase = _ := hphase
    cases hlate
  initiating id hphase := by
    obtain rfl : phase = _ := hphase
    cases hlate
  joining id hphase := by
    obtain rfl : phase = _ := hphase
    cases hlate
  single id hphase := by
    obtain rfl : phase = _ := hphase
    cases hlate
  done hparts i etag hi := (h.done hparts i etag hi).mono (List.subset_append_left _ _)
  etags i etag hi := (h.etags i etag hi).mono (List.subset_append_left _ _)
  finalized parts hmem := by
    have hparts : 1 < u.parts ∧ parts.length = u.parts ∧
        ∀ i etag, parts[i]? = some etag → Stored u s.log i etag := by
      rcases List.mem_append.mp hmem with hmem | hmem
      · exact h.finalized parts hmem
      · exact hfinalized parts (List.mem_singleton.mp hmem).symm
    exact ⟨hparts.1, hparts.2.1, fun i etag hi =>
      (hparts.2.2 i etag hi).mono (List.subset_append_left _ _)⟩
  settled := hsettled
  created := hcreated
  computed hphase := by
    obtain rfl : phase = _ := hphase
    cases hlate

/-- A failure names the image the phase belongs to. -/
theorem invariant_fails {imageId : String} (h : Invariant u s)
    (howned : ∀ id, .createImage (.ok id) ∈ s.log → imageId = id) (error : UploadError) :
    Invariant u (s.fails u imageId error) where
  tasks := h.tasks
  fresh hphase := by cases hphase
  initiating id hphase := by cases hphase
  joining id hphase := by cases hphase
  single id hphase := by cases hphase
  done := h.done
  etags := h.etags
  finalized := h.finalized
  settled hclosing := by
    rcases hclosing with ⟨id, hphase⟩ | hclosed
    · cases hphase
    · exact h.settled (Or.inr hclosed)
  created id hmem := ⟨error, by rw [howned id hmem]⟩
  computed hphase := by cases hphase

theorem orderedEtags_ok {etags : List (Option String)} {parts : List String} {index : Nat}
    (h : orderedEtags index etags = .ok parts) : etags = parts.map some := by
  induction etags generalizing index parts with
  | nil =>
    obtain rfl := Except.ok.inj h
    rfl
  | cons etag rest ih =>
    cases etag with
    | none => cases h
    | some etag =>
      rw [orderedEtags] at h
      split at h
      · cases h
      · next others hothers =>
        obtain rfl := Except.ok.inj h
        rw [ih hothers, List.map_cons]

theorem invariant_begin (h : Invariant u s) (hphase : s.phase = .creating) (imageId : String) :
    Invariant u (beginUpload u (s.sends (.createImage (.ok imageId))) imageId) := by
  obtain ⟨hlog, htasks⟩ := h.fresh hphase
  have hopen : ¬ LogClosed (s.log ++ [.createImage (.ok imageId)]) := by
    rw [hlog]
    rintro (⟨parts, hmem⟩ | hmem)
    · cases List.mem_singleton.mp hmem
    · cases List.mem_singleton.mp hmem
  have hcreated : ∀ id, .createImage (.ok id) ∈ s.log ++ [.createImage (.ok imageId)] →
      imageId = id := by
    intro id hmem
    rw [hlog] at hmem
    cases List.mem_singleton.mp hmem
    rfl
  have hetags : ∀ i etag, s.etags[i]? = some (some etag) →
      Stored u (s.log ++ [.createImage (.ok imageId)]) i etag :=
    fun i etag hi => (h.etags i etag hi).mono (List.subset_append_left _ _)
  have hnone : ∀ {P : Prop} parts,
      .finalizeMultipart parts ∈ s.log ++ [.createImage (.ok imageId)] → P :=
    fun parts hmem => absurd (Or.inl ⟨parts, hmem⟩) hopen
  rw [beginUpload]
  split_ifs with hparts
  · exact {
      tasks := Or.inl htasks
      fresh := fun hphase => by cases hphase
      initiating := fun id _ => ⟨hparts, hopen⟩
      joining := fun id hphase => by cases hphase
      single := fun id hphase => by cases hphase
      done := fun _ i etag hi => by
        have hi : s.tasks[i]? = some (.running (.done (.ok etag))) := hi
        rw [htasks] at hi
        cases hi
      etags := hetags
      finalized := fun parts hmem => hnone parts hmem
      settled := fun hclosing => by
        rcases hclosing with ⟨id, hphase⟩ | hclosed
        · cases hphase
        · exact absurd hclosed hopen
      created := hcreated
      computed := fun hphase => by cases hphase }
  · have hone := parts_pos u
    exact {
      tasks := Or.inr (by
        rw [List.length_singleton]
        omega)
      fresh := fun hphase => by cases hphase
      initiating := fun id hphase => by cases hphase
      joining := fun id hphase => by cases hphase
      single := fun id _ => rfl
      done := fun hmany => absurd hmany hparts
      etags := hetags
      finalized := fun parts hmem => hnone parts hmem
      settled := fun hclosing => by
        rcases hclosing with ⟨id, hphase⟩ | hclosed
        · cases hphase
        · exact absurd hclosed hopen
      created := hcreated
      computed := fun hphase => by cases hphase }

theorem owned_of_created {phase : Phase} {imageId : String} (hphase : s.phase = phase)
    (h : Invariant u s) (howned : ∀ id, OwnedBy u id phase → imageId = id) :
    ∀ id, .createImage (.ok id) ∈ s.log → imageId = id :=
  fun id hmem => howned id (hphase ▸ h.created id hmem)

theorem created_sends (sent : Sent) {imageId : String} (hsent : ∀ id, sent ≠ .createImage (.ok id))
    (howned : ∀ id, .createImage (.ok id) ∈ s.log → imageId = id) :
    ∀ id, .createImage (.ok id) ∈ (s.sends sent).log → imageId = id := by
  intro id hmem
  rcases List.mem_append.mp hmem with hmem | hmem
  · exact howned id hmem
  · exact absurd (List.mem_singleton.mp hmem).symm (hsent id)

theorem invariant_spawn (h : Invariant u s) {imageId : String}
    (hphase : s.phase = .initiating imageId) :
    Invariant u (spawnParts u (s.sends .initiateMultipart) imageId) := by
  obtain ⟨hparts, hopen⟩ := h.initiating imageId hphase
  have howned := created_sends .initiateMultipart (fun id hsent => by cases hsent)
    (owned_of_created hphase h fun id hid => hid)
  have hlog : ∀ {sent}, sent ≠ .initiateMultipart →
      sent ∈ (s.sends .initiateMultipart).log → sent ∈ s.log := by
    intro sent hne hmem
    rcases List.mem_append.mp hmem with hmem | hmem
    · exact hmem
    · exact absurd (List.mem_singleton.mp hmem) hne
  have hclosed : ¬ LogClosed (s.sends .initiateMultipart).log := by
    rintro (⟨parts, hmem⟩ | hmem)
    · exact hopen (Or.inl ⟨parts, hlog (fun hne => by cases hne) hmem⟩)
    · exact hopen (Or.inr (hlog (fun hne => by cases hne) hmem))
  have hall : ((List.range u.parts).all fun i => (u.partRange? i).isSome) = true := by
    refine List.all_eq_true.mpr fun i hi => ?_
    rw [partRange?_eq hparts (List.mem_range.mp hi)]
    rfl
  rw [spawnParts, if_pos hall]
  exact {
    tasks := Or.inr List.length_replicate
    fresh := fun hphase => by cases hphase
    initiating := fun id hphase => by cases hphase
    joining := fun id _ => ⟨hparts, List.length_replicate, List.length_replicate⟩
    single := fun id hphase => by cases hphase
    done := fun _ i etag hi => by
      have hmem := List.mem_of_getElem? hi
      cases List.eq_of_mem_replicate hmem
    etags := fun i etag hi => by
      have hmem := List.mem_of_getElem? hi
      cases List.eq_of_mem_replicate hmem
    finalized := fun parts hmem => absurd (Or.inl ⟨parts, hmem⟩) hclosed
    settled := fun hclosing => by
      rcases hclosing with ⟨id, hphase⟩ | hlogged
      · cases hphase
      · exact absurd hlogged hclosed
    created := howned
    computed := fun hphase => by cases hphase }

/-- Another part is joined, its ETag put in its place. -/
theorem invariant_joins (h : Invariant u s) {imageId etag : String} {i : Nat}
    (hphase : s.phase = .joining imageId)
    (hi : s.tasks[i]? = some (.running (.done (.ok etag)))) :
    Invariant u { s.setTask i .joined with etags := s.etags.set i (some etag) } := by
  obtain ⟨hparts, htasks, hetags⟩ := h.joining imageId hphase
  exact {
    tasks := Or.inr ((List.length_set ..).trans htasks)
    fresh := fun hcreating => by
      have hcreating : s.phase = .creating := hcreating
      rw [hphase] at hcreating
      cases hcreating
    initiating := h.initiating
    joining := fun id _ =>
      ⟨hparts, (List.length_set ..).trans htasks, (List.length_set ..).trans hetags⟩
    single := fun id hsingle => (List.length_set ..).trans (h.single id hsingle)
    done := fun _ j other hj => by
      have hj : (s.tasks.set i .joined)[j]? = _ := hj
      rw [List.getElem?_set] at hj
      split_ifs at hj with heq
      · injection hj with hj
        cases hj
      · exact h.done hparts j other hj
    etags := fun j other hj => by
      have hset : (s.etags.set i (some etag))[j]? = some (some other) := hj
      rw [List.getElem?_set] at hset
      split_ifs at hset with heq
      · subst heq
        obtain rfl := Option.some.inj (Option.some.inj hset)
        exact h.done hparts i etag hi
      · exact h.etags j other hset
    finalized := h.finalized
    settled := fun hclosing => by
      have hall := h.settled hclosing _ (List.mem_of_getElem? hi)
      cases hall
    created := h.created
    computed := h.computed }

theorem invariant_joinTask (h : Invariant u s) {i : Nat} {result : Except UploadError String}
    {t : State} (hi : s.tasks[i]? = some (.running (.done result)))
    (hstep : joinTask u s i result = some t) : Invariant u t := by
  rw [joinTask.eq_def] at hstep
  split at hstep
  · next imageId etag hphase =>
    obtain rfl := Option.some.inj hstep
    exact invariant_joins h hphase hi
  · next imageId e hphase =>
    obtain rfl := Option.some.inj hstep
    exact invariant_fails h (owned_of_created hphase h fun id hid => hid) e
  · next imageId etag hphase =>
    obtain rfl := Option.some.inj hstep
    have hone := h.single imageId hphase
    have hzero : i = 0 := by
      have := (List.getElem?_eq_some_iff.mp hi).1
      omega
    obtain ⟨task, htask⟩ := List.length_eq_one_iff.mp hone
    have hset : s.tasks.set i .joined = [.joined] := by
      rw [htask, hzero]
      rfl
    have hlength : (s.tasks.set i .joined).length = s.tasks.length := List.length_set ..
    exact {
      tasks := by
        rcases h.tasks with hnil | hparts
        · rw [hnil] at hi
          cases hi
        · exact Or.inr (hlength.trans hparts)
      fresh := fun hcreating => by cases hcreating
      initiating := fun id hinitiating => by cases hinitiating
      joining := fun id hjoining => by cases hjoining
      single := fun id hsingle => by cases hsingle
      done := fun _ j other hj => by
        have hj : (s.tasks.set i .joined)[j]? = _ := hj
        rw [hset] at hj
        cases List.mem_singleton.mp (List.mem_of_getElem? hj)
      etags := h.etags
      finalized := h.finalized
      settled := fun _ task hmem => by
        have hmem : task ∈ s.tasks.set i .joined := hmem
        rw [hset] at hmem
        rw [List.mem_singleton.mp hmem]
        rfl
      created := fun id hmem => owned_of_created hphase h (fun id hid => hid) id hmem
      computed := fun hoverflowed => by cases hoverflowed }
  · next imageId e hphase =>
    obtain rfl := Option.some.inj hstep
    exact invariant_fails h (owned_of_created hphase h fun id hid => hid) e
  · cases hstep

theorem invariant_finalize (h : Invariant u s) {imageId : String}
    (hphase : s.phase = .joining imageId) (hjoined : ∀ task ∈ s.tasks, task.isJoined = true)
    (answer : Except UploadError Unit) : Invariant u (finalizeParts u s imageId answer) := by
  obtain ⟨hparts, -, hetags⟩ := h.joining imageId hphase
  have howned := owned_of_created hphase h fun id hid => hid
  rw [finalizeParts]
  split
  · exact invariant_fails h howned _
  · next parts hordered =>
    have heq := orderedEtags_ok hordered
    have hfinalized : ∀ other, Sent.finalizeMultipart parts = .finalizeMultipart other →
        1 < u.parts ∧ other.length = u.parts ∧
          ∀ i etag, other[i]? = some etag → Stored u s.log i etag := by
      intro other hother
      obtain rfl := Sent.finalizeMultipart.inj hother
      refine ⟨hparts, ?_, fun i etag hi => h.etags i etag ?_⟩
      · rw [heq, List.length_map] at hetags
        exact hetags
      · rw [heq, List.getElem?_map, hi]
        rfl
    have hcreated := created_sends (.finalizeMultipart parts)
      (fun id hsent => by cases hsent) howned
    cases answer with
    | error e =>
      exact invariant_call h rfl hfinalized (fun _ => hjoined)
        fun id hmem => ⟨e, by rw [hcreated id hmem]⟩
    | ok _ =>
      exact invariant_call h rfl hfinalized (fun _ => hjoined) hcreated

theorem invariant_complete (h : Invariant u s) {imageId : String}
    (hphase : s.phase = .completing imageId) (answer : Except UploadError Unit) :
    Invariant u (completeUpload u s imageId answer) := by
  have hjoined := h.settled (Or.inl ⟨imageId, hphase⟩)
  have hcreated := created_sends .complete (fun id hsent => by cases hsent)
    (owned_of_created hphase h fun id hid => hid)
  cases answer with
  | error e =>
    exact invariant_call h rfl (fun parts hsent => by cases hsent) (fun _ => hjoined)
      fun id hmem => ⟨e, by rw [hcreated id hmem]⟩
  | ok _ =>
    exact invariant_call h rfl (fun parts hsent => by cases hsent) (fun _ => hjoined) hcreated

theorem afterPut_ok {whole : Bool} {partNumber attempt elapsed : Nat} {resigned : Bool}
    {answer : PutAnswer} {etag : String}
    (h : Transfer.afterPut whole partNumber resigned attempt
      (putOutcome attempt elapsed answer) = .done (.ok etag)) (hwhole : whole = false) :
    ∃ status detail, isSuccess status = true ∧ answer = .answered status (some etag) detail := by
  cases answer with
  | unreadable reason => cases h
  | timedOut reason =>
    rw [putOutcome] at h
    split_ifs at h
    · cases h
    · cases h
  | failed reason => cases h
  | answered status found detail =>
    rw [putOutcome] at h
    split_ifs at h with hretry hunauthorized hsuccess
    · cases h
    · cases resigned with
      | false => cases h
      | true => cases h
    · cases found with
      | none =>
        rw [Transfer.afterPut, hwhole] at h
        cases h
      | some found =>
        cases h
        exact ⟨status, detail, hsuccess, rfl⟩
    · cases h

theorem invariant_put (h : Invariant u s) {i attempt elapsed : Nat} {resigned : Bool}
    {answer : PutAnswer} {t : State}
    (hi : s.tasks[i]? = some (.running (.putting resigned attempt)))
    (hstep : putPart u s i resigned attempt elapsed answer = some t) : Invariant u t := by
  have hlt : i < u.parts := by
    rcases h.tasks with hnil | hlength
    · rw [hnil] at hi
      cases hi
    · rw [← hlength]
      exact (List.getElem?_eq_some_iff.mp hi).1
  obtain ⟨range, hrange, hbody⟩ := range?_body hlt
  rw [putPart, hrange] at hstep
  obtain rfl := Option.some.inj hstep
  have hstored : ∀ extra : List Sent, (∀ status etag detail, answer = .answered status etag detail →
      extra = [.put i (u.uploadBody range) answer]) → 1 < u.parts → ∀ etag,
      Transfer.afterPut (u.parts ≤ 1) (i + 1) resigned attempt
        (putOutcome attempt elapsed answer) = .done (.ok etag) →
      Stored u (s.log ++ extra) i etag := by
    intro extra hextra hmany etag hdone
    obtain ⟨status, detail, hsuccess, rfl⟩ := afterPut_ok hdone (decide_eq_false (by omega))
    rw [hextra status _ detail rfl, hbody]
    exact ⟨status, detail, hsuccess, List.mem_append_right _ List.mem_cons_self⟩
  have hput : ∀ x ∈ [Sent.put i (u.uploadBody range) answer], x.isTransfer = true := by
    intro x hx
    rw [List.mem_singleton.mp hx]
    rfl
  cases answer with
  | unreadable reason =>
    have hnone := invariant_task [] h hi rfl (fun x hx => absurd hx List.not_mem_nil)
      (hstored [] fun _ _ _ heq => by cases heq)
    rw [List.append_nil] at hnone
    exact hnone
  | timedOut reason => exact invariant_task _ h hi rfl hput (hstored _ fun _ _ _ heq => by cases heq)
  | failed reason => exact invariant_task _ h hi rfl hput (hstored _ fun _ _ _ heq => by cases heq)
  | answered status etag detail => exact invariant_task _ h hi rfl hput (hstored _ fun _ _ _ _ => rfl)

/-- A task moves without sending anything or finishing. -/
theorem invariant_quiet (h : Invariant u s) {i : Nat} {old : Task} {transfer : Transfer}
    (hold : s.tasks[i]? = some old) (hjoined : old.isJoined = false)
    (hunfinished : ∀ etag, transfer ≠ .done (.ok etag)) :
    Invariant u (s.setTask i (.running transfer)) := by
  have hnone := invariant_task [] h hold hjoined
    (fun x hx => absurd hx List.not_mem_nil) fun _ etag heq => absurd heq (hunfinished etag)
  rw [List.append_nil] at hnone
  exact hnone

theorem invariant_presigned (h : Invariant u s) {i : Nat} {resigned : Bool}
    (hi : s.tasks[i]? = some (.running (.presigning resigned)))
    (answer : Except UploadError Unit) :
    Invariant u ((s.sends (.presign i)).setTask i (.running (.afterPresign resigned answer))) := by
  refine invariant_task _ h hi rfl ?_ ?_
  · intro x hx
    rw [List.mem_singleton.mp hx]
    rfl
  · intro _ etag heq
    cases answer with
    | error e => cases heq
    | ok _ => cases heq

theorem invariant_next (h : Invariant u s) {event : Event} {t : State}
    (hstep : next u s event = some t) : Invariant u t := by
  cases event with
  | created answer =>
    simp only [next] at hstep
    split at hstep
    · next e hphase =>
      obtain rfl := Option.some.inj hstep
      obtain ⟨hlog, htasks⟩ := h.fresh hphase
      refine invariant_call h rfl (fun parts hsent => by cases hsent) ?_ ?_
      · intro _ task hmem
        rw [htasks] at hmem
        cases hmem
      · intro id hmem
        rw [hlog] at hmem
        cases List.mem_singleton.mp hmem
    · next imageId hphase =>
      obtain rfl := Option.some.inj hstep
      exact invariant_begin h hphase imageId
    · cases hstep
  | initiated answer =>
    simp only [next] at hstep
    split at hstep
    · next imageId e hphase =>
      obtain rfl := Option.some.inj hstep
      have howned := owned_of_created hphase h fun id hid => hid
      have hopen := (h.initiating imageId hphase).2
      refine invariant_call h rfl (fun parts hsent => by cases hsent) ?_ ?_
      · rintro (⟨id, hcompleting⟩ | hclosed)
        · cases hcompleting
        · refine absurd ?_ hopen
          rcases hclosed with ⟨parts, hmem⟩ | hmem
          · rcases List.mem_append.mp hmem with hmem | hmem
            · exact Or.inl ⟨parts, hmem⟩
            · cases List.mem_singleton.mp hmem
          · rcases List.mem_append.mp hmem with hmem | hmem
            · exact Or.inr hmem
            · cases List.mem_singleton.mp hmem
      · exact fun id hmem => ⟨e, by
          rw [created_sends .initiateMultipart (fun id hsent => by cases hsent) howned id
            hmem]⟩
    · next imageId hphase =>
      obtain rfl := Option.some.inj hstep
      exact invariant_spawn h hphase
    · cases hstep
  | acquired i =>
    simp only [next] at hstep
    split at hstep
    · next hi =>
      split_ifs at hstep
      obtain rfl := Option.some.inj hstep
      exact invariant_quiet h hi rfl fun etag heq => by cases heq
    · cases hstep
  | presigned i answer =>
    simp only [next] at hstep
    split at hstep
    · next resigned hi =>
      obtain rfl := Option.some.inj hstep
      exact invariant_presigned h hi answer
    · cases hstep
  | put i elapsed answer =>
    simp only [next] at hstep
    split at hstep
    · next resigned attempt hi => exact invariant_put h hi hstep
    · cases hstep
  | crashed i reason =>
    simp only [next] at hstep
    split at hstep
    · cases hstep
    · cases hstep
    · next transfer _ hi _ =>
      obtain rfl := Option.some.inj hstep
      exact invariant_quiet h hi rfl fun etag heq => by cases heq
    · cases hstep
  | joins i =>
    simp only [next] at hstep
    split at hstep
    · next result hi => exact invariant_joinTask h hi hstep
    · cases hstep
  | finalized answer =>
    simp only [next] at hstep
    split at hstep
    · next imageId hphase =>
      split_ifs at hstep with hall
      obtain rfl := Option.some.inj hstep
      exact invariant_finalize h hphase (List.all_eq_true.mp hall) answer
    · cases hstep
  | completed answer =>
    simp only [next] at hstep
    split at hstep
    · next imageId hphase =>
      obtain rfl := Option.some.inj hstep
      exact invariant_complete h hphase answer
    · cases hstep

theorem invariant_of_reachable (h : Reachable u s) : Invariant u s :=
  Runs.invariant_of_step (Invariant u) (fun _ _ hinv hstep => by
    obtain ⟨event, hnext⟩ := hstep
    exact invariant_next hinv hnext) h (invariant_init u)

end Steps

/-- The i-th of the parts is the ETag a PUT of the i-th range of the archive was answered with. -/
structure Reassembles (u : Upload) (log : List Sent) (parts : List String) : Prop where
  count : parts.length = u.parts
  stored : ∀ i etag, parts[i]? = some etag → Stored u log i etag
  covers : Covers u

def Task.failed : Task → Prop
  | .running (.done (.error _)) => True
  | _ => False

structure Safe (u : Upload) (s : State) : Prop where
  reassembles : ∀ parts, .finalizeMultipart parts ∈ s.log → Reassembles u s.log parts
  computed : s.phase ≠ .overflowed ∧ ∀ i < u.parts, ∃ range, u.range? i = some range ∧
    u.uploadBody range = partBytes u i
  stopped : ∀ task ∈ s.tasks, task.failed → ¬ LogClosed s.log
  orphaned : ∀ imageId, .createImage (.ok imageId) ∈ s.log → ∀ error,
    s.phase = .returned (.error error) → ∃ source, error = u.orphan imageId source

/-- Every interleaving of an upload is safe. -/
theorem upload_safe {u : Upload} {s : State} (h : Reachable u s) : Safe u s := by
  have hinv := invariant_of_reachable h
  refine ⟨?_, ⟨hinv.computed, fun i hi => range?_body hi⟩, ?_, ?_⟩
  · intro parts hmem
    obtain ⟨hmany, hlength, hstored⟩ := hinv.finalized parts hmem
    exact ⟨hlength, hstored, covers hmany⟩
  · intro task hmem hfailed hclosed
    have hjoined := hinv.settled (Or.inr hclosed) task hmem
    cases task with
    | joined => exact hfailed
    | queued => cases hjoined
    | running transfer => cases hjoined
  · intro imageId hmem error hphase
    have howned := hinv.created imageId hmem
    rw [hphase] at howned
    exact howned

section Concrete

def threeBytes : Upload :=
  { imageName := "server", archive := [1, 2, 3], chunkBytes := 2, partConcurrency := 4
    archive_lt := by decide, chunk_pos := by decide }

/-- The second part is answered first; the first one's URL expires once. -/
def threeBytesEvents : List Event :=
  [.created (.ok "img-1"), .initiated (.ok ()), .acquired 1, .acquired 0, .presigned 1 (.ok ()),
    .put 1 0 (.answered 503 none none), .put 1 700 (.answered 200 (some "etag-2") none),
    .presigned 0 (.ok ()), .joins 1, .put 0 0 (.answered 403 none none), .presigned 0 (.ok ()),
    .put 0 0 (.answered 200 (some "etag-1") none), .joins 0, .finalized (.ok ()),
    .completed (.ok ())]

def runEvents (u : Upload) : List Event → State → Option State
  | [], s => some s
  | event :: rest, s => (next u s event).bind (runEvents u rest)

theorem reaches_runEvents {u : Upload} {events : List Event} {s t : State}
    (h : runEvents u events s = some t) : Runs.Reaches (Step u) s t := by
  induction events generalizing s with
  | nil =>
    obtain rfl := Option.some.inj h
    exact .refl s
  | cons event rest ih =>
    obtain ⟨middle, hnext, hrest⟩ := Option.bind_eq_some_iff.mp h
    exact Relation.ReflTransGen.head ⟨event, hnext⟩ (ih hrest)

def threeBytesDone : State :=
  { phase := .returned (.ok "img-1")
    tasks := [.joined, .joined]
    etags := [some "etag-1", some "etag-2"]
    log := [.createImage (.ok "img-1"), .initiateMultipart, .presign 1,
      .put 1 [3] (.answered 503 none none), .put 1 [3] (.answered 200 (some "etag-2") none),
      .presign 0, .put 0 [1, 2] (.answered 403 none none), .presign 0,
      .put 0 [1, 2] (.answered 200 (some "etag-1") none),
      .finalizeMultipart ["etag-1", "etag-2"], .complete] }

theorem threeBytes_runs : runEvents threeBytes threeBytesEvents .init = some threeBytesDone := rfl

theorem upload_safe_threeBytes : Safe threeBytes threeBytesDone :=
  upload_safe (reaches_runEvents threeBytes_runs)

end Concrete

end ImageUpload
