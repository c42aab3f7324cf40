import EveBox.Pcap.Outcome

/-!
# The blocking fetch of an agent job

Reference: `ChannelWriter` and the `spawn_blocking` closure of `run_job`, of `src/agent/channel.rs`.

The fetch writes into a bounded channel. What becomes of each attempt to hand over a chunk is decided by
the upload, so it is part of the writer's state: `sends` lists how the attempts to come end. A
`Script` is what the upload sees of a fetch: the chunks it hands over, and how it ends. `Script.ofFetch`
shows that every fetch gives one.
-/

namespace EveBox.Agent

open Rust Pcap

/-- `CHUNK_SIZE`. -/
def chunkSize : ℕ := 64 * 1024

/-- `UPLOAD_CHANNEL_CAPACITY`. -/
def uploadChannelCapacity : ℕ := 8

/-- How the attempts to send one chunk end. -/
inductive SendOutcome
  | sent
  | closed
  /-- The channel is full and the fetch is cancelled. -/
  | interrupted
  | timedOut
deriving DecidableEq, Repr

/-- `ChannelWriter`. `sent` are the chunks handed over, `interrupted` says that one was lost because of a
cancellation; both are ghosts. -/
structure ChannelWriter where
  buffer : Bytes
  firstSent : Bool
  sends : List SendOutcome
  sent : List Bytes
  interrupted : Bool
  room : buffer.length < chunkSize
  nonempty : ∀ chunk ∈ sent, chunk ≠ []

namespace ChannelWriter

/-- The writer of a job. -/
def new (sends : List SendOutcome) : ChannelWriter :=
  { buffer := []
    firstSent := false
    sends
    sent := []
    interrupted := false
    room := by decide
    nonempty := no_chunks }

/-- The loop of `push`, for a chunk taken out of the buffer. A run makes finitely many attempts; when
`sends` is used up the channel is closed. -/
def handOver (w : ChannelWriter) (chunk : Bytes) (hchunk : chunk ≠ []) :
    Except IoError Unit × ChannelWriter :=
  let w := { w with buffer := [], room := by decide }
  match w.sends with
  | .sent :: sends =>
      (.ok (), { w with
        firstSent := true
        sends
        sent := w.sent ++ [chunk]
        nonempty := by
          intro c hc
          rcases List.mem_append.mp hc with hc | hc
          · exact w.nonempty c hc
          · exact List.mem_singleton.mp hc ▸ hchunk })
  | .interrupted :: sends =>
      (.error ⟨.interrupted, "PCAP request cancelled"⟩, { w with sends, interrupted := true })
  | .timedOut :: sends => (.error ⟨.timedOut, "PCAP upload stalled"⟩, { w with sends })
  | .closed :: sends => (.error ⟨.brokenPipe, "PCAP upload receiver closed"⟩, { w with sends })
  | [] => (.error ⟨.brokenPipe, "PCAP upload receiver closed"⟩, w)

/-- `ChannelWriter::push`. -/
def push (w : ChannelWriter) : Except IoError Unit × ChannelWriter :=
  if h : w.buffer = [] then (.ok (), w) else w.handOver w.buffer h

/-- `ChannelWriter::write`: the first write is forwarded at once, later ones in full chunks. -/
def write (w : ChannelWriter) (data : Bytes) : Except IoError Unit × ChannelWriter :=
  if hdata : data = [] then (.ok (), w)
  else
    let available := chunkSize - w.buffer.length
    let buffer := w.buffer ++ data.take available
    let remaining := data.drop available
    have hpos : 0 < available := Nat.sub_pos_of_lt w.room
    have hbuffer : buffer ≠ [] := by
      refine List.append_ne_nil_of_right_ne_nil _ ?_
      rw [ne_eq, List.take_eq_nil_iff]
      rintro (hzero | hnil)
      · exact absurd hzero (Nat.ne_of_gt hpos)
      · exact hdata hnil
    have hlt : remaining.length < data.length := by
      have := List.length_pos_iff.mpr hdata
      rw [List.length_drop]
      omega
    if hfull : !w.firstSent ∨ buffer.length = chunkSize then
      match w.handOver buffer hbuffer with
      | (.error err, w) => (.error err, w)
      | (.ok (), w) => w.write remaining
    else
      have hroom : buffer.length < chunkSize := by
        have hle : buffer.length ≤ chunkSize := by
          rw [List.length_append, List.length_take]
          omega
        exact Nat.lt_of_le_of_ne hle fun heq => hfull (Or.inr heq)
      { w with buffer, room := hroom }.write remaining
termination_by data.length
decreasing_by all_goals exact hlt

/-- An attempt uses up the outcomes ahead. -/
theorem handOver_sends {w w' : ChannelWriter} {chunk : Bytes} {hchunk : chunk ≠ []}
    {r : Except IoError Unit} (h : w.handOver chunk hchunk = (r, w')) :
    w'.sends.length ≤ w.sends.length ∧
      ∀ err, r = .error err → err.kind = .interrupted → w'.sends.length < w.sends.length := by
  unfold handOver at h
  dsimp only at h
  split at h
  all_goals
    rename_i hsends
    cases h
    rw [hsends]
  · exact ⟨Nat.le_succ _, nofun⟩
  · exact ⟨Nat.le_succ _, fun _ _ _ => Nat.lt_succ_self _⟩
  · exact ⟨Nat.le_succ _, fun _ _ _ => Nat.lt_succ_self _⟩
  · exact ⟨Nat.le_succ _, fun _ _ _ => Nat.lt_succ_self _⟩
  · refine ⟨Nat.le_of_eq (by simp [*]), ?_⟩
    rintro err ⟨⟩ hkind
    cases hkind

theorem write_sends (w : ChannelWriter) (data : Bytes) {w' : ChannelWriter}
    {r : Except IoError Unit} (h : w.write data = (r, w')) :
    w'.sends.length ≤ w.sends.length ∧
      ∀ err, r = .error err → err.kind = .interrupted → w'.sends.length < w.sends.length := by
  rw [write] at h
  split at h
  · cases h
    exact ⟨le_refl _, nofun⟩
  · rename_i hdata
    dsimp only at h
    have hpos := w.room
    have hlt : (data.drop (chunkSize - w.buffer.length)).length < data.length := by
      have := List.length_pos_iff.mpr hdata
      rw [List.length_drop]
      omega
    split at h
    · split at h
      · rename_i err w₁ hhand
        cases h
        exact handOver_sends hhand
      · rename_i w₁ hhand
        have hle := (handOver_sends hhand).1
        obtain ⟨hle', herr⟩ := write_sends _ _ h
        exact ⟨le_trans hle' hle, fun err hr hkind => lt_of_lt_of_le (herr err hr hkind) hle⟩
    · obtain ⟨hle, herr⟩ := write_sends _ _ h
      exact ⟨hle, herr⟩
termination_by data.length

/-- `write_all`, which begins again when a write is interrupted. -/
def writeAll (w : ChannelWriter) (data : Bytes) : Except IoError Unit × ChannelWriter :=
  match h : w.write data with
  | (.ok (), w') => (.ok (), w')
  | (.error err, w') =>
      if hkind : err.kind = .interrupted then
        have := (write_sends _ _ h).2 err rfl hkind
        w'.writeAll data
      else (.error err, w')
termination_by w.sends.length

instance : Write ChannelWriter where
  writeAll data w := w.writeAll data
  flush w := w.push

/-- What has been written and not lost: the chunks handed over, and the buffer. -/
def contents (w : ChannelWriter) : Bytes := w.sent.flatten ++ w.buffer

theorem handOver_ok {w w' : ChannelWriter} {chunk : Bytes} {hchunk : chunk ≠ []}
    {r : Except IoError Unit} (h : w.handOver chunk hchunk = (r, w')) :
    (w'.interrupted = false → w.interrupted = false) ∧
      (r = .ok () → w'.contents = w.sent.flatten ++ chunk) ∧
      (∀ err, r = .error err → err.kind = .interrupted → w'.interrupted = true) := by
  unfold handOver at h
  dsimp only at h
  split at h
  all_goals cases h
  · exact ⟨id, fun _ => by simp [contents], nofun⟩
  · exact ⟨nofun, nofun, fun _ _ _ => rfl⟩
  · refine ⟨id, nofun, ?_⟩
    rintro err ⟨⟩ hkind
    cases hkind
  · refine ⟨id, nofun, ?_⟩
    rintro err ⟨⟩ hkind
    cases hkind
  · refine ⟨id, nofun, ?_⟩
    rintro err ⟨⟩ hkind
    cases hkind

theorem write_ok (w : ChannelWriter) (data : Bytes) {w' : ChannelWriter}
    {r : Except IoError Unit} (h : w.write data = (r, w')) :
    (w'.interrupted = false → w.interrupted = false) ∧
      (r = .ok () → w'.contents = w.contents ++ data) ∧
      (∀ err, r = .error err → err.kind = .interrupted → w'.interrupted = true) := by
  rw [write] at h
  split at h
  · rename_i hdata
    cases h
    exact ⟨id, fun _ => by rw [hdata, List.append_nil], nofun⟩
  · rename_i hdata
    dsimp only at h
    have hpos := w.room
    have hlt : (data.drop (chunkSize - w.buffer.length)).length < data.length := by
      have := List.length_pos_iff.mpr hdata
      rw [List.length_drop]
      omega
    have hsplit := List.take_append_drop (chunkSize - w.buffer.length) data
    split at h
    · split at h
      · rename_i err w₁ hhand
        cases h
        obtain ⟨hmono, -, hkind⟩ := handOver_ok hhand
        exact ⟨hmono, nofun, hkind⟩
      · rename_i w₁ hhand
        obtain ⟨hmono, hcontents, -⟩ := handOver_ok hhand
        obtain ⟨hmono', hcontents', hkind⟩ := write_ok _ _ h
        refine ⟨fun hw => hmono (hmono' hw), ?_, hkind⟩
        intro hr
        rw [hcontents' hr, hcontents rfl, contents, ← List.append_assoc, List.append_assoc, hsplit]
    · obtain ⟨hmono', hcontents', hkind⟩ := write_ok _ _ h
      refine ⟨hmono', ?_, hkind⟩
      intro hr
      rw [hcontents' hr, contents, contents, ← List.append_assoc, List.append_assoc, hsplit]
termination_by data.length

theorem writeAll_ok {w w' : ChannelWriter} {data : Bytes} (h : w.writeAll data = (.ok (), w'))
    (hintact : w'.interrupted = false) :
    w.interrupted = false ∧ w'.contents = w.contents ++ data := by
  rw [writeAll] at h
  split at h
  · rename_i w₁ hwrite
    cases h
    obtain ⟨hmono, hcontents, -⟩ := write_ok _ _ hwrite
    exact ⟨hmono hintact, hcontents rfl⟩
  · rename_i err w₁ hwrite
    split at h
    · rename_i hkind
      have hlt := (write_sends _ _ hwrite).2 err rfl hkind
      -- an interrupted write leaves its mark for good
      have hmark := (write_ok _ _ hwrite).2.2 err rfl hkind
      have hintact₁ := (writeAll_ok h hintact).1
      rw [hmark] at hintact₁
      cases hintact₁
    · cases h
termination_by w.sends.length

theorem push_ok {w w' : ChannelWriter} {r : Except IoError Unit} (h : w.push = (r, w')) :
    (w'.interrupted = false → w.interrupted = false) ∧ (r = .ok () → w'.contents = w.contents) := by
  unfold push at h
  split at h
  · cases h
    exact ⟨id, fun _ => rfl⟩
  · obtain ⟨hmono, hcontents, -⟩ := handOver_ok h
    exact ⟨hmono, hcontents⟩

/-- After a push that succeeds, the buffer is empty. -/
theorem push_buffer {w w' : ChannelWriter} (h : w.push = (.ok (), w')) : w'.buffer = [] := by
  unfold push at h
  split at h
  · rename_i hbuffer
    cases h
    exact hbuffer
  · unfold handOver at h
    dsimp only at h
    split at h <;> cases h
    rfl

/-- The channel writer as an output that may fail. -/
def output : Output ChannelWriter where
  contents := contents
  intact w := w.interrupted = false
  writeAll _ _ _ h hintact := writeAll_ok h hintact
  flush _ _ h hintact := ⟨(push_ok h).1 hintact, (push_ok h).2 rfl⟩

theorem sent_eq_nil {w : ChannelWriter} (h : w.contents = []) : w.sent = [] := by
  obtain ⟨hsent, -⟩ := List.append_eq_nil_iff.mp h
  cases hcase : w.sent with
  | nil => rfl
  | cons chunk sent =>
      have hmem : chunk ∈ w.sent := hcase ▸ List.mem_cons_self
      exact absurd (List.flatten_eq_nil_iff.mp hsent chunk hmem) (w.nonempty chunk hmem)

end ChannelWriter

/-! ## What the upload sees of a fetch -/

/-- How a blocking fetch task ends. -/
inductive FetchJoin
  | ok (stats : FetchStats)
  | error (err : FetchError)
  | panicked (message : String)
deriving DecidableEq, Repr

/-- What the upload sees of a fetch: the chunks handed over, in order, and how the task ends. A fetch that
no cancellation has touched counts the bytes it has handed over, and says why there are none. -/
structure Script where
  chunks : List Bytes
  result : FetchJoin
  /-- The fetch has seen its token cancelled. -/
  cancelled : Bool
  nonempty : ∀ chunk ∈ chunks, chunk ≠ []
  bytes : ∀ stats, result = .ok stats → cancelled = false → stats.bytes = totalLength chunks
  truncated : ∀ stats, result = .ok stats → cancelled = false → chunks = [] → stats.truncated = true
  noMatch : ∀ stats, result = .error (.noMatch stats) → cancelled = false → chunks = []
  noCandidateFiles : result = .error .noCandidateFiles → cancelled = false → chunks = []

section

variable {Path : Type*} [ToString Path]

/-- The end of the closure: a result is flushed. -/
def closureEnd (r : Except Fault FetchStats) (w : ChannelWriter) : FetchJoin × ChannelWriter :=
  match r with
  | .ok stats =>
      match w.push with
      | (.ok (), w) => (.ok stats, w)
      | (.error err, w) => (.error (.io err), w)
  | .error (.error err) => (.error err, w)
  | .error (.panic message) => (.panicked message, w)

/-- The closure of `run_job`: how it ends, the writer, and why the fetch has stopped early. -/
def channelFetch (env : Env) (lib : Libpcap Path) (candidates : Except IoError (List (List Path)))
    (request : PcapRequest) (sends : List SendOutcome) : FetchJoin × ChannelWriter × Option Stop :=
  let (r, st) := fetch env lib candidates request (ChannelWriter.new sends)
  let (join, w) := closureEnd r st.shared.writer.out
  (join, w, st.shared.ctl.stopped)

/-- The end of the closure, if there is a result. -/
theorem closureEnd_ok {r : Except Fault FetchStats} {w : ChannelWriter} {stats : FetchStats}
    (h : (closureEnd r w).1 = .ok stats) : r = .ok stats ∧ w.push = (.ok (), (closureEnd r w).2) := by
  unfold closureEnd at h ⊢
  split at h
  · split at h
    · rename_i hpush
      obtain rfl := FetchJoin.ok.inj h
      exact ⟨rfl, hpush⟩
    · cases h
  · cases h
  · cases h

/-- The end of the closure, on an error that is none of the output's. -/
theorem closureEnd_error {r : Except Fault FetchStats} {w : ChannelWriter} {err : FetchError}
    (h : (closureEnd r w).1 = .error err) (hio : ∀ e, err ≠ .io e) :
    r = .error (.error err) ∧ (closureEnd r w).2 = w := by
  unfold closureEnd at h ⊢
  split at h
  · split at h
    · cases h
    · obtain rfl := FetchJoin.error.inj h
      exact absurd rfl (hio _)
  · obtain rfl := FetchJoin.error.inj h
    exact ⟨rfl, rfl⟩
  · cases h

variable (env : Env) (lib : Libpcap Path) (candidates : Except IoError (List (List Path)))
  (request : PcapRequest) (sends : List SendOutcome)

/-- The fetch has seen its token cancelled. -/
def fetchCancelled : Bool :=
  let (_, w, stopped) := channelFetch env lib candidates request sends
  stopped = some .cancelled || w.interrupted

theorem fetchCancelled_eq_false (h : fetchCancelled env lib candidates request sends = false) :
    (channelFetch env lib candidates request sends).2.2 ≠ some .cancelled ∧
      (channelFetch env lib candidates request sends).2.1.interrupted = false := by
  simpa [fetchCancelled] using h

/-- What the fetch reports of a result, it has handed over. -/
theorem channelFetch_ok {stats : FetchStats}
    (h : (channelFetch env lib candidates request sends).1 = .ok stats)
    (hcancelled : fetchCancelled env lib candidates request sends = false) :
    stats.bytes = totalLength (channelFetch env lib candidates request sends).2.1.sent ∧
      (stats.bytes = 0 → stats.truncated = true) := by
  obtain ⟨hstopped, hintact⟩ := fetchCancelled_eq_false _ _ _ _ _ hcancelled
  have houtcome : Outcome _ _ (fetch env lib candidates request (ChannelWriter.new sends)).1 _ :=
    fetch_outcome ChannelWriter.output candidates request (ChannelWriter.new sends)
  unfold channelFetch at h hstopped hintact ⊢
  obtain ⟨hr, hpush⟩ := closureEnd_ok h
  rw [hr] at houtcome
  cases houtcome with
  | ok _ _ hwrote hempty =>
      obtain ⟨hmono, hcontents⟩ := ChannelWriter.push_ok hpush
      obtain ⟨bytes, hbytes, hlength⟩ := hwrote (hmono hintact)
      refine ⟨?_, fun hzero => (hempty hzero).resolve_right hstopped⟩
      -- the push has left nothing in the buffer
      have hsent := hcontents rfl
      rw [ChannelWriter.contents, ChannelWriter.push_buffer hpush, List.append_nil] at hsent
      rw [totalLength_eq_flatten, hsent, hlength]
      exact congrArg List.length hbytes.symm

/-- An error that stands for an empty result comes without output. -/
theorem channelFetch_empty {err : FetchError} (hio : ∀ e, err ≠ .io e)
    (h : (channelFetch env lib candidates request sends).1 = .error err)
    (hcancelled : fetchCancelled env lib candidates request sends = false) :
    (channelFetch env lib candidates request sends).2.1.sent = [] := by
  obtain ⟨-, hintact⟩ := fetchCancelled_eq_false _ _ _ _ _ hcancelled
  have houtcome : Outcome _ _ (fetch env lib candidates request (ChannelWriter.new sends)).1 _ :=
    fetch_outcome ChannelWriter.output candidates request (ChannelWriter.new sends)
  unfold channelFetch at h hintact ⊢
  obtain ⟨hr, hw⟩ := closureEnd_error h hio
  rw [hr] at houtcome
  dsimp only at hintact ⊢
  rw [hw] at hintact ⊢
  cases houtcome with
  | empty _ _ hwrote => exact ChannelWriter.sent_eq_nil (hwrote hintact)
  | io e => exact absurd rfl (hio e)

/-- Every fetch is a script. -/
def Script.ofFetch : Script where
  chunks := (channelFetch env lib candidates request sends).2.1.sent
  result := (channelFetch env lib candidates request sends).1
  cancelled := fetchCancelled env lib candidates request sends
  nonempty := (channelFetch env lib candidates request sends).2.1.nonempty
  bytes _ h hcancelled := (channelFetch_ok _ _ _ _ _ h hcancelled).1
  truncated stats h hcancelled hempty := by
    obtain ⟨hbytes, htruncated⟩ := channelFetch_ok _ _ _ _ _ h hcancelled
    rw [hempty] at hbytes
    exact htruncated hbytes
  noMatch _ h hcancelled := channelFetch_empty _ _ _ _ _ (fun _ he => by cases he) h hcancelled
  noCandidateFiles h hcancelled := channelFetch_empty _ _ _ _ _ (fun _ he => by cases he) h hcancelled

end

end EveBox.Agent
