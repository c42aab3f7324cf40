import EveBox.Agent.ChannelWriter
import EveBox.Pcap.Outcome

/-!
# The output of a local capture

Reference: `ChannelWriter` and `run_extraction` of `src/server/api/pcap.rs`.

As in `EveBox.Agent.ChannelWriter`, how the attempts to send end is part of the writer's state, and a
`Script` is what the response sees of an extraction. A write or a flush that fails is never made up for,
so a result comes only where every byte written has been sent.
-/

namespace EveBox.Server.Local

open Rust Pcap Agent

/-- How an attempt to send one frame ends. -/
inductive SendOutcome
  | sent
  | closed
  /-- The channel is full and the request is cancelled. -/
  | cancelled
  | stalled
deriving DecidableEq, Repr

/-- The error of an attempt that fails. -/
def SendOutcome.error : SendOutcome → IoError
  | .sent | .closed => ⟨.brokenPipe, "pcap receiver dropped"⟩
  | .cancelled => ⟨.brokenPipe, "pcap request cancelled"⟩
  | .stalled => ⟨.timedOut, "pcap client stalled"⟩

/-- `ChannelWriter`. `sent` are the chunks sent, and `written` is everything it has been given; both are
ghosts. -/
structure ChannelWriter where
  buf : Bytes
  sends : List SendOutcome
  sent : List Bytes
  written : Bytes
  nonempty : ∀ chunk ∈ sent, chunk ≠ []
  kept : (sent.flatten ++ buf).Sublist written

namespace ChannelWriter

/-- The writer of a request. -/
def new (sends : List SendOutcome) : ChannelWriter :=
  { buf := []
    sends
    sent := []
    written := []
    nonempty := no_chunks
    kept := List.Sublist.refl _ }

/-- The chunk in the buffer is sent, or lost. When `sends` is used up the channel is closed. -/
def push (w : ChannelWriter) : Except IoError Unit × ChannelWriter :=
  if hbuf : w.buf = [] then (.ok (), w)
  else
    have hlost : (w.sent.flatten ++ []).Sublist w.written :=
      ((List.Sublist.refl _).append (List.nil_sublist w.buf)).trans w.kept
    match w.sends with
    | .sent :: sends =>
        (.ok (), { w with
          buf := []
          sends
          sent := w.sent ++ [w.buf]
          nonempty := by
            intro chunk hchunk
            rcases List.mem_append.mp hchunk with hchunk | hchunk
            · exact w.nonempty chunk hchunk
            · exact List.mem_singleton.mp hchunk ▸ hbuf
          kept := by
            rw [List.flatten_append, List.flatten_singleton, List.append_nil]
            exact w.kept })
    | outcome :: sends => (.error outcome.error, { w with buf := [], sends, kept := hlost })
    | [] => (.error SendOutcome.closed.error, { w with buf := [], kept := hlost })

/-- `ChannelWriter::write`, which takes everything it is given. -/
def write (w : ChannelWriter) (data : Bytes) : Except IoError Unit × ChannelWriter :=
  let w := { w with
    buf := w.buf ++ data
    written := w.written ++ data
    kept := by
      rw [← List.append_assoc]
      exact w.kept.append (List.Sublist.refl data) }
  if chunkSize ≤ w.buf.length then w.push else (.ok (), w)

/-- `write_all`, which calls `write` unless there is nothing to write. -/
def writeAll (w : ChannelWriter) (data : Bytes) : Except IoError Unit × ChannelWriter :=
  if data = [] then (.ok (), w) else w.write data

instance : Write ChannelWriter where
  writeAll data w := w.writeAll data
  flush w := w.push

/-- What has been sent, and what is in the buffer. -/
def contents (w : ChannelWriter) : Bytes := w.sent.flatten ++ w.buf

theorem push_ok {w w' : ChannelWriter} (h : w.push = (.ok (), w')) :
    w'.contents = w.contents ∧ w'.written = w.written ∧ w'.buf = [] := by
  unfold push at h
  split at h
  · rename_i hbuf
    cases h
    exact ⟨rfl, rfl, hbuf⟩
  · dsimp only at h
    split at h
    · cases h
      refine ⟨?_, rfl, rfl⟩
      rw [contents, contents, List.flatten_append, List.flatten_singleton, List.append_nil]
    · cases h
    · cases h

theorem writeAll_ok {w w' : ChannelWriter} {data : Bytes} (h : w.writeAll data = (.ok (), w')) :
    w'.contents = w.contents ++ data ∧ w'.written = w.written ++ data := by
  unfold writeAll at h
  split at h
  · rename_i hdata
    cases h
    rw [hdata, List.append_nil, List.append_nil]
    exact ⟨rfl, rfl⟩
  · unfold write at h
    dsimp only at h
    split at h
    · obtain ⟨hcontents, hwritten, -⟩ := push_ok h
      exact ⟨hcontents.trans (List.append_assoc _ _ _).symm, hwritten⟩
    · cases h
      exact ⟨(List.append_assoc _ _ _).symm, rfl⟩

/-- The writer as an output: what it has kept. -/
def keptOutput : Output ChannelWriter where
  contents := contents
  intact _ := True
  writeAll _ _ _ h _ := ⟨trivial, (writeAll_ok h).1⟩
  flush _ _ h _ := ⟨trivial, (push_ok h).1⟩

/-- The writer as an output: what it has been given. -/
def givenOutput : Output ChannelWriter where
  contents := written
  intact _ := True
  writeAll _ _ _ h _ := ⟨trivial, (writeAll_ok h).2⟩
  flush _ _ h _ := ⟨trivial, (push_ok h).2.1⟩

/-- A writer that has kept as many bytes as it has been given has kept them all. -/
theorem contents_eq {w : ChannelWriter} (h : w.contents.length = w.written.length) :
    w.contents = w.written := w.kept.eq_of_length h

end ChannelWriter

/-- What the response sees of an extraction: the chunks sent, in order, and how it ends. `written` is
everything the extraction has written. -/
structure Script where
  chunks : List Bytes
  written : Bytes
  result : FetchJoin
  /-- The fetch has stopped on its cancelled token. -/
  cancelled : Bool
  nonempty : ∀ chunk ∈ chunks, chunk ≠ []
  complete : ∀ stats, result = .ok stats → chunks.flatten = written ∧ stats.bytes = written.length
  noMatch : ∀ stats, result = .error (.noMatch stats) → chunks = []
  noCandidateFiles : result = .error .noCandidateFiles → chunks = []

section

variable {Path : Type*} [ToString Path]

/-- The flush at the end of `run_extraction`. -/
def extractionEnd (r : Except Fault FetchStats) (w : ChannelWriter) : FetchJoin × ChannelWriter :=
  match r with
  | .ok stats =>
      match w.push with
      | (.ok (), w) => (.ok stats, w)
      | (.error err, w) => (.error (.io err), w)
  | .error (.error err) => (.error err, w)
  | .error (.panic message) => (.panicked message, w)

/-- `run_extraction`: how it ends, the writer, and why the fetch has stopped early. -/
def runExtraction (env : Env) (lib : Libpcap Path) (candidates : Except IoError (List (List Path)))
    (request : PcapRequest) (sends : List SendOutcome) : FetchJoin × ChannelWriter × Option Stop :=
  let (r, st) := fetch env lib candidates request (ChannelWriter.new sends)
  let (join, w) := extractionEnd r st.shared.writer.out
  (join, w, st.shared.ctl.stopped)

theorem extractionEnd_ok {r : Except Fault FetchStats} {w : ChannelWriter} {stats : FetchStats}
    (h : (extractionEnd r w).1 = .ok stats) :
    r = .ok stats ∧ w.push = (.ok (), (extractionEnd r w).2) := by
  unfold extractionEnd at h ⊢
  split at h
  · split at h
    · rename_i hpush
      obtain rfl := FetchJoin.ok.inj h
      exact ⟨rfl, hpush⟩
    · cases h
  · cases h
  · cases h

theorem extractionEnd_error {r : Except Fault FetchStats} {w : ChannelWriter} {err : FetchError}
    (h : (extractionEnd r w).1 = .error err) (hio : ∀ e, err ≠ .io e) :
    r = .error (.error err) ∧ (extractionEnd r w).2 = w := by
  unfold extractionEnd at h ⊢
  split at h
  · split at h
    · cases h
    · obtain rfl := FetchJoin.error.inj h
      exact absurd rfl (hio _)
  · obtain rfl := FetchJoin.error.inj h
    exact ⟨rfl, rfl⟩
  · cases h

variable (env : Env) (lib : Libpcap Path) (candidates : Except IoError (List (List Path)))
  (request : PcapRequest) (sends : List SendOutcome)

/-- Where there is a result, everything written has been sent. -/
theorem runExtraction_ok {stats : FetchStats}
    (h : (runExtraction env lib candidates request sends).1 = .ok stats) :
    (runExtraction env lib candidates request sends).2.1.sent.flatten =
        (runExtraction env lib candidates request sends).2.1.written ∧
      stats.bytes = (runExtraction env lib candidates request sends).2.1.written.length := by
  have hkept : Outcome _ _ (fetch env lib candidates request (ChannelWriter.new sends)).1 _ :=
    fetch_outcome ChannelWriter.keptOutput candidates request (ChannelWriter.new sends)
  have hgiven : Outcome _ _ (fetch env lib candidates request (ChannelWriter.new sends)).1 _ :=
    fetch_outcome ChannelWriter.givenOutput candidates request (ChannelWriter.new sends)
  unfold runExtraction at h ⊢
  obtain ⟨hr, hpush⟩ := extractionEnd_ok h
  rw [hr] at hkept hgiven
  obtain ⟨hcontents, hwritten, hbuf⟩ := ChannelWriter.push_ok hpush
  cases hkept with
  | ok _ _ hkept =>
      cases hgiven with
      | ok _ _ hgiven =>
          obtain ⟨kept, hkept, hkeptLength⟩ := hkept trivial
          obtain ⟨given, hgiven, hgivenLength⟩ := hgiven trivial
          have hcount := congrArg List.length hkept
          have hcount' := congrArg List.length hgiven
          rw [List.length_append] at hcount hcount'
          have hall : ChannelWriter.contents _ = ChannelWriter.written _ :=
            ChannelWriter.contents_eq (hcount.trans (by rw [← hkeptLength, hgivenLength]; exact hcount'.symm))
          rw [← hcontents, ← hwritten] at hall
          rw [ChannelWriter.contents, hbuf, List.append_nil] at hall
          refine ⟨hall, ?_⟩
          dsimp only
          rw [hwritten, hgivenLength]
          exact (hcount'.trans (Nat.zero_add _)).symm

/-- An error that stands for an empty result comes without output. -/
theorem runExtraction_empty {err : FetchError} (hio : ∀ e, err ≠ .io e)
    (h : (runExtraction env lib candidates request sends).1 = .error err) :
    (runExtraction env lib candidates request sends).2.1.sent = [] := by
  have houtcome : Outcome _ _ (fetch env lib candidates request (ChannelWriter.new sends)).1 _ :=
    fetch_outcome ChannelWriter.keptOutput candidates request (ChannelWriter.new sends)
  unfold runExtraction at h ⊢
  obtain ⟨hr, hw⟩ := extractionEnd_error h hio
  rw [hr] at houtcome
  dsimp only
  rw [hw]
  cases houtcome with
  | empty _ _ hwrote =>
      obtain ⟨hsent, -⟩ := List.append_eq_nil_iff.mp (hwrote trivial)
      rw [← List.length_eq_zero_iff]
      by_contra hne
      obtain ⟨chunk, hchunk⟩ := List.exists_mem_of_length_pos (Nat.pos_of_ne_zero hne)
      exact ChannelWriter.nonempty _ chunk hchunk (List.flatten_eq_nil_iff.mp hsent chunk hchunk)
  | io e => exact absurd rfl (hio e)

/-- Every extraction is a script. -/
def Script.ofExtraction : Script where
  chunks := (runExtraction env lib candidates request sends).2.1.sent
  written := (runExtraction env lib candidates request sends).2.1.written
  result := (runExtraction env lib candidates request sends).1
  cancelled := (runExtraction env lib candidates request sends).2.2 = some .cancelled
  nonempty := (runExtraction env lib candidates request sends).2.1.nonempty
  complete _ h := runExtraction_ok _ _ _ _ _ h
  noMatch _ h := runExtraction_empty _ _ _ _ _ (fun _ he => by cases he) h
  noCandidateFiles h := runExtraction_empty _ _ _ _ _ (fun _ he => by cases he) h

end

end EveBox.Server.Local
