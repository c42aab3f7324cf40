import EveBox.Agent.Upload

/-!
# What comes out of an upload is what was written

* `run_wrote` — what a call does with the writer.
* `lawful_of_exec` — what holds in every state of an upload.
-/

namespace EveBox.Agent

open Rust Transition

/-! ## The writer -/

namespace ChannelWriter

/-- A chunk is handed over while attempts succeed. -/
theorem handOver_sent {w : ChannelWriter} {chunk : Bytes} (hchunk : chunk ≠ []) {n : ℕ}
    (h : w.sends = List.replicate (n + 1) .sent) : ∃ w', w.handOver chunk hchunk = (.ok (), w') ∧
      w'.buffer = [] ∧ w'.firstSent = true ∧ w'.sends = List.replicate n .sent ∧ w'.sent = w.sent ++ [chunk] := by
  unfold handOver
  rw [List.replicate_succ] at h
  dsimp only
  split
  · rename_i sends hsends
    obtain rfl : List.replicate n .sent = sends := (List.cons.inj (h.symm.trans hsends)).2
    exact ⟨_, rfl, rfl, rfl, rfl, rfl⟩
  all_goals
    rename_i hsends
    cases h.symm.trans hsends

/-- What a call that writes some bytes does with the writer. -/
structure Wrote (w : ChannelWriter) (data : Bytes) (w' : ChannelWriter) : Prop where
  contents : w'.contents = w.contents ++ data
  sent : ∃ chunks, w'.sent = w.sent ++ chunks ∧ ∀ chunk ∈ chunks, chunk.length ≤ chunkSize
  mono : w.firstSent = true → w'.firstSent = true
  begun : (w.firstSent = true ↔ w.sent ≠ []) → (w'.firstSent = true ↔ w'.sent ≠ [])
  first : w.firstSent = false → w.buffer = [] → data ≠ [] →
    w'.firstSent = true ∧ ∃ chunks, w'.sent = w.sent ++ data.take chunkSize :: chunks

theorem Wrote.refl (w : ChannelWriter) : Wrote w [] w where
  contents := (List.append_nil _).symm
  sent := ⟨[], (List.append_nil _).symm, nofun⟩
  mono := id
  begun := id
  first _ _ h := absurd rfl h

/-- A chunk is handed over that ends with some bytes of the call. -/
theorem Wrote.of_sent {w w' : ChannelWriter} {data : Bytes} (hle : (w.buffer ++ data).length ≤ chunkSize)
    (hfirst : w'.firstSent = true) (hbuffer : w'.buffer = []) (hsent : w'.sent = w.sent ++ [w.buffer ++ data]) :
    Wrote w data w' where
  contents := by simp [ChannelWriter.contents, hbuffer, hsent]
  sent := ⟨_, hsent, by simpa using hle⟩
  mono _ := hfirst
  begun _ := by simp [hfirst, hsent]
  first _ hnil _ := by
    rw [hnil, List.nil_append] at hle hsent
    exact ⟨hfirst, [], by rw [hsent, List.take_of_length_le hle]⟩

/-- The buffer takes in some bytes, once a chunk has been handed over. -/
theorem Wrote.of_buffer {w w' : ChannelWriter} {data : Bytes} (hfirst : w.firstSent = true)
    (hfirst' : w'.firstSent = true) (hbuffer : w'.buffer = w.buffer ++ data) (hsent : w'.sent = w.sent) :
    Wrote w data w' where
  contents := by simp [ChannelWriter.contents, hbuffer, hsent]
  sent := ⟨[], by rw [hsent, List.append_nil], nofun⟩
  mono _ := hfirst'
  begun h := by rw [hsent, ← h, hfirst, hfirst']
  first h := by rw [hfirst] at h; cases h

/-- The rest of a write, behind a part of it that leaves nothing to be done for the first chunk. -/
theorem Wrote.trans {w w₁ w' : ChannelWriter} {taken rest : Bytes} (h : Wrote w taken w₁) (h' : Wrote w₁ rest w')
    (htaken : taken ≠ []) (htake : w.firstSent = false → w.buffer = [] → taken.take chunkSize = (taken ++ rest).take chunkSize) :
    Wrote w (taken ++ rest) w' where
  contents := by rw [h'.contents, h.contents, List.append_assoc]
  sent := by
    obtain ⟨chunks, hchunks, hle⟩ := h.sent
    obtain ⟨chunks', hchunks', hle'⟩ := h'.sent
    refine ⟨chunks ++ chunks', by rw [hchunks', hchunks, List.append_assoc], fun chunk hmem => ?_⟩
    exact (List.mem_append.mp hmem).elim (hle chunk) (hle' chunk)
  mono hfirst := h'.mono (h.mono hfirst)
  begun hbegun := h'.begun (h.begun hbegun)
  first hfirst hbuffer _ := by
    obtain ⟨hsent, chunks, hchunks⟩ := h.first hfirst hbuffer htaken
    obtain ⟨chunks', hchunks', -⟩ := h'.sent
    refine ⟨h'.mono hsent, chunks ++ chunks', ?_⟩
    rw [hchunks', hchunks, ← htake hfirst hbuffer, List.append_assoc, List.cons_append]

@[simp] theorem write_nil (w : ChannelWriter) : w.write [] = (.ok (), w) := by
  rw [write, dif_pos rfl]

/-- What a pass takes of what is left: at least one byte, for the buffer has room. -/
theorem take_ne_nil (w : ChannelWriter) {data : Bytes} (hdata : data ≠ []) :
    data.take (chunkSize - w.buffer.length) ≠ [] := by
  have hroom := w.room
  rw [ne_eq, List.take_eq_nil_iff]
  rintro (hzero | hnil)
  · omega
  · exact hdata hnil

theorem length_drop_lt (w : ChannelWriter) {data : Bytes} (hdata : data ≠ []) :
    data.length - (chunkSize - w.buffer.length) < data.length := by
  have hroom := w.room
  have hpos := List.length_pos_iff.mpr hdata
  omega

/-- A pass of the loop that hands over a chunk. -/
theorem write_of_full {w : ChannelWriter} {data : Bytes} (hdata : data ≠ []) {n : ℕ}
    (hsends : w.sends = List.replicate (n + 1) .sent)
    (hfull : w.firstSent = false ∨ (w.buffer ++ data.take (chunkSize - w.buffer.length)).length = chunkSize) :
    ∃ w₁ : ChannelWriter, w.write data = w₁.write (data.drop (chunkSize - w.buffer.length)) ∧ w₁.buffer = [] ∧ w₁.firstSent = true ∧
      w₁.sends = List.replicate n .sent ∧ w₁.sent = w.sent ++ [w.buffer ++ data.take (chunkSize - w.buffer.length)] := by
  obtain ⟨w₁, hhand, hw₁⟩ :=
    handOver_sent (List.append_ne_nil_of_right_ne_nil w.buffer (take_ne_nil w hdata)) hsends
  refine ⟨w₁, ?_, hw₁⟩
  rw [write, dif_neg hdata]
  dsimp only
  rw [dif_pos (hfull.imp_left (by simp)), hhand]

/-- A pass of the loop that leaves everything in the buffer. -/
theorem write_of_room {w : ChannelWriter} {data : Bytes} (hdata : data ≠ []) (hfirst : w.firstSent = true)
    (hroom : (w.buffer ++ data.take (chunkSize - w.buffer.length)).length < chunkSize) :
    w.write data = ChannelWriter.write
      { w with buffer := w.buffer ++ data.take (chunkSize - w.buffer.length), room := hroom }
      (data.drop (chunkSize - w.buffer.length)) := by
  rw [write, dif_neg hdata]
  dsimp only
  rw [dif_neg]
  rintro (hfalse | heq)
  · rw [hfirst] at hfalse
    cases hfalse
  · exact hroom.ne heq

/-- A write that the buffer has room for stays in it. -/
theorem write_of_lt {w : ChannelWriter} {data : Bytes} (hdata : data ≠ []) (hfirst : w.firstSent = true)
    (hroom : (w.buffer ++ data).length < chunkSize) : ∃ w', w.write data = (.ok (), w') ∧ w'.sent = w.sent := by
  have hle : data.length ≤ chunkSize - w.buffer.length := by
    rw [List.length_append] at hroom
    omega
  have htake : data.take (chunkSize - w.buffer.length) = data := List.take_of_length_le hle
  rw [write_of_room hdata hfirst (by rwa [htake]), List.drop_eq_nil_of_le hle, write_nil]
  exact ⟨_, rfl, rfl⟩

/-- A write returns: each pass of its loop takes in at least one byte. -/
theorem write_wrote (w : ChannelWriter) (data : Bytes) {n : ℕ} (hsends : w.sends = List.replicate n .sent)
    (hn : data.length ≤ n) : ∃ w', w.write data = (.ok (), w') ∧ Wrote w data w' := by
  by_cases hdata : data = []
  · subst hdata
    exact ⟨w, write_nil w, Wrote.refl w⟩
  have hless := length_drop_lt w hdata
  have htaken := take_ne_nil w hdata
  have hsplit := List.take_append_drop (chunkSize - w.buffer.length) data
  have hle : (w.buffer ++ data.take (chunkSize - w.buffer.length)).length ≤ chunkSize := by
    have hroom := w.room
    rw [List.length_append, List.length_take]
    omega
  -- what is taken of a first write is all that its first chunk has room for
  have htake : w.firstSent = false → w.buffer = [] →
      (data.take (chunkSize - w.buffer.length)).take chunkSize =
        (data.take (chunkSize - w.buffer.length) ++ data.drop (chunkSize - w.buffer.length)).take chunkSize := by
    intro _ hbuffer
    rw [hsplit, hbuffer, List.length_nil, Nat.sub_zero, List.take_take, Nat.min_self]
  by_cases hfull : w.firstSent = false ∨ (w.buffer ++ data.take (chunkSize - w.buffer.length)).length = chunkSize
  · obtain ⟨m, rfl⟩ : ∃ m, n = m + 1 := ⟨n - 1, by omega⟩
    obtain ⟨w₁, hpass, hbuffer, hfirst, hsends₁, hsent⟩ := write_of_full hdata hsends hfull
    obtain ⟨w', hw', hwrote⟩ := write_wrote w₁ (data.drop (chunkSize - w.buffer.length)) hsends₁
      (by rw [List.length_drop]; omega)
    refine ⟨w', hpass.trans hw', ?_⟩
    have hall := (Wrote.of_sent hle hfirst hbuffer hsent).trans hwrote htaken htake
    rwa [hsplit] at hall
  · obtain ⟨hfirst, hne⟩ := not_or.mp hfull
    have hfirst : w.firstSent = true := by simpa using hfirst
    have hroom := lt_of_le_of_ne hle hne
    have hbuffered : Wrote w (data.take (chunkSize - w.buffer.length))
        { w with buffer := w.buffer ++ data.take (chunkSize - w.buffer.length), room := hroom } :=
      Wrote.of_buffer hfirst hfirst rfl rfl
    obtain ⟨w', hw', hwrote⟩ := write_wrote
      { w with buffer := w.buffer ++ data.take (chunkSize - w.buffer.length), room := hroom }
      (data.drop (chunkSize - w.buffer.length)) hsends (by rw [List.length_drop]; omega)
    refine ⟨w', (write_of_room hdata hfirst hroom).trans hw', ?_⟩
    have hall := hbuffered.trans hwrote htaken htake
    rwa [hsplit] at hall
termination_by data.length

theorem push_wrote (w : ChannelWriter) (hsends : w.sends = List.replicate 1 .sent)  (hle : w.buffer.length ≤ chunkSize) :
    ∃ w', w.push = (.ok (), w') ∧ Wrote w [] w' ∧ w'.buffer = [] := by
  unfold push
  split
  · rename_i hbuffer
    exact ⟨w, rfl, Wrote.refl w, hbuffer⟩
  · rename_i hbuffer
    obtain ⟨w', hhand, hbuffer', hfirst, -, hsent⟩ := handOver_sent hbuffer hsends
    rw [hhand]
    refine ⟨w', rfl, Wrote.of_sent ?_ hfirst hbuffer' ?_, hbuffer'⟩
    · rwa [List.append_nil]
    · rwa [List.append_nil]

end ChannelWriter

open ChannelWriter

/-- A call returns, and writes its bytes. -/
theorem run_wrote (c : WriterCall) (w : ChannelWriter) :
    ∃ w', c.run w = (.ok (), w') ∧ Wrote w c.data w' ∧ (c = .flush → w'.buffer = []) := by
  cases c with
  | write data =>
      obtain ⟨w', hw', hwrote⟩ := write_wrote (w.unhindered data.length) data rfl le_rfl
      exact ⟨w', hw', ⟨hwrote.contents, hwrote.sent, hwrote.mono, hwrote.begun, hwrote.first⟩, nofun⟩
  | flush =>
      obtain ⟨w', hw', hwrote, hbuffer⟩ := push_wrote (w.unhindered 1) rfl w.room.le
      exact ⟨w', hw', ⟨hwrote.contents, hwrote.sent, hwrote.mono, hwrote.begun, hwrote.first⟩, fun _ => hbuffer⟩

/-! ## What the writer has of the calls -/

namespace WriterCall

theorem written_append (calls calls' : List WriterCall) : written (calls ++ calls') = written calls ++ written calls' := by
  simp [written]

theorem firstWrite_concat (made : List WriterCall) (c : WriterCall) :
    firstWrite (made ++ [c]) = (firstWrite made).or (if c.data = [] then none else some c.data) := by
  rw [firstWrite, List.map_append, List.find?_append]
  congr 1
  by_cases h : c.data = [] <;> simp [h]

end WriterCall

open WriterCall

/-- The writer behind some calls. -/
structure Writes (made : List WriterCall) (w : ChannelWriter) : Prop where
  contents : w.contents = written made
  chunks : ∀ chunk ∈ w.sent, chunk.length ≤ chunkSize
  begun : w.firstSent = true ↔ w.sent ≠ []
  unsent : w.firstSent = false → w.contents = []
  first : w.sent.head? = (firstWrite made).map (List.take chunkSize)

theorem Writes.new : Writes [] (.new []) := ⟨rfl, nofun, by decide, fun _ => rfl, rfl⟩

theorem Writes.wrote {made made' : List WriterCall} {w w' : ChannelWriter} {data : Bytes} (h : Writes made w)
    (hw : Wrote w data w') (hwritten : written made' = written made ++ data)
    (hfirst : firstWrite made' = (firstWrite made).or (if data = [] then none else some data)) : Writes made' w' := by
  obtain ⟨chunks, hchunks, hle⟩ := hw.sent
  refine ⟨by rw [hw.contents, h.contents, hwritten], ?_, hw.begun h.begun, fun hunsent => ?_, ?_⟩
  · intro chunk hmem
    rw [hchunks] at hmem
    exact (List.mem_append.mp hmem).elim (h.chunks chunk) (hle chunk)
  · have hbefore : w.firstSent = false := by
      by_contra htrue
      rw [hw.mono (by simpa using htrue)] at hunsent
      cases hunsent
    have hnil := h.unsent hbefore
    have hdata : data = [] := by
      by_contra hdata
      rw [(hw.first hbefore (List.append_eq_nil_iff.mp hnil).2 hdata).1] at hunsent
      cases hunsent
    rw [hw.contents, hnil, hdata]
    rfl
  · cases hbegun : w.firstSent with
    | true =>
        obtain ⟨chunk, rest, hsent⟩ := List.exists_cons_of_ne_nil (h.begun.mp hbegun)
        obtain ⟨data₀, hdata₀, htake⟩ := Option.map_eq_some_iff.mp (h.first.symm.trans (congrArg List.head? hsent))
        rw [hchunks, hsent, hfirst, hdata₀, Option.some_or, Option.map_some, htake]
        rfl
    | false =>
        have hnil := h.unsent hbegun
        have hsent : w.sent = [] := sent_eq_nil hnil
        have hnone : firstWrite made = none := by
          have hhead := h.first
          rw [hsent] at hhead
          exact Option.map_eq_none_iff.mp hhead.symm
        rw [hfirst, hnone, Option.none_or]
        by_cases hdata : data = []
        · have hsent' : w'.sent = [] := sent_eq_nil (by rw [hw.contents, hnil, hdata]; rfl)
          rw [if_pos hdata, hsent']
          rfl
        · obtain ⟨-, chunks', hchunks'⟩ := hw.first hbegun (List.append_eq_nil_iff.mp hnil).2 hdata
          rw [if_neg hdata, hchunks', hsent]
          rfl

/-! ## What every step keeps -/

/-- The body of an upload. -/
structure BodyInv (u : Upload) (body : UploadBody) : Prop where
  stopped : body.stopped = true →
    u.phase = .dropped ∧ body.first = none ∧ u.channel.queue = [] ∧ body.progress = .eof
  bytes : body.bytes = min (totalLength u.yielded) u64Max
  progress : body.stopped = false → body.progress = if u.yielded = [] then .pending else .bytes body.bytes

structure UploadInv (calls : List WriterCall) (u : Upload) : Prop where
  writes : Writes u.made u.writer
  calls : u.made ++ u.calls = calls
  sent : u.forwarded ++ u.outgoing = u.writer.sent
  finishing : u.phase ≠ .calling → u.calls = [] ∧ u.writer.buffer = []
  dropped : u.phase = .dropped → u.outgoing = []
  channel : u.channel.closed = false ∧ u.channel.capacity = uploadChannelCapacity
  unmade : u.body = none → u.yielded = []
  body : ∀ body, u.body = some body → BodyInv u body

section

variable {calls : List WriterCall} {u u' : Upload}

theorem UploadInv.new (calls : List WriterCall) : UploadInv calls (.new calls) where
  writes := Writes.new
  calls := rfl
  sent := rfl
  finishing h := absurd rfl h
  dropped := nofun
  channel := ⟨rfl, rfl⟩
  unmade _ := rfl
  body := nofun

/-- While the fetch has its writer, the body goes on. -/
theorem BodyInv.keep {body : UploadBody} (h : BodyInv u body) (hphase : u.phase ≠ .dropped)
    (hyielded : u'.yielded = u.yielded) : BodyInv u' body where
  stopped hstopped := absurd (h.stopped hstopped).1 hphase
  bytes := by rw [hyielded, h.bytes]
  progress hstopped := by rw [hyielded, h.progress hstopped]

/-- A call gives its chunks. -/
theorem make_eq (c : WriterCall) (hsent : u.forwarded ++ u.outgoing = u.writer.sent) (hout : u.outgoing = []) :
    ∃ writer outgoing, u.make c = some { u with writer, outgoing } ∧ Wrote u.writer c.data writer ∧
      (c = .flush → writer.buffer = []) ∧ u.forwarded ++ outgoing = writer.sent := by
  obtain ⟨writer, hrun, hwrote, hflush⟩ := run_wrote c u.writer
  obtain ⟨chunks, hchunks, -⟩ := hwrote.sent
  rw [hout, List.append_nil] at hsent
  refine ⟨writer, writer.sent.drop u.writer.sent.length, by rw [Upload.make, hrun], hwrote, hflush, ?_⟩
  rw [hchunks, List.drop_left, hsent]

theorem UploadInv.call (h : UploadInv calls u) (hstep : u.call = some u') : UploadInv calls u' := by
  unfold Upload.call at hstep
  split at hstep
  · rename_i c rest hphase hout hcalls
    obtain ⟨writer, outgoing, hmake, hwrote, -, hsent⟩ := make_eq c h.sent hout
    rw [hmake, Option.map_some] at hstep
    obtain rfl := Option.some.inj hstep
    have hwritten : written (u.made ++ [c]) = written u.made ++ c.data := by
      rw [written_append]
      simp [written]
    exact {
      writes := h.writes.wrote hwrote hwritten (firstWrite_concat u.made c)
      calls := by rw [List.append_assoc, List.singleton_append, ← hcalls, h.calls]
      sent := hsent
      finishing := fun hne => absurd hphase hne
      dropped := fun hdropped => by rw [hphase] at hdropped; cases hdropped
      channel := h.channel
      unmade := h.unmade
      body := fun body hbody => (h.body body hbody).keep (by rw [hphase]; nofun) rfl }
  · cases hstep

theorem UploadInv.finish (h : UploadInv calls u) (hstep : u.finish = some u') : UploadInv calls u' := by
  unfold Upload.finish at hstep
  split at hstep
  · rename_i hphase hout hcalls
    obtain ⟨writer, outgoing, hmake, hwrote, hbuffer, hsent⟩ := make_eq .flush h.sent hout
    rw [hmake, Option.map_some] at hstep
    obtain rfl := Option.some.inj hstep
    exact {
      writes := h.writes.wrote hwrote (List.append_nil _).symm (Option.or_none).symm
      calls := h.calls
      sent := hsent
      finishing := fun _ => ⟨hcalls, hbuffer rfl⟩
      dropped := nofun
      channel := h.channel
      unmade := h.unmade
      body := fun body hbody => (h.body body hbody).keep (by rw [hphase]; nofun) rfl }
  · cases hstep

theorem UploadInv.drop (h : UploadInv calls u) (hstep : u.drop = some u') : UploadInv calls u' := by
  unfold Upload.drop at hstep
  split at hstep
  · rename_i hphase hout
    obtain rfl := Option.some.inj hstep
    have hne : u.phase ≠ .calling := by rw [hphase]; nofun
    exact {
      writes := h.writes
      calls := h.calls
      sent := h.sent
      finishing := fun _ => h.finishing hne
      dropped := fun _ => hout
      channel := h.channel
      unmade := h.unmade
      body := fun body hbody => (h.body body hbody).keep (by rw [hphase]; nofun) rfl }
  · cases hstep

theorem UploadInv.send (h : UploadInv calls u) (hstep : u.send = some u') : UploadInv calls u' := by
  unfold Upload.send at hstep
  split at hstep
  · rename_i chunk outgoing hout
    split at hstep
    · rename_i channel hsend
      obtain ⟨-, rfl⟩ := Channel.trySend_ok hsend
      obtain rfl := Option.some.inj hstep
      have hdropped : u.phase ≠ .dropped := fun hdropped => by
        have hnil := h.dropped hdropped
        rw [hout] at hnil
        cases hnil
      have hsent := h.sent
      rw [hout] at hsent
      exact {
        writes := h.writes
        calls := h.calls
        sent := by
          rw [← hsent]
          simp [Upload.forwarded, Upload.held, Channel.push]
        finishing := h.finishing
        dropped := fun h' => absurd h' hdropped
        channel := h.channel
        unmade := h.unmade
        body := fun body hbody => (h.body body hbody).keep hdropped rfl }
    · cases hstep
  · cases hstep

theorem UploadInv.first (h : UploadInv calls u) (hstep : u.first = some u') : UploadInv calls u' := by
  unfold Upload.first at hstep
  split at hstep
  · rename_i chunk queue hbody hqueue
    obtain rfl := Option.some.inj hstep
    have hyielded := h.unmade hbody
    exact {
      writes := h.writes
      calls := h.calls
      sent := by
        rw [← h.sent]
        simp [Upload.forwarded, Upload.held, hbody, hqueue, UploadBody.new]
      finishing := h.finishing
      dropped := h.dropped
      channel := h.channel
      unmade := nofun
      body := by
        rintro body ⟨⟩
        exact ⟨nofun, by rw [hyielded]; rfl, fun _ => by rw [hyielded]; rfl⟩ }
  · cases hstep

/-- A chunk that the body gives is counted. -/
theorem BodyInv.give {body : UploadBody} (h : BodyInv u body) (hstopped : body.stopped = false) (chunk : Bytes)
    (body' : UploadBody) (hbytes : body'.bytes = body.bytes) (hstopped' : body'.stopped = body.stopped) :
    BodyInv (u.give body' chunk) (body'.record chunk) where
  stopped hstop := by
    have hfalse : body'.stopped = true := hstop
    rw [hstopped', hstopped] at hfalse
    cases hfalse
  bytes := by
    have hsum : totalLength (u.yielded ++ [chunk]) = totalLength u.yielded + chunk.length := by
      rw [totalLength_append]
      simp [totalLength]
    change saturatingAdd body'.bytes chunk.length = min (totalLength (u.yielded ++ [chunk])) u64Max
    rw [hsum, hbytes, h.bytes, saturatingAdd]
    omega
  progress _ := by
    have hne : u.yielded ++ [chunk] ≠ [] := List.append_ne_nil_of_right_ne_nil _ (List.cons_ne_nil _ _)
    exact (if_neg hne).symm

theorem UploadInv.poll (h : UploadInv calls u) (hstep : u.poll = some u') : UploadInv calls u' := by
  unfold Upload.poll at hstep
  split at hstep
  · cases hstep
  · rename_i body hbody
    have hinv := h.body body hbody
    split at hstep
    · obtain rfl := Option.some.inj hstep
      exact h
    · rename_i hstopped
      have hstopped : body.stopped = false := by simpa using hstopped
      split at hstep
      · rename_i chunk hfirst
        obtain rfl := Option.some.inj hstep
        exact {
          writes := h.writes
          calls := h.calls
          sent := by
            change _ = u.writer.sent
            rw [← h.sent]
            simp [Upload.forwarded, Upload.held, Upload.give, UploadBody.record, UploadBody.report, hbody, hfirst]
          finishing := h.finishing
          dropped := h.dropped
          channel := h.channel
          unmade := nofun
          body := by
            rintro body' ⟨⟩
            exact hinv.give hstopped chunk _ rfl rfl }
      · rename_i hfirst
        split at hstep
        · rename_i chunk queue hqueue
          obtain rfl := Option.some.inj hstep
          exact {
            writes := h.writes
            calls := h.calls
            sent := by
              change _ = u.writer.sent
              rw [← h.sent]
              simp [Upload.forwarded, Upload.held, Upload.give, UploadBody.record, UploadBody.report, hbody, hfirst,
                hqueue]
            finishing := h.finishing
            dropped := h.dropped
            channel := h.channel
            unmade := nofun
            body := by
              rintro body' ⟨⟩
              have hinv' : BodyInv { u with channel := { u.channel with queue } } body :=
                ⟨fun hstop => absurd (hstop.symm.trans hstopped) (by decide), hinv.bytes, hinv.progress⟩
              exact hinv'.give hstopped chunk body rfl rfl }
        · rename_i hqueue
          split_ifs at hstep with hdropped
          obtain rfl := Option.some.inj hstep
          exact {
            writes := h.writes
            calls := h.calls
            sent := by
              rw [← h.sent]
              simp [Upload.forwarded, Upload.held, UploadBody.stop, UploadBody.report, hbody]
            finishing := h.finishing
            dropped := h.dropped
            channel := h.channel
            unmade := nofun
            body := by
              rintro body' ⟨⟩
              exact ⟨fun _ => ⟨hdropped, hfirst, hqueue, rfl⟩, hinv.bytes, nofun⟩ }

theorem UploadInv.step (u : Upload) (op : TransferOp) (u' : Upload) (h : UploadInv calls u)
    (hstep : u.step op = some u') : UploadInv calls u' := by
  cases op with
  | call => exact h.call hstep
  | finish => exact h.finish hstep
  | drop => exact h.drop hstep
  | send => exact h.send hstep
  | first => exact h.first hstep
  | poll => exact h.poll hstep

/-! ## The end of an upload -/

/-- What the fetch has still to do. -/
def FetchPhase.left : FetchPhase → ℕ
  | calling => 2
  | finishing => 1
  | dropped => 0

/-- What the body has still to do, apart from its channel. -/
def bodyLeft : Option UploadBody → ℕ
  | none => 1
  | some body => body.first.toList.length + if body.stopped then 0 else 1

/-- What decreases: a call may give many chunks, a chunk is sent once and received once. -/
def Upload.left (u : Upload) : ℕ × ℕ × ℕ × ℕ × ℕ :=
  (u.calls.length, u.phase.left, u.outgoing.length, u.channel.queue.length, bodyLeft u.body)

/-- A step that leaves less to be done. -/
def Upload.Advances (u : Upload) : Prop :=
  ∃ op u', u.step op = some u' ∧ WellFoundedRelation.rel u'.left u.left

/-- The body can give its first chunk. -/
theorem advances_held {body : UploadBody} {chunk : Bytes} (hbody : u.body = some body) (hstopped : body.stopped = false)
    (hfirst : body.first = some chunk) : u.Advances := by
  have hless : bodyLeft (u.give { body with first := none } chunk).body < bodyLeft u.body := by
    simp [bodyLeft, Upload.give, UploadBody.record, UploadBody.report, hbody, hstopped, hfirst]
  refine ⟨.poll, u.give { body with first := none } chunk, ?_, .right _ (.right _ (.right _ (.right _ hless)))⟩
  simp only [Upload.step, Upload.poll, hbody, hstopped, hfirst, Bool.false_eq_true, if_false]

/-- A chunk in the channel can be received, behind that of the body. -/
theorem UploadInv.advances_receive (h : UploadInv calls u) {chunk : Bytes} {queue : List Bytes}
    (hqueue : u.channel.queue = chunk :: queue) : u.Advances := by
  have hless : queue.length < u.channel.queue.length := by rw [hqueue]; exact Nat.lt_succ_self _
  cases hbody : u.body with
  | none =>
      refine ⟨.first, { u with channel := { u.channel with queue }, body := some (.new chunk) }, ?_,
        .right _ (.right _ (.right _ (.left _ _ hless)))⟩
      simp only [Upload.step, Upload.first, hbody, hqueue]
  | some body =>
      have hstopped : body.stopped = false := by
        by_contra htrue
        have hnil := ((h.body body hbody).stopped (by simpa using htrue)).2.2.1
        rw [hqueue] at hnil
        cases hnil
      cases hfirst : body.first with
      | some held =>
          exact advances_held hbody hstopped hfirst
      | none =>
          refine ⟨.poll, { u with channel := { u.channel with queue } }.give body chunk, ?_,
            .right _ (.right _ (.right _ (.left _ _ hless)))⟩
          simp only [Upload.step, Upload.poll, hbody, hstopped, hfirst, hqueue, Bool.false_eq_true, if_false]

/-- With a chunk to be sent, the channel has room for it, or one that can be received. -/
theorem UploadInv.advances_send (h : UploadInv calls u) {chunk : Bytes} {outgoing : List Bytes}
    (hout : u.outgoing = chunk :: outgoing) : u.Advances := by
  cases hqueue : u.channel.queue with
  | cons received queue => exact h.advances_receive hqueue
  | nil =>
      obtain ⟨hclosed, hcapacity⟩ := h.channel
      have hsend : u.channel.trySend chunk = (.ok (), u.channel.push chunk) := by
        rw [Channel.trySend, hclosed, hqueue, hcapacity]
        rfl
      refine ⟨.send, { u with channel := u.channel.push chunk, outgoing }, ?_, .right _ (.right _ (.left _ _ ?_))⟩
      · simp only [Upload.step, Upload.send, hout, hsend]
      · rw [hout]
        exact Nat.lt_succ_self _

/-- Until all is done, something can be done. -/
theorem UploadInv.advances (h : UploadInv calls u) : u.Complete ∨ u.Advances := by
  match hout : u.outgoing with
  | chunk :: outgoing => exact .inr (h.advances_send hout)
  | [] =>
      cases hphase : u.phase with
      | calling =>
          cases hcalls : u.calls with
          | cons c rest =>
              obtain ⟨writer, outgoing, hmake, -⟩ := make_eq c h.sent hout
              refine .inr ⟨.call, { u with writer, outgoing, calls := rest, made := u.made ++ [c] }, ?_, .left _ _ ?_⟩
              · simp only [Upload.step, Upload.call, hphase, hout, hcalls, hmake, Option.map_some]
              · rw [hcalls]
                exact Nat.lt_succ_self _
          | nil =>
              obtain ⟨writer, outgoing, hmake, -⟩ := make_eq .flush h.sent hout
              refine .inr ⟨.finish, { u with writer, outgoing, phase := .finishing }, ?_, .right _ (.left _ _ ?_)⟩
              · simp only [Upload.step, Upload.finish, hphase, hout, hcalls, hmake, Option.map_some]
              · rw [hphase]
                exact Nat.lt_succ_self _
      | finishing =>
          refine .inr ⟨.drop, { u with phase := .dropped }, ?_, .right _ (.left _ _ ?_)⟩
          · simp only [Upload.step, Upload.drop, hphase, hout]
          · rw [hphase]
            exact Nat.lt_succ_self _
      | dropped =>
          cases hqueue : u.channel.queue with
          | cons chunk queue => exact .inr (h.advances_receive hqueue)
          | nil =>
              cases hbody : u.body with
              | none => exact .inl ⟨hphase, by simp [Upload.forwarded, Upload.held, hbody, hqueue], .inl hbody⟩
              | some body =>
                  cases hstopped : body.stopped with
                  | true =>
                      have hfirst := ((h.body body hbody).stopped hstopped).2.1
                      exact .inl ⟨hphase, by simp [Upload.forwarded, Upload.held, hbody, hqueue, hfirst],
                        .inr ⟨body, hbody, hstopped⟩⟩
                  | false =>
                      cases hfirst : body.first with
                      | some held =>
                          exact .inr (advances_held hbody hstopped hfirst)
                      | none =>
                          have hless : bodyLeft (some (body.stop .eof)) < bodyLeft u.body := by
                            simp [bodyLeft, UploadBody.stop, UploadBody.report, hbody, hstopped, hfirst]
                          refine .inr ⟨.poll, { u with body := some (body.stop .eof) }, ?_,
                            .right _ (.right _ (.right _ (.right _ hless)))⟩
                          simp only [Upload.step, Upload.poll, hbody, hstopped, hfirst, hqueue, hphase,
                            Bool.false_eq_true, if_false, if_true]

/-- An upload can go on to its end. -/
theorem UploadInv.exists_complete (u : Upload) (h : UploadInv calls u) :
    ∃ ops u', exec Upload.step u ops = some u' ∧ u'.Complete := by
  rcases h.advances with hcomplete | ⟨op, u', hstep, hless⟩
  · exact ⟨[], u, rfl, hcomplete⟩
  · obtain ⟨ops, u'', hexec, hcomplete⟩ := UploadInv.exists_complete u' (UploadInv.step u op u' h hstep)
    exact ⟨op :: ops, u'', exec_cons_eq_some.mpr ⟨u', hstep, hexec⟩, hcomplete⟩
termination_by u.left
decreasing_by exact hless

/-! ## All of it -/

/-- All that is forwarded, sent, and held back. -/
theorem UploadInv.order (h : UploadInv calls u) :
    u.forwarded.flatten ++ u.outgoing.flatten ++ u.writer.buffer ++ written u.calls = written calls := by
  have hcontents := h.writes.contents
  rw [ChannelWriter.contents, ← h.sent, List.flatten_append] at hcontents
  rw [hcontents, ← written_append, h.calls]

/-- Once the writer is dropped and the body has given what has been forwarded, it has given all. -/
theorem UploadInv.all (h : UploadInv calls u) (hphase : u.phase = .dropped) (hforwarded : u.forwarded = u.yielded) :
    u.yielded.flatten = written calls := by
  have horder := h.order
  obtain ⟨hcalls, hbuffer⟩ := h.finishing (by rw [hphase]; nofun)
  rw [hforwarded, h.dropped hphase, hbuffer, hcalls] at horder
  simpa [written] using horder

/-- What is yielded has been sent by the writer. -/
theorem UploadInv.mem_sent (h : UploadInv calls u) {chunk : Bytes} (hchunk : chunk ∈ u.yielded) :
    chunk ∈ u.writer.sent := by
  rw [← h.sent]
  simp [Upload.forwarded, hchunk]

/-- In every state of an upload, what has come out of the body is the beginning of what was written, in chunks of at most
`chunkSize` bytes; and at its end it is all of it. -/
theorem lawful_of_exec (calls : List WriterCall) (ops : List TransferOp) (u : Upload)
    (h : exec Upload.step (.new calls) ops = some u) : u.Lawful calls := by
  have hinv : UploadInv calls u := invariant UploadInv.step (UploadInv.new calls) h
  exact {
    order := hinv.order
    eof := by
      rintro ⟨body, hbody, hstopped⟩
      obtain ⟨hphase, hfirst, hqueue, -⟩ := (hinv.body body hbody).stopped hstopped
      exact hinv.all hphase (by simp [Upload.forwarded, Upload.held, hbody, hfirst, hqueue])
    complete := fun hcomplete => hinv.all hcomplete.1 hcomplete.2.1
    chunks := fun chunk hchunk =>
      ⟨u.writer.nonempty chunk (hinv.mem_sent hchunk), hinv.writes.chunks chunk (hinv.mem_sent hchunk)⟩
    first := by
      intro hout data hdata
      have hsent := hinv.sent
      rw [hout, List.append_nil] at hsent
      rw [hsent, hinv.writes.first, hdata]
      rfl
    room := u.writer.room
    returns := fun c => by
      obtain ⟨w', hrun, -⟩ := run_wrote c u.writer
      rw [hrun]
    progress := by
      intro body hbody
      have hbodyInv := hinv.body body hbody
      split_ifs with hstopped hyielded
      · exact (hbodyInv.stopped hstopped).2.2.2
      · rw [hbodyInv.progress (by simpa using hstopped), if_pos hyielded]
      · rw [hbodyInv.progress (by simpa using hstopped), if_neg hyielded, hbodyInv.bytes]
    ends := UploadInv.exists_complete u hinv }

/-- Three bytes, from the write to the end of the body. -/
theorem lawful_three_bytes : ∃ u, exec Upload.step (.new [.write [1, 2, 3]])
    [.call, .send, .first, .poll, .finish, .drop, .poll] = some u ∧ u.Complete ∧ u.Lawful [.write [1, 2, 3]] := by
  obtain ⟨w', hpass, hbuffer, -, -, hsent⟩ :=
    write_of_full (w := (ChannelWriter.new []).unhindered 3) (n := 2) (List.cons_ne_nil 1 [2, 3]) rfl (.inl rfl)
  have hrun : (WriterCall.write [1, 2, 3]).run (.new []) = (.ok (), w') := hpass.trans (write_nil w')
  have hsent : w'.sent = [[1, 2, 3]] := hsent
  have hexec : exec Upload.step (.new [.write [1, 2, 3]]) [.call, .send, .first, .poll, .finish, .drop, .poll] = some
      { phase := .dropped, calls := [], made := [.write [1, 2, 3]], writer := w'.unhindered 1, outgoing := []
        channel := ⟨[], uploadChannelCapacity, false⟩, body := some ⟨none, 3, true, .eof, true⟩
        yielded := [[1, 2, 3]] } := by
    have hflush : WriterCall.flush.run w' = (Except.ok (), w'.unhindered 1) := dif_pos hbuffer
    have hflushed : (w'.unhindered 1).sent = [[1, 2, 3]] := hsent
    have hnew : (ChannelWriter.new []).sent = [] := rfl
    simp [exec, Upload.step, Upload.call, Upload.make, Upload.new, Upload.send, Upload.first, Upload.poll,
      Upload.finish, Upload.drop, Upload.give, hrun, hnew, hsent, hflush, hflushed, Channel.new, Channel.trySend,
      Channel.push, uploadChannelCapacity, UploadBody.new, UploadBody.record, UploadBody.report, UploadBody.stop,
      saturatingAdd, u64Max]
  exact ⟨_, hexec, ⟨rfl, rfl, .inr ⟨_, rfl, rfl⟩⟩, lawful_of_exec _ _ _ hexec⟩

/-- A first write of one byte more than a chunk. -/
def oversized : Bytes := List.replicate (chunkSize + 1) 0

/-- Of a first write that is longer than a chunk, the rest is held back when the call has returned. -/
theorem oversized_not_forwarded : ∃ ops u, exec Upload.step (.new [.write oversized]) ops = some u ∧ u.outgoing = [] ∧
    u.made = [.write oversized] ∧ u.forwarded.flatten ≠ oversized := by
  have hrest : oversized.drop (chunkSize - 0) = [0] := by
    rw [oversized, List.drop_replicate]
    rfl
  have htake : oversized.take (chunkSize - 0) = List.replicate chunkSize 0 := by
    rw [oversized, List.take_replicate]
    rfl
  have hne : oversized ≠ [] := List.cons_ne_nil 0 (List.replicate chunkSize 0)
  obtain ⟨w₁, hpass, hbuffer, hfirst, -, hsent⟩ :=
    write_of_full (w := (ChannelWriter.new []).unhindered (chunkSize + 1)) hne rfl (.inl rfl)
  have hsmall : (w₁.buffer ++ [0]).length < chunkSize := by
    rw [hbuffer]
    decide
  obtain ⟨w', hwrite, hsent'⟩ := write_of_lt (List.cons_ne_nil 0 []) hfirst hsmall
  have hrun : (WriterCall.write oversized).run (.new []) = (.ok (), w') := by
    have hlength : oversized.length = chunkSize + 1 := List.length_replicate
    have hlast : ((ChannelWriter.new []).unhindered (chunkSize + 1)).write oversized = w₁.write [0] := hrest ▸ hpass
    rw [← hwrite, ← hlast, ← hlength]
    rfl
  have hchunk : w'.sent = [List.replicate chunkSize 0] := hsent'.trans (htake ▸ hsent)
  have hnew : (ChannelWriter.new []).sent = [] := rfl
  have hexec : exec Upload.step (.new [.write oversized]) [.call, .send] = some
      { Upload.new [] with
        made := [.write oversized], writer := w', channel := ⟨[List.replicate chunkSize 0], uploadChannelCapacity, false⟩ } := by
    simp [exec, Upload.step, Upload.call, Upload.make, Upload.new, Upload.send, hrun, hnew, hchunk, Channel.new,
      Channel.trySend, Channel.push, uploadChannelCapacity]
  refine ⟨_, _, hexec, rfl, rfl, fun heq => ?_⟩
  have hlength := congrArg List.length heq
  have hforwarded : ([List.replicate chunkSize (0 : UInt8)]).flatten.length = chunkSize := by
    rw [List.flatten_singleton, List.length_replicate]
  exact absurd (hforwarded.symm.trans (hlength.trans List.length_replicate)) (by decide)

end

end EveBox.Agent