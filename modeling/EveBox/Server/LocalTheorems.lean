import EveBox.Server.Local
import EveBox.Server.StreamTheorems

/-!
# An honest end

A local capture whose response ends cleanly is complete: `local_law`. `ChannelInv` follows the chunks and
the terminal frame from the producer to the request, and `PhaseInv` what the request makes of them. Every
step keeps both.
-/

namespace EveBox.Server.Local

open Rust Pcap Agent Server Transition

/-! ## The invariant -/

/-- The producer's end of the channel, with the chunks still to be sent. -/
inductive ProducerInv (s : LocalState) : List Bytes → Prop
  | running (rest : List Bytes) (h : s.producer = .running rest) : ProducerInv s rest
  | finishing (h : s.producer = .finishing) : ProducerInv s []
  | failed (joined : FetchJoin) (h : s.producer = .ended joined) (hfailed : ∀ stats, joined ≠ .ok stats) :
      ProducerInv s []

/-- The chunks and the terminal frame in the channel. -/
inductive ChannelInv (s : LocalState) : Prop
  /-- The terminal frame has not been queued. -/
  | open (data rest : List Bytes) (queue : s.frames.queue = data.map .data)
      (flow : s.script.chunks = s.received ++ data ++ rest) (producer : ProducerInv s rest)
      (done : s.doneQueued = false)
  | closing (data : List Bytes) (result : Except FetchError FetchStats)
      (queue : s.frames.queue = data.map .data ++ [.done (producerEnd result)])
      (flow : s.script.chunks = s.received ++ data) (hresult : FetchJoin.result? s.script.result = some result)
      (producer : s.producerGone = true) (done : s.doneQueued = true)
  /-- The terminal frame has been received. -/
  | consumed (queue : s.frames.queue = []) (flow : s.script.chunks = s.received)
      (producer : s.producerGone = true) (done : s.doneQueued = true)

/-- The request has received a terminal frame that stands for a clean end, behind every chunk. -/
structure Complete (s : LocalState) : Prop where
  result : ∃ result, FetchJoin.result? s.script.result = some result ∧ (producerEnd result).item = .eof
  received : s.script.chunks = s.received
  done : s.doneQueued = true
  cancel : s.cancel = false

namespace LocalState

/-- The chunks the client has been given. -/
def delivered (s : LocalState) : List Bytes :=
  match s.phase with
  | .answered (.single chunk _) => [chunk]
  | _ => s.polled.filterMap BodyItem.chunk?

/-- The response is a capture file, whole and without an error. -/
def EndedCleanly (s : LocalState) : Prop :=
  match s.phase with
  | .answered (.error _ _ _) => False
  | .answered _ => True
  | .streaming => .eof ∈ s.polled ∧ ∀ message, .error message ∉ s.polled
  | _ => False

end LocalState

/-- What the body stream has given. -/
inductive BodyInv (s : LocalState) : Prop
  | running (chunks : List Bytes) (finished : s.finished = false) (polled : s.polled = chunks.map .data)
      (received : s.received = chunks ++ s.queued)
      (cancel : s.cancel = true → s.dropped = true)
  | clean (n : ℕ) (finished : s.finished = true) (disarmed : s.disarmed = true) (queued : s.queued = [])
      (polled : s.polled = s.received.map .data ++ List.replicate (n + 1) .eof) (complete : Complete s)
  | dirty (chunks : List Bytes) (n : ℕ) (message : String) (finished : s.finished = true)
      (queued : s.queued = [])
      (polled : s.polled = chunks.map .data ++ .error message :: List.replicate n .eof)

/-- What holds where the request is. -/
def PhaseInv (s : LocalState) : Prop :=
  match s.phase with
  | .waiting => s.received = [] ∧ s.cancel = false ∧ s.polled = [] ∧ s.finished = false
  | .first chunk => s.received = [chunk] ∧ s.cancel = false ∧ s.polled = [] ∧ s.finished = false
  | .streaming => s.received ≠ [] ∧ BodyInv s
  | .answered (.error _ _ _) => True
  | .answered .emptyPcap => s.native = true ∧ s.received = [] ∧ Complete s ∧ s.polled = []
  | .answered (.empty truncated) => s.received = [] ∧ Complete s ∧ s.polled = [] ∧
      ∃ stats, s.script.result = .ok stats ∧ stats.truncated = truncated
  | .answered (.single chunk _) => s.received = [chunk] ∧ Complete s
  | .abandoned => True

/-- The invariant of a local capture. -/
structure LocalInv (s : LocalState) : Prop where
  channel : ChannelInv s
  phase : PhaseInv s
  /-- An extraction stops only on a token that is cancelled. -/
  stopped : s.script.cancelled = true → (∃ rest, s.producer = .running rest) ∨ s.cancel = true
  logged : ∀ stats, s.logged = some (.success stats) → s.doneQueued = true

section

variable {s s' : LocalState}

/-! ## The producer's steps -/

/-- The request does not look at the producer. -/
theorem PhaseInv.congr (inv : PhaseInv s) (producer : Producer) (frames : Channel Frame)
    (doneQueued : Bool) (logged : Option LogOutcome) (hdone : s.doneQueued = true → doneQueued = true) :
    PhaseInv { s with producer, frames, doneQueued, logged } := by
  have hcomplete : Complete s → Complete { s with producer, frames, doneQueued, logged } :=
    fun h => ⟨h.result, h.received, hdone h.done, h.cancel⟩
  unfold PhaseInv at inv ⊢
  dsimp only
  split at inv
  · exact inv
  · exact inv
  · refine ⟨inv.1, ?_⟩
    cases inv.2 with
    | running chunks h₁ h₂ h₃ h₄ => exact .running chunks h₁ h₂ h₃ h₄
    | clean n h₁ h₂ h₃ h₄ h₅ => exact .clean n h₁ h₂ h₃ h₄ (hcomplete h₅)
    | dirty chunks n message h₁ h₂ h₃ => exact .dirty chunks n message h₁ h₂ h₃
  · trivial
  · exact ⟨inv.1, inv.2.1, hcomplete inv.2.2.1, inv.2.2.2⟩
  · exact ⟨inv.1, hcomplete inv.2.1, inv.2.2⟩
  · exact ⟨inv.1, hcomplete inv.2⟩
  · trivial

/-- While the producer is there, the terminal frame has not been queued. -/
theorem ChannelInv.of_not_gone (inv : ChannelInv s) (h : s.producerGone = false) :
    ∃ data rest, s.frames.queue = data.map .data ∧ s.script.chunks = s.received ++ data ++ rest ∧
      ProducerInv s rest ∧ s.doneQueued = false := by
  cases inv with
  | «open» data rest h₁ h₂ h₃ h₄ => exact ⟨data, rest, h₁, h₂, h₃, h₄⟩
  | closing data result h₁ h₂ h₃ h₄ => simp [h₄] at h
  | consumed h₁ h₂ h₃ => simp [h₃] at h

theorem LocalInv.produce (inv : LocalInv s) (h : s.produce = some s') : LocalInv s' := by
  unfold LocalState.produce at h
  split at h
  · rename_i chunk rest hproducer
    split at h
    · rename_i frames hsend
      obtain rfl := Option.some.inj h
      obtain ⟨-, rfl⟩ := Channel.trySend_ok hsend
      have hgone : s.producerGone = false := by rw [LocalState.producerGone, hproducer]
      obtain ⟨data, rest', hqueue, hflow, hrest, hdone⟩ := inv.channel.of_not_gone hgone
      obtain rfl : rest' = chunk :: rest := by
        cases hrest with
        | running _ h => exact (Producer.running.inj (hproducer.symm.trans h)).symm
        | finishing h => rw [hproducer] at h; cases h
        | failed joined h => rw [hproducer] at h; cases h
      refine ⟨.open (data ++ [chunk]) rest ?_ ?_ (.running rest rfl) hdone,
        inv.phase.congr _ _ _ _ id, fun _ => Or.inl ⟨rest, rfl⟩, inv.logged⟩
      · show s.frames.queue ++ [.data chunk] = _
        rw [hqueue, List.map_append]
        rfl
      · rw [hflow]
        simp only [List.append_assoc, List.singleton_append]
    · cases h
  · cases h

/-- The producer has sent every chunk. -/
theorem LocalInv.all_sent (inv : LocalInv s)
    (hproducer : s.producer = .running [] ∨ s.producer = .finishing) :
    ∃ data, s.frames.queue = data.map .data ∧ s.script.chunks = s.received ++ data ∧
      s.doneQueued = false := by
  have hgone : s.producerGone = false := by
    rcases hproducer with h | h <;> rw [LocalState.producerGone, h]
  obtain ⟨data, rest, hqueue, hflow, hrest, hdone⟩ := inv.channel.of_not_gone hgone
  have hnil : rest = [] := by
    cases hrest with
    | running _ h =>
        rcases hproducer with h' | h'
        · exact Producer.running.inj (h.symm.trans h')
        · rw [h'] at h; cases h
    | finishing h => rfl
    | failed joined h => rfl
  rw [hnil, List.append_nil] at hflow
  exact ⟨data, hqueue, hflow, hdone⟩

/-- The producer ends without a terminal frame, and without a result. -/
theorem LocalInv.fail (inv : LocalInv s)
    (hproducer : s.producer = .running [] ∨ s.producer = .finishing) {joined : FetchJoin}
    (hfailed : ∀ stats, joined ≠ .ok stats)
    (hstopped : s.script.cancelled = true → s.cancel = true) :
    LocalInv { s with producer := .ended joined } := by
  obtain ⟨data, hqueue, hflow, hdone⟩ := inv.all_sent hproducer
  exact ⟨.open data [] hqueue (by rw [List.append_nil]; exact hflow) (.failed joined rfl hfailed) hdone,
    inv.phase.congr _ _ _ _ id, fun h => Or.inr (hstopped h), inv.logged⟩

theorem LocalInv.extractionEnd (inv : LocalInv s) (h : s.extractionEnd = some s') : LocalInv s' := by
  unfold LocalState.extractionEnd at h
  split at h
  · rename_i hproducer
    split at h
    · cases h
    · rename_i hcancelled
      have hstopped : s.script.cancelled = true → s.cancel = true := by
        intro hscript
        rw [hscript] at hcancelled
        simpa using hcancelled
      split at h
      · rename_i hresult
        obtain rfl := Option.some.inj h
        refine inv.fail (Or.inl hproducer) ?_ hstopped
        intro stats hok
        rw [hok] at hresult
        cases hresult
      · rename_i result hresult
        split at h
        · rename_i hclient
          obtain rfl := Option.some.inj h
          refine inv.fail (Or.inl hproducer) ?_ hstopped
          intro stats hok
          rw [hok] at hresult
          obtain rfl := Option.some.inj hresult
          cases hclient
        · obtain rfl := Option.some.inj h
          obtain ⟨data, hqueue, hflow, hdone⟩ := inv.all_sent (Or.inl hproducer)
          exact ⟨.open data [] hqueue (by rw [List.append_nil]; exact hflow) (.finishing rfl) hdone,
            inv.phase.congr _ _ _ _ id, fun h => Or.inr (hstopped h), inv.logged⟩
  · cases h

/-- A downgraded result is none. -/
theorem downgrade_ne_ok (result : Except FetchError FetchStats) (outcome : SendOutcome)
    (stats : FetchStats) : downgrade result outcome ≠ .ok stats := by
  cases result <;> nofun

/-- The extraction is over, so a cancelled token is known. -/
theorem LocalInv.stopped_of_finishing (inv : LocalInv s) (hproducer : s.producer = .finishing) :
    s.script.cancelled = true → s.cancel = true := by
  intro hscript
  rcases inv.stopped hscript with ⟨rest, h⟩ | h
  · rw [hproducer] at h
    cases h
  · exact h

theorem LocalInv.sendDone (inv : LocalInv s) (h : s.sendDone = some s') : LocalInv s' := by
  unfold LocalState.sendDone at h
  split at h
  · rename_i result hproducer hresult
    have hstopped := inv.stopped_of_finishing hproducer
    split at h
    · rename_i frames hsend
      obtain rfl := Option.some.inj h
      obtain ⟨-, rfl⟩ := Channel.trySend_ok hsend
      obtain ⟨data, hqueue, hflow, hdone⟩ := inv.all_sent (Or.inr hproducer)
      refine ⟨.closing data result ?_ hflow hresult rfl rfl, inv.phase.congr _ _ _ _ fun _ => rfl,
        fun h => Or.inr (hstopped h), fun _ _ => rfl⟩
      show s.frames.queue ++ [.done (producerEnd result)] = _
      rw [hqueue]
    · obtain rfl := Option.some.inj h
      exact inv.fail (Or.inr hproducer) (downgrade_ne_ok result _) hstopped
    · split at h
      · obtain rfl := Option.some.inj h
        exact inv.fail (Or.inr hproducer) (downgrade_ne_ok result _) hstopped
      · cases h
  · cases h

theorem LocalInv.doneStalled (inv : LocalInv s) (h : s.doneStalled = some s') : LocalInv s' := by
  unfold LocalState.doneStalled at h
  split at h
  · rename_i result hproducer hresult
    split at h
    · obtain rfl := Option.some.inj h
      exact inv.fail (Or.inr hproducer) (downgrade_ne_ok result _) (inv.stopped_of_finishing hproducer)
    · cases h
  · cases h

/-! ## The supervisor's steps -/

theorem logOutcome_success {reason : CancelCause} {cancelled : Bool} {joined : FetchJoin}
    {stats : FetchStats} (h : logOutcome reason cancelled joined = .success stats) :
    joined = .ok stats := by
  unfold logOutcome at h
  split at h
  · cases h
  · split at h
    · cases h
    · cases h
    · split at h
      · cases h
      · obtain rfl := LogOutcome.success.inj h
        rfl
  · split at h
    · cases h
    · split at h
      · split at h
        · cases h
        · split at h <;> cases h
      · cases h
      · cases h
      · cases h

/-- A step that logs. -/
theorem LocalInv.log (inv : LocalInv s) {outcome : LogOutcome}
    (h : ∀ stats, outcome = .success stats → s.doneQueued = true) :
    LocalInv { s with logged := some outcome } := by
  refine ⟨?_, inv.phase.congr _ _ _ _ id, inv.stopped,
    fun stats hstats => h stats (Option.some.inj hstats)⟩
  cases inv.channel with
  | «open» data rest h₁ h₂ h₃ h₄ =>
      refine .open data rest h₁ h₂ ?_ h₄
      cases h₃ with
      | running _ h => exact .running _ h
      | finishing h => exact .finishing h
      | failed joined h hfailed => exact .failed joined h hfailed
  | closing data result h₁ h₂ h₃ h₄ h₅ => exact .closing data result h₁ h₂ h₃ h₄ h₅
  | consumed h₁ h₂ h₃ h₄ => exact .consumed h₁ h₂ h₃ h₄

/-- A success is logged of a producer that has queued its terminal frame. -/
theorem LocalInv.join (inv : LocalInv s) (h : s.join = some s') : LocalInv s' := by
  unfold LocalState.join at h
  split at h
  · rename_i joined _ hproducer
    obtain rfl := Option.some.inj h
    refine inv.log ?_
    intro stats hstats
    have hjoined := logOutcome_success hstats
    cases inv.channel with
    | «open» data rest h₁ h₂ h₃ h₄ =>
        cases h₃ with
        | running _ h => rw [hproducer] at h; cases h
        | finishing h => rw [hproducer] at h; cases h
        | failed joined' h hfailed =>
            rw [hproducer] at h
            obtain rfl := Producer.ended.inj h
            exact absurd hjoined (hfailed stats)
    | closing data result h₁ h₂ h₃ h₄ h₅ => exact h₅
    | consumed h₁ h₂ h₃ h₄ => exact h₄
  · cases h

theorem LocalInv.wedge (inv : LocalInv s) (h : s.wedge = some s') : LocalInv s' := by
  unfold LocalState.wedge at h
  split at h
  · obtain rfl := Option.some.inj h
    exact inv.log nofun
  · cases h

/-! ## The request's steps -/

/-- The channel depends on its own part of the state only. -/
theorem ChannelInv.congr (inv : ChannelInv s) (hscript : s'.script = s.script)
    (hproducer : s'.producer = s.producer) (hqueue : s'.frames.queue = s.frames.queue)
    (hreceived : s'.received = s.received) (hdone : s'.doneQueued = s.doneQueued) : ChannelInv s' := by
  have hgone : s.producerGone = true → s'.producerGone = true := by
    unfold LocalState.producerGone
    rw [hproducer]
    exact id
  cases inv with
  | «open» data rest h₁ h₂ h₃ h₄ =>
      refine .open data rest (hqueue.trans h₁) (by rw [hscript, hreceived, h₂]) ?_ (hdone.trans h₄)
      cases h₃ with
      | running _ h => exact .running _ (hproducer.trans h)
      | finishing h => exact .finishing (hproducer.trans h)
      | failed joined h hfailed => exact .failed joined (hproducer.trans h) hfailed
  | closing data result h₁ h₂ h₃ h₄ h₅ =>
      exact .closing data result (hqueue.trans h₁) (by rw [hscript, hreceived, h₂])
        (by rw [hscript, h₃]) (hgone h₄) (hdone.trans h₅)
  | consumed h₁ h₂ h₃ h₄ =>
      exact .consumed (hqueue.trans h₁) (by rw [hscript, hreceived, h₂]) (hgone h₃) (hdone.trans h₄)

/-- A chunk is taken off the channel. -/
theorem ChannelInv.receive (inv : ChannelInv s) {chunk : Bytes} {queue : List Frame}
    (hqueue : s.frames.queue = .data chunk :: queue) : ChannelInv (s.receive chunk queue) := by
  have hflow : ∀ {data : List Bytes}, s.received ++ chunk :: data = s.received ++ [chunk] ++ data := by
    intro data
    rw [List.append_assoc, List.singleton_append]
  cases inv with
  | «open» data rest h₁ h₂ h₃ h₄ =>
      rw [hqueue] at h₁
      obtain ⟨c, data, rfl, hc, rfl⟩ := List.map_eq_cons_iff.mp h₁.symm
      obtain rfl := Frame.data.inj hc
      have hflow' : s.script.chunks = s.received ++ [c] ++ data ++ rest := by rw [h₂, hflow]
      refine .open data rest rfl hflow' ?_ h₄
      cases h₃ with
      | running _ h => exact .running _ h
      | finishing h => exact .finishing h
      | failed joined h hfailed => exact .failed joined h hfailed
  | closing data result h₁ h₂ h₃ h₄ h₅ =>
      rw [hqueue] at h₁
      cases data with
      | nil => cases h₁
      | cons c data =>
          obtain ⟨hc, rfl⟩ := List.cons_eq_cons.mp h₁
          obtain rfl := Frame.data.inj hc
          have hflow' : s.script.chunks = s.received ++ [chunk] ++ data := by rw [h₂, hflow]
          exact .closing data result rfl hflow' h₃ h₄ h₅
  | consumed h₁ =>
      rw [hqueue] at h₁
      cases h₁

/-- The terminal frame comes behind every chunk. -/
theorem ChannelInv.terminal (inv : ChannelInv s) {ended : ProducerEnd} {queue : List Frame}
    (hqueue : s.frames.queue = .done ended :: queue) :
    queue = [] ∧ s.script.chunks = s.received ∧ s.producerGone = true ∧ s.doneQueued = true ∧
      ∃ result, FetchJoin.result? s.script.result = some result ∧ ended = producerEnd result := by
  cases inv with
  | «open» data rest h₁ =>
      rw [hqueue] at h₁
      cases data <;> cases h₁
  | closing data result h₁ h₂ h₃ h₄ h₅ =>
      rw [hqueue] at h₁
      cases data with
      | nil =>
          obtain ⟨hended, rfl⟩ := List.cons_eq_cons.mp h₁
          exact ⟨rfl, by rw [h₂, List.append_nil], h₄, h₅, result, h₃, Frame.done.inj hended⟩
      | cons c data => cases h₁
  | consumed h₁ =>
      rw [hqueue] at h₁
      cases h₁

/-- A cancellation, and a request that does not come back. -/
theorem LocalInv.leave (inv : LocalInv s) {phase : LocalPhase} {reason : CancelCause}
    (hphase : phase = .abandoned ∨ ∃ status code message, phase = .answered (.error status code message))
    (cancel : Bool) (hcancel : s.cancel = true → cancel = true) (closed : Bool) :
    LocalInv { s with phase, reason, cancel, frames := { s.frames with closed } } := by
  refine ⟨inv.channel.congr rfl rfl rfl rfl rfl, ?_, fun h => (inv.stopped h).imp_right hcancel, inv.logged⟩
  rcases hphase with rfl | ⟨status, code, message, rfl⟩ <;> trivial

theorem LocalInv.timeout (inv : LocalInv s) (h : s.timeout = some s') : LocalInv s' := by
  unfold LocalState.timeout at h
  split at h
  · obtain rfl := Option.some.inj h
    exact inv.leave (Or.inr ⟨_, _, _, rfl⟩) true (fun _ => rfl) true
  · cases h

/-- The terminal frame answers the request. -/
theorem LocalInv.answer_done (inv : LocalInv s) {ended : ProducerEnd} {queue : List Frame}
    (hqueue : s.frames.queue = .done ended :: queue) {answer : Answer}
    (hphase : PhaseInv ({ s with frames := { s.frames with queue } }.answer answer)) :
    LocalInv ({ s with frames := { s.frames with queue } }.answer answer) := by
  obtain ⟨hnil, hflow, hgone, hdone, -⟩ := inv.channel.terminal hqueue
  exact ⟨.consumed hnil hflow hgone hdone, hphase, inv.stopped, inv.logged⟩

theorem LocalInv.recv (inv : LocalInv s) (h : s.recv = some s') : LocalInv s' := by
  have hinv := inv.phase
  unfold LocalState.recv at h
  split at h
  · rename_i chunk queue hphase hqueue
    rw [PhaseInv, hphase] at hinv
    obtain ⟨hreceived, hcancel, hpolled, hfinished⟩ := hinv
    obtain rfl := Option.some.inj h
    refine ⟨(inv.channel.receive hqueue).congr rfl rfl rfl rfl rfl, ⟨?_, hcancel, hpolled, hfinished⟩,
      inv.stopped, inv.logged⟩
    show s.received ++ [chunk] = [chunk]
    rw [hreceived, List.nil_append]
  · rename_i ended queue hphase hqueue
    rw [PhaseInv, hphase] at hinv
    obtain ⟨hreceived, hcancel, hpolled, -⟩ := hinv
    obtain rfl := Option.some.inj h
    obtain ⟨-, hflow, -, hdone, result, hresult, rfl⟩ := inv.channel.terminal hqueue
    have hcomplete : ∀ answer, (producerEnd result).item = .eof →
        Complete ({ s with frames := { s.frames with queue } }.answer answer) :=
      fun _ hitem => ⟨⟨result, hresult, hitem⟩, hflow, hdone, hcancel⟩
    have hnative : ∀ (hn : s.native = true), (producerEnd result).item = .eof →
        PhaseInv ({ s with frames := { s.frames with queue } }.answer .emptyPcap) :=
      fun hn hitem => ⟨hn, hreceived, hcomplete _ hitem, hpolled⟩
    refine inv.answer_done hqueue ?_
    cases result with
    | ok stats =>
        unfold emptyResponse producerEnd
        dsimp only
        split
        · rename_i hn
          exact hnative hn rfl
        · refine ⟨hreceived, hcomplete _ rfl, hpolled, stats, ?_, rfl⟩
          revert hresult
          show FetchJoin.result? s.script.result = _ → s.script.result = _
          cases s.script.result with
          | ok stats' =>
              intro hresult
              rw [Except.ok.inj (Option.some.inj hresult)]
          | error err => intro hresult; cases Option.some.inj hresult
          | panicked err => intro hresult; cases hresult
    | error err =>
        cases err with
        | noCandidateFiles =>
            unfold emptyResponse producerEnd
            dsimp only
            split
            · rename_i hn
              exact hnative hn rfl
            · trivial
        | noMatch stats =>
            unfold emptyResponse producerEnd
            dsimp only
            split
            · rename_i hn
              exact hnative hn rfl
            · trivial
        | format message => trivial
        | io err => trivial
  · split at h
    · obtain rfl := Option.some.inj h
      exact inv.leave (Or.inr ⟨_, _, _, rfl⟩) s.cancel id true
    · cases h
  · cases h

theorem LocalInv.tryRecv (inv : LocalInv s) (h : s.tryRecv = some s') : LocalInv s' := by
  have hinv := inv.phase
  unfold LocalState.tryRecv at h
  split at h
  · rename_i chunk ended queue hphase hqueue
    rw [PhaseInv, hphase] at hinv
    obtain ⟨hreceived, hcancel, hpolled, -⟩ := hinv
    obtain rfl := Option.some.inj h
    obtain ⟨-, hflow, -, hdone, result, hresult, rfl⟩ := inv.channel.terminal hqueue
    have hsingle : ∀ truncated, (producerEnd result).item = .eof →
        PhaseInv ({ s with frames := { s.frames with queue } }.answer (.single chunk truncated)) :=
      fun _ hitem => ⟨hreceived, ⟨result, hresult, hitem⟩, hflow, hdone, hcancel⟩
    refine inv.answer_done hqueue ?_
    cases result with
    | ok stats => exact hsingle _ rfl
    | error err =>
        cases err with
        | noCandidateFiles => exact hsingle _ rfl
        | noMatch stats => exact hsingle _ rfl
        | format message => trivial
        | io err => trivial
  · rename_i chunk next queue hphase hqueue
    rw [PhaseInv, hphase] at hinv
    obtain ⟨hreceived, hcancel, hpolled, hfinished⟩ := hinv
    obtain rfl := Option.some.inj h
    refine ⟨(inv.channel.receive hqueue).congr rfl rfl rfl rfl rfl, ⟨?_, ?_⟩, inv.stopped, inv.logged⟩
    · exact List.append_ne_nil_of_right_ne_nil _ (List.cons_ne_nil _ _)
    · refine .running [] hfinished hpolled ?_ ?_
      · show s.received ++ [next] = [chunk, next]
        rw [hreceived]
        rfl
      · intro h
        rw [show s.cancel = true from h] at hcancel
        cases hcancel
  · rename_i chunk hphase hqueue
    rw [PhaseInv, hphase] at hinv
    obtain ⟨hreceived, hcancel, hpolled, hfinished⟩ := hinv
    obtain rfl := Option.some.inj h
    refine ⟨inv.channel.congr rfl rfl rfl rfl rfl, ⟨?_, ?_⟩, inv.stopped, inv.logged⟩
    · show s.received ≠ []
      rw [hreceived]
      exact List.cons_ne_nil _ _
    · refine .running [] hfinished hpolled hreceived ?_
      intro h
      rw [show s.cancel = true from h] at hcancel
      cases hcancel
  · cases h

/-- A client that drops an armed body cancels; a body that has ended is not armed. -/
theorem LocalInv.drop (inv : LocalInv s) (h : s.drop = some s') : LocalInv s' := by
  have hinv := inv.phase
  unfold LocalState.drop at h
  split at h
  · obtain rfl := Option.some.inj h
    exact inv.leave (Or.inl rfl) true (fun _ => rfl) true
  · rename_i hphase
    rw [PhaseInv, hphase] at hinv
    obtain ⟨hreceived, hbody⟩ := hinv
    split at h
    · cases h
    · dsimp only at h
      have hphase' : ∀ (reason : CancelCause) (cancel : Bool), (s.disarmed = true → cancel = s.cancel) →
          PhaseInv { s with
            dropped := true, frames := { s.frames with closed := true }, reason, cancel } := by
        intro reason cancel hcancel
        rw [PhaseInv]
        dsimp only
        rw [hphase]
        refine ⟨hreceived, ?_⟩
        cases hbody with
        | running chunks h₁ h₂ h₃ h₄ => exact .running chunks h₁ h₂ h₃ fun _ => rfl
        | clean n h₁ h₂ h₃ h₄ h₅ =>
            exact .clean n h₁ h₂ h₃ h₄ ⟨h₅.result, h₅.received, h₅.done, (hcancel h₂).trans h₅.cancel⟩
        | dirty chunks n message h₁ h₂ h₃ => exact .dirty chunks n message h₁ h₂ h₃
      split at h
      · obtain rfl := Option.some.inj h
        exact ⟨inv.channel.congr rfl rfl rfl rfl rfl, hphase' s.reason s.cancel fun _ => rfl, inv.stopped,
          inv.logged⟩
      · rename_i hdisarmed
        obtain rfl := Option.some.inj h
        exact ⟨inv.channel.congr rfl rfl rfl rfl rfl, hphase' _ true fun h => absurd h hdisarmed,
          fun _ => Or.inr rfl, inv.logged⟩
  · cases h

theorem LocalInv.poll (inv : LocalInv s) (h : s.poll = some s') : LocalInv s' := by
  have hinv := inv.phase
  unfold LocalState.poll at h
  split at h
  · cases h
  · rename_i hopen
    simp only [ne_eq, Bool.or_eq_true, decide_eq_true_eq, not_or, not_not, Bool.not_eq_true] at hopen
    obtain ⟨hphase, hdropped⟩ := hopen
    rw [PhaseInv, hphase] at hinv
    obtain ⟨hreceived, hbody⟩ := hinv
    have hstreaming : ∀ {t : LocalState}, t.phase = .streaming → t.received ≠ [] → BodyInv t →
        PhaseInv t := by
      intro t ht hne hb
      rw [PhaseInv, ht]
      exact ⟨hne, hb⟩
    split at h
    · rename_i chunk queued hqueued
      obtain rfl := Option.some.inj h
      refine ⟨inv.channel.congr rfl rfl rfl rfl rfl, hstreaming hphase hreceived ?_, inv.stopped, inv.logged⟩
      cases hbody with
      | running chunks h₁ h₂ h₃ h₄ =>
          refine .running (chunks ++ [chunk]) h₁ ?_ ?_ h₄
          · show s.polled ++ [.data chunk] = _
            rw [h₂, List.map_append]
            rfl
          · show s.received = chunks ++ [chunk] ++ queued
            rw [h₃, hqueued, List.append_assoc, List.singleton_append]
      | clean n h₁ h₂ h₃ => rw [hqueued] at h₃; cases h₃
      | dirty chunks n message h₁ h₂ => rw [hqueued] at h₂; cases h₂
    · rename_i hqueued
      split at h
      · rename_i hfinished
        obtain rfl := Option.some.inj h
        refine ⟨inv.channel.congr rfl rfl rfl rfl rfl, hstreaming hphase hreceived ?_, inv.stopped,
          inv.logged⟩
        cases hbody with
        | running chunks h₁ => rw [hfinished] at h₁; cases h₁
        | clean n h₁ h₂ h₃ h₄ h₅ =>
            refine .clean (n + 1) h₁ h₂ h₃ ?_ ⟨h₅.result, h₅.received, h₅.done, h₅.cancel⟩
            show s.polled ++ [.eof] = _
            rw [h₄, List.replicate_succ' (n := n + 1), List.append_assoc]
        | dirty chunks n message h₁ h₂ h₃ =>
            refine .dirty chunks (n + 1) message h₁ h₂ ?_
            show s.polled ++ [.eof] = _
            rw [h₃, List.replicate_succ', List.append_assoc, List.cons_append]
      · rename_i hfinished
        have hrunning : ∃ chunks : List Bytes, s.polled = chunks.map .data ∧ s.received = chunks ∧
            s.cancel = false := by
          cases hbody with
          | running chunks h₁ h₂ h₃ h₄ =>
              refine ⟨chunks, h₂, by rw [h₃, hqueued, List.append_nil], ?_⟩
              rw [← Bool.not_eq_true]
              intro hcancel
              rw [h₄ hcancel] at hdropped
              cases hdropped
          | clean n h₁ => exact absurd h₁ hfinished
          | dirty chunks n message h₁ => exact absurd h₁ hfinished
        obtain ⟨chunks, hpolled, hchunks, hcancel⟩ := hrunning
        split at h
        · rename_i chunk queue hqueue
          obtain rfl := Option.some.inj h
          refine ⟨(inv.channel.receive hqueue).congr rfl rfl rfl rfl rfl, hstreaming hphase ?_ ?_,
            inv.stopped, inv.logged⟩
          · exact List.append_ne_nil_of_left_ne_nil hreceived _
          · refine .running (chunks ++ [chunk]) (Bool.not_eq_true _ ▸ hfinished) ?_ ?_ ?_
            · show s.polled ++ [.data chunk] = _
              rw [hpolled, List.map_append]
              rfl
            · show s.received ++ [chunk] = chunks ++ [chunk] ++ s.queued
              rw [hchunks, hqueued, List.append_nil]
            · intro h
              rw [show s.cancel = true from h] at hcancel
              cases hcancel
        · rename_i ended queue hqueue
          obtain rfl := Option.some.inj h
          obtain ⟨hnil, hflow, hgone, hdone, result, hresult, rfl⟩ := inv.channel.terminal hqueue
          refine ⟨.consumed hnil hflow hgone hdone, hstreaming hphase hreceived ?_, inv.stopped, inv.logged⟩
          have hclean : (producerEnd result).item = .eof → BodyInv { s with
              frames := { s.frames with queue }
              disarmed := true
              finished := true
              polled := s.polled ++ [(producerEnd result).item] } := by
            intro hitem
            refine .clean 0 rfl rfl hqueued ?_ ⟨⟨result, hresult, hitem⟩, hflow, hdone, hcancel⟩
            show s.polled ++ [_] = s.received.map .data ++ _
            rw [hpolled, hitem, hchunks]
            rfl
          have hdirty : ∀ message, (producerEnd result).item = .error message → BodyInv { s with
              frames := { s.frames with queue }
              disarmed := true
              finished := true
              polled := s.polled ++ [(producerEnd result).item] } := by
            intro message hitem
            refine .dirty chunks 0 message rfl hqueued ?_
            show s.polled ++ [_] = _
            rw [hpolled, hitem]
            rfl
          cases result with
          | ok stats => exact hclean rfl
          | error err =>
              cases err with
              | noCandidateFiles => exact hclean rfl
              | noMatch stats => exact hclean rfl
              | format message => exact hdirty _ rfl
              | io err => exact hdirty _ rfl
        · split at h
          · obtain rfl := Option.some.inj h
            refine ⟨inv.channel.congr rfl rfl rfl rfl rfl, hstreaming hphase hreceived ?_, inv.stopped,
              inv.logged⟩
            refine .dirty chunks 0 "pcap extraction ended unexpectedly" rfl hqueued ?_
            show s.polled ++ [_] = _
            rw [hpolled]
            rfl
          · cases h

theorem LocalInv.new (script : Script) (native : Bool) : LocalInv (.new script native) where
  channel := .open [] script.chunks rfl rfl (.running _ rfl) rfl
  phase := ⟨rfl, rfl, rfl, rfl⟩
  stopped _ := Or.inl ⟨_, rfl⟩
  logged _ h := by cases h

/-- Every step keeps the invariant. -/
theorem LocalInv.step (inv : LocalInv s) {op : LocalOp} (h : s.step op = some s') : LocalInv s' := by
  cases op with
  | produce => exact inv.produce h
  | extractionEnd => exact inv.extractionEnd h
  | sendDone => exact inv.sendDone h
  | doneStalled => exact inv.doneStalled h
  | recv => exact inv.recv h
  | timeout => exact inv.timeout h
  | tryRecv => exact inv.tryRecv h
  | poll => exact inv.poll h
  | drop => exact inv.drop h
  | join => exact inv.join h
  | wedge => exact inv.wedge h

end

/-! ## What the client can rely on -/

/-- The result behind a terminal frame that stands for a clean end. -/
theorem result_of_clean {script : Script} {result : Except FetchError FetchStats}
    (hresult : FetchJoin.result? script.result = some result)
    (hitem : (producerEnd result).item = .eof) :
    (∃ stats, script.result = .ok stats) ∨
      script.chunks = [] ∧ (script.result = .error .noCandidateFiles ∨
        ∃ stats, script.result = .error (.noMatch stats)) := by
  cases hjoin : script.result with
  | ok stats => exact Or.inl ⟨stats, rfl⟩
  | panicked err =>
      rw [hjoin] at hresult
      cases hresult
  | error err =>
      rw [hjoin] at hresult
      obtain rfl := Option.some.inj hresult
      cases err with
      | noCandidateFiles => exact Or.inr ⟨script.noCandidateFiles hjoin, Or.inl rfl⟩
      | noMatch stats => exact Or.inr ⟨script.noMatch stats hjoin, Or.inr ⟨stats, rfl⟩⟩
      | format message => cases hitem
      | io err => cases hitem

/-- What the response of a local capture promises. -/
structure LocalLaw (s : LocalState) : Prop where
  /-- A response that ends cleanly has every byte the fetch has written, in order, and the fetch has
  returned a result; or it is the empty capture file of a native download whose fetch has found nothing. -/
  clean : s.EndedCleanly →
    (∃ stats, s.script.result = .ok stats ∧ s.delivered = s.script.chunks ∧
      s.delivered.flatten = s.script.written) ∨
    s.phase = .answered .emptyPcap ∧ s.native = true ∧ s.script.chunks = [] ∧
      (s.script.result = .error .noCandidateFiles ∨ ∃ stats, s.script.result = .error (.noMatch stats))
  /-- A capture that is cancelled, stopped on its token, failed on an I/O error, or over without its
  terminal frame, does not end cleanly. -/
  stopped : s.cancel = true ∨ s.script.cancelled = true ∧ s.producerGone = true ∨
    (∃ err, s.script.result = .error (.io err)) ∨ s.producerGone = true ∧ s.doneQueued = false →
      ¬ s.EndedCleanly
  /-- A success is logged only where the terminal frame has been queued. -/
  success : ∀ stats, s.logged = some (.success stats) → s.doneQueued = true

/-- Where the response has ended cleanly, the request has received everything. -/
theorem LocalInv.complete {s : LocalState} (inv : LocalInv s) (h : s.EndedCleanly) :
    Complete s ∧ s.delivered = s.received ∧ (s.received = [] → s.phase = .answered .emptyPcap ∧
      s.native = true ∨ ∃ stats, s.script.result = .ok stats) := by
  have hinv := inv.phase
  unfold LocalState.EndedCleanly at h
  unfold PhaseInv at hinv
  unfold LocalState.delivered
  split at h
  · exact absurd h id
  · rename_i answer herror hphase
    rw [hphase] at hinv ⊢
    cases answer with
    | error status code message => exact absurd rfl (herror status code message)
    | emptyPcap =>
        obtain ⟨hnative, hreceived, hcomplete, hpolled⟩ := hinv
        refine ⟨hcomplete, ?_, fun _ => Or.inl ⟨rfl, hnative⟩⟩
        dsimp only
        rw [hpolled, hreceived]
        rfl
    | empty truncated =>
        obtain ⟨hreceived, hcomplete, hpolled, stats, hok, -⟩ := hinv
        refine ⟨hcomplete, ?_, fun _ => Or.inr ⟨stats, hok⟩⟩
        dsimp only
        rw [hpolled, hreceived]
        rfl
    | single chunk truncated =>
        obtain ⟨hreceived, hcomplete⟩ := hinv
        refine ⟨hcomplete, hreceived.symm, ?_⟩
        intro hnil
        rw [hreceived] at hnil
        cases hnil
  · rename_i hphase
    rw [hphase] at hinv ⊢
    obtain ⟨hreceived, hbody⟩ := hinv
    obtain ⟨heof, hnoerror⟩ := h
    cases hbody with
    | running chunks h₁ h₂ =>
        rw [h₂] at heof
        simp at heof
    | clean n h₁ h₂ h₃ h₄ h₅ =>
        refine ⟨h₅, ?_, fun hnil => absurd hnil hreceived⟩
        dsimp only
        rw [h₄, List.filterMap_append, filterMap_chunk?_map]
        simp [List.filterMap_replicate, BodyItem.chunk?]
    | dirty chunks n message h₁ h₂ h₃ =>
        refine absurd ?_ (hnoerror message)
        rw [h₃]
        simp
  · exact absurd h id

theorem LocalInv.law {s : LocalState} (inv : LocalInv s) : LocalLaw s where
  clean h := by
    obtain ⟨hcomplete, hdelivered, hempty⟩ := inv.complete h
    obtain ⟨result, hresult, hitem⟩ := hcomplete.result
    have hok : ∀ stats, s.script.result = .ok stats → ∃ stats, s.script.result = .ok stats ∧
        s.delivered = s.script.chunks ∧ s.delivered.flatten = s.script.written := by
      intro stats hstats
      have hall : s.delivered = s.script.chunks := hdelivered.trans hcomplete.received.symm
      exact ⟨stats, hstats, hall, by rw [hall]; exact (s.script.complete stats hstats).1⟩
    rcases result_of_clean hresult hitem with ⟨stats, hstats⟩ | ⟨hchunks, hnone⟩
    · exact Or.inl (hok stats hstats)
    · rcases hempty (hcomplete.received.symm.trans hchunks) with ⟨hphase, hnative⟩ | ⟨stats, hstats⟩
      · exact Or.inr ⟨hphase, hnative, hchunks, hnone⟩
      · exact Or.inl (hok stats hstats)
  stopped h := by
    intro hclean
    obtain ⟨hcomplete, -, -⟩ := inv.complete hclean
    rcases h with h | ⟨h, hgone⟩ | ⟨err, h⟩ | ⟨-, h⟩
    · rw [hcomplete.cancel] at h
      cases h
    · rcases inv.stopped h with ⟨rest, hproducer⟩ | hcancel
      · rw [LocalState.producerGone, hproducer] at hgone
        cases hgone
      · rw [hcomplete.cancel] at hcancel
        cases hcancel
    · obtain ⟨result, hresult, hitem⟩ := hcomplete.result
      rw [h] at hresult
      obtain rfl := Option.some.inj hresult
      cases hitem
    · rw [hcomplete.done] at h
      cases h
  success := inv.logged

/-- In every run of a local capture its response keeps its promises. -/
theorem local_law {script : Script} {native : Bool} {ops : List LocalOp} {s : LocalState}
    (h : exec LocalState.step (.new script native) ops = some s) : LocalLaw s := by
  have inv : LocalInv s :=
    invariant (fun _ _ _ inv h => LocalInv.step inv h) (.new script native) h
  exact inv.law

/-- An extraction of three bytes in two chunks. -/
def threeBytes : Script where
  chunks := [[1, 2], [3]]
  written := [1, 2, 3]
  result := .ok { packets := 1, bytes := 3, filesScanned := 1 }
  cancelled := false
  nonempty := by decide
  complete stats h := by
    obtain rfl := FetchJoin.ok.inj h
    exact ⟨rfl, rfl⟩
  noMatch _ h := by cases h
  noCandidateFiles h := by cases h

theorem local_law_threeBytes :
    ∃ s, exec LocalState.step (.new threeBytes true) [.produce, .recv, .tryRecv, .produce, .extractionEnd,
        .poll, .sendDone, .join, .poll, .poll] = some s ∧
      s.polled = [.data [1, 2], .data [3], .eof] ∧ LocalLaw s := by
  have hrun : (exec LocalState.step (.new threeBytes true) [.produce, .recv, .tryRecv, .produce,
      .extractionEnd, .poll, .sendDone, .join, .poll, .poll]).map (·.polled) =
        some [.data [1, 2], .data [3], .eof] := by
    decide +kernel
  obtain ⟨s, hs, hpolled⟩ := Option.map_eq_some_iff.mp hrun
  exact ⟨s, hs, hpolled, local_law hs⟩

/-- An extraction that finds no packet. -/
def noPackets : Script where
  chunks := []
  written := []
  result := .error (.noMatch { filesScanned := 1 })
  cancelled := false
  nonempty := no_chunks
  complete _ h := by cases h
  noMatch _ _ := rfl
  noCandidateFiles h := by cases h

/-- A native download that finds no packet ends cleanly, with an empty capture file. -/
theorem noPackets_native :
    ∃ s, exec LocalState.step (.new noPackets true) [.extractionEnd, .sendDone, .recv] = some s ∧
      s.EndedCleanly ∧ ∀ stats, s.script.result ≠ .ok stats := by
  have hrun : (exec LocalState.step (.new noPackets true) [.extractionEnd, .sendDone, .recv]).map
      (fun s => (s.phase, s.script.result)) =
        some (.answered .emptyPcap, .error (.noMatch { filesScanned := 1 })) := by
    decide +kernel
  obtain ⟨s, hs, heq⟩ := Option.map_eq_some_iff.mp hrun
  obtain ⟨hphase, hresult⟩ := Prod.mk.inj heq
  refine ⟨s, hs, ?_, ?_⟩
  · rw [LocalState.EndedCleanly, hphase]
    trivial
  · rw [hresult]
    nofun

end EveBox.Server.Local
