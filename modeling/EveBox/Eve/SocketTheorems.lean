import EveBox.Eve.Socket

/-!
# What becomes of the bytes of a stream socket

* `BudgetInv` — the permits of the byte budget.
* `Streamed` — the candidates, as pieces of what has arrived.
* `Accounts` — the candidates, as queued and dropped.
-/

namespace EveBox.Eve

open Rust Transition

/-! ## The byte budget -/

section

variable {s : StreamSocket} {i : SocketIngress} {record : ℕ} {bytes : Bytes}

theorem length_mod_of_fits (h : fits bytes = true) : bytes.length % 2 ^ 32 = bytes.length := by
  have hle : bytes.length ≤ maxRecordSize := of_decide_eq_true h
  unfold maxRecordSize at hle
  exact Nat.mod_eq_of_lt (by omega)

/-- What `enqueue` does. -/
inductive Enqueued (i : SocketIngress) (record : ℕ) (bytes : Bytes) : Bool × SocketIngress → Prop
  | blank (h : isBlank bytes = true) : Enqueued i record bytes (true, i)
  | dropped (h : isBlank bytes = false) : Enqueued i record bytes (true, i.noteQueueDrop)
  | queued (h : isBlank bytes = false) (hopen : i.sender.closed = false)
      (hlength : i.sender.queue.length < i.sender.capacity) (hbudget : bytes.length ≤ i.byteBudget) :
      Enqueued i record bytes (true, { i with
        sender := i.sender.push ⟨record, bytes, bytes.length⟩, byteBudget := i.byteBudget - bytes.length })
  | gone (h : isBlank bytes = false) : Enqueued i record bytes (false, i)

theorem enqueued (i : SocketIngress) (record : ℕ) (h : fits bytes = true) :
    Enqueued i record bytes (i.enqueue record bytes) := by
  unfold SocketIngress.enqueue
  rw [length_mod_of_fits h]
  split
  · exact .blank ‹_›
  · rename_i hblank
    rw [Bool.not_eq_true] at hblank
    dsimp only
    split
    · exact .dropped hblank
    · rename_i hbudget
      unfold Channel.trySend
      by_cases hclosed : i.sender.closed = true
      · rw [if_pos hclosed]
        exact .gone hblank
      · rw [if_neg hclosed]
        rw [Bool.not_eq_true] at hclosed
        by_cases hlength : i.sender.queue.length < i.sender.capacity
        · rw [if_pos hlength]
          exact .queued hblank hclosed hlength (Nat.le_of_not_lt hbudget)
        · rw [if_neg hlength]
          exact .dropped hblank

theorem enqueued_count (h : fits s.stream.buffer = true) :
    Enqueued s.ingress s.stream.count.record s.stream.buffer
      (s.ingress.enqueue s.stream.count.record s.stream.count.buffer) :=
  enqueued _ _ h

/-- All permits are accounted for, and a record in the queue holds one for each of its bytes. -/
structure BudgetInv (s : StreamSocket) : Prop where
  capacity : s.ingress.sender.capacity = inputQueueRecordCapacity
  length : s.ingress.sender.queue.length ≤ inputQueueRecordCapacity
  permits : ∀ q ∈ s.ingress.sender.queue, q.bytePermit = q.bytes.length
  budget : s.ingress.byteBudget + s.heldPermits = inputQueueByteCapacity

theorem BudgetInv.congr {s' : StreamSocket} (inv : BudgetInv s) (hsender : s'.ingress.sender = s.ingress.sender)
    (hbudget : s'.ingress.byteBudget = s.ingress.byteBudget) (hparsing : s'.parsing = s.parsing) : BudgetInv s' := by
  obtain ⟨hcapacity, hlength, hpermits, hheld⟩ := inv
  unfold StreamSocket.heldPermits at hheld
  constructor
  · rw [hsender, hcapacity]
  · rw [hsender]
    exact hlength
  · rw [hsender]
    exact hpermits
  · unfold StreamSocket.heldPermits
    rw [hsender, hbudget, hparsing, hheld]

theorem BudgetInv.enqueue (inv : BudgetInv s) (next : ReadStream → ReadStream) (h : fits s.stream.buffer = true) :
    BudgetInv (s.enqueue next) := by
  have hcases := enqueued_count h
  unfold StreamSocket.enqueue
  dsimp only
  generalize s.ingress.enqueue s.stream.count.record s.stream.count.buffer = result at hcases ⊢
  cases hcases with
  | blank => exact inv.congr rfl rfl rfl
  | dropped => exact inv.congr rfl rfl rfl
  | gone => exact inv.congr rfl rfl rfl
  | queued hblank hopen hlength hbudget =>
      obtain ⟨hcapacity, -, hpermits, hheld⟩ := inv
      unfold StreamSocket.heldPermits at hheld
      constructor
      · exact hcapacity
      · show (s.ingress.sender.queue ++ [_]).length ≤ _
        rw [List.length_append, List.length_singleton, ← hcapacity]
        exact hlength
      · intro q hq
        rcases List.mem_append.mp hq with hq | hq
        · exact hpermits q hq
        · rw [List.mem_singleton.mp hq]
      · show s.ingress.byteBudget - s.stream.buffer.length +
          (((s.ingress.sender.queue ++ [_]).map fun q : QueuedRecord => q.bytePermit).sum +
            (s.parsing.toList.map (·.bytePermit)).sum) = inputQueueByteCapacity
        rw [List.map_append, List.sum_append, List.map_singleton, List.sum_singleton]
        dsimp only
        omega

theorem BudgetInv.receive {s' : StreamSocket} (inv : BudgetInv s) (h : s.receive = some s') : BudgetInv s' := by
  obtain ⟨hcapacity, hlength, hpermits, hheld⟩ := inv
  unfold StreamSocket.heldPermits at hheld
  unfold StreamSocket.receive at h
  split at h
  · rename_i q queue hparsing hqueue
    cases h
    rw [hqueue] at hlength hpermits hheld
    rw [hparsing] at hheld
    refine ⟨hcapacity, Nat.le_of_succ_le hlength, fun r hr => hpermits r (List.mem_cons_of_mem _ hr), ?_⟩
    show s.ingress.byteBudget + ((queue.map (·.bytePermit)).sum + q.bytePermit) = _
    rw [List.map_cons, List.sum_cons] at hheld
    simp only [Option.toList_none, List.map_nil, List.sum_nil] at hheld
    omega
  · cases h

theorem BudgetInv.release {s' : StreamSocket} (inv : BudgetInv s) (h : s.release = some s') : BudgetInv s' := by
  obtain ⟨hcapacity, hlength, hpermits, hheld⟩ := inv
  obtain ⟨q, hparsing, rfl⟩ := Option.map_eq_some_iff.mp h
  refine ⟨hcapacity, hlength, hpermits, ?_⟩
  unfold StreamSocket.heldPermits at hheld ⊢
  rw [hparsing] at hheld
  simp only [Option.toList_some, Option.toList_none, List.map_cons, List.map_nil, List.sum_cons, List.sum_nil] at hheld ⊢
  omega

theorem BudgetInv.dropProcessor (inv : BudgetInv s) : BudgetInv s.dropProcessor :=
  ⟨inv.capacity, Nat.zero_le _, fun _ hq => absurd hq List.not_mem_nil, inv.budget⟩

/-- The records in the queue are within both capacities. -/
theorem BudgetInv.bytes_le (inv : BudgetInv s) :
    totalLength (s.ingress.sender.queue.map (·.bytes)) ≤ inputQueueByteCapacity := by
  have hsum : totalLength (s.ingress.sender.queue.map (·.bytes)) = (s.ingress.sender.queue.map (·.bytePermit)).sum := by
    unfold totalLength
    rw [List.map_map]
    exact congrArg List.sum (List.map_congr_left fun q hq => (inv.permits q hq).symm)
  have hheld := inv.budget
  unfold StreamSocket.heldPermits at hheld
  omega

theorem BudgetInv.returned (inv : BudgetInv s) (hqueue : s.ingress.sender.queue = []) (hparsing : s.parsing = none) :
    s.ingress.byteBudget = inputQueueByteCapacity := by
  have hheld := inv.budget
  unfold StreamSocket.heldPermits at hheld
  rw [hqueue, hparsing] at hheld
  exact hheld

/-- The processor can always drain the queue. -/
theorem BudgetInv.drains (inv : BudgetInv s) : s.Drains := by
  have hdrain : ∀ (n : ℕ) (s : StreamSocket), BudgetInv s → s.ingress.sender.queue.length = n → s.parsing = none →
      s.Drains := by
    intro n
    induction n with
    | zero =>
        intro s inv hlength hparsing
        have hqueue := List.eq_nil_of_length_eq_zero hlength
        exact ⟨[], s, fun _ h => absurd h List.not_mem_nil, rfl, hqueue, inv.returned hqueue hparsing⟩
    | succ n ih =>
        intro s inv hlength hparsing
        obtain ⟨q, queue, hqueue⟩ := List.exists_cons_of_length_eq_add_one hlength
        obtain ⟨s₁, hreceive, hqueue₁, hparsing₁⟩ : ∃ s₁, s.receive = some s₁ ∧ s₁.ingress.sender.queue = queue ∧
            s₁.parsing = some q := by
          unfold StreamSocket.receive
          rw [hparsing, hqueue]
          exact ⟨_, rfl, rfl, rfl⟩
        obtain ⟨s₂, hrelease, hqueue₂, hparsing₂⟩ : ∃ s₂, s₁.release = some s₂ ∧ s₂.ingress.sender.queue = queue ∧
            s₂.parsing = none := by
          unfold StreamSocket.release
          rw [hparsing₁]
          exact ⟨_, rfl, hqueue₁, rfl⟩
        have hlength₂ : s₂.ingress.sender.queue.length = n := by
          rw [hqueue₂]
          rw [hqueue, List.length_cons] at hlength
          exact Nat.succ.inj hlength
        obtain ⟨ops, s', hops, hexec, hs'⟩ := ih s₂ ((inv.receive hreceive).release hrelease) hlength₂ hparsing₂
        refine ⟨.receive :: .release :: ops, s', ?_, ?_, hs'⟩
        · simpa using hops
        · exact exec_cons_eq_some.mpr ⟨s₁, hreceive, exec_cons_eq_some.mpr ⟨s₂, hrelease, hexec⟩⟩
  cases hparsing : s.parsing with
  | none => exact hdrain _ s inv rfl hparsing
  | some q =>
      obtain ⟨s₁, hrelease, hparsing₁⟩ : ∃ s₁, s.release = some s₁ ∧ s₁.parsing = none := by
        unfold StreamSocket.release
        rw [hparsing]
        exact ⟨_, rfl, rfl⟩
      obtain ⟨ops, s', hops, hexec, hs'⟩ := hdrain _ s₁ (inv.release hrelease) rfl hparsing₁
      refine ⟨.release :: ops, s', ?_, exec_cons_eq_some.mpr ⟨s₁, hrelease, hexec⟩, hs'⟩
      simpa using hops

end

/-! ## The stream -/

section

variable {r : ReadStream}

/-- What has arrived is some records, the buffer and what is unread. -/
structure Reading (r : ReadStream) : Prop where
  arrived : r.candidates.flatten ++ r.buffer ++ r.unread = r.arrived
  lines : ∀ record ∈ r.candidates, Lines.IsLine newline record
  fits : ∀ record ∈ r.candidates, fits record = true
  buffer : newline ∉ r.buffer
  fresh : r.fresh = true → r.buffer ≠ []

/-- The last piece has been a record, without a newline. -/
structure Finished (r : ReadStream) : Prop where
  hungUp : r.hungUp = true
  unread : r.unread = []
  buffer : r.buffer = []
  fresh : r.fresh = false
  pieces : r.candidates = Lines.pieces newline r.arrived
  fits : ∀ record ∈ r.candidates, fits record = true

/-- The candidates are the first pieces. -/
def Taken (r : ReadStream) (rest : List Bytes) : Prop :=
  Lines.pieces newline r.arrived = r.candidates ++ rest ∧ ∀ record ∈ r.candidates, fits record = true

/-- How far the stream has come. -/
def Streamed (r : ReadStream) : Prop :=
  match r.ended with
  | none => Reading r ∨ Finished r
  | some .endOfStream => Taken r []
  | some .oversized => ∃ piece rest, Taken r (piece :: rest) ∧ fits piece = false
  | some _ => ∃ rest, Taken r rest

theorem Reading.pieces (h : Reading r) :
    Lines.pieces newline r.arrived = r.candidates ++ Lines.pieces newline (r.buffer ++ r.unread) := by
  rw [← h.arrived, List.append_assoc]
  exact Lines.pieces_flatten_append h.lines _

theorem Finished.taken (h : Finished r) : Taken r [] := ⟨by rw [← h.pieces, List.append_nil], h.fits⟩

/-- A candidate more. -/
theorem Taken.next {piece : Bytes} {rest : List Bytes} (h : Taken r (piece :: rest)) (hfits : fits piece = true) :
    Lines.pieces newline r.arrived = r.candidates ++ [piece] ++ rest ∧
      ∀ record ∈ r.candidates ++ [piece], fits record = true := by
  refine ⟨by rw [List.append_assoc]; exact h.1, fun record hrecord => ?_⟩
  rcases List.mem_append.mp hrecord with hrecord | hrecord
  · exact h.2 record hrecord
  · exact List.mem_singleton.mp hrecord ▸ hfits

theorem fits_of_prefix {a b : Bytes} (h : fits a = false) : fits (a ++ b) = false := by
  have hlt : maxRecordSize < a.length := Nat.lt_of_not_le (of_decide_eq_false h)
  refine decide_eq_false (Nat.not_le_of_lt (Nat.lt_of_lt_of_le hlt ?_))
  rw [List.length_append]
  exact Nat.le_add_right _ _

theorem ne_nil_of_not_fits {a : Bytes} (h : fits a = false) : a ≠ [] := by
  rintro rfl
  exact absurd h (by decide)

/-- A buffer that is too long is in a piece that is. -/
theorem Reading.oversized (h : Reading r) (hlong : Eve.fits r.buffer = false) :
    ∃ piece rest, Taken r (piece :: rest) ∧ Eve.fits piece = false := by
  obtain ⟨last, rest, hpieces⟩ := Lines.pieces_append_cons h.buffer (ne_nil_of_not_fits hlong) r.unread
  refine ⟨r.buffer ++ last, rest, ⟨?_, h.fits⟩, fits_of_prefix hlong⟩
  rw [h.pieces, hpieces]

/-- The buffer through a newline is the next piece. -/
theorem Reading.line (h : Reading r) (hmem : newline ∈ r.unread) :
    Lines.IsLine newline (r.buffer ++ Lines.first newline r.unread) ∧
      Taken r ((r.buffer ++ Lines.first newline r.unread) ::
        Lines.pieces newline (r.unread.drop (Lines.first newline r.unread).length)) := by
  have hline : Lines.IsLine newline (r.buffer ++ Lines.first newline r.unread) := by
    obtain ⟨body, hbody, hnot⟩ := Lines.isLine_first hmem
    refine ⟨r.buffer ++ body, by rw [hbody, List.append_assoc], ?_⟩
    rw [List.mem_append, not_or]
    exact ⟨h.buffer, hnot⟩
  refine ⟨hline, ?_, h.fits⟩
  have hall : ∀ line ∈ [r.buffer ++ Lines.first newline r.unread], Lines.IsLine newline line :=
    fun line hl => List.mem_singleton.mp hl ▸ hline
  have hpieces := Lines.pieces_flatten_append hall (r.unread.drop (Lines.first newline r.unread).length)
  rw [List.flatten_singleton, List.append_assoc, Lines.first_append_drop] at hpieces
  rw [h.pieces, hpieces]
  rfl

/-- At the end of the stream the buffer is the last piece, if there is one. -/
theorem Reading.end (h : Reading r) (hunread : r.unread = []) :
    Taken r (if r.buffer = [] then [] else [r.buffer]) := by
  refine ⟨?_, h.fits⟩
  rw [h.pieces, hunread, List.append_nil]
  split
  · rename_i hnil
    rw [hnil]
    rfl
  · rename_i hne
    rw [Lines.pieces_of_not_mem h.buffer hne]

/-- The stream after a candidate: it goes on as `next`, or has found the processor gone. -/
theorem streamed_enqueue {s : StreamSocket} {next : ReadStream → ReadStream} (hnext : Streamed (next s.stream.count))
    {rest : List Bytes} (htaken : Taken s.stream (s.stream.buffer :: rest)) (hfits : fits s.stream.buffer = true) :
    Streamed (s.enqueue next).stream := by
  unfold StreamSocket.enqueue
  dsimp only
  split
  · exact hnext
  · exact ⟨rest, htaken.next hfits⟩

end

/-! ## The account -/

section

variable {s s' : StreamSocket} {records : List Bytes}

/-- Of some records, those that are not blank are queued or counted as dropped. -/
structure Accounts (s : StreamSocket) (records : List Bytes) : Prop where
  before : s.stream.queuedBefore ≤ s.queued.length
  queued : s.ownQueued.Sublist (toQueue records)
  dropped : s.ingress.queueDrops + s.ownQueued.length = s.stream.dropsBefore + (toQueue records).length

theorem Accounts.congr (h : Accounts s records) (hqueued : s'.queued = s.queued)
    (hdrops : s'.ingress.queueDrops = s.ingress.queueDrops) (hbefore : s'.stream.queuedBefore = s.stream.queuedBefore)
    (hdropsBefore : s'.stream.dropsBefore = s.stream.dropsBefore) : Accounts s' records := by
  have hown : s'.ownQueued = s.ownQueued := by
    unfold StreamSocket.ownQueued
    rw [hqueued, hbefore]
  constructor
  · rw [hbefore, hqueued]
    exact h.before
  · rw [hown]
    exact h.queued
  · rw [hown, hdrops, hdropsBefore]
    exact h.dropped

/-- One record more, with the next number. -/
theorem toQueue_append (records : List Bytes) (bytes : Bytes) :
    toQueue (records ++ [bytes]) =
      toQueue records ++ if isBlank bytes then [] else [(bytes, records.length + 1)] := by
  unfold toQueue
  rw [List.zipIdx_append, List.filter_append, Nat.add_comm 1]
  refine congrArg _ ?_
  cases hblank : isBlank bytes <;> simp [hblank]

theorem Accounts.blank (h : Accounts s records) {bytes : Bytes} (hblank : isBlank bytes = true) :
    Accounts s (records ++ [bytes]) := by
  have hsame : toQueue (records ++ [bytes]) = toQueue records := by
    rw [toQueue_append, if_pos hblank, List.append_nil]
  exact ⟨h.before, hsame ▸ h.queued, hsame ▸ h.dropped⟩

/-- A next record that is not queued but counted as dropped. -/
theorem Accounts.drop (h : Accounts s records) {bytes : Bytes} (hblank : isBlank bytes = false)
    (hqueued : s'.queued = s.queued) (hdrops : s'.ingress.queueDrops = s.ingress.queueDrops + 1)
    (hbefore : s'.stream.queuedBefore = s.stream.queuedBefore) (hdropsBefore : s'.stream.dropsBefore = s.stream.dropsBefore) :
    Accounts s' (records ++ [bytes]) := by
  have hown : s'.ownQueued = s.ownQueued := by
    unfold StreamSocket.ownQueued
    rw [hqueued, hbefore]
  have hdropped := h.dropped
  constructor
  · rw [hbefore, hqueued]
    exact h.before
  · rw [hown, toQueue_append]
    exact h.queued.trans (List.sublist_append_left _ _)
  · rw [hown, hdrops, hdropsBefore, toQueue_append, hblank, List.length_append]
    simp only [Bool.false_eq_true, if_false, List.length_singleton]
    omega

/-- A next record that is queued. -/
theorem Accounts.push (h : Accounts s records) {q : QueuedRecord} (hblank : isBlank q.bytes = false)
    (hrecord : q.record = records.length + 1) (hqueued : s'.queued = s.queued ++ [q])
    (hdrops : s'.ingress.queueDrops = s.ingress.queueDrops)
    (hbefore : s'.stream.queuedBefore = s.stream.queuedBefore) (hdropsBefore : s'.stream.dropsBefore = s.stream.dropsBefore) :
    Accounts s' (records ++ [q.bytes]) := by
  have hown : s'.ownQueued = s.ownQueued ++ [(q.bytes, records.length + 1)] := by
    unfold StreamSocket.ownQueued
    rw [hqueued, hbefore, List.drop_append_of_le_length h.before, List.map_append, List.map_singleton, hrecord]
  have hdropped := h.dropped
  constructor
  · rw [hbefore, hqueued, List.length_append]
    exact Nat.le_add_right_of_le h.before
  · rw [hown, toQueue_append, hblank]
    exact h.queued.append (List.Sublist.refl _)
  · rw [hown, hdrops, hdropsBefore, toQueue_append, hblank, List.length_append, List.length_append]
    simp only [Bool.false_eq_true, if_false, List.length_singleton]
    omega

/-- What `next` may change. -/
structure KeepsAccount (next : ReadStream → ReadStream) : Prop where
  queuedBefore : ∀ r, (next r).queuedBefore = r.queuedBefore
  dropsBefore : ∀ r, (next r).dropsBefore = r.dropsBefore
  candidates : ∀ r, (next r).candidates = r.candidates
  record : ∀ r, (next r).record = r.record
  ended : ∀ r, r.ended = none → (next r).ended ≠ some .processorGone

theorem accounts_enqueue {next : ReadStream → ReadStream} (hnext : KeepsAccount next) (hopen : s.stream.ended = none)
    (h : Accounts s s.stream.candidates) (hrecord : s.stream.record = s.stream.candidates.length)
    (hfits : fits s.stream.buffer = true) : Accounts (s.enqueue next) (s.enqueue next).decided := by
  have hcases := enqueued_count hfits
  have halive : ∀ ingress parsing left, StreamSocket.decided ⟨ingress, next s.stream.count, parsing, left⟩ =
      s.stream.candidates ++ [s.stream.buffer] := by
    intro ingress parsing left
    unfold StreamSocket.decided
    rw [if_neg (hnext.ended s.stream.count hopen), hnext.candidates]
    rfl
  have hqueuedBefore := hnext.queuedBefore s.stream.count
  have hdropsBefore := hnext.dropsBefore s.stream.count
  unfold StreamSocket.enqueue
  dsimp only
  generalize s.ingress.enqueue s.stream.count.record s.stream.count.buffer = result at hcases ⊢
  cases hcases with
  | blank hblank =>
      rw [if_pos rfl, halive]
      exact (h.blank hblank).congr rfl rfl hqueuedBefore hdropsBefore
  | dropped hblank =>
      rw [if_pos rfl, halive]
      exact h.drop hblank rfl rfl hqueuedBefore hdropsBefore
  | queued hblank =>
      rw [if_pos rfl, halive]
      refine h.push (q := ⟨s.stream.count.record, s.stream.buffer, s.stream.buffer.length⟩) hblank ?_ ?_ rfl hqueuedBefore
        hdropsBefore
      · exact congrArg (· + 1) hrecord
      · exact (List.append_assoc ..).symm
  | gone =>
      have hdecided : ∀ ingress parsing left, StreamSocket.decided
          ⟨ingress, { s.stream.count with ended := some .processorGone }, parsing, left⟩ = s.stream.candidates := by
        intro ingress parsing left
        exact (if_pos rfl).trans List.dropLast_concat
      rw [if_neg Bool.false_ne_true, hdecided]
      exact h.congr rfl rfl rfl rfl

end

/-! ## The steps -/

section

variable {s s' : StreamSocket}

structure SocketInv (s : StreamSocket) : Prop where
  budget : BudgetInv s
  accounts : Accounts s s.decided
  streamed : Streamed s.stream
  numbered : s.stream.ended = none → s.stream.record = s.stream.candidates.length

/-- The same of an open connection, but for its stream. -/
structure OpenInv (s : StreamSocket) : Prop where
  ended : s.stream.ended = none
  budget : BudgetInv s
  accounts : Accounts s s.stream.candidates
  numbered : s.stream.record = s.stream.candidates.length

theorem decided_of_ne (h : s.stream.ended ≠ some .processorGone) : s.decided = s.stream.candidates := if_neg h

theorem SocketInv.open (inv : SocketInv s) (h : s.stream.ended = none) : OpenInv s := by
  refine ⟨h, inv.budget, ?_, inv.numbered h⟩
  have hdecided : s.decided = s.stream.candidates := decided_of_ne (h ▸ nofun)
  exact hdecided ▸ inv.accounts

/-- A step that is not about a candidate. -/
theorem OpenInv.quiet (h : OpenInv s) (r : ReadStream) (errors : ℕ) (hcandidates : r.candidates = s.stream.candidates)
    (hrecord : r.record = s.stream.record) (hqueuedBefore : r.queuedBefore = s.stream.queuedBefore)
    (hdropsBefore : r.dropsBefore = s.stream.dropsBefore) (hended : r.ended ≠ some .processorGone)
    (hstreamed : Streamed r) : SocketInv { s with ingress := { s.ingress with errors := errors }, stream := r } := by
  refine ⟨h.budget.congr rfl rfl rfl, ?_, hstreamed, fun _ => ?_⟩
  · rw [decided_of_ne hended]
    exact hcandidates ▸ h.accounts.congr rfl rfl hqueuedBefore hdropsBefore
  · exact hrecord.trans (h.numbered.trans (congrArg List.length hcandidates.symm))

theorem OpenInv.closeOversized (h : OpenInv s) {piece : Bytes} {rest : List Bytes}
    (htaken : Taken s.stream (piece :: rest)) (hlong : fits piece = false) : SocketInv s.closeOversized :=
  h.quiet { s.stream with ended := some .oversized } _ rfl rfl rfl rfl nofun ⟨piece, rest, htaken, hlong⟩

theorem OpenInv.enqueue (h : OpenInv s) {next : ReadStream → ReadStream} (hnext : KeepsAccount next) {rest : List Bytes}
    (htaken : Taken s.stream (s.stream.buffer :: rest)) (hfits : fits s.stream.buffer = true)
    (hstreamed : Streamed (next s.stream.count)) : SocketInv (s.enqueue next) := by
  refine ⟨h.budget.enqueue next hfits, accounts_enqueue hnext h.ended h.accounts h.numbered hfits,
    streamed_enqueue hstreamed htaken hfits, fun hended => ?_⟩
  unfold StreamSocket.enqueue at hended ⊢
  dsimp only at hended ⊢
  split
  · rw [hnext.record, hnext.candidates]
    show s.stream.record + 1 = (s.stream.candidates ++ [s.stream.buffer]).length
    rw [h.numbered, List.length_append, List.length_singleton]
  · rw [if_neg ‹_›] at hended
    cases hended

theorem fits_eq_false {bytes : Bytes} : bytes.length > maxRecordSize ↔ fits bytes = false := by
  unfold fits
  rw [decide_eq_false_iff_not, Nat.not_le]

theorem OpenInv.readRecord (h : OpenInv s) {rest : List Bytes} (htaken : Taken s.stream (s.stream.buffer :: rest))
    (hstreamed : fits s.stream.buffer = true → Streamed { s.stream.count with buffer := [], fresh := false }) :
    SocketInv s.readRecord := by
  unfold StreamSocket.readRecord
  split
  · exact h.closeOversized htaken (fits_eq_false.mp ‹_›)
  · rename_i hfits
    rw [fits_eq_false, Bool.not_eq_false] at hfits
    refine h.enqueue ⟨fun _ => rfl, fun _ => rfl, fun _ => rfl, fun _ => rfl, fun r hr => ?_⟩ htaken hfits (hstreamed hfits)
    exact hr ▸ nofun

theorem OpenInv.readNothing (h : OpenInv s) (htaken : Taken s.stream (if s.stream.buffer = [] then [] else [s.stream.buffer])) :
    SocketInv s.readNothing := by
  unfold StreamSocket.readNothing
  split
  · rename_i hne
    rw [if_neg hne] at htaken
    split
    · exact h.closeOversized htaken (fits_eq_false.mp ‹_›)
    · rename_i hfits
      rw [fits_eq_false, Bool.not_eq_false] at hfits
      refine h.enqueue ⟨fun _ => rfl, fun _ => rfl, fun _ => rfl, fun _ => rfl, fun _ _ => nofun⟩ htaken hfits ?_
      have hnext := htaken.next hfits
      exact ⟨hnext.1, hnext.2⟩
  · rename_i hnil
    rw [ne_eq, not_not] at hnil
    rw [if_pos hnil] at htaken
    exact h.quiet { s.stream with ended := some .endOfStream } _ rfl rfl rfl rfl nofun htaken

theorem SocketInv.open_streamed (inv : SocketInv s) (h : s.stream.ended = none) : Reading s.stream ∨ Finished s.stream := by
  have hstreamed := inv.streamed
  unfold Streamed at hstreamed
  rw [h] at hstreamed
  exact hstreamed

theorem streamed_of_open {r : ReadStream} (hended : r.ended = none) (h : Reading r ∨ Finished r) : Streamed r := by
  unfold Streamed
  rw [hended]
  exact h

theorem SocketInv.arrive (inv : SocketInv s) {bytes : Bytes} (h : s.arrive bytes = some s') : SocketInv s' := by
  obtain ⟨⟨hended, hhungUp⟩, heq⟩ := Option.ite_none_right_eq_some.mp h
  cases heq
  have hopen := inv.open hended
  refine hopen.quiet _ s.ingress.errors rfl rfl rfl rfl (hended ▸ nofun) (streamed_of_open hended (.inl ?_))
  rcases inv.open_streamed hended with hreading | hfinished
  · exact ⟨by rw [← hreading.arrived]; simp only [List.append_assoc], hreading.lines, hreading.fits, hreading.buffer,
      hreading.fresh⟩
  · rw [hfinished.hungUp] at hhungUp
    cases hhungUp

theorem SocketInv.hangUp (inv : SocketInv s) (h : s.hangUp = some s') : SocketInv s' := by
  obtain ⟨hended, heq⟩ := Option.ite_none_right_eq_some.mp h
  cases heq
  refine (inv.open hended).quiet _ s.ingress.errors rfl rfl rfl rfl (hended ▸ nofun) (streamed_of_open hended ?_)
  rcases inv.open_streamed hended with hreading | hfinished
  · exact .inl ⟨hreading.arrived, hreading.lines, hreading.fits, hreading.buffer, hreading.fresh⟩
  · exact .inr ⟨rfl, hfinished.unread, hfinished.buffer, hfinished.fresh, hfinished.pieces, hfinished.fits⟩

theorem SocketInv.readPart (inv : SocketInv s) {n : ℕ} (h : s.readPart n = some s') : SocketInv s' := by
  obtain ⟨⟨hended, hpos, hle, hnewline⟩, heq⟩ := Option.ite_none_right_eq_some.mp h
  cases heq
  refine (inv.open hended).quiet _ s.ingress.errors rfl rfl rfl rfl (hended ▸ nofun) (streamed_of_open hended ?_)
  rcases inv.open_streamed hended with hreading | hfinished
  · refine .inl ⟨?_, hreading.lines, hreading.fits, ?_, fun _ hnil => ?_⟩
    · show s.stream.candidates.flatten ++ (s.stream.buffer ++ s.stream.unread.take n) ++ s.stream.unread.drop n = _
      rw [← List.append_assoc, List.append_assoc, List.take_append_drop]
      exact hreading.arrived
    · show newline ∉ s.stream.buffer ++ s.stream.unread.take n
      rw [List.mem_append, not_or]
      exact ⟨hreading.buffer, hnewline⟩
    · have hlength := congrArg List.length (List.append_eq_nil_iff.mp hnil).2
      rw [List.length_take, List.length_nil] at hlength
      omega
  · rw [hfinished.unread, List.length_nil] at hle
    omega

theorem SocketInv.readLine (inv : SocketInv s) (h : s.readLine = some s') : SocketInv s' := by
  obtain ⟨⟨hended, hmem⟩, heq⟩ := Option.ite_none_right_eq_some.mp h
  cases heq
  have hreading : Reading s.stream := by
    rcases inv.open_streamed hended with hreading | hfinished
    · exact hreading
    · rw [hfinished.unread] at hmem
      cases hmem
  have hopen := inv.open hended
  have hfirst : s.stream.unread.take (Lines.first newline s.stream.unread).length = Lines.first newline s.stream.unread :=
    (List.prefix_iff_eq_take.mp (Lines.first_isPrefix newline s.stream.unread)).symm
  obtain ⟨hline, htaken⟩ := hreading.line hmem
  rw [← hfirst] at hline htaken
  have hconsumed : OpenInv { s with stream := s.stream.consume (Lines.first newline s.stream.unread).length } :=
    ⟨hended, hopen.budget.congr rfl rfl rfl, hopen.accounts.congr rfl rfl rfl rfl, hopen.numbered⟩
  refine hconsumed.readRecord htaken fun hfits => ?_
  have hnext := htaken.next hfits
  refine streamed_of_open hended (.inl ⟨?_, fun record hrecord => ?_, hnext.2, List.not_mem_nil, nofun⟩)
  · show (s.stream.candidates ++ [_]).flatten ++ [] ++ s.stream.unread.drop _ = s.stream.arrived
    rw [List.flatten_append, List.flatten_singleton, List.append_nil, ← hreading.arrived]
    show s.stream.candidates.flatten ++ (s.stream.buffer ++ s.stream.unread.take _) ++ s.stream.unread.drop _ = _
    rw [← List.append_assoc, List.append_assoc, List.take_append_drop]
  · rcases List.mem_append.mp hrecord with hrecord | hrecord
    · exact hreading.lines record hrecord
    · exact List.mem_singleton.mp hrecord ▸ hline

theorem SocketInv.readEnd (inv : SocketInv s) (h : s.readEnd = some s') : SocketInv s' := by
  obtain ⟨⟨hended, hhungUp, hunread⟩, heq⟩ := Option.ite_none_right_eq_some.mp h
  cases heq
  have hopen := inv.open hended
  rcases inv.open_streamed hended with hreading | hfinished
  · have htaken := hreading.end hunread
    split
    · rename_i hfresh
      rw [if_neg (hreading.fresh hfresh)] at htaken
      refine hopen.readRecord htaken fun hfits => ?_
      have hnext := htaken.next hfits
      refine streamed_of_open hended (.inr ⟨hhungUp, hunread, rfl, rfl, ?_, hnext.2⟩)
      exact (hnext.1.trans (List.append_nil _)).symm
    · exact hopen.readNothing htaken
  · rw [if_neg (hfinished.fresh ▸ Bool.false_ne_true)]
    refine hopen.readNothing ?_
    rw [if_pos hfinished.buffer]
    exact hfinished.taken

/-- A stream that is open has taken some pieces. -/
theorem SocketInv.taken (inv : SocketInv s) (h : s.stream.ended = none) : ∃ rest, Taken s.stream rest := by
  rcases inv.open_streamed h with hreading | hfinished
  · exact ⟨_, hreading.pieces, hreading.fits⟩
  · exact ⟨_, hfinished.taken⟩

theorem SocketInv.readError (inv : SocketInv s) (h : s.readError = some s') : SocketInv s' := by
  obtain ⟨hended, heq⟩ := Option.ite_none_right_eq_some.mp h
  cases heq
  exact (inv.open hended).quiet { s.stream with ended := some .failed } _ rfl rfl rfl rfl nofun (inv.taken hended)

theorem SocketInv.tick (inv : SocketInv s) (h : s.tick = some s') : SocketInv s' := by
  obtain ⟨hended, heq⟩ := Option.ite_none_right_eq_some.mp h
  have hopen := inv.open hended
  split at heq
  · rename_i hlong
    cases heq
    rw [fits_eq_false] at hlong
    rcases inv.open_streamed hended with hreading | hfinished
    · obtain ⟨piece, rest, htaken, hpiece⟩ := hreading.oversized hlong
      exact hopen.closeOversized htaken hpiece
    · exact absurd hfinished.buffer (ne_nil_of_not_fits hlong)
  · cases heq
    refine hopen.quiet _ s.ingress.errors rfl rfl rfl rfl (hended ▸ nofun) (streamed_of_open hended ?_)
    rcases inv.open_streamed hended with hreading | hfinished
    · exact .inl ⟨hreading.arrived, hreading.lines, hreading.fits, hreading.buffer, nofun⟩
    · exact .inr ⟨hfinished.hungUp, hfinished.unread, hfinished.buffer, rfl, hfinished.pieces, hfinished.fits⟩

/-- A connection at its beginning. -/
theorem socketInv_new (budget : BudgetInv s) : SocketInv { s with stream := .new s.queued.length s.ingress.queueDrops } := by
  have hown : StreamSocket.ownQueued { s with stream := .new s.queued.length s.ingress.queueDrops } = [] := by
    show (s.queued.drop s.queued.length).map _ = []
    rw [List.drop_length]
    rfl
  refine ⟨budget.congr rfl rfl rfl, ⟨Nat.le_refl _, ?_, ?_⟩, .inl ⟨rfl, ?_, ?_, List.not_mem_nil, nofun⟩, fun _ => rfl⟩
  · rw [hown]
    exact List.nil_sublist _
  · rw [hown]
    rfl
  · exact fun _ h => absurd h List.not_mem_nil
  · exact fun _ h => absurd h List.not_mem_nil

theorem SocketInv.accept (inv : SocketInv s) (h : s.accept = some s') : SocketInv s' := by
  unfold StreamSocket.accept at h
  split at h
  · cases h
  · cases h
  · cases h
    exact socketInv_new inv.budget

/-- A step of the processor. -/
theorem SocketInv.processor (inv : SocketInv s) (budget : BudgetInv s') (hstream : s'.stream = s.stream)
    (hqueued : s'.queued = s.queued) (hdrops : s'.ingress.queueDrops = s.ingress.queueDrops) : SocketInv s' := by
  have hdecided : s'.decided = s.decided := by
    unfold StreamSocket.decided
    rw [hstream]
  refine ⟨budget, ?_, hstream ▸ inv.streamed, hstream ▸ inv.numbered⟩
  rw [hdecided]
  exact inv.accounts.congr hqueued hdrops (congrArg _ hstream) (congrArg _ hstream)

theorem SocketInv.receive (inv : SocketInv s) (h : s.receive = some s') : SocketInv s' := by
  have hbudget := inv.budget.receive h
  unfold StreamSocket.receive at h
  split at h
  · rename_i q queue hparsing hqueue
    cases h
    refine inv.processor hbudget rfl ?_ rfl
    show s.left ++ [q] ++ queue = s.left ++ s.ingress.sender.queue
    rw [hqueue, List.append_assoc]
    rfl
  · cases h

theorem SocketInv.release (inv : SocketInv s) (h : s.release = some s') : SocketInv s' := by
  have hbudget := inv.budget.release h
  obtain ⟨q, -, rfl⟩ := Option.map_eq_some_iff.mp h
  exact inv.processor hbudget rfl rfl rfl

theorem SocketInv.dropProcessor (inv : SocketInv s) : SocketInv s.dropProcessor :=
  inv.processor inv.budget.dropProcessor rfl (List.append_nil _) rfl

theorem SocketInv.step (s : StreamSocket) (op : StreamOp) (s' : StreamSocket) (inv : SocketInv s)
    (h : s.step op = some s') : SocketInv s' := by
  cases op with
  | arrive bytes => exact inv.arrive h
  | hangUp => exact inv.hangUp h
  | readPart n => exact inv.readPart h
  | readLine => exact inv.readLine h
  | readEnd => exact inv.readEnd h
  | readError => exact inv.readError h
  | tick => exact inv.tick h
  | accept => exact inv.accept h
  | receive => exact inv.receive h
  | release => exact inv.release h
  | dropProcessor => exact Option.some.inj h ▸ inv.dropProcessor

theorem socketInv_start : SocketInv .new :=
  socketInv_new (s := .new) ⟨rfl, Nat.zero_le _, fun _ h => absurd h List.not_mem_nil, rfl⟩

/-! ## The result -/

theorem Taken.takeWhile {r : ReadStream} {rest : List Bytes} (h : Taken r rest) :
    (Lines.pieces newline r.arrived).takeWhile fits = r.candidates ++ rest.takeWhile fits := by
  rw [h.1, List.takeWhile_append_of_pos h.2]

theorem SocketInv.exists_taken (inv : SocketInv s) : ∃ rest, Taken s.stream rest := by
  have hstreamed := inv.streamed
  unfold Streamed at hstreamed
  split at hstreamed
  · exact inv.taken ‹_›
  · exact ⟨_, hstreamed⟩
  · obtain ⟨piece, rest, htaken, -⟩ := hstreamed
    exact ⟨_, htaken⟩
  · exact hstreamed

theorem SocketInv.lawful (inv : SocketInv s) : s.Lawful where
  candidates := by
    obtain ⟨rest, htaken⟩ := inv.exists_taken
    exact ⟨_, htaken.takeWhile.symm⟩
  reading h := by
    rcases inv.open_streamed h with hreading | hfinished
    · exact hreading.arrived
    · rw [hfinished.buffer, hfinished.unread, hfinished.pieces, List.append_nil, List.append_nil]
      exact Lines.flatten_pieces _ _
  endOfStream h := by
    have hstreamed := inv.streamed
    unfold Streamed at hstreamed
    rw [h] at hstreamed
    exact (hstreamed.1.trans (List.append_nil _)).symm
  oversized h := by
    have hstreamed := inv.streamed
    unfold Streamed at hstreamed
    rw [h] at hstreamed
    obtain ⟨piece, rest, htaken, hpiece⟩ := hstreamed
    constructor
    · rw [htaken.takeWhile, List.takeWhile_cons_of_neg (by rw [hpiece]; exact Bool.false_ne_true), List.append_nil]
    · refine ⟨piece, ?_, hpiece⟩
      rw [htaken.1]
      exact List.mem_append_right _ List.mem_cons_self
  queued := inv.accounts.queued
  dropped := inv.accounts.dropped
  records := inv.budget.length
  bytes := inv.budget.bytes_le
  returned := inv.budget.returned

theorem enqueue_buffer {next : ReadStream → ReadStream} (hnext : ∀ r, (next r).ended = none → (next r).buffer = [])
    (h : (s.enqueue next).stream.ended = none) : (s.enqueue next).stream.buffer = [] := by
  unfold StreamSocket.enqueue at h ⊢
  dsimp only at h ⊢
  split
  · rename_i halive
    rw [if_pos halive] at h
    exact hnext _ h
  · rename_i hgone
    rw [if_neg hgone] at h
    cases h

theorem readRecord_buffer (h : s.readRecord.stream.ended = none) : s.readRecord.stream.buffer = [] := by
  unfold StreamSocket.readRecord at h ⊢
  split
  · rename_i hlong
    rw [if_pos hlong] at h
    cases h
  · rename_i hfits
    rw [if_neg hfits] at h
    exact enqueue_buffer (fun _ _ => rfl) h

theorem readNothing_ended (s : StreamSocket) : s.readNothing.stream.ended ≠ none := by
  unfold StreamSocket.readNothing
  split
  · split
    · exact nofun
    · unfold StreamSocket.enqueue
      dsimp only
      split <;> exact nofun
  · exact nofun

theorem closesOversized (s : StreamSocket) : s.ClosesOversized := by
  intro op hop s' h hended
  have hempty : s'.stream.buffer = [] → fits s'.stream.buffer = true := fun hnil => hnil ▸ rfl
  simp only [List.mem_cons, List.not_mem_nil, or_false] at hop
  rcases hop with rfl | rfl | rfl
  · obtain ⟨-, heq⟩ := Option.ite_none_right_eq_some.mp h
    cases heq
    exact hempty (readRecord_buffer hended)
  · obtain ⟨-, heq⟩ := Option.ite_none_right_eq_some.mp h
    cases heq
    split at hended
    · rename_i hfresh
      rw [if_pos hfresh] at hempty ⊢
      exact hempty (readRecord_buffer hended)
    · exact absurd hended (readNothing_ended s)
  · obtain ⟨-, heq⟩ := Option.ite_none_right_eq_some.mp h
    split at heq
    · cases heq
      cases hended
    · rename_i hfits
      cases heq
      rw [fits_eq_false, Bool.not_eq_false] at hfits
      exact hfits

/-- In every run, of any connections: the candidates are the pieces of the stream up to one that is too long, which closes
the connection; each that is not blank is queued once, in order, or counted as dropped; and the queue keeps to its
capacities, and returns what it has used of them. -/
theorem stream_law (ops : List StreamOp) (s : StreamSocket) (h : exec StreamSocket.step .new ops = some s) :
    s.Lawful ∧ s.ClosesOversized ∧ s.Drains := by
  have inv := invariant SocketInv.step socketInv_start h
  exact ⟨inv.lawful, closesOversized s, inv.budget.drains⟩

/-- A record in two reads with a tick between them, and a piece without a newline. -/
theorem stream_law_two_records : ∃ s, exec StreamSocket.step .new
    [.arrive [0x7B], .readPart 1, .tick, .arrive [0x7D, 0x0A, 0x7B], .readLine, .receive, .release, .readPart 1, .hangUp,
      .readEnd, .readEnd] = some s ∧
    s.stream.candidates = [[0x7B, 0x7D, 0x0A], [0x7B]] ∧ s.Lawful ∧ s.ClosesOversized ∧ s.Drains := by
  have hexec : exec StreamSocket.step .new
      [.arrive [0x7B], .readPart 1, .tick, .arrive [0x7D, 0x0A, 0x7B], .readLine, .receive, .release, .readPart 1, .hangUp,
        .readEnd, .readEnd] = some
      { ingress := ⟨⟨[⟨2, [0x7B], 1⟩], inputQueueRecordCapacity, false⟩, inputQueueByteCapacity - 1, 0, 0⟩
        stream :=
          { arrived := [0x7B, 0x7D, 0x0A, 0x7B], unread := [], hungUp := true, buffer := [], fresh := false, record := 2
            ended := some .endOfStream, candidates := [[0x7B, 0x7D, 0x0A], [0x7B]], queuedBefore := 0, dropsBefore := 0 }
        parsing := none
        left := [⟨1, [0x7B, 0x7D, 0x0A], 3⟩] } := rfl
  exact ⟨_, hexec, rfl, stream_law _ _ hexec⟩

end

end EveBox.Eve
