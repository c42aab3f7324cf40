import EveBox.Server.AgentsTheorems

/-!
# The PCAP lane of an agent name

A registration that replaces an entry carries the entry's lane over; one that finds the name free makes a
new lane, whether or not a capture on the old one is still under way. The invariant `LaneInv` is kept as
long as no registration under a free name meets a source or a permit of that name: `lane_exclusive`.
-/

namespace EveBox.Server

open Rust Transition

variable {μ : Type*}

/-- Taking one element out of a list takes it out of the count. -/
theorem countP_eraseIdx {α : Type*} (p : α → Bool) {l : List α} {i : ℕ} {a : α} (h : l[i]? = some a) :
    (l.eraseIdx i).countP p + (if p a then 1 else 0) = l.countP p := by
  induction l generalizing i with
  | nil => simp at h
  | cons b l ih =>
      match i with
      | 0 =>
          obtain rfl : b = a := by simpa using h
          rw [List.eraseIdx_cons_zero, List.countP_cons]
      | i + 1 =>
          have hrec := ih (i := i) (by simpa using h)
          rw [List.eraseIdx_cons_succ, List.countP_cons, List.countP_cons]
          omega

/-- The sources and permits that captures hold. -/
def AgentsState.inUse (s : AgentsState μ) : List AgentEntry := s.sources ++ s.permits

/-- A registration makes a new lane for its name only while no capture of that name is under way. -/
def LaneFree (s : AgentsState μ) : AgentsOp μ → Prop
  | .register handshake key =>
      s.registry.agents.lookup handshake.name = none →
        (∀ k, key = some k → k.id ∉ s.registry.revokedKeyIds) →
          ∀ e ∈ s.inUse, e.name ≠ handshake.name
  | _ => True

/-- The invariant of the lanes: a lane has one permit, free or taken, and everything that captures of one
name hold is on one lane, the lane of the name's entry if there is one. -/
structure LaneInv (s : AgentsState μ) : Prop where
  permits : ∀ (l n : ℕ), s.registry.semaphores[l]? = some n →
    n + s.permits.countP (·.pcapBusy = l) = 1
  names : ∀ (name : String) (e : AgentEntry), s.registry.agents.lookup name = some e → e.name = name
  entryLane : ∀ (name : String) (e : AgentEntry), s.registry.agents.lookup name = some e →
    e.pcapBusy < s.registry.semaphores.length
  useLane : ∀ e ∈ s.inUse, e.pcapBusy < s.registry.semaphores.length
  current : ∀ e ∈ s.inUse, ∀ f, s.registry.agents.lookup e.name = some f → f.pcapBusy = e.pcapBusy
  one : ∀ e ∈ s.inUse, ∀ f ∈ s.inUse, e.name = f.name → e.pcapBusy = f.pcapBusy

theorem LaneInv.new : LaneInv (AgentsState.new μ) := by
  constructor <;> simp [AgentsState.new, AgentRegistry.new, AgentsState.inUse]

/-- A step that leaves entries, lanes, sources and permits as they are, up to entries that go. -/
theorem LaneInv.of_subset {s s' : AgentsState μ} (inv : LaneInv s)
    (hagents : ∀ name e, s'.registry.agents.lookup name = some e →
      s.registry.agents.lookup name = some e)
    (hsem : s'.registry.semaphores = s.registry.semaphores) (hpermits : s'.permits = s.permits)
    (huse : s'.inUse ⊆ s.inUse) : LaneInv s' := by
  constructor
  · rw [hsem, hpermits]
    exact inv.permits
  · exact fun name e he => inv.names name e (hagents name e he)
  · rw [hsem]
    exact fun name e he => inv.entryLane name e (hagents name e he)
  · rw [hsem]
    exact fun e he => inv.useLane e (huse he)
  · exact fun e he f hf => inv.current e (huse he) f (hagents e.name f hf)
  · exact fun e he f hf => inv.one e (huse he) f (huse hf)

theorem LaneInv.register {s s' : AgentsState μ} (inv : LaneInv s) {handshake : AgentHandshake}
    {key : Option AgentKeyIdentity} (hfree : LaneFree s (.register handshake key)) {outbound : ℕ}
    {r : AgentRegistry μ} {e : AgentEntry} (reg : Registered r handshake key outbound e s'.registry)
    (hagents : r.agents = s.registry.agents) (hrevoked : r.revokedKeyIds = s.registry.revokedKeyIds)
    (hsem : r.semaphores = s.registry.semaphores) (hpermits : s'.permits = s.permits)
    (huse : s'.inUse = s.inUse) : LaneInv s' := by
  have htable : s'.registry.agents = s.registry.agents.insert handshake.name e := by
    rw [reg.agents, hagents]
  have hlane := reg.lane
  rw [hagents] at hlane
  have hnot_revoked : ∀ k, key = some k → k.id ∉ s.registry.revokedKeyIds := hrevoked ▸ reg.not_revoked
  cases hprev : s.registry.agents.lookup handshake.name with
  | some p =>
      -- the new entry is on the lane of the one it replaces
      rw [hprev] at hlane
      obtain ⟨hbusy, hsem'⟩ : e.pcapBusy = p.pcapBusy ∧ s'.registry.semaphores = r.semaphores :=
        Prod.mk.inj hlane
      rw [hsem] at hsem'
      constructor
      · rw [hsem', hpermits]
        exact inv.permits
      · intro name f hf
        rw [htable] at hf
        rcases lookup_insert_cases hf with ⟨rfl, rfl⟩ | ⟨-, hf⟩
        · exact reg.name
        · exact inv.names name f hf
      · intro name f hf
        rw [htable] at hf
        rw [hsem']
        rcases lookup_insert_cases hf with ⟨rfl, rfl⟩ | ⟨-, hf⟩
        · rw [hbusy]
          exact inv.entryLane _ p hprev
        · exact inv.entryLane name f hf
      · rw [hsem', huse]
        exact inv.useLane
      · rw [huse]
        intro g hg f hf
        rw [htable] at hf
        rcases lookup_insert_cases hf with ⟨hname, rfl⟩ | ⟨-, hf⟩
        · rw [hbusy]
          exact inv.current g hg p (by rw [hname]; exact hprev)
        · exact inv.current g hg f hf
      · rw [huse]
        exact inv.one
  | none =>
      -- the new entry is on a lane nobody uses, and no capture of its name is under way
      rw [hprev] at hlane
      obtain ⟨hbusy, hsem'⟩ : e.pcapBusy = r.semaphores.length ∧
          s'.registry.semaphores = r.semaphores ++ [1] := Prod.mk.inj hlane
      rw [hsem] at hsem' hbusy
      have hunused := hfree hprev hnot_revoked
      constructor
      · intro l n hl
        rw [hsem', List.getElem?_append] at hl
        rw [hpermits]
        split at hl
        · exact inv.permits l n hl
        · rename_i hlen
          have hzero : s.permits.countP (·.pcapBusy = l) = 0 := by
            rw [List.countP_eq_zero]
            intro g hg hgl
            have hlt := inv.useLane g (List.mem_append_right _ hg)
            simp only [decide_eq_true_eq] at hgl
            omega
          rw [List.getElem?_singleton] at hl
          split at hl
          · rw [hzero]
            obtain rfl := Option.some.inj hl
            rfl
          · cases hl
      · intro name f hf
        rw [htable] at hf
        rcases lookup_insert_cases hf with ⟨rfl, rfl⟩ | ⟨-, hf⟩
        · exact reg.name
        · exact inv.names name f hf
      · intro name f hf
        rw [htable] at hf
        rw [hsem', List.length_append, List.length_singleton]
        rcases lookup_insert_cases hf with ⟨rfl, rfl⟩ | ⟨-, hf⟩
        · omega
        · have := inv.entryLane name f hf
          omega
      · rw [hsem', huse, List.length_append, List.length_singleton]
        intro g hg
        have := inv.useLane g hg
        omega
      · rw [huse]
        intro g hg f hf
        rw [htable, AList.lookup_insert_ne (hunused g hg)] at hf
        exact inv.current g hg f hf
      · rw [huse]
        exact inv.one

theorem AgentRegistry.tryAcquire_some {r r' : AgentRegistry μ} {e : AgentEntry}
    (h : r.tryAcquire e = some r') : ∃ n, r.semaphores[e.pcapBusy]? = some (n + 1) ∧
      r' = { r with semaphores := r.semaphores.set e.pcapBusy n } := by
  unfold tryAcquire at h
  split at h
  · rename_i n hn
    exact ⟨n, hn, (Option.some.inj h).symm⟩
  · cases h

/-- A source is dropped for its permit, or because its lane is taken. -/
theorem LaneInv.tryAcquire {s : AgentsState μ} (inv : LaneInv s) {i : ℕ} {e : AgentEntry}
    (he : s.sources[i]? = some e) {r : AgentRegistry μ} (hacquire : s.registry.tryAcquire e = some r) :
    LaneInv { s with registry := r, sources := s.sources.eraseIdx i, permits := s.permits ++ [e] } := by
  obtain ⟨n, hn, rfl⟩ := AgentRegistry.tryAcquire_some hacquire
  have huse : ∀ f ∈ s.sources.eraseIdx i ++ (s.permits ++ [e]), f ∈ s.inUse := by
    intro f hf
    simp only [List.mem_append, List.mem_singleton] at hf
    rcases hf with hf | hf | rfl
    · exact List.mem_append_left _ (List.mem_of_mem_eraseIdx hf)
    · exact List.mem_append_right _ hf
    · exact List.mem_append_left _ (List.mem_of_getElem? he)
  constructor
  · intro l k hl
    dsimp only at hl ⊢
    rw [List.countP_append, List.countP_singleton]
    rw [List.getElem?_set] at hl
    by_cases hle : e.pcapBusy = l
    · subst hle
      have hlt : e.pcapBusy < s.registry.semaphores.length := (List.getElem?_eq_some_iff.mp hn).1
      rw [if_pos rfl, if_pos hlt, Option.some.injEq] at hl
      have := inv.permits _ _ hn
      simp only [decide_true, if_true]
      omega
    · rw [if_neg hle] at hl
      have := inv.permits l k hl
      simpa [hle] using this
  · exact inv.names
  · simpa only [List.length_set] using inv.entryLane
  · intro f hf
    simpa only [List.length_set] using inv.useLane f (huse f hf)
  · exact fun f hf g hg => inv.current f (huse f hf) g hg
  · exact fun f hf g hg => inv.one f (huse f hf) g (huse g hg)

/-- A permit goes back to its lane. -/
theorem LaneInv.release {s : AgentsState μ} (inv : LaneInv s) {i : ℕ} {e : AgentEntry}
    (he : s.permits[i]? = some e) :
    LaneInv { s with registry := s.registry.release e, permits := s.permits.eraseIdx i } := by
  have huse : ∀ f ∈ s.sources ++ s.permits.eraseIdx i, f ∈ s.inUse := by
    intro f hf
    rcases List.mem_append.mp hf with hf | hf
    · exact List.mem_append_left _ hf
    · exact List.mem_append_right _ (List.mem_of_mem_eraseIdx hf)
  constructor
  · intro l k hl
    dsimp only [AgentRegistry.release] at hl ⊢
    rw [List.getElem?_modify] at hl
    obtain ⟨n, hn, rfl⟩ := Option.map_eq_some_iff.mp hl
    have hcount := countP_eraseIdx (fun f : AgentEntry => decide (f.pcapBusy = l)) he
    have := inv.permits l n hn
    by_cases hle : e.pcapBusy = l
    · simp only [hle, if_true, decide_true] at hcount ⊢
      omega
    · simp only [hle, if_false, decide_false, Bool.false_eq_true] at hcount ⊢
      omega
  · exact inv.names
  · simpa only [AgentRegistry.release, List.length_modify] using inv.entryLane
  · intro f hf
    simpa only [AgentRegistry.release, List.length_modify] using inv.useLane f (huse f hf)
  · exact fun f hf g hg => inv.current f (huse f hf) g hg
  · exact fun f hf g hg => inv.one f (huse f hf) g (huse g hg)

/-- A source is resolved to the entry of its name. -/
theorem LaneInv.resolve {s : AgentsState μ} (inv : LaneInv s) {name : String} {e : AgentEntry}
    (h : s.registry.pcapAgent name = some e) : LaneInv { s with sources := s.sources ++ [e] } := by
  have he : s.registry.agents.lookup name = some e := by
    unfold AgentRegistry.pcapAgent at h
    split at h
    · cases h
    · exact (Option.filter_eq_some_iff.mp h).1
  have huse : ∀ f ∈ (s.sources ++ [e]) ++ s.permits, f ∈ s.inUse ∨ f = e := by
    intro f hf
    simp only [List.mem_append, List.mem_singleton] at hf
    rcases hf with (hf | rfl) | hf
    · exact Or.inl (List.mem_append_left _ hf)
    · exact Or.inr rfl
    · exact Or.inl (List.mem_append_right _ hf)
  have hname := inv.names name e he
  -- what captures of the name hold already is on the entry's lane
  have hlane : ∀ f ∈ s.inUse, f.name = e.name → f.pcapBusy = e.pcapBusy := by
    intro f hf hfe
    refine (inv.current f hf e ?_).symm
    rw [hfe, hname]
    exact he
  constructor
  · exact inv.permits
  · exact inv.names
  · exact inv.entryLane
  · intro f hf
    rcases huse f hf with hf | rfl
    · exact inv.useLane f hf
    · exact inv.entryLane name _ he
  · intro f hf g hg
    rcases huse f hf with hf | rfl
    · exact inv.current f hf g hg
    · rw [hname, he, Option.some.injEq] at hg
      rw [hg]
  · intro f hf g hg hfg
    rcases huse f hf with hf' | rfl
    · rcases huse g hg with hg' | rfl
      · exact inv.one f hf' g hg' hfg
      · exact hlane f hf' hfg
    · rcases huse g hg with hg' | rfl
      · exact (hlane g hg' hfg.symm).symm
      · rfl

/-- Every operation that meets the condition keeps the lanes' invariant. -/
theorem LaneInv.step {s s' : AgentsState μ} (inv : LaneInv s) {a : AgentsOp μ} (hfree : LaneFree s a)
    (h : s.step a = some s') : LaneInv s' := by
  cases a with
  | register handshake key =>
      simp only [AgentsState.step] at h
      split at h
      · rename_i e r hregister
        cases h
        exact inv.register hfree (AgentRegistry.register_ok hregister) rfl rfl rfl rfl rfl
      · rename_i err r hregister
        cases h
        rw [AgentRegistry.register_error hregister]
        exact inv.of_subset (fun _ _ he => he) rfl rfl (List.Subset.refl _)
  | remove connection =>
      simp only [AgentsState.step] at h
      split at h
      · rename_i r hremove
        cases h
        obtain ⟨-, rfl⟩ := AgentRegistry.remove_true hremove
        exact inv.of_subset (fun _ _ he => (lookup_erase_cases he).2) rfl rfl (List.Subset.refl _)
      · rename_i r hremove
        cases h
        rw [AgentRegistry.remove_false hremove]
        exact inv
  | revokeKey keyId =>
      cases h
      have hsem : (s.registry.revokeKey keyId).2.semaphores = s.registry.semaphores := by
        unfold AgentRegistry.revokeKey
        simp only
        split <;> rfl
      refine inv.of_subset ?_ hsem rfl (List.Subset.refl _)
      intro name e he
      rwa [(s.registry.revokeKey_agents keyId).1] at he
  | trySendCurrent i message =>
      simp only [AgentsState.step, Option.map_eq_some_iff] at h
      obtain ⟨entry, -, rfl⟩ := h
      obtain ⟨channels, hsend⟩ := s.registry.trySendCurrent_channels entry message
      rw [hsend]
      exact inv.of_subset (fun _ _ he => he) rfl rfl (List.Subset.refl _)
  | receive i =>
      cases h
      exact inv.of_subset (fun _ _ he => he) rfl rfl (List.Subset.refl _)
  | close i =>
      cases h
      exact inv.of_subset (fun _ _ he => he) rfl rfl (List.Subset.refl _)
  | resolve name =>
      simp only [AgentsState.step] at h
      split at h
      · rename_i e hresolve
        cases h
        exact inv.resolve hresolve
      · cases h
        exact inv
  | tryAcquire i =>
      simp only [AgentsState.step, Option.map_eq_some_iff] at h
      obtain ⟨e, he, rfl⟩ := h
      split
      · rename_i r hacquire
        exact inv.tryAcquire he hacquire
      · refine inv.of_subset (fun _ _ he => he) rfl rfl ?_
        intro f hf
        rcases List.mem_append.mp hf with hf | hf
        · exact List.mem_append_left _ (List.mem_of_mem_eraseIdx hf)
        · exact List.mem_append_right _ hf
  | release i =>
      simp only [AgentsState.step, Option.map_eq_some_iff] at h
      obtain ⟨e, he, rfl⟩ := h
      exact inv.release he

/-- The invariant leaves at most one permit for a name. -/
theorem LaneInv.exclusive {s : AgentsState μ} (inv : LaneInv s) (name : String) :
    s.permits.countP (·.name = name) ≤ 1 := by
  by_cases h : ∃ e ∈ s.permits, e.name = name
  · obtain ⟨e, he, rfl⟩ := h
    have hin : ∀ f ∈ s.permits, f ∈ s.inUse := fun f hf => List.mem_append_right _ hf
    obtain ⟨n, hn⟩ : ∃ n, s.registry.semaphores[e.pcapBusy]? = some n :=
      ⟨_, List.getElem?_eq_getElem (inv.useLane e (hin e he))⟩
    have hpermits := inv.permits _ _ hn
    -- every permit of the name is on the lane of this one
    have hle : s.permits.countP (·.name = e.name) ≤ s.permits.countP (·.pcapBusy = e.pcapBusy) := by
      refine List.countP_mono_left ?_
      intro f hf hname
      simp only [decide_eq_true_eq] at hname ⊢
      exact inv.one f (hin f hf) e (hin e he) hname
    omega
  · have hzero : s.permits.countP (·.name = name) = 0 := by
      rw [List.countP_eq_zero]
      intro e he hname
      exact h ⟨e, he, by simpa using hname⟩
    omega

/-- In a run in which no name is registered anew while a capture of that name is under way, there are
never two permits for one name. -/
theorem lane_exclusive {as : List (AgentsOp μ)} {s : AgentsState μ}
    (hfree : Along AgentsState.step LaneFree (.new μ) as)
    (h : exec AgentsState.step (.new μ) as = some s) (name : String) :
    s.permits.countP (·.name = name) ≤ 1 :=
  (invariant_along (fun _ _ _ inv hfree h => inv.step hfree h) LaneInv.new hfree h).exclusive name

/-- A sensor with the PCAP capability. -/
def pcapSensor : AgentHandshake := ⟨"sensor", "host", "1", ["pcap"]⟩

/-- A capture, and a reconnect that replaces the entry while the capture is under way. -/
def replacedInCapture : List (AgentsOp ℕ) :=
  [.register pcapSensor none, .resolve "sensor", .tryAcquire 0, .register pcapSensor none,
    .resolve "sensor", .tryAcquire 0]

theorem lane_exclusive_replacedInCapture :
    ∃ s, exec AgentsState.step (.new ℕ) replacedInCapture = some s ∧
      s.permits.countP (·.name = "sensor") ≤ 1 := by
  have hfree : Along AgentsState.step LaneFree (.new ℕ) replacedInCapture := by
    refine ⟨fun _ _ e he => absurd he List.not_mem_nil, fun s h => ?_⟩
    obtain rfl := Option.some.inj h
    refine ⟨trivial, fun s h => ?_⟩
    obtain rfl := Option.some.inj h
    refine ⟨trivial, fun s h => ?_⟩
    obtain rfl := Option.some.inj h
    -- the name is held, so the registration carries the lane over
    refine ⟨fun hlookup => absurd hlookup (by decide), fun s h => ?_⟩
    exact ⟨trivial, fun _ _ => ⟨trivial, fun _ _ => trivial⟩⟩
  exact ⟨_, rfl, lane_exclusive hfree rfl "sensor"⟩

/-- A capture, and a reconnect after the old connection's own removal. -/
def removedInCapture : List (AgentsOp ℕ) :=
  [.register pcapSensor none, .resolve "sensor", .tryAcquire 0, .remove ⟨"sensor", 1⟩,
    .register pcapSensor none, .resolve "sensor", .tryAcquire 0]

/-- There are two permits for the name: the second registration made a second lane. -/
theorem removedInCapture_two_permits :
    ∃ s, exec AgentsState.step (.new ℕ) removedInCapture = some s ∧
      s.permits.countP (·.name = "sensor") = 2 :=
  ⟨_, rfl, rfl⟩

end EveBox.Server
