import EveBox.Pcap.FlowFilterTheorems
import EveBox.Pcap.Timeframe
import EveBox.Rust.Result

/-!
# What the request of an event accepts

* `DerivedFrom` — the bounds of a window, by the times of the event.
* `inWindow_of_captured` — the gate, in microseconds.
* `passes_of_ofFlow` — the filter.
-/

namespace EveBox.Pcap

open Rust Eve

/-! ## The window -/

section

variable {lib : Chrono} {event : Json} {w : Window} {dt dt' : DateTime} {secs t : ℤ}

theorem orFault_eq_ok {α : Type} {value : Option α} {err : EventError} {a : α} :
    orFault value err = .ok a ↔ value = some a := by
  cases value <;> simp [orFault]

theorem checked_eq_ok : checked lib dt secs = .ok dt' ↔ lib.checkedAddSigned dt secs = some dt' := orFault_eq_ok

theorem window_eq_ok {start stop : DateTime} (h : window lib start stop = .ok w) : w = ⟨start, stop⟩ := by
  unfold window at h
  split at h
  · cases h
  · exact (Except.ok.inj h).symm

/-- A field is read as the time it gives. -/
theorem givesTime_of_parseTs {field text : String} (htext : (event.get field).asStr = some text)
    (h : parseTs lib text = .ok dt) : GivesTime lib event field dt :=
  ⟨text, htext, orFault_eq_ok.mp h⟩

theorem GivesTime.unique {field : String} (h : GivesTime lib event field dt) (h' : GivesTime lib event field dt') :
    dt = dt' := by
  obtain ⟨text, htext, hparse⟩ := h
  obtain ⟨text', htext', hparse'⟩ := h'
  obtain rfl : text = text' := Option.some.inj (htext.symm.trans htext')
  exact Option.some.inj (hparse.symm.trans hparse')

theorem givesTime_of_eventTimestamp (h : eventTimestamp lib event = .ok dt) : GivesTime lib event "timestamp" dt := by
  obtain ⟨text, htext, hparse⟩ := bind_eq_ok.mp h
  exact givesTime_of_parseTs (orFault_eq_ok.mp htext) hparse

/-- The bounds of a window, as `derive_window` makes them. -/
inductive DerivedFrom (lib : Chrono) (event : Json) (w : Window) : Prop
  | flow (start stop : DateTime) (hrecord : isFlowRecord event = true)
      (hstart : GivesTime lib (flowOf event) "start" start) (hstop : GivesTime lib (flowOf event) "end" stop)
      (hfirst : lib.checkedAddSigned start (-1) = some w.start) (hlast : lib.checkedAddSigned stop 1 = some w.stop)
  | flowWithoutEnd (start : DateTime) (hrecord : isFlowRecord event = true)
      (hstart : GivesTime lib (flowOf event) "start" start) (hstop : ((flowOf event).get "end").asStr = none)
      (hfirst : lib.checkedAddSigned start (-1) = some w.start) (hlast : lib.checkedAddSigned start 60 = some w.stop)
  | withFlow (start timestamp : DateTime) (hrecord : isFlowRecord event = false)
      (hstart : GivesTime lib (flowOf event) "start" start) (htimestamp : GivesTime lib event "timestamp" timestamp)
      (hfirst : lib.checkedAddSigned start (-1) = some w.start) (hlast : lib.checkedAddSigned timestamp 60 = some w.stop)
  | withoutFlow (timestamp : DateTime) (hstart : ((flowOf event).get "start").asStr = none)
      (htimestamp : GivesTime lib event "timestamp" timestamp)
      (hfirst : lib.checkedAddSigned timestamp (-60) = some w.start)
      (hlast : lib.checkedAddSigned timestamp 60 = some w.stop)

theorem derivedFrom_of_deriveWindow (h : deriveWindow lib event = .ok w) : DerivedFrom lib event w := by
  unfold deriveWindow at h
  obtain ⟨flowStart, hflowStart, h⟩ := bind_eq_ok.mp h
  cases hstart : ((flowOf event).get "start").asStr with
  | none =>
      rw [hstart] at hflowStart
      obtain rfl := Except.ok.inj hflowStart
      obtain ⟨timestamp, htimestamp, h⟩ := bind_eq_ok.mp h
      obtain ⟨first, hfirst, h⟩ := bind_eq_ok.mp h
      obtain ⟨last, hlast, h⟩ := bind_eq_ok.mp h
      obtain rfl := window_eq_ok h
      exact .withoutFlow timestamp hstart (givesTime_of_eventTimestamp htimestamp) (checked_eq_ok.mp hfirst)
        (checked_eq_ok.mp hlast)
  | some text =>
      rw [hstart] at hflowStart
      obtain ⟨start, hparse, rfl⟩ := map_eq_ok.mp hflowStart
      have hgives := givesTime_of_parseTs hstart hparse
      cases hrecord : isFlowRecord event with
      | false =>
          rw [hrecord] at h
          dsimp only at h
          obtain ⟨timestamp, htimestamp, h⟩ := bind_eq_ok.mp h
          obtain ⟨first, hfirst, h⟩ := bind_eq_ok.mp h
          obtain ⟨last, hlast, h⟩ := bind_eq_ok.mp h
          obtain rfl := window_eq_ok h
          exact .withFlow start timestamp hrecord hgives (givesTime_of_eventTimestamp htimestamp)
            (checked_eq_ok.mp hfirst) (checked_eq_ok.mp hlast)
      | true =>
          rw [hrecord] at h
          dsimp only at h
          obtain ⟨last, hlast, h⟩ := bind_eq_ok.mp h
          obtain ⟨first, hfirst, h⟩ := bind_eq_ok.mp h
          obtain rfl := window_eq_ok h
          unfold flowStop at hlast
          cases hstop : ((flowOf event).get "end").asStr with
          | none =>
              rw [hstop] at hlast
              exact .flowWithoutEnd start hrecord hgives hstop (checked_eq_ok.mp hfirst) (checked_eq_ok.mp hlast)
          | some text' =>
              rw [hstop] at hlast
              obtain ⟨stop, hparse', hlast⟩ := bind_eq_ok.mp hlast
              exact .flow start stop hrecord hgives (givesTime_of_parseTs hstop hparse') (checked_eq_ok.mp hfirst)
                (checked_eq_ok.mp hlast)

/-- The bounds of a window are times of the library. -/
theorem DerivedFrom.range (hlib : lib.Documented) (h : DerivedFrom lib event w) : w.stop.nanos / 1000 < 2 ^ 63 := by
  cases h with
  | flow start stop _ _ _ _ hlast => exact hlib.range _ _ _ hlast
  | flowWithoutEnd start _ _ _ _ hlast => exact hlib.range _ _ _ hlast
  | withFlow start timestamp _ _ _ _ hlast => exact hlib.range _ _ _ hlast
  | withoutFlow timestamp _ _ _ hlast => exact hlib.range _ _ _ hlast

theorem During.of_start {start : DateTime} (h : During lib event t)
    (hstart : GivesTime lib (flowOf event) "start" start) : start.nanos ≤ t ∧
      if isFlowRecord event then
        match ((flowOf event).get "end").asStr with
        | some _ => ∃ stop, GivesTime lib (flowOf event) "end" stop ∧ t ≤ stop.nanos
        | none => ∃ later ∈ lib.checkedAddSigned start 60, t ≤ later.nanos
      else ∃ timestamp, GivesTime lib event "timestamp" timestamp ∧ t ≤ timestamp.nanos := by
  obtain ⟨text, htext, -⟩ := id hstart
  unfold During at h
  rw [htext] at h
  obtain ⟨start', hstart', hle, hrest⟩ := h
  obtain rfl := hstart.unique hstart'
  exact ⟨hle, hrest⟩

/-- A time that belongs to an event is in its window. -/
theorem DerivedFrom.contains (hlib : lib.Documented) (h : DerivedFrom lib event w) (hduring : During lib event t) :
    w.start.nanos ≤ t ∧ t ≤ w.stop.nanos := by
  cases h with
  | flow start stop hrecord hstart hstop hfirst hlast =>
      obtain ⟨hle, hend⟩ := hduring.of_start hstart
      obtain ⟨text, htext, -⟩ := id hstop
      rw [if_pos hrecord, htext] at hend
      obtain ⟨stop', hstop', hle'⟩ := hend
      obtain rfl := hstop.unique hstop'
      have hback := hlib.back _ _ _ (by decide) hfirst
      have hforth := hlib.forth _ _ _ (by decide) hlast
      omega
  | flowWithoutEnd start hrecord hstart hstop hfirst hlast =>
      obtain ⟨hle, hend⟩ := hduring.of_start hstart
      rw [if_pos hrecord, hstop] at hend
      obtain ⟨later, hlater, hle'⟩ := hend
      obtain rfl : w.stop = later := Option.some.inj (hlast.symm.trans hlater)
      have hback := hlib.back _ _ _ (by decide) hfirst
      omega
  | withFlow start timestamp hrecord hstart htimestamp hfirst hlast =>
      obtain ⟨hle, hend⟩ := hduring.of_start hstart
      rw [if_neg (hrecord ▸ Bool.false_ne_true)] at hend
      obtain ⟨timestamp', htimestamp', hle'⟩ := hend
      obtain rfl := htimestamp.unique htimestamp'
      have hback := hlib.back _ _ _ (by decide) hfirst
      have hforth := hlib.forth _ _ _ (by decide) hlast
      omega
  | withoutFlow timestamp hstart htimestamp hfirst hlast =>
      unfold During at hduring
      rw [hstart] at hduring
      obtain ⟨timestamp', htimestamp', before, hbefore, later, hlater, hle⟩ := hduring
      obtain rfl := htimestamp.unique htimestamp'
      obtain rfl : w.start = before := Option.some.inj (hfirst.symm.trans hbefore)
      obtain rfl : w.stop = later := Option.some.inj (hlast.symm.trans hlater)
      exact hle

end

/-! ## The gate -/

section

variable {header : PacketHeader} {t : ℤ}

theorem u64TryFrom_of_lt {x : ℤ} (h : 0 ≤ x) (hmax : x < 2 ^ 64) : u64TryFrom x = some x.toNat := by
  refine if_pos ⟨h, ?_⟩
  rw [show u64Max = 18446744073709551615 from rfl]
  omega

/-- A time that is not before 1970 is read as it is. -/
theorem CapturedAt.gateMicros (h : CapturedAt header t) (hmax : t < 2 ^ 63) : Pcap.gateMicros header = some t.toNat := by
  obtain ⟨htime, ⟨hnonneg, hlt⟩, hepoch⟩ := h
  have hsecs : u64TryFrom header.tvSec = some header.tvSec.toNat := u64TryFrom_of_lt (by omega) (by omega)
  have hmicros : u64TryFrom header.tvUsec = some header.tvUsec.toNat := u64TryFrom_of_lt hnonneg (by omega)
  have hsum : header.tvSec.toNat * 1000000 + header.tvUsec.toNat = t.toNat := by omega
  have hle : t.toNat ≤ u64Max := by
    rw [show u64Max = 18446744073709551615 from rfl]
    omega
  have hproduct : checkedMul header.tvSec.toNat 1000000 = some (header.tvSec.toNat * 1000000) :=
    if_pos ((Nat.le_add_right _ _).trans (hsum.trans_le hle))
  have htotal : checkedAdd (header.tvSec.toNat * 1000000) header.tvUsec.toNat = some t.toNat :=
    hsum ▸ if_pos (hsum.trans_le hle)
  unfold Pcap.gateMicros
  rw [hsecs, hmicros, Option.bind_eq_bind, Option.bind_some, Option.bind_some]
  exact Option.bind_eq_some_iff.mpr ⟨_, hproduct, htotal⟩

/-- Microseconds of times that are in order are in order, from 1970 on. -/
theorem toMicros_le {dt : DateTime} (h : dt.nanos ≤ t * 1000) (hepoch : 0 ≤ t) : toMicros dt ≤ t.toNat := by
  unfold toMicros u64TryFrom
  split
  · show (dt.nanos / 1000).toNat ≤ _
    omega
  · exact Nat.zero_le _

theorem le_toMicros {dt : DateTime} (h : t * 1000 ≤ dt.nanos) (hepoch : 0 ≤ t) (hmax : dt.nanos / 1000 < 2 ^ 63) :
    t.toNat ≤ toMicros dt := by
  have hmicros : u64TryFrom (dt.nanos / 1000) = some (dt.nanos / 1000).toNat := u64TryFrom_of_lt (by omega) (by omega)
  unfold toMicros
  rw [hmicros]
  show _ ≤ (dt.nanos / 1000).toNat
  omega

/-- The gate lets a packet of the window pass. -/
theorem inWindow_of_captured {w : Window} {s : FlowSelector} {limits : Limits} {flow : Option (String × String)}
    (h : CapturedAt header t) (hstart : w.start.nanos ≤ t * 1000) (hstop : t * 1000 ≤ w.stop.nanos)
    (hmax : w.stop.nanos / 1000 < 2 ^ 63) : ((eventRequest w s limits).matcher flow).inWindow header = true := by
  have hlower : toMicros w.start ≤ t.toNat := toMicros_le hstart h.epoch
  have hupper : t.toNat ≤ toMicros w.stop := le_toMicros hstop h.epoch hmax
  unfold Matcher.inWindow
  rw [if_pos (show ((eventRequest w s limits).matcher flow).gate = true from rfl), h.gateMicros (by omega)]
  show (!decide (t.toNat < toMicros w.start) && !decide (toMicros w.stop < t.toNat)) = true
  rw [decide_eq_false (Nat.not_lt.mpr hlower), decide_eq_false (Nat.not_lt.mpr hupper)]
  rfl

end

/-! ## The filter -/

section

variable {read : List Char → Option IpAddr} {event : Json} {s : FlowSelector}

theorem le_of_parseUnsigned {max n : ℕ} {text : List Char} (h : parseUnsigned max text = some n) : n ≤ max := by
  unfold parseUnsigned at h
  simp only [Option.ite_none_left_eq_some, Option.ite_none_right_eq_some] at h
  obtain ⟨-, hle, heq⟩ := h
  exact Option.some.inj heq ▸ hle

/-- The protocol that a text names is its number. -/
theorem normalizeProto_eq {text : String} {v6 : Bool} {k : UInt8} {n : ℕ} (h : normalizeProto text v6 = .ok k)
    (hnames : NamesProtocol text v6 n) : n = k.toNat := by
  unfold normalizeProto at h
  unfold NamesProtocol at hnames
  dsimp only at h hnames
  cases hparse : parseUnsigned 255 (trim text.toList) with
  | some number =>
      rw [hparse] at h hnames
      have hle := le_of_parseUnsigned hparse
      obtain rfl := Except.ok.inj h
      rw [hnames, UInt8.toNat_ofNat', Nat.mod_eq_of_lt (by omega)]
  | none =>
      rw [hparse] at h hnames
      dsimp only at h hnames
      generalize String.ofList ((trim text.toList).map Char.toLower) = name at h hnames
      split at h
      all_goals cases h
      all_goals simp [protocolNames] at hnames
      all_goals first | exact hnames | (rw [hnames]; cases v6 <;> rfl)

/-- The ports of a selector, as the event reports them. -/
theorem eventPort_eq {field : String} {port : Option UInt16} (h : eventPort event field = .ok port) {n : UInt16}
    (hn : n ∈ port) : (event.get field).asU64 = some n.toNat := by
  unfold eventPort at h
  split at h
  · obtain rfl := Except.ok.inj h
    cases hn
  · split at h
    · rename_i value hvalue
      split at h
      · rename_i hlt
        obtain rfl := Except.ok.inj h
        obtain rfl := Option.some.inj hn
        rw [hvalue, UInt16.toNat_ofNat', Nat.mod_eq_of_lt hlt]
      · cases h
    · cases h

/-- What a selector is made of. -/
structure SelectedFrom (event : Json) (s : FlowSelector) : Prop where
  src : eventAddress event "src_ip" = .ok s.a.1
  dest : eventAddress event "dest_ip" = .ok s.b.1
  proto : ∃ text ∈ (event.get "proto").asStr, normalizeProto text s.a.1.isIpv6 = .ok s.proto
  srcPort : ∀ n ∈ s.a.2, (event.get "src_port").asU64 = some n.toNat
  destPort : ∀ n ∈ s.b.2, (event.get "dest_port").asU64 = some n.toNat

theorem selectedFrom_of_selectorFromEvent (h : selectorFromEvent event = .ok s) : SelectedFrom event s := by
  unfold selectorFromEvent at h
  obtain ⟨src, hsrc, h⟩ := bind_eq_ok.mp h
  obtain ⟨dest, hdest, h⟩ := bind_eq_ok.mp h
  split at h
  · cases h
  · obtain ⟨text, htext, h⟩ := bind_eq_ok.mp h
    obtain ⟨proto, hproto, h⟩ := bind_eq_ok.mp h
    have hname : ∃ text ∈ (event.get "proto").asStr, normalizeProto text src.isIpv6 = .ok proto :=
      ⟨text, orFault_eq_ok.mp htext, hproto⟩
    split at h
    · obtain ⟨srcPort, hsrcPort, h⟩ := bind_eq_ok.mp h
      obtain ⟨destPort, hdestPort, h⟩ := bind_eq_ok.mp h
      obtain rfl := Except.ok.inj h
      exact ⟨hsrc, hdest, hname, fun n hn => eventPort_eq hsrcPort hn, fun n hn => eventPort_eq hdestPort hn⟩
    · obtain rfl := Except.ok.inj h
      exact ⟨hsrc, hdest, hname, nofun, nofun⟩

variable {p : Bpf.Packet (hosts read)}

theorem meets_of_goes {a b : IpAddr} (h : Goes p a b ∨ Goes p b a) : Meets p a b := by
  rcases h with ⟨hsrc, hdst⟩ | ⟨hsrc, hdst⟩
  · exact ⟨.inl hsrc, .inr hdst⟩
  · exact ⟨.inr hdst, .inl hsrc⟩

/-- The ports of a packet that goes one way. -/
theorem Directed.ports {src dest : IpAddr} {x y : Option ℕ} (h : Directed p (src, x) (dest, y))
    (hproto : p.proto ∈ Bpf.portProtocols) {m n : ℕ} (hx : x = some m) (hy : y = some n) : p.ports = some (m, n) := by
  obtain ⟨ports, hports, hfirst⟩ := h.srcPort hproto m hx
  obtain ⟨ports', hports', hsecond⟩ := h.destPort hproto n hy
  obtain rfl : ports = ports' := Option.some.inj (hports.symm.trans hports')
  rw [hports, ← hfirst, ← hsecond]

/-- A packet of the flow of an event is one that the filter accepts. -/
theorem passes_of_ofFlow (h : SelectedFrom event s) (hflow : OfFlow event p) :
    p.proto = s.proto.toNat ∧ s.Passes p := by
  obtain ⟨n, ⟨a, x⟩, ⟨b, y⟩⟩ := s
  obtain ⟨src, dest, hsrc, hdest, ⟨proto, hproto, hnames⟩, hdirected⟩ := hflow
  obtain rfl : a = src := Except.ok.inj (h.src.symm.trans hsrc)
  obtain rfl : b = dest := Except.ok.inj (h.dest.symm.trans hdest)
  obtain ⟨text, htext, hnormalize⟩ := h.proto
  obtain rfl : proto = text := Option.some.inj (hproto.symm.trans htext)
  have heq : p.proto = n.toNat := normalizeProto_eq hnormalize hnames
  refine ⟨heq, ?_⟩
  have hmeets : Meets p a b := meets_of_goes (hdirected.imp Directed.goes Directed.goes)
  have hports : ∀ kw, keyword n = some kw → p.proto ∈ Bpf.portProtocols := fun kw hkw =>
    heq ▸ keyword_isSome.mp (hkw ▸ rfl)
  have hx : ∀ q ∈ x, (event.get "src_port").asU64 = some q.toNat := h.srcPort
  have hy : ∀ q ∈ y, (event.get "dest_port").asU64 = some q.toNat := h.destPort
  unfold FlowSelector.Passes
  rcases hkw : keyword n with _ | kw
  · exact hmeets
  have hproto := hports kw hkw
  rcases x with _ | x
  · rcases y with _ | y
    · exact hmeets
    · refine .inl ⟨hmeets, ?_⟩
      rcases hdirected with hthere | hback
      · obtain ⟨ports, hport, hport'⟩ := hthere.destPort hproto y.toNat (hy y rfl)
        exact ⟨ports, hport, .inr hport'⟩
      · obtain ⟨ports, hport, hport'⟩ := hback.srcPort hproto y.toNat (hy y rfl)
        exact ⟨ports, hport, .inl hport'⟩
  · rcases y with _ | y
    · refine .inl ⟨hmeets, ?_⟩
      rcases hdirected with hthere | hback
      · obtain ⟨ports, hport, hport'⟩ := hthere.srcPort hproto x.toNat (hx x rfl)
        exact ⟨ports, hport, .inl hport'⟩
      · obtain ⟨ports, hport, hport'⟩ := hback.destPort hproto x.toNat (hx x rfl)
        exact ⟨ports, hport, .inr hport'⟩
    · rcases hdirected with hthere | hback
      · exact .inl (.inl ⟨hthere.goes, hthere.ports hproto (hx x rfl) (hy y rfl)⟩)
      · exact .inl (.inr ⟨hback.goes, hback.ports hproto (hy y rfl) (hx x rfl)⟩)

end

/-! ## The result -/

section

variable {α β : Type}

/-- A call that does not panic. -/
def Calm (x : Except EventFault α) : Prop := ∀ message, x ≠ .error (.panic message)

theorem calm_ok (a : α) : Calm (.ok a) := nofun

theorem calm_error (err : EventError) : Calm (.error (.error err) : Except EventFault α) := nofun

theorem calm_orFault (value : Option α) (err : EventError) : Calm (orFault value err) := by
  cases value with
  | none => exact calm_error err
  | some a => exact calm_ok a

theorem Calm.bind {x : Except EventFault α} {f : α → Except EventFault β} (h : Calm x) (hf : ∀ a, Calm (f a)) :
    Calm (x >>= f) := by
  cases x with
  | error fault => exact fun message heq => h message (congrArg Except.error (Except.error.inj heq))
  | ok a => exact hf a

variable (lib : Chrono) (event : Json)

theorem calm_parseTs (text : String) : Calm (parseTs lib text) := calm_orFault _ _

theorem calm_checked (dt : DateTime) (secs : ℤ) : Calm (checked lib dt secs) := calm_orFault _ _

theorem calm_window (start stop : DateTime) : Calm (window lib start stop) := by
  unfold window
  split
  · exact calm_error _
  · exact calm_ok _

theorem calm_eventTimestamp : Calm (eventTimestamp lib event) := (calm_orFault _ _).bind fun _ => calm_parseTs lib _

theorem calm_parseOptional (text : Option String) : Calm (parseOptional lib text) := by
  cases text with
  | none => exact calm_ok none
  | some text => exact (calm_parseTs lib text).bind fun dt => calm_ok (some dt)

theorem calm_flowStop (flow : Json) (flowStart : DateTime) : Calm (flowStop lib flow flowStart) := by
  unfold flowStop
  split
  · exact (calm_parseTs lib _).bind fun _ => calm_checked lib _ _
  · exact calm_checked lib _ _

theorem calm_deriveWindow : Calm (deriveWindow lib event) := by
  refine (calm_parseOptional lib _).bind fun flowStart => ?_
  have hbounds : ∀ (first last : Except EventFault DateTime), Calm first → Calm last →
      Calm (first >>= fun start => last >>= fun stop => window lib start stop) := fun _ _ hfirst hlast =>
    hfirst.bind fun _ => hlast.bind fun _ => calm_window lib _ _
  split
  · exact (calm_flowStop lib _ _).bind fun _ => (calm_checked lib _ _).bind fun _ => calm_window lib _ _
  · exact (calm_eventTimestamp lib event).bind fun _ => hbounds _ _ (calm_checked lib _ _) (calm_checked lib _ _)
  · exact (calm_eventTimestamp lib event).bind fun _ => hbounds _ _ (calm_checked lib _ _) (calm_checked lib _ _)

theorem calm_eventAddress (field : String) : Calm (eventAddress event field) := by
  refine (calm_orFault _ _).bind fun text => ?_
  split
  · exact calm_ok _
  · exact calm_error _

theorem calm_eventPort (field : String) : Calm (eventPort event field) := by
  unfold eventPort
  split
  · exact calm_ok _
  · split
    · split
      · exact calm_ok _
      · exact calm_error _
    · exact calm_error _

theorem calm_normalizeProto (proto : String) (v6 : Bool) : Calm (normalizeProto proto v6) := by
  unfold normalizeProto
  dsimp only
  split
  · exact calm_ok _
  · split
    all_goals first | exact calm_ok _ | exact calm_error _

theorem calm_selectorFromEvent : Calm (selectorFromEvent event) := by
  refine (calm_eventAddress event _).bind fun src => (calm_eventAddress event _).bind fun dest => ?_
  split
  · exact calm_error _
  · refine (calm_orFault _ _).bind fun text => (calm_normalizeProto text _).bind fun proto => ?_
    split
    · exact (calm_eventPort event _).bind fun _ => (calm_eventPort event _).bind fun _ => calm_ok _
    · exact calm_ok _

end

/-- The request of an event accepts the packets of its flow, and other events are errors. -/
theorem request_law {lib : Chrono} (hlib : lib.Documented) (read : List Char → Option IpAddr) (event : Json) :
    RequestAccepts lib read event ∧ NeverPanics lib event := by
  constructor
  · intro w s hwindow hselector hread limits flow p header t hflow hcaptured hduring
    have hderived := derivedFrom_of_deriveWindow hwindow
    obtain ⟨hstart, hstop⟩ := hderived.contains hlib hduring
    refine ⟨inWindow_of_captured hcaptured hstart hstop (hderived.range hlib), ?_⟩
    have hpasses := passes_of_ofFlow (selectedFrom_of_selectorFromEvent hselector) hflow
    exact (FlowSelector.accepts_iff_expr hread).mpr ((FlowSelector.expr_accepts s).mpr hpasses)
  · exact fun message => ⟨calm_deriveWindow lib event message, calm_selectorFromEvent event message⟩

/-- A clock without leap seconds that reads one text. -/
def plainChrono (text : String) (nanos : ℤ) : Chrono where
  parse input := if input = text.toList then some ⟨nanos, 0⟩ else none
  isDigit := Char.isDigit
  format _ _ := text
  rfc3339Micros _ := text
  rfc3339Millis _ := text
  checkedAddSigned dt secs :=
    let nanos := dt.nanos + secs * 1000000000
    if nanos / 1000 < 2 ^ 63 then some ⟨nanos, dt.offset⟩ else none
  lt a b := a.nanos < b.nanos

theorem plainChrono_documented (text : String) (nanos : ℤ) : (plainChrono text nanos).Documented where
  back dt secs dt' hsecs h := by
    obtain ⟨-, heq⟩ := Option.ite_none_right_eq_some.mp h
    obtain rfl := Option.some.inj heq
    show dt.nanos + secs * 1000000000 ≤ dt.nanos
    omega
  forth dt secs dt' hsecs h := by
    obtain ⟨-, heq⟩ := Option.ite_none_right_eq_some.mp h
    obtain rfl := Option.some.inj heq
    show dt.nanos ≤ dt.nanos + secs * 1000000000
    omega
  range dt secs dt' h := by
    obtain ⟨hlt, heq⟩ := Option.ite_none_right_eq_some.mp h
    obtain rfl := Option.some.inj heq
    exact hlt

/-- An alert of a DNS flow. -/
def dnsAlert : Json := .object [
  ("event_type", .string "alert"), ("timestamp", .string "2024-05-17T15:34:08Z"), ("proto", .string "UDP"),
  ("src_ip", .string "10.1.1.5"), ("src_port", .number (.int 4000)),
  ("dest_ip", .string "192.0.2.10"), ("dest_port", .number (.int 53))]

/-- The answer, half a minute later. -/
theorem request_law_dnsAlert : ∃ (w : Window) (p : Bpf.Packet (hosts readDns)) (header : PacketHeader),
    p.src = .v4 ⟨192, 0, 2, 10⟩ ∧ ((eventRequest w dnsFlow .default).matcher none).inWindow header = true ∧
      dnsFlow.Accepts (.ip p) := by
  let lib := plainChrono "2024-05-17T15:34:08Z" 1715960048000000000
  let w : Window := ⟨⟨1715959988000000000, 0⟩, ⟨1715960108000000000, 0⟩⟩
  let p := firstPacket readDns (.v4 ⟨192, 0, 2, 10⟩) (.v4 ⟨10, 1, 1, 5⟩) rfl 17 (some (53, 4000)) (by decide)
  have hwindow : deriveWindow lib dnsAlert = .ok w := rfl
  have hselector : selectorFromEvent dnsAlert = .ok dnsFlow := by decide +kernel
  have hread : dnsFlow.ReadBack readDns := ⟨by decide +kernel, by decide +kernel⟩
  have hsrc : eventAddress dnsAlert "src_ip" = .ok (.v4 ⟨10, 1, 1, 5⟩) := by decide +kernel
  have hdest : eventAddress dnsAlert "dest_ip" = .ok (.v4 ⟨192, 0, 2, 10⟩) := by decide +kernel
  have hproto : NamesProtocol "UDP" false 17 := .inl (by decide +kernel)
  have hback : Directed p (.v4 ⟨192, 0, 2, 10⟩, some 53) (.v4 ⟨10, 1, 1, 5⟩, some 4000) :=
    ⟨⟨rfl, rfl⟩, fun _ n hn => ⟨(53, 4000), rfl, Option.some.inj hn⟩, fun _ n hn => ⟨(53, 4000), rfl, Option.some.inj hn⟩⟩
  have hcaptured : CapturedAt ⟨1715960078, 0, 0, 0⟩ 1715960078000000 := ⟨rfl, by decide, by decide⟩
  have hduring : During lib dnsAlert (1715960078000000 * 1000) :=
    ⟨⟨1715960048000000000, 0⟩, ⟨"2024-05-17T15:34:08Z", rfl, rfl⟩, w.start, rfl, w.stop, rfl, by decide, by decide⟩
  have hlaw := (request_law (plainChrono_documented "2024-05-17T15:34:08Z" 1715960048000000000) readDns dnsAlert).1 w
    dnsFlow hwindow hselector hread .default none p ⟨1715960078, 0, 0, 0⟩ 1715960078000000
    ⟨_, _, hsrc, hdest, ⟨"UDP", rfl, hproto⟩, .inr hback⟩ hcaptured hduring
  exact ⟨w, p, _, rfl, hlaw⟩

end EveBox.Pcap
