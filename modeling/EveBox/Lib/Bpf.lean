import Mathlib

/-!
# Filter expressions for packets

The part of the filter language of packet captures that tells flows apart: primitives about hosts, ports and
protocols, joined by `and` and `or`, which have the same precedence and associate to the left, and grouped by
parentheses. A filter is a text; what it accepts is said of the expression that is read from it.
-/

namespace Bpf

/-- The addresses of hosts: their families, and how a filter names them. -/
structure Hosts (α : Type) where
  isV4 : α → Bool
  read : List Char → Option α

/-- The protocols with ports: TCP, UDP and SCTP. -/
def portProtocols : List ℕ := [6, 17, 132]

/-- The bits of the fragment offset, in the two bytes that it shares with the flags. -/
def offsetMask : ℕ := 0x1fff

/-- An IP packet. A fragment that is not the first has no ports. -/
structure Packet {α : Type} (hosts : Hosts α) where
  src : α
  dst : α
  proto : ℕ
  /-- The two bytes of flags and fragment offset in the header, zero in the sixth version. -/
  fragment : ℕ
  ports : Option (ℕ × ℕ)
  sameFamily : hosts.isV4 src = hosts.isV4 dst
  fragment_v6 : hosts.isV4 src = false → fragment = 0
  fragment_ports : ports.isSome → fragment &&& offsetMask = 0
  proto_ports : ports.isSome → proto ∈ portProtocols

/-- What is captured: an IP packet, a message of address resolution between two hosts, or something else. -/
inductive Frame {α : Type} (hosts : Hosts α)
  | ip (packet : Packet hosts)
  | arp (sender target : α)
  | other

/-- Whose side of a packet is meant. -/
inductive Side
  | either
  | src
  | dst
deriving DecidableEq, Repr

/-- The primitives. -/
inductive Primitive (α : Type)
  | host (side : Side) (addr : α)
  | port (side : Side) (n : ℕ)
  /-- The packets of a protocol, over either version. -/
  | proto (n : ℕ)
  | ipProto (n : ℕ)
  | ip6Proto (n : ℕ)
  /-- `ip[6:2] & mask != value`. -/
  | fragment (mask value : ℕ)
deriving DecidableEq, Repr

/-- An expression. -/
inductive Expr (α : Type)
  | prim (p : Primitive α)
  | and (e f : Expr α)
  | or (e f : Expr α)
deriving DecidableEq, Repr

/-! ## Meaning -/

section

variable {α : Type} {hosts : Hosts α}

/-- Something holds of the source, of the destination or of one of them. -/
def Side.Holds {β : Type} (side : Side) (P : β → Prop) (a b : β) : Prop :=
  match side with
  | either => P a ∨ P b
  | src => P a
  | dst => P b

/-- A primitive about a packet. -/
def Primitive.AcceptsPacket (packet : Packet hosts) : Primitive α → Prop
  | host side addr => side.Holds (· = addr) packet.src packet.dst
  | port side n => ∃ ports, packet.ports = some ports ∧ side.Holds (· = n) ports.1 ports.2
  | proto n => packet.proto = n
  | ipProto n => hosts.isV4 packet.src = true ∧ packet.proto = n
  | ip6Proto n => hosts.isV4 packet.src = false ∧ packet.proto = n
  | fragment mask value => hosts.isV4 packet.src = true ∧ packet.fragment &&& mask ≠ value

/-- A primitive about a frame: only hosts are looked for outside of IP. -/
def Primitive.Accepts (frame : Frame hosts) (p : Primitive α) : Prop :=
  match frame, p with
  | .ip packet, p => p.AcceptsPacket packet
  | .arp sender target, host side addr => side.Holds (· = addr) sender target
  | _, _ => False

/-- The frames that an expression accepts. -/
def Expr.Accepts (frame : Frame hosts) : Expr α → Prop
  | prim p => p.Accepts frame
  | and e f => e.Accepts frame ∧ f.Accepts frame
  | or e f => e.Accepts frame ∨ f.Accepts frame

/-- A packet on its way back. -/
def Packet.reverse (packet : Packet hosts) : Packet hosts where
  src := packet.dst
  dst := packet.src
  proto := packet.proto
  fragment := packet.fragment
  ports := packet.ports.map Prod.swap
  sameFamily := packet.sameFamily.symm
  fragment_v6 h := packet.fragment_v6 (packet.sameFamily.trans h)
  fragment_ports h := packet.fragment_ports (by rwa [Option.isSome_map] at h)
  proto_ports h := packet.proto_ports (by rwa [Option.isSome_map] at h)

/-- A frame on its way back. -/
def Frame.reverse : Frame hosts → Frame hosts
  | ip packet => ip packet.reverse
  | arp sender target => arp target sender
  | other => other

end

/-! ## Words -/

/-- A word, or a sign that is a word by itself. -/
inductive Token
  | word (w : List Char)
  | sign (c : Char)
deriving DecidableEq, Repr

/-- The word of a text. -/
def word (text : String) : Token := .word text.toList

/-- The signs. -/
def isSign (c : Char) : Bool := c ∈ ['(', ')', '[', ']']

/-- Characters that a word consists of. -/
def IsWord (w : List Char) : Prop := w ≠ [] ∧ ∀ c ∈ w, c ≠ ' ' ∧ isSign c = false

/-- The word that has been read so far. -/
def flush (w : List Char) : List Token := if w = [] then [] else [.word w]

/-- The tokens of a text behind the beginning of a word. -/
def tokensFrom (w : List Char) : List Char → List Token
  | [] => flush w
  | c :: rest =>
      if c = ' ' then flush w ++ tokensFrom [] rest
      else if isSign c then flush w ++ .sign c :: tokensFrom [] rest
      else tokensFrom (w ++ [c]) rest

/-- The tokens of a text. -/
def tokens (text : List Char) : List Token := tokensFrom [] text

/-! ## Reading -/

/-- A digit of a hexadecimal number. -/
def hexDigit (c : Char) : Option ℕ :=
  if c.isDigit then some (c.toNat - '0'.toNat)
  else if 'a' ≤ c ∧ c ≤ 'f' then some (c.toNat - 'a'.toNat + 10)
  else none

/-- A number, in decimal or behind `0x` in hexadecimal digits. -/
def number : List Char → Option ℕ
  | '0' :: 'x' :: digits => (digits.mapM hexDigit).map fun ds => ds.foldl (fun n d => 16 * n + d) 0
  | digits => if digits ≠ [] ∧ digits.all Char.isDigit then some (Nat.ofDigitChars 10 digits 0) else none

section

variable {α : Type} (hosts : Hosts α)

/-- A primitive about a host or a port, behind its side. -/
def readSided (side : Side) : List Token → Option (Primitive α × List Token)
  | .word ['h', 'o', 's', 't'] :: .word w :: rest => (hosts.read w).map fun addr => (.host side addr, rest)
  | .word ['p', 'o', 'r', 't'] :: .word w :: rest => (number w).map fun n => (.port side n, rest)
  | _ => none

/-- A primitive. -/
def readPrimitive : List Token → Option (Primitive α × List Token)
  | .word ['s', 'r', 'c'] :: rest => readSided hosts .src rest
  | .word ['d', 's', 't'] :: rest => readSided hosts .dst rest
  | .word ['i', 'p'] :: .word ['p', 'r', 'o', 't', 'o'] :: .word w :: rest =>
      (number w).map fun n => (.ipProto n, rest)
  | .word ['i', 'p', '6'] :: .word ['p', 'r', 'o', 't', 'o'] :: .word w :: rest =>
      (number w).map fun n => (.ip6Proto n, rest)
  | .word ['i', 'p'] :: .sign '[' :: .word ['6', ':', '2'] :: .sign ']' :: .word ['&'] :: .word m ::
      .word ['!', '='] :: .word v :: rest => do
      let mask ← number m
      let value ← number v
      some (.fragment mask value, rest)
  | .word ['t', 'c', 'p'] :: rest => some (.proto 6, rest)
  | .word ['u', 'd', 'p'] :: rest => some (.proto 17, rest)
  | .word ['s', 'c', 't', 'p'] :: rest => some (.proto 132, rest)
  | .word ['i', 'c', 'm', 'p'] :: rest => some (.ipProto 1, rest)
  | .word ['i', 'c', 'm', 'p', '6'] :: rest => some (.ip6Proto 58, rest)
  | rest => readSided hosts .either rest

mutual

/-- Terms joined by `and` and `or`. -/
def readExpr : ℕ → List Token → Option (Expr α × List Token)
  | 0, _ => none
  | fuel + 1, ts => (readTerm fuel ts).bind fun (e, ts) => readChain fuel e ts

/-- An expression in parentheses, or a primitive. -/
def readTerm : ℕ → List Token → Option (Expr α × List Token)
  | 0, _ => none
  | fuel + 1, .sign '(' :: ts =>
      match readExpr fuel ts with
      | some (e, .sign ')' :: ts) => some (e, ts)
      | _ => none
  | _ + 1, ts => (readPrimitive hosts ts).map fun (p, ts) => (.prim p, ts)

/-- What is joined to an expression. -/
def readChain : ℕ → Expr α → List Token → Option (Expr α × List Token)
  | 0, _, _ => none
  | fuel + 1, e, .word ['a', 'n', 'd'] :: ts => (readTerm fuel ts).bind fun (f, ts) => readChain fuel (.and e f) ts
  | fuel + 1, e, .word ['o', 'r'] :: ts => (readTerm fuel ts).bind fun (f, ts) => readChain fuel (.or e f) ts
  | _ + 1, e, ts => some (e, ts)

end

/-- The expression of a text: no level of the grammar is entered twice without a token. -/
def parse (text : List Char) : Option (Expr α) :=
  match readExpr hosts (2 * (tokens text).length + 2) (tokens text) with
  | some (e, []) => some e
  | _ => none

end

/-! ## Rules -/

section

variable {α : Type} {hosts : Hosts α}

theorem tokensFrom_word {v : List Char} (hv : ∀ c ∈ v, c ≠ ' ' ∧ isSign c = false) (w rest : List Char) :
    tokensFrom w (v ++ rest) = tokensFrom (w ++ v) rest := by
  induction v generalizing w with
  | nil => rw [List.nil_append, List.append_nil]
  | cons c v ih =>
    have hc := hv c List.mem_cons_self
    rw [List.cons_append, tokensFrom, if_neg hc.1, if_neg (by rw [hc.2]; exact Bool.false_ne_true),
      ih fun d hd => hv d (List.mem_cons_of_mem c hd), List.append_assoc, List.singleton_append]

/-- A word up to a blank. -/
theorem tokensFrom_blank {w : List Char} (hw : IsWord w) (rest : List Char) :
    tokensFrom [] (w ++ ' ' :: rest) = .word w :: tokensFrom [] rest := by
  rw [tokensFrom_word hw.2, List.nil_append, tokensFrom, if_pos rfl, flush, if_neg hw.1, List.singleton_append]

/-- A word up to a closing parenthesis. -/
theorem tokensFrom_close {w : List Char} (hw : IsWord w) (rest : List Char) :
    tokensFrom [] (w ++ ')' :: rest) = .word w :: .sign ')' :: tokensFrom [] rest := by
  have hblank : ')' ≠ ' ' := by decide
  rw [tokensFrom_word hw.2, List.nil_append, tokensFrom, if_neg hblank, if_pos (by decide), flush, if_neg hw.1,
    List.singleton_append]

/-- A word at the end. -/
theorem tokensFrom_end {w : List Char} (hw : IsWord w) : tokensFrom [] w = [.word w] := by
  have hend := tokensFrom_word hw.2 [] []
  rw [List.append_nil, List.nil_append] at hend
  rw [hend, tokensFrom, flush, if_neg hw.1]

/-- The digits of a number are a word, and are read as the number. -/
theorem isWord_toDigits (n : ℕ) : IsWord (Nat.toDigits 10 n) := by
  refine ⟨Nat.toDigits_ne_nil, fun c hc => ?_⟩
  have hdigit := Nat.isDigit_of_mem_toDigits (by decide) (le_refl 10) hc
  refine ⟨?_, ?_⟩
  · rintro rfl
    exact absurd hdigit (by decide)
  · rw [isSign, decide_eq_false_iff_not]
    intro hsign
    have hcases : c = '(' ∨ c = ')' ∨ c = '[' ∨ c = ']' := by simpa using hsign
    rcases hcases with rfl | rfl | rfl | rfl <;> exact absurd hdigit (by decide)

theorem number_toDigits (n : ℕ) : number (Nat.toDigits 10 n) = some n := by
  have hall : (Nat.toDigits 10 n).all Char.isDigit = true :=
    List.all_eq_true.2 fun c hc => Nat.isDigit_of_mem_toDigits (by decide) (le_refl 10) hc
  have hhex : ∀ digits, Nat.toDigits 10 n ≠ '0' :: 'x' :: digits := by
    intro digits heq
    rw [heq] at hall
    exact absurd hall (by simp)
  rw [number, if_pos ⟨Nat.toDigits_ne_nil, hall⟩, Nat.ofDigitChars_ten_toDigits]
  exact hhex

/-! ### Derivations

What is read from some tokens, whatever is behind them, with fuel in proportion to their number. -/

variable (hosts)

/-- The tokens of a primitive. -/
structure Spells (ts : List Token) (p : Primitive α) : Prop where
  ne_nil : ts ≠ []
  not_open : ts.head? ≠ some (.sign '(')
  read : ∀ rest, readPrimitive hosts (ts ++ rest) = some (p, rest)

/-- The tokens of a term. -/
structure ReadsTerm (ts : List Token) (e : Expr α) : Prop where
  ne_nil : ts ≠ []
  read : ∀ fuel, 2 * ts.length ≤ fuel → ∀ rest, readTerm hosts fuel (ts ++ rest) = some (e, rest)

/-- Nothing is joined by these tokens. -/
def Ends (rest : List Token) : Prop :=
  rest.head? ≠ some (.word ['a', 'n', 'd']) ∧ rest.head? ≠ some (.word ['o', 'r'])

/-- The tokens of what is joined to an expression, and the expression with it. -/
def ReadsChain (e : Expr α) (ts : List Token) (f : Expr α) : Prop :=
  ∀ fuel, 2 * ts.length + 1 ≤ fuel → ∀ rest, Ends rest → readChain hosts fuel e (ts ++ rest) = some (f, rest)

/-- The tokens of an expression. -/
def ReadsExpr (ts : List Token) (e : Expr α) : Prop :=
  ∀ fuel, 2 * ts.length + 1 ≤ fuel → ∀ rest, Ends rest → readExpr hosts fuel (ts ++ rest) = some (e, rest)

variable {hosts}

theorem Spells.readsTerm {ts : List Token} {p : Primitive α} (h : Spells hosts ts p) :
    ReadsTerm hosts ts (.prim p) := by
  refine ⟨h.ne_nil, fun fuel hfuel rest => ?_⟩
  obtain ⟨t, us, rfl⟩ := List.exists_cons_of_ne_nil h.ne_nil
  obtain ⟨n, rfl⟩ : ∃ n, fuel = n + 1 := ⟨fuel - 1, by rw [List.length_cons] at hfuel; omega⟩
  have hread := h.read rest
  rw [List.cons_append] at hread ⊢
  rw [readTerm, hread]
  · rfl
  · intro vs heq
    exact h.not_open (by rw [List.head?_cons, (List.cons.inj heq).1])

theorem ReadsExpr.readsTerm {ts : List Token} {e : Expr α} (h : ReadsExpr hosts ts e) :
    ReadsTerm hosts (.sign '(' :: (ts ++ [.sign ')'])) e := by
  refine ⟨List.cons_ne_nil _ _, fun fuel hfuel rest => ?_⟩
  rw [List.length_cons, List.length_append, List.length_singleton] at hfuel
  obtain ⟨n, rfl⟩ : ∃ n, fuel = n + 1 := ⟨fuel - 1, by omega⟩
  have hends : Ends (.sign ')' :: rest) := ⟨by simp, by simp⟩
  rw [List.cons_append, List.append_assoc, List.singleton_append, readTerm, h n (by omega) _ hends]
  rfl

theorem ReadsChain.nil (e : Expr α) : ReadsChain hosts e [] e := by
  intro fuel hfuel rest hrest
  obtain ⟨n, rfl⟩ : ∃ n, fuel = n + 1 := ⟨fuel - 1, by omega⟩
  rw [List.nil_append, readChain]
  · intro ts heq
    exact hrest.1 (by rw [heq, List.head?_cons])
  · intro ts heq
    exact hrest.2 (by rw [heq, List.head?_cons])

theorem ReadsChain.and {ts us : List Token} {e f g : Expr α} (hterm : ReadsTerm hosts ts f)
    (hchain : ReadsChain hosts (.and e f) us g) : ReadsChain hosts e (.word ['a', 'n', 'd'] :: (ts ++ us)) g := by
  intro fuel hfuel rest hrest
  rw [List.length_cons, List.length_append] at hfuel
  obtain ⟨n, rfl⟩ : ∃ n, fuel = n + 1 := ⟨fuel - 1, by omega⟩
  rw [List.cons_append, List.append_assoc, readChain, hterm.read n (by omega)]
  exact hchain n (by omega) rest hrest

theorem ReadsChain.or {ts us : List Token} {e f g : Expr α} (hterm : ReadsTerm hosts ts f)
    (hchain : ReadsChain hosts (.or e f) us g) : ReadsChain hosts e (.word ['o', 'r'] :: (ts ++ us)) g := by
  intro fuel hfuel rest hrest
  rw [List.length_cons, List.length_append] at hfuel
  obtain ⟨n, rfl⟩ : ∃ n, fuel = n + 1 := ⟨fuel - 1, by omega⟩
  rw [List.cons_append, List.append_assoc, readChain, hterm.read n (by omega)]
  exact hchain n (by omega) rest hrest

theorem ReadsChain.readsExpr {ts us : List Token} {e f : Expr α} (hchain : ReadsChain hosts e us f)
    (hterm : ReadsTerm hosts ts e) : ReadsExpr hosts (ts ++ us) f := by
  intro fuel hfuel rest hrest
  have hlen := List.length_pos_of_ne_nil hterm.ne_nil
  rw [List.length_append] at hfuel
  obtain ⟨n, rfl⟩ : ∃ n, fuel = n + 1 := ⟨fuel - 1, by omega⟩
  rw [List.append_assoc, readExpr, hterm.read n (by omega)]
  exact hchain n (by omega) rest hrest

/-! ### Primitives -/

section

variable {w : List Char} {addr : α} {n : ℕ}

theorem Spells.host (h : hosts.read w = some addr) : Spells hosts [word "host", .word w] (.host .either addr) := by
  refine ⟨List.cons_ne_nil _ _, nofun, fun rest => ?_⟩
  show (hosts.read w).map (fun addr => (Primitive.host .either addr, rest)) = _
  rw [h]
  rfl

theorem Spells.src (h : hosts.read w = some addr) :
    Spells hosts [word "src", word "host", .word w] (.host .src addr) := by
  refine ⟨List.cons_ne_nil _ _, nofun, fun rest => ?_⟩
  show (hosts.read w).map (fun addr => (Primitive.host .src addr, rest)) = _
  rw [h]
  rfl

theorem Spells.dst (h : hosts.read w = some addr) :
    Spells hosts [word "dst", word "host", .word w] (.host .dst addr) := by
  refine ⟨List.cons_ne_nil _ _, nofun, fun rest => ?_⟩
  show (hosts.read w).map (fun addr => (Primitive.host .dst addr, rest)) = _
  rw [h]
  rfl

theorem Spells.port (h : number w = some n) : Spells hosts [word "port", .word w] (.port .either n) := by
  refine ⟨List.cons_ne_nil _ _, nofun, fun rest => ?_⟩
  show (number w).map (fun n => (Primitive.port .either n, rest)) = _
  rw [h]
  rfl

theorem Spells.srcPort (h : number w = some n) : Spells hosts [word "src", word "port", .word w] (.port .src n) := by
  refine ⟨List.cons_ne_nil _ _, nofun, fun rest => ?_⟩
  show (number w).map (fun n => (Primitive.port .src n, rest)) = _
  rw [h]
  rfl

theorem Spells.dstPort (h : number w = some n) : Spells hosts [word "dst", word "port", .word w] (.port .dst n) := by
  refine ⟨List.cons_ne_nil _ _, nofun, fun rest => ?_⟩
  show (number w).map (fun n => (Primitive.port .dst n, rest)) = _
  rw [h]
  rfl

theorem Spells.ipProto (h : number w = some n) : Spells hosts [word "ip", word "proto", .word w] (.ipProto n) := by
  refine ⟨List.cons_ne_nil _ _, nofun, fun rest => ?_⟩
  show (number w).map (fun n => (Primitive.ipProto n, rest)) = _
  rw [h]
  rfl

theorem Spells.ip6Proto (h : number w = some n) : Spells hosts [word "ip6", word "proto", .word w] (.ip6Proto n) := by
  refine ⟨List.cons_ne_nil _ _, nofun, fun rest => ?_⟩
  show (number w).map (fun n => (Primitive.ip6Proto n, rest)) = _
  rw [h]
  rfl

theorem Spells.fragment :
    Spells hosts [word "ip", .sign '[', word "6:2", .sign ']', word "&", word "0x1fff", word "!=", word "0"]
      (.fragment offsetMask 0) := by
  refine ⟨List.cons_ne_nil _ _, nofun, fun rest => ?_⟩
  show (do
    let mask ← number "0x1fff".toList
    let value ← number "0".toList
    some (Primitive.fragment mask value, rest)) = _
  rw [show number "0x1fff".toList = some offsetMask by decide +kernel,
    show number "0".toList = some 0 by decide +kernel]
  rfl

theorem Spells.tcp : Spells hosts [word "tcp"] (.proto 6) := ⟨List.cons_ne_nil _ _, nofun, fun _ => rfl⟩

theorem Spells.udp : Spells hosts [word "udp"] (.proto 17) := ⟨List.cons_ne_nil _ _, nofun, fun _ => rfl⟩

theorem Spells.sctp : Spells hosts [word "sctp"] (.proto 132) := ⟨List.cons_ne_nil _ _, nofun, fun _ => rfl⟩

theorem Spells.icmp : Spells hosts [word "icmp"] (.ipProto 1) := ⟨List.cons_ne_nil _ _, nofun, fun _ => rfl⟩

theorem Spells.icmp6 : Spells hosts [word "icmp6"] (.ip6Proto 58) := ⟨List.cons_ne_nil _ _, nofun, fun _ => rfl⟩

end

theorem ReadsExpr.parse {text : List Char} {e : Expr α} (h : ReadsExpr hosts (tokens text) e) :
    parse hosts text = some e := by
  have hread := h (2 * (tokens text).length + 2) (by omega) [] ⟨by simp, by simp⟩
  rw [List.append_nil] at hread
  rw [Bpf.parse, hread]

end

end Bpf
