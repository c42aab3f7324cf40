import EveBox.Pcap.FlowFilter

/-!
# What the filter of a flow accepts

Reference: `src/pcap/filter.rs`.

The text of each shape is taken into its tokens, the tokens are read as an expression, and the expression is
compared with what the flow selects.
-/

namespace EveBox.Pcap

open Rust Bpf

/-! ## Addresses are words -/

theorem plain_digitChar : ∀ d < 16, Nat.digitChar d ≠ ' ' ∧ isSign (Nat.digitChar d) = false := by decide

theorem plain_of_mem_toDigits (n : ℕ) : ∀ c ∈ Nat.toDigits 16 n, c ≠ ' ' ∧ isSign c = false := by
  induction n using Nat.strong_induction_on with
  | h n ih =>
    intro c hc
    by_cases hn : n < 16
    · rw [Nat.toDigits_of_lt_base hn, List.mem_singleton] at hc
      rw [hc]
      exact plain_digitChar n hn
    · rw [Nat.toDigits_of_base_le (by omega) (by omega), List.mem_append, List.mem_singleton] at hc
      rcases hc with hc | rfl
      · exact ih (n / 16) (by omega) c hc
      · exact plain_digitChar (n % 16) (by omega)

/-- Words with a colon between them are plain. -/
theorem plain_of_mem_colonHex (segments : List UInt16) : ∀ c ∈ colonHex segments, c ≠ ' ' ∧ isSign c = false := by
  induction segments with
  | nil => exact fun c hc => absurd hc (List.not_mem_nil)
  | cons s segments ih =>
    intro c hc
    rcases segments with _ | ⟨t, segments⟩
    · simp only [colonHex, List.map_cons, List.map_nil, List.intercalate_singleton] at hc
      exact plain_of_mem_toDigits _ c hc
    · simp only [colonHex, List.map_cons, List.intercalate_cons_cons, List.mem_append, List.mem_singleton] at hc ih
      rcases hc with (hc | rfl) | hc
      · exact plain_of_mem_toDigits _ c hc
      · decide
      · exact ih c hc

theorem colonHex_ne_nil {segments : List UInt16} (h : segments ≠ []) : colonHex segments ≠ [] := by
  obtain ⟨s, segments, rfl⟩ := List.exists_cons_of_ne_nil h
  rcases segments with _ | ⟨t, segments⟩
  · simp [colonHex, Nat.toDigits_ne_nil]
  · simp [colonHex, List.intercalate_cons_cons]

theorem Ipv4Addr.isWord_fmt (addr : Ipv4Addr) : IsWord addr.fmt := by
  have hplain : ∀ octet : UInt8, ∀ c ∈ decimal octet.toNat, c ≠ ' ' ∧ isSign c = false :=
    fun octet => (isWord_toDigits octet.toNat).2
  refine ⟨?_, fun c hc => ?_⟩
  · simp [Ipv4Addr.fmt, Ipv4Addr.octets, List.intercalate_cons_cons]
  · simp only [Ipv4Addr.fmt, Ipv4Addr.octets, List.map_cons, List.map_nil, List.intercalate_cons_cons,
      List.intercalate_singleton, List.mem_append, List.mem_singleton] at hc
    have hdot : '.' ≠ ' ' ∧ isSign '.' = false := by decide
    rcases hc with (hc | rfl) | (hc | rfl) | (hc | rfl) | hc
    · exact hplain _ c hc
    · exact hdot
    · exact hplain _ c hc
    · exact hdot
    · exact hplain _ c hc
    · exact hdot
    · exact hplain _ c hc

theorem Ipv6Addr.isWord_fmt (addr : Ipv6Addr) : IsWord addr.fmt := by
  have hcolons : ∀ c ∈ "::".toList, c ≠ ' ' ∧ isSign c = false := by simp [isSign]
  have hmapped : ∀ c ∈ "::ffff:".toList, c ≠ ' ' ∧ isSign c = false := by simp [isSign]
  have hlength : addr.segments.toList.length = 8 := Vector.length_toList
  have hne : addr.segments.toList ≠ [] := List.ne_nil_of_length_eq_add_one hlength
  rw [Ipv6Addr.fmt]
  split
  · refine ⟨by simp, fun c hc => ?_⟩
    rcases List.mem_append.1 hc with hc | hc
    · exact hmapped c hc
    · exact (Ipv4Addr.isWord_fmt _).2 c hc
  · dsimp only
    split
    · refine ⟨by simp, fun c hc => ?_⟩
      rcases List.mem_append.1 hc with hc | hc
      · rcases List.mem_append.1 hc with hc | hc
        · exact plain_of_mem_colonHex _ c hc
        · exact hcolons c hc
      · exact plain_of_mem_colonHex _ c hc
    · exact ⟨colonHex_ne_nil hne, plain_of_mem_colonHex _⟩

theorem IpAddr.isWord_fmt : ∀ addr : IpAddr, IsWord addr.fmt
  | .v4 addr => Ipv4Addr.isWord_fmt addr
  | .v6 addr => Ipv6Addr.isWord_fmt addr

/-! ## Tokens -/

/-- The tokens behind a primitive that are about two hosts. -/
def hostTokens (a b : IpAddr) : List Token :=
  [word "and", word "host", .word a.fmt, word "and", word "host", .word b.fmt]

/-- The tokens of one direction of a flow. -/
def directedTokens (kw : String) (a b : IpAddr) (x y : UInt16) : List Token :=
  [word kw, word "and", word "src", word "host", .word a.fmt, word "and", word "dst", word "host", .word b.fmt,
    word "and", word "src", word "port", .word (decimal x.toNat), word "and", word "dst", word "port",
    .word (decimal y.toNat)]

/-- The tokens of a flow with one port. -/
def portTokens (kw : String) (a b : IpAddr) (n : UInt16) : List Token :=
  word kw :: hostTokens a b ++ [word "and", word "port", .word (decimal n.toNat)]

/-- The tokens of the fragments of a flow. -/
def fragmentTokens (n : UInt8) (a b : IpAddr) : List Token :=
  [word "ip", word "proto", .word (decimal n.toNat)] ++ hostTokens a b ++
    [word "and", .sign '(', word "ip", .sign '[', word "6:2", .sign ']', word "&", word "0x1fff", word "!=", word "0",
      .sign ')']

/-- Tokens in parentheses. -/
def closed (ts : List Token) : List Token := .sign '(' :: (ts ++ [.sign ')'])

theorem toString_self (s : String) : toString s = s := rfl

theorem toList_toString_addr (a : IpAddr) : (toString a).toList = a.fmt := String.toList_ofList

section

variable {kw : String} (a b : IpAddr) (rest : List Char)

theorem tokens_directions (hkw : IsWord kw.toList) (x y : UInt16) :
    tokensFrom []
        ((s!"({kw} and src host {a} and dst host {b} and src port {x.toNat} and dst port {y.toNat}) or " ++
          s!"({kw} and src host {b} and dst host {a} and src port {y.toNat} and dst port {x.toNat})").toList ++ rest) =
      (closed (directedTokens kw a b x y) ++ word "or" :: closed (directedTokens kw b a y x)) ++
        tokensFrom [] rest := by
  have ha := IpAddr.isWord_fmt a
  have hb := IpAddr.isWord_fmt b
  have hx := isWord_toDigits x.toNat
  have hy := isWord_toDigits y.toNat
  simp [toString_self, toList_toString_addr, closed, directedTokens, word, decimal, tokensFrom,
    flush, isSign, tokensFrom_blank hkw, tokensFrom_blank ha, tokensFrom_blank hb, tokensFrom_blank hx,
    tokensFrom_blank hy, tokensFrom_close hx, tokensFrom_close hy]

theorem tokens_port (hkw : IsWord kw.toList) (n : UInt16) :
    tokensFrom [] (s!"({kw} and host {a} and host {b} and port {n.toNat})".toList ++ rest) =
      closed (portTokens kw a b n) ++ tokensFrom [] rest := by
  have ha := IpAddr.isWord_fmt a
  have hb := IpAddr.isWord_fmt b
  have hn := isWord_toDigits n.toNat
  simp [toString_self, toList_toString_addr, closed, portTokens, hostTokens, word, decimal,
    tokensFrom, flush, isSign, tokensFrom_blank hkw, tokensFrom_blank ha, tokensFrom_blank hb, tokensFrom_close hn]

theorem tokens_fragment (n : UInt8) :
    tokens s!"(ip proto {n.toNat} and host {a} and host {b} and (ip[6:2] & 0x1fff != 0))".toList =
      closed (fragmentTokens n a b) := by
  have ha := IpAddr.isWord_fmt a
  have hb := IpAddr.isWord_fmt b
  have hn := isWord_toDigits n.toNat
  simp [toString_self, toList_toString_addr, closed, fragmentTokens, hostTokens, word, decimal,
    tokens, tokensFrom, flush, isSign, tokensFrom_blank ha, tokensFrom_blank hb, tokensFrom_blank hn]

/-- The filter of a protocol without its ports. -/
theorem tokens_hosts (hkw : IsWord kw.toList) :
    tokens s!"{kw} and host {a} and host {b}".toList = word kw :: hostTokens a b := by
  have ha := IpAddr.isWord_fmt a
  have hb := IpAddr.isWord_fmt b
  simp [toString_self, toList_toString_addr, hostTokens, word, tokens, tokensFrom, flush, isSign,
    tokensFrom_blank hkw, tokensFrom_blank ha, tokensFrom_end hb]

theorem tokens_proto (hkw : IsWord kw.toList) (n : UInt8) :
    tokens s!"{kw} proto {n.toNat} and host {a} and host {b}".toList =
      [word kw, word "proto", .word (decimal n.toNat)] ++ hostTokens a b := by
  have ha := IpAddr.isWord_fmt a
  have hb := IpAddr.isWord_fmt b
  have hn := isWord_toDigits n.toNat
  simp [toString_self, toList_toString_addr, hostTokens, word, decimal, tokens, tokensFrom, flush,
    isSign, tokensFrom_blank hkw, tokensFrom_blank ha, tokensFrom_blank hn, tokensFrom_end hb]

theorem tokensFrom_or : tokensFrom [] (" or ".toList ++ rest) = word "or" :: tokensFrom [] rest := by
  simp [tokensFrom, flush, isSign, word]

end

/-! ## Expressions -/

/-- An expression about two hosts besides. -/
def hostsExpr (e : Expr IpAddr) (a b : IpAddr) : Expr IpAddr :=
  .and (.and e (.prim (.host .either a))) (.prim (.host .either b))

/-- One direction of a flow. -/
def directedExpr (n : UInt8) (a b : IpAddr) (x y : UInt16) : Expr IpAddr :=
  .and (.and (.and (.and (.prim (.proto n.toNat)) (.prim (.host .src a))) (.prim (.host .dst b)))
    (.prim (.port .src x.toNat))) (.prim (.port .dst y.toNat))

/-- A flow with one port. -/
def portExpr (n : UInt8) (a b : IpAddr) (p : UInt16) : Expr IpAddr :=
  .and (hostsExpr (.prim (.proto n.toNat)) a b) (.prim (.port .either p.toNat))

/-- The fragments of a flow. -/
def fragmentExpr (n : UInt8) (a b : IpAddr) : Expr IpAddr :=
  .and (hostsExpr (.prim (.ipProto n.toNat)) a b) (.prim (.fragment offsetMask 0))

/-- An expression, or the fragments of a flow where it has some. -/
def orFragments (n : UInt8) (a b : IpAddr) (e : Expr IpAddr) : Expr IpAddr :=
  if a.isIpv4 ∧ b.isIpv4 then .or e (fragmentExpr n a b) else e

/-- The expression that the filter of a flow is. -/
def FlowSelector.expr (s : FlowSelector) : Expr IpAddr :=
  match keyword s.proto, s.a, s.b with
  | some _, (a, some x), (b, some y) =>
      orFragments s.proto a b (.or (directedExpr s.proto a b x y) (directedExpr s.proto b a y x))
  | some _, (a, some p), (b, none) | some _, (a, none), (b, some p) => orFragments s.proto a b (portExpr s.proto a b p)
  | some _, (a, none), (b, none) => hostsExpr (.prim (.proto s.proto.toNat)) a b
  | none, (a, _), (b, _) =>
      hostsExpr (.prim (if a.isIpv6 then .ip6Proto s.proto.toNat else .ipProto s.proto.toNat)) a b

section

variable {read : List Char → Option IpAddr} {a b : IpAddr}

theorem number_decimal (n : ℕ) : number (decimal n) = some n := number_toDigits n

/-- A keyword is a word for its protocol. -/
theorem spells_keyword {n : UInt8} {kw : String} (h : keyword n = some kw) :
    IsWord kw.toList ∧ Spells (hosts read) [word kw] (.proto n.toNat) := by
  unfold keyword at h
  split at h
  · obtain rfl := Option.some.inj h
    rename_i hn
    rw [hn]
    exact ⟨⟨by simp, by simp [isSign]⟩, .tcp⟩
  split at h
  · obtain rfl := Option.some.inj h
    rename_i hn
    rw [hn]
    exact ⟨⟨by simp, by simp [isSign]⟩, .udp⟩
  split at h
  · obtain rfl := Option.some.inj h
    rename_i hn
    rw [hn]
    exact ⟨⟨by simp, by simp [isSign]⟩, .sctp⟩
  · cases h

/-- Two hosts behind an expression, and what is joined to the three. -/
theorem readsChain_hosts (ha : read a.fmt = some a) (hb : read b.fmt = some b) {e f : Expr IpAddr} {ts : List Token}
    (h : ReadsChain (hosts read) (hostsExpr e a b) ts f) :
    ReadsChain (hosts read) e (hostTokens a b ++ ts) f := by
  have hchain := ReadsChain.and (Spells.host ha).readsTerm (ReadsChain.and (Spells.host hb).readsTerm h)
  simpa [hostTokens, word] using hchain

/-- A primitive and two hosts. -/
theorem readsExpr_hosts (ha : read a.fmt = some a) (hb : read b.fmt = some b) {ts : List Token}
    {p : Primitive IpAddr} (h : Spells (hosts read) ts p) :
    ReadsExpr (hosts read) (ts ++ hostTokens a b) (hostsExpr (.prim p) a b) := by
  have hchain := readsChain_hosts ha hb (ReadsChain.nil (hostsExpr (.prim p) a b))
  rw [List.append_nil] at hchain
  exact hchain.readsExpr h.readsTerm

theorem readsTerm_directed {n : UInt8} {kw : String} (h : keyword n = some kw) (ha : read a.fmt = some a)
    (hb : read b.fmt = some b) (x y : UInt16) :
    ReadsTerm (hosts read) (closed (directedTokens kw a b x y)) (directedExpr n a b x y) := by
  apply ReadsExpr.readsTerm
  have hports : ReadsChain (hosts read) _ _ (directedExpr n a b x y) :=
    ReadsChain.and (Spells.srcPort (number_decimal x.toNat)).readsTerm (ReadsChain.and (Spells.dstPort (number_decimal y.toNat)).readsTerm (.nil _))
  have hchain := ReadsChain.and (Spells.src ha).readsTerm (ReadsChain.and (Spells.dst hb).readsTerm hports)
  simpa [directedTokens, word] using hchain.readsExpr (spells_keyword h).2.readsTerm

theorem readsTerm_port {n : UInt8} {kw : String} (h : keyword n = some kw) (ha : read a.fmt = some a)
    (hb : read b.fmt = some b) (p : UInt16) :
    ReadsTerm (hosts read) (closed (portTokens kw a b p)) (portExpr n a b p) := by
  apply ReadsExpr.readsTerm
  have hport : ReadsChain (hosts read) _ _ (portExpr n a b p) :=
    ReadsChain.and (Spells.port (number_decimal p.toNat)).readsTerm (.nil _)
  have hchain := readsChain_hosts ha hb hport
  simpa [portTokens, word] using hchain.readsExpr (spells_keyword h).2.readsTerm

theorem readsTerm_fragment (n : UInt8) (ha : read a.fmt = some a) (hb : read b.fmt = some b) :
    ReadsTerm (hosts read) (closed (fragmentTokens n a b)) (fragmentExpr n a b) := by
  apply ReadsExpr.readsTerm
  have hfragment : ReadsExpr (hosts read) _ (.prim (.fragment offsetMask 0)) :=
    (ReadsChain.nil _).readsExpr Spells.fragment.readsTerm
  have hjoined : ReadsChain (hosts read) _ _ (fragmentExpr n a b) := ReadsChain.and hfragment.readsTerm (.nil _)
  have hchain := readsChain_hosts ha hb hjoined
  simpa [fragmentTokens, word] using hchain.readsExpr (Spells.ipProto (number_decimal n.toNat)).readsTerm

/-- The tokens of a filter with its fragments, where it has some. -/
theorem tokens_withFragments (n : UInt8) {expr : String} {ts : List Token}
    (h : ∀ rest, tokensFrom [] (expr.toList ++ rest) = ts ++ tokensFrom [] rest) :
    tokens (withFragments (fragmentClause n a b) expr).toList =
      ts ++ if a.isIpv4 ∧ b.isIpv4 then word "or" :: closed (fragmentTokens n a b) else [] := by
  unfold fragmentClause
  by_cases hv4 : a.isIpv4 ∧ b.isIpv4
  · rw [if_pos hv4, if_pos hv4, ← tokens_fragment a b n]
    generalize s!"(ip proto {n.toNat} and host {a} and host {b} and (ip[6:2] & 0x1fff != 0))" = fragments
    simp only [withFragments, tokens, toString_self, String.toList_append, List.append_assoc, h, tokensFrom_or,
      toString_self]
  · rw [if_neg hv4, if_neg hv4]
    have hend := h []
    rw [List.append_nil] at hend
    exact hend

/-- What is joined to a filter with its fragments. -/
theorem readsChain_fragments (n : UInt8) (ha : read a.fmt = some a) (hb : read b.fmt = some b) (e : Expr IpAddr) :
    ReadsChain (hosts read) e
      (if a.isIpv4 ∧ b.isIpv4 then word "or" :: closed (fragmentTokens n a b) else []) (orFragments n a b e) := by
  unfold orFragments
  by_cases hv4 : a.isIpv4 ∧ b.isIpv4
  · rw [if_pos hv4, if_pos hv4]
    have hchain : ReadsChain (hosts read) e _ (.or e (fragmentExpr n a b)) :=
      ReadsChain.or (readsTerm_fragment n ha hb) (.nil _)
    simpa [word] using hchain
  · rw [if_neg hv4, if_neg hv4]
    exact .nil e

/-- The filter of a flow is read as its expression. -/
theorem FlowSelector.parse_toBpf {s : FlowSelector} (h : s.ReadBack read) :
    parse (hosts read) s.toBpf.toList = some s.expr := by
  apply ReadsExpr.parse
  obtain ⟨n, ⟨a, x⟩, ⟨b, y⟩⟩ := s
  have ha : read a.fmt = some a := h.a
  have hb : read b.fmt = some b := h.b
  unfold toBpf expr
  dsimp only
  rcases hkw : keyword n with _ | kw
  · -- a protocol without ports
    have hicmp : IsWord "icmp".toList := ⟨by simp, by simp [isSign]⟩
    have hicmp6 : IsWord "icmp6".toList := ⟨by simp, by simp [isSign]⟩
    have hip : IsWord "ip".toList := ⟨by simp, by simp [isSign]⟩
    have hip6 : IsWord "ip6".toList := ⟨by simp, by simp [isSign]⟩
    dsimp only
    split
    · rename_i hn
      rw [hn.2, if_neg Bool.false_ne_true, hn.1]
      have htokens := tokens_hosts a b hicmp
      exact htokens ▸ readsExpr_hosts ha hb Spells.icmp
    split
    · rename_i hn
      rw [hn.2, if_pos rfl, hn.1]
      have htokens := tokens_hosts a b hicmp6
      exact htokens ▸ readsExpr_hosts ha hb Spells.icmp6
    split
    · rename_i hv4
      rw [hv4, if_neg Bool.false_ne_true]
      have htokens := tokens_proto a b hip n
      exact htokens ▸ readsExpr_hosts ha hb (Spells.ipProto (number_decimal n.toNat))
    · rename_i hv6
      rw [eq_true_of_ne_false hv6, if_pos rfl]
      have htokens := tokens_proto a b hip6 n
      exact htokens ▸ readsExpr_hosts ha hb (Spells.ip6Proto (number_decimal n.toNat))
  · have hkeyword : IsWord kw.toList ∧ Spells (hosts read) [word kw] (.proto n.toNat) := spells_keyword hkw
    have hword := hkeyword.1
    have hspells := hkeyword.2
    rcases x with _ | x
    · rcases y with _ | y
      · dsimp only
        rw [tokens_hosts a b hword]
        exact readsExpr_hosts ha hb hspells
      · dsimp only
        rw [tokens_withFragments n fun rest => tokens_port a b rest hword y]
        exact (readsChain_fragments n ha hb _).readsExpr (readsTerm_port hkw ha hb y)
    · rcases y with _ | y
      · dsimp only
        rw [tokens_withFragments n fun rest => tokens_port a b rest hword x]
        exact (readsChain_fragments n ha hb _).readsExpr (readsTerm_port hkw ha hb x)
      · dsimp only
        rw [tokens_withFragments n fun rest => tokens_directions a b rest hword x y, List.append_assoc]
        have hback : ReadsChain (hosts read) (directedExpr n a b x y) _ _ :=
          ReadsChain.or (readsTerm_directed hkw hb ha y x) (readsChain_fragments n ha hb _)
        simpa [word] using hback.readsExpr (readsTerm_directed hkw ha hb x y)

end

/-! ## What the expression accepts -/

theorem keyword_isSome {n : UInt8} : (keyword n).isSome ↔ n.toNat ∈ portProtocols := by
  have h6 : n = ipprotoTcp ↔ n.toNat = 6 := UInt8.toNat_inj.symm
  have h17 : n = ipprotoUdp ↔ n.toNat = 17 := UInt8.toNat_inj.symm
  have h132 : n = ipprotoSctp ↔ n.toNat = 132 := UInt8.toNat_inj.symm
  simp only [keyword, portProtocols, List.mem_cons, List.not_mem_nil, or_false, h6, h17, h132]
  by_cases hn : n.toNat = 6
  · simp [hn]
  by_cases hn' : n.toNat = 17
  · simp [hn']
  by_cases hn'' : n.toNat = 132
  · simp [hn'']
  · simp [hn, hn', hn'']

section

variable {read : List Char → Option IpAddr} {a b : IpAddr} {p : Packet (hosts read)}

/-- A packet has two hosts among its ends. -/
def Meets (p : Packet (hosts read)) (a b : IpAddr) : Prop := (p.src = a ∨ p.dst = a) ∧ (p.src = b ∨ p.dst = b)

theorem meets_iff (h : a ≠ b) : Meets p a b ↔ Goes p a b ∨ Goes p b a := by
  unfold Meets Goes
  constructor
  · rintro ⟨rfl | rfl, rfl | rfl⟩
    · exact absurd rfl h
    · exact .inl ⟨rfl, rfl⟩
    · exact .inr ⟨rfl, rfl⟩
    · exact absurd rfl h
  · rintro (⟨rfl, rfl⟩ | ⟨rfl, rfl⟩)
    · exact ⟨.inl rfl, .inr rfl⟩
    · exact ⟨.inr rfl, .inl rfl⟩

theorem not_goes_of_mixed (h : a.isIpv4 ≠ b.isIpv4) : ¬ (Goes p a b ∨ Goes p b a) := by
  have hsame : p.src.isIpv4 = p.dst.isIpv4 := p.sameFamily
  rintro (⟨rfl, rfl⟩ | ⟨rfl, rfl⟩)
  · exact h hsame
  · exact h hsame.symm

theorem hostsExpr_accepts {e : Expr IpAddr} :
    (hostsExpr e a b).Accepts (.ip p) ↔ e.Accepts (.ip p) ∧ Meets p a b := by
  unfold Meets
  exact and_assoc

theorem directedExpr_accepts {n : UInt8} {x y : UInt16} :
    (directedExpr n a b x y).Accepts (.ip p) ↔
      p.proto = n.toNat ∧ Goes p a b ∧ p.ports = some (x.toNat, y.toNat) := by
  unfold Goes
  rcases hports : p.ports with _ | ⟨src, dst⟩
  · simp [directedExpr, Expr.Accepts, Primitive.Accepts, Primitive.AcceptsPacket, Side.Holds, hports]
  · simp only [directedExpr, Expr.Accepts, Primitive.Accepts, Primitive.AcceptsPacket, Side.Holds, hports,
      Option.some.injEq, Prod.mk.injEq]
    constructor
    · rintro ⟨⟨⟨⟨hproto, hsrc⟩, hdst⟩, _, rfl, hx⟩, _, rfl, hy⟩
      exact ⟨hproto, ⟨hsrc, hdst⟩, hx, hy⟩
    · rintro ⟨hproto, ⟨hsrc, hdst⟩, hx, hy⟩
      exact ⟨⟨⟨⟨hproto, hsrc⟩, hdst⟩, _, rfl, hx⟩, _, rfl, hy⟩

theorem portExpr_accepts {n : UInt8} {q : UInt16} :
    (portExpr n a b q).Accepts (.ip p) ↔ p.proto = n.toNat ∧ Meets p a b ∧
      ∃ ports, p.ports = some ports ∧ (ports.1 = q.toNat ∨ ports.2 = q.toNat) := by
  rw [portExpr, Expr.Accepts, hostsExpr_accepts, and_assoc]
  exact Iff.rfl

/-- The fragments that the filter of a flow accepts. -/
theorem orFragments_accepts {n : UInt8} {e : Expr IpAddr} :
    (orFragments n a b e).Accepts (.ip p) ↔ e.Accepts (.ip p) ∨
      p.proto = n.toNat ∧ a.isIpv4 ∧ b.isIpv4 ∧ Meets p a b ∧ p.fragment &&& offsetMask ≠ 0 := by
  unfold orFragments
  by_cases hv4 : a.isIpv4 ∧ b.isIpv4
  · rw [if_pos hv4, Expr.Accepts, fragmentExpr, Expr.Accepts, hostsExpr_accepts]
    -- a packet of these hosts is of their family
    have hfamily : Meets p a b → p.src.isIpv4 = true := by
      have hsame : p.src.isIpv4 = p.dst.isIpv4 := p.sameFamily
      rintro ⟨rfl | rfl, -⟩
      · exact hv4.1
      · exact hsame.trans hv4.1
    constructor
    · rintro (h | ⟨⟨⟨-, hproto⟩, hmeets⟩, -, hfragment⟩)
      · exact .inl h
      · exact .inr ⟨hproto, hv4.1, hv4.2, hmeets, hfragment⟩
    · rintro (h | ⟨hproto, -, -, hmeets, hfragment⟩)
      · exact .inl h
      · exact .inr ⟨⟨⟨hfamily hmeets, hproto⟩, hmeets⟩, hfamily hmeets, hfragment⟩
  · rw [if_neg hv4]
    exact ⟨.inl, fun h => h.resolve_right fun h => hv4 ⟨h.2.1, h.2.2.1⟩⟩

/-- A flow between two hosts, as its filter tells them. -/
theorem protoExpr_accepts (n : ℕ) :
    (hostsExpr (.prim (if a.isIpv6 then .ip6Proto n else .ipProto n)) a b).Accepts (.ip p) ↔
      p.proto = n ∧ Meets p a b := by
  rw [hostsExpr_accepts]
  have hfamily : Meets p a b → p.src.isIpv4 = a.isIpv4 := by
    have hsame : p.src.isIpv4 = p.dst.isIpv4 := p.sameFamily
    rintro ⟨rfl | rfl, -⟩
    · rfl
    · exact hsame
  have hv6 : a.isIpv6 = !a.isIpv4 := rfl
  rcases hv4 : a.isIpv4
  · rw [hv6, hv4, if_pos (show (!false) = true from rfl)]
    constructor
    · exact fun h => ⟨h.1.2, h.2⟩
    · exact fun h => ⟨⟨(hfamily h.2).trans hv4, h.1⟩, h.2⟩
  · rw [hv6, hv4, if_neg (show ¬ (!true) = true from Bool.false_ne_true)]
    constructor
    · exact fun h => ⟨h.1.2, h.2⟩
    · exact fun h => ⟨⟨(hfamily h.2).trans hv4, h.1⟩, h.2⟩

/-- Only IP packets are accepted: each shape names a protocol. -/
theorem FlowSelector.expr_ip {s : FlowSelector} {frame : Frame (hosts read)} (h : s.expr.Accepts frame) :
    ∃ p, frame = .ip p := by
  rcases frame with p | ⟨sender, target⟩ | _
  · exact ⟨p, rfl⟩
  all_goals
    exfalso
    obtain ⟨n, ⟨a, x⟩, ⟨b, y⟩⟩ := s
    revert h
    unfold expr orFragments
    rcases keyword n with _ | kw
    · by_cases hv6 : a.isIpv6 = true <;> simp [Expr.Accepts, hostsExpr, Primitive.Accepts, hv6]
    · rcases x with _ | x <;> rcases y with _ | y <;> by_cases hv4 : a.isIpv4 ∧ b.isIpv4 <;>
        simp [Expr.Accepts, hostsExpr, directedExpr, portExpr, fragmentExpr, Primitive.Accepts, hv4]

/-- The packets that the filter of a flow accepts, but for their protocol. -/
def FlowSelector.Passes (s : FlowSelector) (p : Packet (hosts read)) : Prop :=
  match keyword s.proto, s.a, s.b with
  | some _, (a, some x), (b, some y) =>
      (Goes p a b ∧ p.ports = some (x.toNat, y.toNat) ∨ Goes p b a ∧ p.ports = some (y.toNat, x.toNat)) ∨
        a.isIpv4 ∧ b.isIpv4 ∧ Meets p a b ∧ p.fragment &&& offsetMask ≠ 0
  | some _, (a, some n), (b, none) | some _, (a, none), (b, some n) =>
      (Meets p a b ∧ ∃ ports, p.ports = some ports ∧ (ports.1 = n.toNat ∨ ports.2 = n.toNat)) ∨
        a.isIpv4 ∧ b.isIpv4 ∧ Meets p a b ∧ p.fragment &&& offsetMask ≠ 0
  | some _, (a, none), (b, none) | none, (a, _), (b, _) => Meets p a b

theorem FlowSelector.expr_accepts (s : FlowSelector) :
    s.expr.Accepts (.ip p) ↔ p.proto = s.proto.toNat ∧ s.Passes p := by
  obtain ⟨n, ⟨a, x⟩, ⟨b, y⟩⟩ := s
  unfold expr Passes
  rcases keyword n with _ | kw
  · exact protoExpr_accepts n.toNat
  rcases x with _ | x
  · rcases y with _ | y
    · exact hostsExpr_accepts
    · dsimp only
      rw [orFragments_accepts, portExpr_accepts, ← and_or_left]
  · rcases y with _ | y
    · dsimp only
      rw [orFragments_accepts, portExpr_accepts, ← and_or_left]
    · dsimp only
      rw [orFragments_accepts, Expr.Accepts, directedExpr_accepts, directedExpr_accepts, ← and_or_left, ← and_or_left]

/-! ## Symmetry -/

theorem meets_comm : Meets p a b ↔ Meets p b a := And.comm

theorem goes_reverse : Goes p.reverse a b ↔ Goes p b a := And.comm

theorem meets_reverse : Meets p.reverse a b ↔ Meets p a b := and_congr Or.comm Or.comm

theorem ports_reverse {x y : ℕ} : p.reverse.ports = some (x, y) ↔ p.ports = some (y, x) := by
  show p.ports.map Prod.swap = some (x, y) ↔ p.ports = some (y, x)
  rcases p.ports with _ | ⟨x', y'⟩
  · simp
  · simp [and_comm]

theorem exists_ports_reverse {n : ℕ} :
    (∃ ports, p.reverse.ports = some ports ∧ (ports.1 = n ∨ ports.2 = n)) ↔
      ∃ ports, p.ports = some ports ∧ (ports.1 = n ∨ ports.2 = n) := by
  show (∃ ports, p.ports.map Prod.swap = some ports ∧ _) ↔ _
  rcases p.ports with _ | ⟨x, y⟩
  · simp
  · simp [or_comm]

theorem FlowSelector.passes_swap (s : FlowSelector) : s.swap.Passes p ↔ s.Passes p := by
  obtain ⟨n, ⟨a, x⟩, ⟨b, y⟩⟩ := s
  have hfragments : (b.isIpv4 ∧ a.isIpv4 ∧ Meets p b a ∧ p.fragment &&& offsetMask ≠ 0) ↔
      (a.isIpv4 ∧ b.isIpv4 ∧ Meets p a b ∧ p.fragment &&& offsetMask ≠ 0) := by
    constructor
    · exact fun h => ⟨h.2.1, h.1, meets_comm.1 h.2.2.1, h.2.2.2⟩
    · exact fun h => ⟨h.2.1, h.1, meets_comm.1 h.2.2.1, h.2.2.2⟩
  unfold swap Passes
  rcases keyword n with _ | kw
  · exact meets_comm
  rcases x with _ | x
  · rcases y with _ | y
    · exact meets_comm
    · exact or_congr (and_congr meets_comm Iff.rfl) hfragments
  · rcases y with _ | y
    · exact or_congr (and_congr meets_comm Iff.rfl) hfragments
    · exact or_congr Or.comm hfragments

theorem FlowSelector.passes_reverse (s : FlowSelector) : s.Passes p.reverse ↔ s.Passes p := by
  obtain ⟨n, ⟨a, x⟩, ⟨b, y⟩⟩ := s
  unfold Passes
  rcases keyword n with _ | kw
  · exact meets_reverse
  rcases x with _ | x
  · rcases y with _ | y
    · exact meets_reverse
    · dsimp only
      rw [meets_reverse, exists_ports_reverse]
      rfl
  · rcases y with _ | y
    · dsimp only
      rw [meets_reverse, exists_ports_reverse]
      rfl
    · dsimp only
      rw [meets_reverse, goes_reverse, goes_reverse, ports_reverse, ports_reverse, or_comm (a := Goes p b a ∧ _)]
      rfl

/-! ## When the filter says what the flow says -/

theorem FlowSelector.passes_iff_selects {s : FlowSelector} (h : s.Exact) :
    p.proto = s.proto.toNat ∧ s.Passes p ↔ s.SelectsPacket p := by
  obtain ⟨n, ⟨a, x⟩, ⟨b, y⟩⟩ := s
  have hapart := h.apart
  have hports := h.ports
  unfold Passes SelectsPacket Continues
  dsimp only at hapart hports ⊢
  apply and_congr_right
  intro _
  rcases hkw : keyword n with _ | kw
  · -- without a keyword the hosts are different
    have hne : a ≠ b := by
      rcases hapart with hne | ⟨hsome, -⟩
      · exact hne
      · rw [hkw] at hsome
        exact absurd hsome Bool.false_ne_true
    rcases hports with hsome | ⟨rfl, rfl⟩ | hmixed
    · rw [hkw] at hsome
      exact absurd hsome Bool.false_ne_true
    · exact meets_iff hne
    · -- no packet is between hosts of two families
      have hnone := not_goes_of_mixed (p := p) hmixed
      have hno : ¬ Goes p a b := fun h => hnone (.inl h)
      have hno' : ¬ Goes p b a := fun h => hnone (.inr h)
      rcases x with _ | x <;> rcases y with _ | y <;> simp [meets_iff hne, hno, hno']
  by_cases hne : a = b
  · -- only the filter with both ports binds one host to both ends
    rcases hapart with h | ⟨-, hx, hy, hv6⟩
    · exact absurd hne h
    obtain ⟨x, rfl⟩ := Option.isSome_iff_exists.1 hx
    obtain ⟨y, rfl⟩ := Option.isSome_iff_exists.1 hy
    have hv4 : a.isIpv4 = false := by
      rw [IpAddr.isIpv6, Bool.not_eq_true'] at hv6
      exact hv6
    simp [hv4]
  · rcases x with _ | x
    · rcases y with _ | y
      · exact meets_iff hne
      · simp only [meets_iff hne]
    · rcases y with _ | y
      · simp only [meets_iff hne]
      · simp only [meets_iff hne, or_assoc]

end

/-! ## When it does not -/

/-- Another host of the same family. -/
theorem exists_other (a : IpAddr) : ∃ c, c ≠ a ∧ a.isIpv4 = c.isIpv4 := by
  rcases a with a | a
  · by_cases h : a = ⟨0, 0, 0, 0⟩
    · exact ⟨.v4 ⟨0, 0, 0, 1⟩, by rw [h]; decide, rfl⟩
    · exact ⟨.v4 ⟨0, 0, 0, 0⟩, fun heq => h (IpAddr.v4.inj heq).symm, rfl⟩
  · by_cases h : a = ⟨Vector.replicate 8 0⟩
    · exact ⟨.v6 ⟨Vector.replicate 8 1⟩, by rw [h]; decide, rfl⟩
    · exact ⟨.v6 ⟨Vector.replicate 8 0⟩, fun heq => h (IpAddr.v6.inj heq).symm, rfl⟩

section

variable {read : List Char → Option IpAddr} {s : FlowSelector}

/-- A packet of a flow that is not a later fragment, with the ports that are given for a protocol with ports. -/
def firstPacket (read : List Char → Option IpAddr) (src dst : IpAddr) (h : src.isIpv4 = dst.isIpv4) (proto : ℕ)
    (ports : Option (ℕ × ℕ)) (hports : ports.isSome → proto ∈ portProtocols) : Packet (hosts read) where
  src := src
  dst := dst
  proto := proto
  fragment := 0
  ports := ports
  sameFamily := h
  fragment_v6 _ := rfl
  fragment_ports _ := Nat.zero_and _
  proto_ports := hports

/-- A later fragment. -/
def laterPacket (read : List Char → Option IpAddr) (src dst : IpAddr) (h : src.isIpv4 = dst.isIpv4)
    (hv4 : src.isIpv4 = true) (proto : ℕ) : Packet (hosts read) where
  src := src
  dst := dst
  proto := proto
  fragment := 1
  ports := none
  sameFamily := h
  fragment_v6 hv6 := absurd (hv4.symm.trans hv6) (by decide)
  fragment_ports hsome := absurd hsome Bool.false_ne_true
  proto_ports hsome := absurd hsome Bool.false_ne_true

/-- The ends of a selected packet are the hosts of the flow. -/
theorem FlowSelector.SelectsPacket.goes {p : Packet (hosts read)} (h : s.SelectsPacket p) :
    Goes p s.a.1 s.b.1 ∨ Goes p s.b.1 s.a.1 := by
  obtain ⟨n, ⟨a, x⟩, ⟨b, y⟩⟩ := s
  obtain ⟨-, h⟩ := h
  rcases x with _ | x
  · rcases y with _ | y
    · exact h
    · rcases h with ⟨hgoes, -⟩ | ⟨-, -, hgoes, -⟩
      · exact hgoes
      · exact hgoes
  · rcases y with _ | y
    · rcases h with ⟨hgoes, -⟩ | ⟨-, -, hgoes, -⟩
      · exact hgoes
      · exact hgoes
    · rcases h with ⟨hgoes, -⟩ | ⟨hgoes, -⟩ | ⟨-, -, hgoes, -⟩
      · exact .inl hgoes
      · exact .inr hgoes
      · exact hgoes

/-- When both hosts are the same, but not bound to a side of the packet, packets to others pass. -/
theorem exists_passes_other (hsame : s.a.1 = s.b.1)
    (hbound : ¬ ((keyword s.proto).isSome ∧ s.a.2.isSome ∧ s.b.2.isSome ∧ s.a.1.isIpv6 = true)) :
    ∃ p : Packet (hosts read), p.proto = s.proto.toNat ∧ s.Passes p ∧ ¬ s.SelectsPacket p := by
  obtain ⟨n, ⟨a, x⟩, ⟨b, y⟩⟩ := s
  obtain rfl : a = b := hsame
  obtain ⟨c, hne, hfamily⟩ := exists_other a
  dsimp only at hbound
  have hother : ∀ p : Packet (hosts read), p.src = a → p.dst = c →
      ¬ FlowSelector.SelectsPacket ⟨n, (a, x), (a, y)⟩ p := by
    intro p hsrc hdst h
    rcases h.goes with ⟨-, hgoes⟩ | ⟨-, hgoes⟩
    · exact hne (hdst.symm.trans hgoes)
    · exact hne (hdst.symm.trans hgoes)
  have hmeets : ∀ p : Packet (hosts read), p.src = a → Meets p a a := fun p h => ⟨.inl h, .inl h⟩
  rcases hkw : keyword n with _ | kw
  · refine ⟨firstPacket read a c hfamily n.toNat none nofun, rfl, ?_, hother _ rfl rfl⟩
    unfold FlowSelector.Passes
    rw [hkw]
    exact hmeets _ rfl
  have hproto : n.toNat ∈ portProtocols := keyword_isSome.1 (by rw [hkw]; rfl)
  rcases x with _ | x
  · rcases y with _ | y
    · refine ⟨firstPacket read a c hfamily n.toNat none nofun, rfl, ?_, hother _ rfl rfl⟩
      unfold FlowSelector.Passes
      rw [hkw]
      exact hmeets _ rfl
    · refine ⟨firstPacket read a c hfamily n.toNat (some (y.toNat, 0)) fun _ => hproto, rfl, ?_, hother _ rfl rfl⟩
      unfold FlowSelector.Passes
      rw [hkw]
      exact .inl ⟨hmeets _ rfl, _, rfl, .inl rfl⟩
  · rcases y with _ | y
    · refine ⟨firstPacket read a c hfamily n.toNat (some (x.toNat, 0)) fun _ => hproto, rfl, ?_, hother _ rfl rfl⟩
      unfold FlowSelector.Passes
      rw [hkw]
      exact .inl ⟨hmeets _ rfl, _, rfl, .inl rfl⟩
    · have hv4 : a.isIpv4 = true := by
        by_contra hv6
        exact hbound ⟨by rw [hkw]; rfl, rfl, rfl, by rw [IpAddr.isIpv6, eq_false_of_ne_true hv6]; rfl⟩
      refine ⟨laterPacket read a c hfamily hv4 n.toNat, rfl, ?_, hother _ rfl rfl⟩
      unfold FlowSelector.Passes
      rw [hkw]
      exact .inr ⟨hv4, hv4, hmeets _ rfl, show 1 &&& offsetMask ≠ 0 by decide⟩

/-- The ports that are given for another protocol are not looked at. -/
theorem exists_passes_portless (hkw : keyword s.proto = none) (hports : ¬ (s.a.2 = none ∧ s.b.2 = none))
    (hfamily : s.a.1.isIpv4 = s.b.1.isIpv4) :
    ∃ p : Packet (hosts read), p.proto = s.proto.toNat ∧ s.Passes p ∧ ¬ s.SelectsPacket p := by
  obtain ⟨n, ⟨a, x⟩, ⟨b, y⟩⟩ := s
  dsimp only at hkw hports hfamily
  refine ⟨firstPacket read a b hfamily n.toNat none nofun, rfl, ?_, ?_⟩
  · unfold FlowSelector.Passes
    rw [hkw]
    exact ⟨.inl rfl, .inr rfl⟩
  · rintro ⟨-, h⟩
    have hfirst : ¬ (firstPacket read a b hfamily n.toNat none nofun).fragment &&& offsetMask ≠ 0 :=
      fun h => h (Nat.zero_and _)
    rcases x with _ | x
    · rcases y with _ | y
      · exact hports ⟨rfl, rfl⟩
      · rcases h with ⟨-, _, hnone, -⟩ | ⟨-, -, -, hfragment⟩
        · exact nomatch hnone
        · exact hfirst hfragment
    · rcases y with _ | y
      · rcases h with ⟨-, _, hnone, -⟩ | ⟨-, -, -, hfragment⟩
        · exact nomatch hnone
        · exact hfirst hfragment
      · rcases h with ⟨-, hnone⟩ | ⟨-, hnone⟩ | ⟨-, -, -, hfragment⟩
        · exact nomatch hnone
        · exact nomatch hnone
        · exact hfirst hfragment

/-! ## The law of the filter -/

theorem FlowSelector.accepts_iff_expr (h : s.ReadBack read) {frame : Frame (hosts read)} :
    s.Accepts frame ↔ s.expr.Accepts frame := by
  unfold Accepts
  rw [parse_toBpf h]
  constructor
  · rintro ⟨e, heq, haccepts⟩
    rwa [Option.some.inj heq]
  · exact fun haccepts => ⟨_, rfl, haccepts⟩

/-- The filter of a flow accepts what the flow selects, whichever end comes first and whichever way the packet
goes. -/
def FlowSelector.Faithful (s : FlowSelector) (read : List Char → Option IpAddr) : Prop :=
  (∀ frame : Frame (hosts read), s.Accepts frame ↔ s.Selects frame) ∧
    (∀ frame : Frame (hosts read), s.swap.Accepts frame ↔ s.Accepts frame) ∧
    ∀ frame : Frame (hosts read), s.Accepts frame.reverse ↔ s.Accepts frame

theorem FlowSelector.accepts_swap (h : s.ReadBack read) (frame : Frame (hosts read)) :
    s.swap.Accepts frame ↔ s.Accepts frame := by
  have hswap : s.swap.ReadBack read := ⟨h.b, h.a⟩
  rw [accepts_iff_expr h, accepts_iff_expr hswap]
  rcases frame with p | ⟨sender, target⟩ | _
  · rw [expr_accepts, expr_accepts, passes_swap]
    rfl
  all_goals
    constructor
    · intro haccepts
      exact nomatch expr_ip haccepts
    · intro haccepts
      exact nomatch expr_ip haccepts

theorem FlowSelector.accepts_reverse (h : s.ReadBack read) (frame : Frame (hosts read)) :
    s.Accepts frame.reverse ↔ s.Accepts frame := by
  rw [accepts_iff_expr h, accepts_iff_expr h]
  rcases frame with p | ⟨sender, target⟩ | _
  · show s.expr.Accepts (.ip p.reverse) ↔ s.expr.Accepts (.ip p)
    rw [expr_accepts, expr_accepts, passes_reverse]
    rfl
  all_goals
    constructor
    · intro haccepts
      exact nomatch expr_ip haccepts
    · intro haccepts
      exact nomatch expr_ip haccepts

/-- The filter of a flow is faithful exactly when the hosts are different or bound to the sides of a packet, and
ports are given for a protocol with ports only. -/
theorem toBpf_faithful_iff (h : s.ReadBack read) : s.Faithful read ↔ s.Exact := by
  constructor
  · rintro ⟨hselects, -, -⟩
    -- each packet that passes is selected
    have hpasses : ¬ ∃ p : Packet (hosts read), p.proto = s.proto.toNat ∧ s.Passes p ∧ ¬ s.SelectsPacket p := by
      rintro ⟨p, hproto, hpasses, hnot⟩
      have hexpr := FlowSelector.expr_accepts s |>.2 ⟨hproto, hpasses⟩
      exact hnot ((hselects (.ip p)).1 ((FlowSelector.accepts_iff_expr h).2 hexpr))
    refine ⟨?_, ?_⟩
    · by_contra hno
      rw [not_or, not_not] at hno
      exact hpasses (exists_passes_other hno.1 hno.2)
    · by_contra hno
      rw [not_or, not_or, not_not, Option.not_isSome_iff_eq_none] at hno
      exact hpasses (exists_passes_portless hno.1 hno.2.1 hno.2.2)
  · intro hexact
    refine ⟨fun frame => ?_, FlowSelector.accepts_swap h, FlowSelector.accepts_reverse h⟩
    rw [FlowSelector.accepts_iff_expr h]
    rcases frame with p | ⟨sender, target⟩ | _
    · rw [FlowSelector.expr_accepts]
      exact FlowSelector.passes_iff_selects hexact
    all_goals
      constructor
      · intro haccepts
        exact nomatch FlowSelector.expr_ip haccepts
      · exact False.elim

end

/-- A DNS flow between two hosts. -/
def dnsFlow : FlowSelector := ⟨17, (.v4 ⟨10, 1, 1, 5⟩, some 4000), (.v4 ⟨192, 0, 2, 10⟩, some 53)⟩

/-- A reader of the addresses of that flow. -/
def readDns (text : List Char) : Option IpAddr :=
  if text = "10.1.1.5".toList then some (.v4 ⟨10, 1, 1, 5⟩)
  else if text = "192.0.2.10".toList then some (.v4 ⟨192, 0, 2, 10⟩)
  else none

theorem toBpf_faithful_dnsFlow : dnsFlow.Faithful readDns ↔ dnsFlow.Exact :=
  toBpf_faithful_iff ⟨by decide +kernel, by decide +kernel⟩

/-- The ICMP messages of a host to itself. -/
def selfFlow : FlowSelector := ⟨1, (.v4 ⟨10, 1, 1, 5⟩, none), (.v4 ⟨10, 1, 1, 5⟩, none)⟩

/-- Its filter accepts the messages of the host to any other. -/
theorem selfFlow_not_faithful : ¬ selfFlow.Faithful readDns := by
  rintro ⟨hselects, -, -⟩
  have hread : selfFlow.ReadBack readDns := ⟨by decide +kernel, by decide +kernel⟩
  let p := firstPacket readDns (.v4 ⟨10, 1, 1, 5⟩) (.v4 ⟨192, 0, 2, 10⟩) rfl 1 none nofun
  have haccepts : selfFlow.Accepts (.ip p) :=
    (FlowSelector.accepts_iff_expr hread).2 ((FlowSelector.expr_accepts selfFlow).2 ⟨rfl, .inl rfl, .inl rfl⟩)
  rcases ((hselects (.ip p)).1 haccepts).2 with ⟨-, hdst⟩ | ⟨-, hdst⟩
  · exact absurd hdst (show IpAddr.v4 ⟨192, 0, 2, 10⟩ ≠ .v4 ⟨10, 1, 1, 5⟩ by decide)
  · exact absurd hdst (show IpAddr.v4 ⟨192, 0, 2, 10⟩ ≠ .v4 ⟨10, 1, 1, 5⟩ by decide)

end EveBox.Pcap
