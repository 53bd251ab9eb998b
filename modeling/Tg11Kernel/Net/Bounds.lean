import Tg11Kernel.Net.Resolver
import Tg11Kernel.Net.Api

/-! No input makes the stack read outside it. A handler is called for a window of the frame;
the check of each layer implies that the reads of that layer are inside and that the window
of the next layer is. Handling a frame ends, since the waits inside it end when nothing
arrives any more, and so do the walks over DHCP options and over DNS responses. -/

namespace Tg11Kernel.Net

open Lib Exec

/-! ### Reads -/

section Reads

variable {frame : Bytes} {i : ℕ}

theorem u8_isSome (h : i + 1 ≤ frame.length) : (u8 frame i).isSome := by
  unfold u8
  rw [List.getElem?_eq_getElem (by omega)]
  rfl

theorem u16_isSome (h : i + 2 ≤ frame.length) : (u16 frame i).isSome := by
  unfold u16
  rw [List.getElem?_eq_getElem (by omega), List.getElem?_eq_getElem (by omega)]
  rfl

theorem u32_isSome (h : i + 4 ≤ frame.length) : (u32 frame i).isSome := by
  unfold u32
  rw [List.getElem?_eq_getElem (by omega), List.getElem?_eq_getElem (by omega), List.getElem?_eq_getElem (by omega),
    List.getElem?_eq_getElem (by omega)]
  rfl

theorem ipAt_isSome (h : i + 4 ≤ frame.length) : (ipAt frame i).isSome := by
  unfold ipAt
  rw [List.getElem?_eq_getElem (by omega), List.getElem?_eq_getElem (by omega), List.getElem?_eq_getElem (by omega),
    List.getElem?_eq_getElem (by omega)]
  rfl

theorem macAt_isSome (h : i + 6 ≤ frame.length) : (macAt frame i).isSome := by
  unfold macAt
  rw [List.getElem?_eq_getElem (by omega), List.getElem?_eq_getElem (by omega), List.getElem?_eq_getElem (by omega),
    List.getElem?_eq_getElem (by omega), List.getElem?_eq_getElem (by omega), List.getElem?_eq_getElem (by omega)]
  rfl

theorem bytesAt_isSome {n : ℕ} (h : i + n ≤ frame.length) : (bytesAt frame i n).isSome := by
  unfold bytesAt
  rw [if_pos h]
  rfl

/-- All reads are inside, and the result satisfies `P`. -/
def Gives {α : Type} (P : α → Prop) (o : Option α) : Prop := ∃ a, o = some a ∧ P a

theorem gives_some {α : Type} {P : α → Prop} {a : α} (h : P a) : Gives P (some a) := ⟨a, rfl, h⟩

theorem gives_bind {α β : Type} {P : β → Prop} {o : Option α} {f : α → Option β} (h : o.isSome) (hf : ∀ a, Gives P (f a)) :
    Gives P (o >>= f) := by
  cases o with
  | none => cases h
  | some a => exact hf a

end Reads

/-! ### Headers -/

section Headers

variable {frame : Bytes} {off len : ℕ}

section

variable (h : off + len ≤ frame.length)
include h

theorem parseArp_gives : Gives (fun _ => True) (parseArp frame off len) := by
  unfold parseArp
  by_cases hlen : len < 28
  · rw [if_pos hlen]
    exact gives_some trivial
  · rw [if_neg hlen]
    apply gives_bind (u16_isSome (by omega))
    intro hwType
    apply gives_bind (u16_isSome (by omega))
    intro protoType
    split_ifs
    · exact gives_some trivial
    · apply gives_bind (u8_isSome (by omega))
      intro hwLen
      apply gives_bind (u8_isSome (by omega))
      intro protoLen
      split_ifs
      · exact gives_some trivial
      · apply gives_bind (macAt_isSome (by omega))
        intro senderMac
        apply gives_bind (ipAt_isSome (by omega))
        intro senderIp
        apply gives_bind (u16_isSome (by omega))
        intro opcode
        apply gives_bind (ipAt_isSome (by omega))
        intro targetIp
        exact gives_some trivial

theorem parseIcmp_gives : Gives (fun _ => True) (parseIcmp frame off len) := by
  unfold parseIcmp
  by_cases hlen : len < 8
  · rw [if_pos hlen]
    exact gives_some trivial
  · rw [if_neg hlen]
    apply gives_bind (u8_isSome (by omega))
    intro type
    apply gives_bind (u8_isSome (by omega))
    intro code
    apply gives_bind (u16_isSome (by omega))
    intro ident
    apply gives_bind (u16_isSome (by omega))
    intro seq
    apply gives_bind (bytesAt_isSome (by omega))
    intro bytes
    exact gives_some trivial

theorem parseUdp_gives : Gives (fun _ => True) (parseUdp frame off len) := by
  unfold parseUdp
  by_cases hlen : len < 8
  · rw [if_pos hlen]
    exact gives_some trivial
  · rw [if_neg hlen]
    apply gives_bind (u16_isSome (by omega))
    intro srcPort
    apply gives_bind (u16_isSome (by omega))
    intro dstPort
    apply gives_bind (u16_isSome (by omega))
    intro udpLen
    split_ifs <;> exact gives_some trivial

theorem parseTcp_gives : Gives (fun _ => True) (parseTcp frame off len) := by
  unfold parseTcp
  by_cases hlen : len < 20
  · rw [if_pos hlen]
    exact gives_some trivial
  · rw [if_neg hlen]
    apply gives_bind (u16_isSome (by omega))
    intro srcPort
    apply gives_bind (u16_isSome (by omega))
    intro dstPort
    apply gives_bind (u32_isSome (by omega))
    intro seqNum
    apply gives_bind (u32_isSome (by omega))
    intro ackNum
    apply gives_bind (u8_isSome (by omega))
    intro flags
    apply gives_bind (u8_isSome (by omega))
    intro dataOff
    by_cases hhdr : ((dataOff >>> 4) &&& 0x0F).toNat * 4 < 20 ∨ ((dataOff >>> 4) &&& 0x0F).toNat * 4 > len
    · rw [if_pos hhdr]
      exact gives_some trivial
    · rw [if_neg hhdr]
      apply gives_bind (bytesAt_isSome (by omega))
      intro data
      exact gives_some trivial

end

/-- The payload of a packet that is not dropped lies inside. -/
def PayloadWithin (frame : Bytes) (pkt : Option Ipv4Pkt) : Prop := ∀ p, pkt = some p → p.payload + p.payloadLen ≤ frame.length

theorem payloadWithin_none : PayloadWithin frame none := nofun

theorem parseIpv4_gives {ip : Ip} (h : off + len ≤ frame.length) : Gives (PayloadWithin frame) (parseIpv4 ip frame off len) := by
  unfold parseIpv4
  by_cases hlen : len < 20
  · rw [if_pos hlen]
    exact gives_some payloadWithin_none
  · rw [if_neg hlen]
    apply gives_bind (u8_isSome (by omega))
    intro verIhl
    split_ifs
    · exact gives_some payloadWithin_none
    · apply gives_bind (u16_isSome (by omega))
      intro totalLen
      by_cases hhdr : (verIhl &&& 0x0F).toNat * 4 < 20 ∨ totalLen.toNat < (verIhl &&& 0x0F).toNat * 4 ∨ totalLen.toNat > len
      · rw [if_pos hhdr]
        exact gives_some payloadWithin_none
      · rw [if_neg hhdr]
        apply gives_bind (ipAt_isSome (by omega))
        intro dstIp
        split_ifs
        · exact gives_some payloadWithin_none
        · apply gives_bind (u8_isSome (by omega))
          intro protocol
          apply gives_bind (ipAt_isSome (by omega))
          intro srcIp
          apply gives_some
          rintro p hp
          cases hp
          show off + _ + (_ - _) ≤ frame.length
          omega

end Headers

/-! ### Handlers -/

/-- The program returns from `s`, in a state with no more arrivals to come. -/
def Returns {α : Type} (m : Exec Stack α) (s : Stack) : Prop :=
  Ends m s (fun _ t => t.world.length ≤ s.world.length) fun _ => False

namespace Returns

variable {α β : Type} {m : Exec Stack α} {f : α → Exec Stack β} {s : Stack}

theorem pure {a : α} : Returns (Pure.pure a) s := Ends.pure (Nat.le_refl _)

theorem gets {h : Stack → α} : Returns (Exec.gets h) s := .inl ⟨_, _, rfl, Nat.le_refl _⟩

theorem modify {g : Stack → Stack} (hg : (g s).world = s.world) : Returns (Exec.modify g) s :=
  Ends.modify (by rw [hg])

/-- The rest returns from every state that has no more arrivals to come. -/
theorem bind (h : Returns m s) (hf : ∀ a t, t.world.length ≤ s.world.length → Returns (f a) t) : Returns (m >>= f) s :=
  Ends.bind h fun a t ht => (hf a t ht).mono (fun _ _ hu => hu.trans ht) fun _ h => h

theorem ignore (h : Returns m s) : Returns (Exec.ignore m) s := h.bind fun _ _ _ => pure

/-- A parser that reads inside. -/
theorem parse_bind {P : α → Prop} {o : Option α} (h : Gives P o) (hf : ∀ a, P a → Returns (f a) s) :
    Returns (Exec.ofOption o >>= f) s := by
  obtain ⟨a, rfl, ha⟩ := h
  exact hf a ha

end Returns

section Handlers

variable {poll : Exec Stack Unit} {n : ℕ} {frame : Bytes} {off len : ℕ} {srcIp : Ip} {s : Stack}

/-- The inner `net_poll` returns when something is to arrive, and takes it. -/
def Polls (poll : Exec Stack Unit) (n : ℕ) : Prop :=
  ∀ s, s.world ≠ [] → s.world.length ≤ n → Ends poll s (fun _ t => t.world.length < s.world.length) fun _ => False

theorem returns_sendEth (dst : Mac) (ethertype : UInt16) (payload : Bytes) : Returns (sendEth dst ethertype payload) s := by
  unfold sendEth
  split_ifs
  · exact Returns.pure
  · apply Returns.gets.bind
    intro src t _
    by_cases hup : t.up = true
    · exact .inl ⟨true, _, if_pos hup, Nat.le_refl _⟩
    · exact .inl ⟨false, t, if_neg hup, Nat.le_refl _⟩

theorem returns_whileBefore {body : Exec Stack Bool} (deadline : UInt64) (hbody : s.world ≠ [] → Returns body s) :
    Returns (whileBefore deadline body) s := by
  by_cases htime : s.ticks < deadline
  · by_cases hworld : s.world.isEmpty = true
    · exact .inl ⟨false, { s with ticks := deadline }, (if_pos htime).trans (if_pos hworld), Nat.le_refl _⟩
    · have heq : whileBefore deadline body s = body s := (if_pos htime).trans (if_neg hworld)
      have hne : s.world ≠ [] := fun h => hworld (by rw [h]; rfl)
      unfold Returns Ends
      rw [heq]
      exact hbody hne
  · exact .inl ⟨false, s, if_neg htime, Nat.le_refl _⟩

/-- The wait ends: each poll takes one of the arrivals to come. -/
theorem returns_waitUntil {k : ℕ} (hpoll : Polls poll n) (deadline : UInt64) (done : Stack → Bool) (hk : k ≤ n)
    (hs : s.world.length ≤ k) : Returns (waitUntil poll deadline done k) s := by
  induction k generalizing s with
  | zero =>
    apply returns_whileBefore
    intro hne
    exact absurd (List.length_eq_zero_iff.1 (Nat.le_zero.1 hs)) hne
  | succ k ih =>
    apply returns_whileBefore
    intro hne
    have hrest : ∀ t : Stack, t.world.length < s.world.length →
        Ends (do
          let stop ← gets done
          if stop = true then pure true else waitUntil poll deadline done k) t
          (fun _ u => u.world.length ≤ s.world.length) fun _ => False := by
      intro t ht
      apply Ends.gets_bind
      by_cases hdone : done t = true
      · rw [if_pos hdone]
        exact Ends.pure ht.le
      · rw [if_neg hdone]
        exact (ih (by omega) (by omega)).mono (fun _ _ hu => hu.trans ht.le) fun _ h => h
    exact (hpoll s hne (by omega)).bind fun _ t ht => hrest t ht

theorem returns_resolveMac (hpoll : Polls poll n) (hs : s.world.length ≤ n) (dstIp : Ip) : Returns (resolveMac poll n dstIp) s := by
  apply Returns.gets.bind
  intro target t ht
  apply Returns.gets.bind
  intro mac u hu
  cases mac with
  | some mac => exact Returns.pure
  | none =>
    apply Returns.bind
    · exact Returns.gets.bind fun cfg v _ => (returns_sendEth _ _ _).ignore
    · intro _ v hv
      apply Returns.gets.bind
      intro now w hw
      apply (returns_waitUntil hpoll _ _ (Nat.le_refl n) (by omega)).bind
      intro found x _
      split_ifs
      · exact Returns.gets
      · exact Returns.pure

theorem returns_tcpSendSegment (hpoll : Polls poll n) (hs : s.world.length ≤ n) (i : Conn) (flags : UInt8) (data : Bytes) :
    Returns (tcpSendSegment poll n i flags data) s := by
  unfold tcpSendSegment
  split_ifs
  · exact (Returns.modify rfl).bind fun _ t _ => Returns.pure
  · apply Returns.gets.bind
    intro c t ht
    apply (returns_resolveMac hpoll (by omega) _).bind
    intro mac u _
    cases mac with
    | none => exact (Returns.modify rfl).bind fun _ v _ => Returns.pure
    | some dstMac =>
      apply Returns.gets.bind
      intro c v _
      apply Returns.gets.bind
      intro cfg w _
      apply (returns_sendEth _ _ _).bind
      intro ok x _
      exact (Returns.modify rfl).bind fun _ y _ => Returns.pure

theorem returns_putConn (i : Conn) (c : TcpConn) : Returns (putConn i c) s := Returns.modify rfl

theorem returns_shutConn (i : Conn) : Returns (shutConn i) s := Returns.gets.bind fun _ _ _ => returns_putConn i _

theorem returns_onSegment (hpoll : Polls poll n) (hs : s.world.length ≤ n) (i : Conn) (seg : Segment) (state : TcpState) :
    Returns (onSegment poll n i seg state) s := by
  have hack : ∀ t : Stack, t.world.length ≤ n → Returns (ignore (tcpSendSegment poll n i TCP_ACK [])) t :=
    fun t ht => (returns_tcpSendSegment hpoll ht _ _ _).ignore
  have hput : ∀ (c : TcpConn) (t : Stack), t.world.length ≤ n →
      Returns (do putConn i c; ignore (tcpSendSegment poll n i TCP_ACK [])) t :=
    fun c t ht => (returns_putConn i c).bind fun _ u hu => hack u (hu.trans ht)
  have hlast : ∀ (c : TcpConn) (t : Stack), t.world.length ≤ n → Returns (do putConn i c; onLastFin poll n i) t :=
    fun c t ht => (returns_putConn i c).bind fun _ u hu => (hack u (hu.trans ht)).bind fun _ v _ => returns_shutConn i
  cases state with
  | synSent =>
    unfold onSegment onSynSent
    split_ifs
    · exact Returns.gets.bind fun c t ht => hput _ t (ht.trans hs)
    · exact Returns.pure
  | established =>
    unfold onSegment onEstablished
    apply Returns.bind
    · unfold takeData
      apply Returns.gets.bind
      intro c t ht
      split_ifs
      · exact hput _ t (ht.trans hs)
      · exact Returns.pure
    · intro _ t ht
      unfold takeFin
      split_ifs
      · exact Returns.gets.bind fun c u hu => hput _ u (hu.trans (ht.trans hs))
      · exact Returns.pure
  | finWait1 =>
    unfold onSegment onFinWait1
    split_ifs
    · exact Returns.gets.bind fun c t ht => hlast _ t (ht.trans hs)
    · exact Returns.gets.bind fun c t _ => returns_putConn i _
    · exact Returns.pure
  | finWait2 =>
    unfold onSegment onFinWait2
    split_ifs
    · exact Returns.gets.bind fun c t ht => hlast _ t (ht.trans hs)
    · exact Returns.pure
  | lastAck =>
    unfold onSegment onLastAck
    split_ifs
    · exact returns_shutConn i
    · exact Returns.pure
  | closed => exact Returns.pure
  | closeWait => exact Returns.pure
  | timeWait => exact Returns.pure

theorem returns_handleTcp (hpoll : Polls poll n) (hs : s.world.length ≤ n) (h : off + len ≤ frame.length) :
    Returns (handleTcp poll n frame off len srcIp) s := by
  apply Returns.parse_bind (parseTcp_gives h)
  intro seg _
  cases seg with
  | none => exact Returns.pure
  | some seg =>
    apply Returns.gets.bind
    intro conn t ht
    cases conn with
    | none => exact Returns.pure
    | some i =>
      apply Returns.gets.bind
      intro c u hu
      apply (Returns.modify rfl).bind
      intro _ v hv
      split_ifs
      · exact returns_shutConn i
      · exact returns_onSegment hpoll (by omega) i seg c.state

theorem returns_handleArp (h : off + len ≤ frame.length) : Returns (handleArp frame off len) s := by
  apply Returns.parse_bind (parseArp_gives h)
  intro arp _
  cases arp with
  | none => exact Returns.pure
  | some arp =>
    apply (Returns.modify rfl).bind
    intro _ t _
    apply Returns.gets.bind
    intro ip u _
    split_ifs
    · exact Returns.gets.bind fun cfg v _ => (returns_sendEth _ _ _).ignore
    · exact Returns.pure

theorem returns_handleIcmp (h : off + len ≤ frame.length) : Returns (handleIcmp frame off len srcIp) s := by
  apply Returns.parse_bind (parseIcmp_gives h)
  intro msg _
  cases msg with
  | none => exact Returns.pure
  | some msg =>
    show Returns (answerIcmp msg srcIp) s
    unfold answerIcmp
    split_ifs
    · unfold echoReply
      split_ifs
      · exact Returns.pure
      · apply Returns.gets.bind
        intro ip t _
        apply Returns.gets.bind
        intro mac u _
        cases mac with
        | none => exact Returns.pure
        | some dstMac => exact (returns_sendEth _ _ _).ignore
    · unfold pingReply
      apply Returns.modify
      split <;> rfl
    · exact Returns.pure

theorem returns_handleUdp (h : off + len ≤ frame.length) : Returns (handleUdp frame off len srcIp) s := by
  apply Returns.parse_bind (parseUdp_gives h)
  intro d _
  cases d with
  | none => exact Returns.pure
  | some d => exact Returns.modify rfl

section

variable (hpoll : Polls poll n) (hs : s.world.length ≤ n)
include hpoll hs

theorem returns_handleIpv4 (h : off + len ≤ frame.length) : Returns (handleIpv4 poll n frame off len) s := by
  apply Returns.gets.bind
  intro ip t ht
  apply Returns.parse_bind (parseIpv4_gives h)
  intro pkt hpkt
  cases pkt with
  | none => exact Returns.pure
  | some pkt =>
    have hwithin := hpkt pkt rfl
    show Returns (dispatchIpv4 poll n frame pkt) t
    unfold dispatchIpv4
    split_ifs
    · exact returns_handleIcmp hwithin
    · exact returns_handleTcp hpoll (ht.trans hs) hwithin
    · exact returns_handleUdp hwithin
    · exact Returns.pure

theorem returns_handleFrame (frame : Bytes) : Returns (handleFrame poll n frame) s := by
  unfold handleFrame
  by_cases hlen : frame.length < ETH_HLEN
  · rw [if_pos hlen]
    exact Returns.pure
  · rw [if_neg hlen]
    unfold ETH_HLEN at hlen
    have hetype : Gives (fun _ => True) (u16 frame 12) := by
      obtain ⟨v, hv⟩ := Option.isSome_iff_exists.1 (u16_isSome (show 12 + 2 ≤ frame.length by omega))
      exact ⟨v, hv, trivial⟩
    have hwindow : ETH_HLEN + (frame.length - ETH_HLEN) ≤ frame.length := by
      unfold ETH_HLEN
      omega
    apply Returns.parse_bind hetype
    intro etype _
    unfold dispatchFrame
    split_ifs
    · exact returns_handleArp hwindow
    · exact returns_handleIpv4 hpoll hs hwindow
    · exact Returns.pure

theorem returns_pollLoop (count : ℕ) : Returns (pollLoop (handleFrame poll n) count) s := by
  induction count generalizing s with
  | zero => exact Returns.pure
  | succ count ih =>
    have hrx : Returns e1000PollRx s := by
      by_cases hup : s.up = true
      · cases hrx : s.rx with
        | nil => exact .inl ⟨none, s, by unfold e1000PollRx; rw [if_pos hup, hrx], Nat.le_refl _⟩
        | cons f rx => exact .inl ⟨some (f.take 2048), s.receive (f.take 2048) rx, by unfold e1000PollRx; rw [if_pos hup, hrx], Nat.le_refl _⟩
      · exact .inl ⟨none, s, if_neg hup, Nat.le_refl _⟩
    apply hrx.bind
    intro frame t ht
    cases frame with
    | none => exact Returns.pure
    | some frame => exact (returns_handleFrame hpoll (ht.trans hs) frame).bind fun _ u hu => ih (hu.trans (ht.trans hs))

end

theorem arrive_length (s : Stack) : s.arrive.world.length = s.world.length - 1 := by
  unfold Stack.arrive
  cases hworld : s.world with
  | nil => simp [hworld]
  | cons a world => simp

theorem polls_hang : Polls hang 0 := fun _ hne hs => absurd (List.length_eq_zero_iff.1 (Nat.le_zero.1 hs)) hne

/-- `net_poll` takes one arrival and returns. -/
theorem ends_netPoll (n : ℕ) (s : Stack) (hs : s.world.length ≤ n) :
    Ends (netPoll n) s (fun _ t => t.world.length ≤ s.world.length - 1) fun _ => False := by
  induction n generalizing s with
  | zero =>
    have hlen := arrive_length s
    apply Ends.bind (Ends.modify (Q := fun _ t => t = s.arrive) rfl)
    rintro _ t rfl
    exact (returns_pollLoop polls_hang (by omega) 64).mono (fun _ _ hu => by omega) fun _ h => h
  | succ n ih =>
    have hlen := arrive_length s
    have hpoll : Polls (netPoll n) n := by
      intro t hne ht
      have hpos := List.length_pos_iff.2 hne
      exact (ih t ht).mono (fun _ _ hu => by omega) fun _ h => h
    apply Ends.bind (Ends.modify (Q := fun _ t => t = s.arrive) rfl)
    rintro _ t rfl
    exact (returns_pollLoop hpoll (by omega) 64).mono (fun _ _ hu => by omega) fun _ h => h

theorem polls_netPoll (n : ℕ) : Polls (netPoll n) n := by
  intro s hne hs
  have hpos := List.length_pos_iff.2 hne
  exact (ends_netPoll n s hs).mono (fun _ _ hu => by omega) fun _ h => h

end Handlers

/-! ### DHCP and DNS -/

theorem ofOption_ends {σ α β : Type} {o : Option α} {f : α → Exec σ β} {t : σ} {Q : β → σ → Prop} (h : o.isSome)
    (hf : ∀ a, o = some a → Ends (f a) t Q fun _ => False) : Ends (ofOption o >>= f) t Q fun _ => False :=
  Ends.ofOption_bind hf fun hnone => by rw [hnone] at h; cases h

section Walks

variable {opts buf : Bytes}

variable {i fuel pos count : ℕ}

theorem ends_readOption {len : ℕ} (h : i + len ≤ opts.length) (opt msgType : UInt8) (o : DhcpOptions) :
    Ends (readOption opts opt i len msgType) o (fun _ _ => True) fun _ => False := by
  unfold readOption
  split_ifs with htype hlen haddr
  · obtain ⟨v, hv⟩ := Option.isSome_iff_exists.1 (u8_isSome (show i + 1 ≤ opts.length by omega))
    rw [hv]
    exact Ends.pure trivial
  · exact Ends.pure trivial
  · apply ofOption_ends (ipAt_isSome (by omega))
    intro ip _
    exact Ends.bind (Ends.modify (Q := fun _ _ => True) trivial) fun _ _ _ => Ends.pure trivial
  · exact Ends.pure trivial

theorem ends_dhcpOptions (h : opts.length - i < fuel) (msgType : UInt8) (o : DhcpOptions) :
    Ends (dhcpOptions opts fuel i msgType) o (fun _ _ => True) fun _ => False := by
  induction fuel generalizing i msgType o with
  | zero => omega
  | succ fuel ih =>
    unfold dhcpOptions
    by_cases hi : i < opts.length
    · rw [if_pos hi]
      apply ofOption_ends (u8_isSome (by omega))
      intro opt _
      by_cases hend : opt = 255
      · rw [if_pos hend]
        exact Ends.pure trivial
      · rw [if_neg hend]
        by_cases hpad : opt = 0
        · rw [if_pos hpad]
          exact ih (by omega) _ _
        · rw [if_neg hpad]
          by_cases hlast : i + 1 ≥ opts.length
          · rw [if_pos hlast]
            exact Ends.pure trivial
          · rw [if_neg hlast]
            apply ofOption_ends (u8_isSome (by omega))
            intro len _
            by_cases hlen : i + 2 + len.toNat > opts.length
            · rw [if_pos hlen]
              exact Ends.pure trivial
            · rw [if_neg hlen]
              exact (ends_readOption (by omega) _ _ _).bind fun msgType o' _ => ih (by omega) _ _
    · rw [if_neg hi]
      exact Ends.pure trivial

/-- A name ends less than 256 bytes behind the buffer. -/
theorem ends_skipName (h : buf.length - pos < fuel) :
    Ends (skipName buf fuel pos) () (fun p _ => p ≤ max pos (buf.length + 256)) fun _ => False := by
  induction fuel generalizing pos with
  | zero => omega
  | succ fuel ih =>
    unfold skipName
    by_cases hpos : pos < buf.length
    · rw [if_pos hpos]
      apply ofOption_ends (u8_isSome (by omega))
      intro b _
      have hb := b.toNat_lt
      split_ifs
      · exact Ends.pure (by omega)
      · exact Ends.pure (by omega)
      · exact (ih (by omega)).mono (fun p _ hp => by omega) fun _ h => h
    · rw [if_neg hpos]
      exact Ends.pure (by omega)

/-- The position stays within `2 ^ 19` of the length. -/
theorem ends_skipQuestions (h : buf.length < fuel) :
    Ends (skipQuestions buf fuel count pos) () (fun p _ => p ≤ max pos (buf.length + 256) + 4 * count) fun _ => False := by
  induction count generalizing pos with
  | zero => exact Ends.pure (by omega)
  | succ count ih =>
    apply (ends_skipName (show buf.length - pos < fuel by omega)).bind
    intro p _ hp
    exact ih.mono (fun q _ hq => by omega) fun _ h => h

theorem ends_findAddress (h : buf.length < fuel) :
    Ends (findAddress buf fuel count pos) () (fun _ _ => True) fun _ => False := by
  induction count generalizing pos with
  | zero => exact Ends.pure trivial
  | succ count ih =>
    unfold findAddress
    split_ifs
    · apply (ends_skipName (show buf.length - pos < fuel by omega)).bind
      intro p _ _
      by_cases hp : p + 10 > buf.length
      · rw [if_pos hp]
        exact Ends.pure trivial
      · rw [if_neg hp]
        apply ofOption_ends (u16_isSome (by omega))
        intro rtype _
        apply ofOption_ends (u16_isSome (by omega))
        intro rclass _
        apply ofOption_ends (u16_isSome (by omega))
        intro rdlen _
        by_cases hrec : rtype = 1 ∧ rclass = 1 ∧ rdlen = 4 ∧ p + 10 + 4 ≤ buf.length
        · rw [if_pos hrec]
          apply ofOption_ends (ipAt_isSome hrec.2.2.2)
          intro ip _
          exact Ends.pure trivial
        · rw [if_neg hrec]
          exact ih
    · exact Ends.pure trivial

theorem ends_dnsParseResponse (h : buf.length < fuel) (txid : UInt16) :
    Ends (dnsParseResponse fuel buf txid) () (fun _ _ => True) fun _ => False := by
  unfold dnsParseResponse
  by_cases hlen : buf.length < 12
  · rw [if_pos hlen]
    exact Ends.pure trivial
  · rw [if_neg hlen]
    apply ofOption_ends (u16_isSome (by omega))
    intro respId _
    split_ifs
    · exact Ends.pure trivial
    · apply ofOption_ends (u16_isSome (by omega))
      intro flags _
      split_ifs
      · exact Ends.pure trivial
      · exact Ends.pure trivial
      · apply ofOption_ends (u16_isSome (by omega))
        intro qdcount _
        apply ofOption_ends (u16_isSome (by omega))
        intro ancount _
        exact (ends_skipQuestions h).bind fun pos _ _ => ends_findAddress h

end Walks

/-! ### All input -/

/-- The program ends, and no read in it fell outside its input. -/
def InBounds {σ α : Type} (m : Exec σ α) (s : σ) : Prop := Ends m s (fun _ _ => True) fun _ => False

/-- The parsers of network input: the frame handler for every frame, the handlers of the
layers for every window of a frame, and the walks over options and responses. The waits of
a handler have as much fuel as there are arrivals to come. -/
structure InputInBounds : Prop where
  frame (s : Stack) (frame : Bytes) : InBounds (handleFrame (netPoll s.world.length) s.world.length frame) s
  arp (s : Stack) (frame : Bytes) (off len : ℕ) (h : off + len ≤ frame.length) : InBounds (handleArp frame off len) s
  ipv4 (s : Stack) (frame : Bytes) (off len : ℕ) (h : off + len ≤ frame.length) :
    InBounds (handleIpv4 (netPoll s.world.length) s.world.length frame off len) s
  icmp (s : Stack) (frame : Bytes) (off len : ℕ) (srcIp : Ip) (h : off + len ≤ frame.length) :
    InBounds (handleIcmp frame off len srcIp) s
  udp (s : Stack) (frame : Bytes) (off len : ℕ) (srcIp : Ip) (h : off + len ≤ frame.length) :
    InBounds (handleUdp frame off len srcIp) s
  tcp (s : Stack) (frame : Bytes) (off len : ℕ) (srcIp : Ip) (h : off + len ≤ frame.length) :
    InBounds (handleTcp (netPoll s.world.length) s.world.length frame off len srcIp) s
  dhcp (o : DhcpOptions) (opts : Bytes) : ∃ n, ∀ fuel, n ≤ fuel → InBounds (dhcpParseOptions fuel opts) o
  dns (buf : Bytes) (txid : UInt16) : ∃ n, ∀ fuel, n ≤ fuel → InBounds (dnsParseResponse fuel buf txid) ()

theorem Returns.inBounds {α : Type} {m : Exec Stack α} {s : Stack} (h : Returns m s) : InBounds m s :=
  h.mono (fun _ _ _ => trivial) fun _ h => h

theorem inputInBounds : InputInBounds where
  frame s frame := (returns_handleFrame (polls_netPoll _) (Nat.le_refl _) frame).inBounds
  arp _ _ _ _ h := (returns_handleArp h).inBounds
  ipv4 _ _ _ _ h := (returns_handleIpv4 (polls_netPoll _) (Nat.le_refl _) h).inBounds
  icmp _ _ _ _ _ h := (returns_handleIcmp h).inBounds
  udp _ _ _ _ _ h := (returns_handleUdp h).inBounds
  tcp _ _ _ _ _ h := (returns_handleTcp (polls_netPoll _) (Nat.le_refl _) h).inBounds
  dhcp o opts := ⟨opts.length + 1, fun _ h => ends_dhcpOptions (by omega) 0 o⟩
  dns buf txid := ⟨buf.length + 1, fun _ h => ends_dnsParseResponse (by omega) txid⟩

end Tg11Kernel.Net
