import Tg11Kernel.Net.Ping
import Tg11Kernel.Net.Resolution
import Tg11Kernel.Net.Transmit

/-! Two hosts on one wire. What one of them sends is read back by the other, field by field,
whatever the sender's stack held behind a short packet. From this follow whole exchanges: an
address that is asked for is learned on both sides, a ping is answered and its reply found, a
datagram reaches the receiver that waits for its port. -/

namespace Tg11Kernel.Net

open Lib Exec

/-! ### Reading what was written -/

section Read

variable (pre : Bytes) (l : Bytes) (i : ℕ)

theorem getElem?_behind : (pre ++ l)[pre.length + i]? = l[i]? := by
  rw [List.getElem?_append_right (by omega), Nat.add_sub_cancel_left]

theorem u8_behind : u8 (pre ++ l) (pre.length + i) = u8 l i := getElem?_behind pre l i

theorem u16_behind : u16 (pre ++ l) (pre.length + i) = u16 l i := by
  simp only [u16, Nat.add_assoc, getElem?_behind]

theorem u32_behind : u32 (pre ++ l) (pre.length + i) = u32 l i := by
  simp only [u32, Nat.add_assoc, getElem?_behind]

theorem ipAt_behind : ipAt (pre ++ l) (pre.length + i) = ipAt l i := by
  simp only [ipAt, Nat.add_assoc, getElem?_behind]

theorem macAt_behind : macAt (pre ++ l) (pre.length + i) = macAt l i := by
  simp only [macAt, Nat.add_assoc, getElem?_behind]

theorem bytesAt_behind (n : ℕ) : bytesAt (pre ++ l) (pre.length + i) n = bytesAt l i n := by
  unfold bytesAt
  rw [List.length_append, Nat.add_assoc, List.drop_length_add_append]
  by_cases h : i + n ≤ l.length
  · rw [if_pos h, if_pos (by omega)]
  · rw [if_neg h, if_neg (by omega)]

end Read

theorem bytesAt_front (l pad : Bytes) : bytesAt (l ++ pad) 0 l.length = some l := by
  rw [bytesAt, if_pos (by simp), List.drop_zero, List.take_left]

theorem join16 (v : UInt16) : (v >>> 8).toUInt8.toUInt16 <<< 8 ||| v.toUInt8.toUInt16 = v := Option.some.inj (u16_be16 v [])

theorem ipAt_bytes (ip : Ip) (rest : Bytes) : ipAt (ip.bytes ++ rest) 0 = some ip := rfl

theorem macAt_bytes (mac : Mac) (rest : Bytes) : macAt (mac.bytes ++ rest) 0 = some mac := rfl

/-! ### Packets -/

section Packets

variable (pre pad : Bytes)

theorem parseArp_arpPkt (opcode : UInt16) (senderMac : Mac) (senderIp : Ip) (targetMac : Mac) (targetIp : Ip) (len : ℕ)
    (hlen : 28 ≤ len) : parseArp (pre ++ (arpPkt opcode senderMac senderIp targetMac targetIp ++ pad)) pre.length len =
      some (some ⟨opcode, senderMac, senderIp, targetIp⟩) := by
  have h0 := u16_behind pre (arpPkt opcode senderMac senderIp targetMac targetIp ++ pad) 0
  rw [Nat.add_zero] at h0
  simp only [parseArp, if_neg (not_lt.2 hlen), u16_behind, u8_behind, macAt_behind, ipAt_behind, h0]
  simp only [arpPkt, be16, u16, u8, macAt, ipAt, Mac.bytes, Ip.bytes, List.cons_append, List.nil_append,
    List.getElem?_cons_zero, List.getElem?_cons_succ, Option.bind_eq_bind, Option.bind_some, Nat.reduceAdd, join16]
  rfl

/-- A packet for this host, or for all; what lies behind its length is left out. -/
theorem parseIpv4_ipv4Packet (protocol : UInt8) (srcIp : Ip) {dstIp ip : Ip} (payload : Bytes) (len : ℕ)
    (hto : dstIp = ip ∨ dstIp = bcastIp) (hsize : 20 + payload.length < 65536) (hlen : 20 + payload.length ≤ len) :
    parseIpv4 ip (pre ++ (ipv4Packet protocol srcIp dstIp payload ++ pad)) pre.length len =
      some (some ⟨protocol, srcIp, pre.length + 20, payload.length⟩) := by
  obtain ⟨sum, hpacket⟩ : ∃ sum, ipv4Packet protocol srcIp dstIp payload = ipv4Hdr (20 + payload.length) protocol srcIp dstIp sum ++ payload :=
    ⟨_, rfl⟩
  rw [hpacket]
  have h0 := u8_behind pre (ipv4Hdr (20 + payload.length) protocol srcIp dstIp sum ++ payload ++ pad) 0
  rw [Nat.add_zero] at h0
  have htotal : (UInt16.ofNat (20 + payload.length)).toNat = 20 + payload.length := by
    rw [UInt16.toNat_ofNat']
    exact Nat.mod_eq_of_lt hsize
  have hhdr : (((0x45 : UInt8) &&& 0x0F).toNat) * 4 = 20 := rfl
  have hver : ¬ (0x45 : UInt8) >>> 4 ≠ 4 := by decide
  simp only [parseIpv4, if_neg (show ¬ len < 20 by omega), u16_behind, u8_behind, ipAt_behind, h0]
  simp only [ipv4Hdr, be16, le16, u16, u8, ipAt, Ip.bytes, List.cons_append, List.nil_append,
    List.getElem?_cons_zero, List.getElem?_cons_succ, Option.bind_eq_bind, Option.bind_some, Nat.reduceAdd, join16, htotal, hhdr]
  rw [if_neg hver, if_neg (by omega), if_neg (fun h => hto.elim h.1 h.2), Nat.add_sub_cancel_left]

theorem parseIcmp_icmpMessage (type code : UInt8) (ident seq : UInt16) (rest : Bytes) :
    parseIcmp (pre ++ (icmpMessage type code (be16 ident ++ be16 seq ++ rest) ++ pad)) pre.length
        (icmpMessage type code (be16 ident ++ be16 seq ++ rest)).length =
      some (some ⟨type, code, ident, seq, icmpMessage type code (be16 ident ++ be16 seq ++ rest)⟩) := by
  unfold icmpMessage
  generalize ipChecksum (icmpHdr type code 0 ++ (be16 ident ++ be16 seq ++ rest)) = sum
  have h0 := u8_behind pre (icmpHdr type code sum ++ (be16 ident ++ be16 seq ++ rest) ++ pad) 0
  have hall := bytesAt_behind pre (icmpHdr type code sum ++ (be16 ident ++ be16 seq ++ rest) ++ pad) 0
    (icmpHdr type code sum ++ (be16 ident ++ be16 seq ++ rest)).length
  rw [Nat.add_zero] at h0 hall
  have hlen : ¬ (icmpHdr type code sum ++ (be16 ident ++ be16 seq ++ rest)).length < 8 := by
    simp [icmpHdr, be16, le16]
  simp only [parseIcmp, if_neg hlen, u16_behind, u8_behind, h0, hall, bytesAt_front]
  simp only [icmpHdr, be16, le16, u16, u8, List.cons_append, List.nil_append,
    List.getElem?_cons_zero, List.getElem?_cons_succ, Option.bind_eq_bind, Option.bind_some, Nat.reduceAdd, join16]

theorem parseUdp_udpHdr (srcPort dstPort : UInt16) (data : Bytes) (hsize : 8 + data.length < 65536) :
    parseUdp (pre ++ (udpHdr srcPort dstPort data.length ++ data ++ pad)) pre.length (udpHdr srcPort dstPort data.length ++ data).length =
      some (some ⟨srcPort, dstPort, pre.length + 8, data.length⟩) := by
  have h0 := u16_behind pre (udpHdr srcPort dstPort data.length ++ data ++ pad) 0
  rw [Nat.add_zero] at h0
  have hlen : (udpHdr srcPort dstPort data.length ++ data).length = 8 + data.length := by
    rw [List.length_append]
    rfl
  have htotal : (UInt16.ofNat (8 + data.length)).toNat = 8 + data.length := by
    rw [UInt16.toNat_ofNat']
    exact Nat.mod_eq_of_lt hsize
  simp only [parseUdp, hlen, if_neg (show ¬ 8 + data.length < 8 by omega), u16_behind, h0]
  simp only [udpHdr, be16, u16, List.cons_append, List.nil_append,
    List.getElem?_cons_zero, List.getElem?_cons_succ, Option.bind_eq_bind, Option.bind_some, Nat.reduceAdd, join16, htotal]
  rw [if_neg (by omega), Nat.add_sub_cancel_left]

end Packets

/-! ### Frames on the wire -/

/-- The bytes that `send_eth` hands to the card for a frame, whatever its array held before. -/
def EthFrame.OnWire (f : EthFrame) (bytes : Bytes) : Prop :=
  ∃ (cfg : NetConfig) (array : Block 1518), cfg.mac = f.src ∧ ethFrame cfg f.dst f.ethertype f.payload array = some bytes

/-- The next frame to come, to a card that is up and empty. -/
structure Awaits (s : Stack) (bytes : Bytes) : Prop where
  up : s.up = true
  rx : s.rx = []
  world : ∃ e w, s.world = ⟨e, [bytes]⟩ :: w

section Wire

variable {f : EthFrame} {bytes : Bytes} {s t : Stack}

theorem EthFrame.OnWire.split (h : f.OnWire bytes) :
    ∃ pre pad, bytes = pre ++ (f.payload ++ pad) ∧ pre.length = ETH_HLEN ∧ u16 bytes 12 = some f.ethertype ∧ bytes.length ≤ 2048 := by
  obtain ⟨cfg, array, -, hframe⟩ := h
  by_cases hlen : f.payload.length + ETH_HLEN > 1518
  · rw [ethFrame, if_pos hlen] at hframe
    cases hframe
  · rw [ethFrame_eq array hlen, Option.some.injEq] at hframe
    refine ⟨f.dst.bytes ++ cfg.mac.bytes ++ be16 f.ethertype, (array.firstBytes 60).drop (ETH_HLEN + f.payload.length), ?_, rfl, ?_, ?_⟩
    · rw [← hframe, List.append_assoc _ f.payload]
    · have hfield := u16_behind (f.dst.bytes ++ cfg.mac.bytes) (be16 f.ethertype ++ (f.payload ++ (array.firstBytes 60).drop
        (ETH_HLEN + f.payload.length))) 0
      rw [u16_be16] at hfield
      rw [← hframe, List.append_assoc _ f.payload, List.append_assoc _ (be16 _)]
      exact hfield
    · rw [← hframe]
      simp [Mac.bytes, be16, Block.length_firstBytes]
      unfold ETH_HLEN at *
      omega

/-- What the poll begins with when it handles the frame. -/
def Stack.front (s : Stack) (bytes : Bytes) : Stack := s.arrive.receive bytes []

theorem Awaits.front_eq (h : Awaits s bytes) : ∃ e w, s.front bytes = { s with
      ticks := s.ticks + e, rx := [], world := w, pktBuf := bytes ++ s.pktBuf.drop bytes.length, handled := s.handled ++ [bytes] } := by
  obtain ⟨e, w, hworld⟩ := h.world
  refine ⟨e, w, ?_⟩
  unfold Stack.front Stack.arrive
  rw [hworld]
  rfl

/-- A poll handles the frame that comes, and no other. -/
theorem Awaits.polls (h : Awaits s bytes) (hwire : f.OnWire bytes)
    (hhandle : ∀ poll m, handleFrame poll m bytes (s.front bytes) = (.ok (), t)) (ht : t.rx = []) (n : ℕ) :
    netPoll n s = (.ok (), t) := by
  obtain ⟨-, -, -, -, -, hlen⟩ := hwire.split
  have hpoll : e1000PollRx s.arrive = (.ok (some bytes), s.front bytes) := by
    obtain ⟨e, w, hworld⟩ := h.world
    have hup : s.arrive.up = true := by
      unfold Stack.arrive
      rw [hworld]
      exact h.up
    have hrx : s.arrive.rx = [bytes] := by
      unfold Stack.arrive
      rw [hworld]
      show s.rx ++ [bytes] = [bytes]
      rw [h.rx, List.nil_append]
    unfold e1000PollRx Stack.front
    rw [if_pos hup, hrx]
    dsimp only
    rw [List.take_of_length_le hlen]
  have hempty : e1000PollRx t = (.ok none, t) := by
    unfold e1000PollRx
    rw [ht]
    split_ifs <;> rfl
  have hloop : ∀ poll m, pollLoop (handleFrame poll m) 64 s.arrive = (.ok (), t) := fun poll m =>
    (bind_ok hpoll).trans ((bind_ok (hhandle poll m)).trans (bind_ok hempty))
  cases n with
  | zero => exact (bind_ok (modify_apply Stack.arrive s)).trans (hloop _ _)
  | succ n => exact (bind_ok (modify_apply Stack.arrive s)).trans (hloop _ _)

variable {payload : Bytes} {dst src : Mac}

/-- A frame that fits goes out when the card is up. -/
theorem sendEth_up (hup : s.up = true) (dst : Mac) (ethertype : UInt16) (hlen : payload.length ≤ 1504) :
    sendEth dst ethertype payload s = (.ok true, { s with sent := s.sent ++ [⟨dst, s.cfg.mac, ethertype, payload⟩] }) := by
  unfold sendEth
  rw [if_neg (show ¬ payload.length + ETH_HLEN > 1518 by unfold ETH_HLEN; omega)]
  exact if_pos hup

/-- A frame that went out is the last one. -/
theorem sendEth_ok {ethertype : UInt16} (h : sendEth dst ethertype payload s = (.ok true, t)) :
    s.up = true ∧ payload.length ≤ 1504 ∧ t = { s with sent := s.sent ++ [⟨dst, s.cfg.mac, ethertype, payload⟩] } := by
  unfold sendEth at h
  split_ifs at h with hlen
  · cases h
  · unfold ETH_HLEN at hlen
    by_cases hup : s.up = true
    · exact ⟨hup, by omega, (Prod.mk.inj (h.symm.trans (if_pos hup))).2⟩
    · cases h.symm.trans (if_neg hup)

variable (poll : Exec Stack Unit) (n : ℕ)

theorem EthFrame.OnWire.handleFrame_arp {opcode : UInt16} {targetMac senderMac : Mac} {senderIp targetIp : Ip}
    (h : EthFrame.OnWire ⟨dst, src, ETH_TYPE_ARP, arpPkt opcode senderMac senderIp targetMac targetIp⟩ bytes) (s : Stack) :
    handleFrame poll n bytes s = answerArp ⟨opcode, senderMac, senderIp, targetIp⟩ s := by
  obtain ⟨pre, pad, hbytes, hpre, htype, -⟩ := h.split
  have hlen : bytes.length = ETH_HLEN + (28 + pad.length) := by
    rw [hbytes, List.length_append, hpre, List.length_append]
    rfl
  have hparse := parseArp_arpPkt pre pad opcode senderMac senderIp targetMac targetIp (bytes.length - ETH_HLEN) (by omega)
  rw [hpre, ← hbytes] at hparse
  unfold handleFrame
  rw [if_neg (by omega), htype]
  show handleArp bytes ETH_HLEN (bytes.length - ETH_HLEN) s = _
  unfold handleArp
  rw [hparse]
  rfl

/-- A packet for this host reaches the handler of its protocol, with its payload. -/
theorem EthFrame.OnWire.handleFrame_ipv4 {protocol : UInt8} {srcIp dstIp : Ip}
    (h : EthFrame.OnWire ⟨dst, src, ETH_TYPE_IPV4, ipv4Packet protocol srcIp dstIp payload⟩ bytes)
    (hto : dstIp = s.cfg.ip ∨ dstIp = bcastIp) :
    handleFrame poll n bytes s = dispatchIpv4 poll n bytes ⟨protocol, srcIp, 34, payload.length⟩ s ∧
      ∃ pre pad, bytes = pre ++ (payload ++ pad) ∧ pre.length = 34 := by
  obtain ⟨pre, pad, hbytes, hpre, htype, hmax⟩ := h.split
  have hpacket : (ipv4Packet protocol srcIp dstIp payload).length = 20 + payload.length := List.length_append
  have hlen : bytes.length = ETH_HLEN + (20 + payload.length + pad.length) := by
    rw [hbytes, List.length_append, hpre, List.length_append, hpacket]
  have hparse := parseIpv4_ipv4Packet pre pad protocol srcIp payload (bytes.length - ETH_HLEN) hto
    (by unfold ETH_HLEN at *; omega) (by omega)
  rw [hpre, ← hbytes] at hparse
  constructor
  · unfold handleFrame
    rw [if_neg (by omega), htype]
    show handleIpv4 poll n bytes ETH_HLEN (bytes.length - ETH_HLEN) s = _
    unfold handleIpv4
    rw [bind_ok (gets_apply _ s), hparse]
    rfl
  · refine ⟨pre ++ ipv4Hdr (20 + payload.length) protocol srcIp dstIp (ipChecksum (ipv4Hdr (20 + payload.length) protocol srcIp dstIp 0)), pad, ?_, ?_⟩
    · rw [hbytes, List.append_assoc]
      unfold ipv4Packet
      rw [List.append_assoc]
    · rw [List.length_append, hpre]
      rfl

end Wire

/-! ### Addresses -/

section Arp

variable {a b : Stack} {bytes : Bytes} {n : ℕ}

theorem length_arpPkt (opcode : UInt16) (senderMac : Mac) (senderIp : Ip) (targetMac : Mac) (targetIp : Ip) :
    (arpPkt opcode senderMac senderIp targetMac targetIp).length = 28 := rfl

variable {s t : Stack} {ip : Ip} {mac dst targetMac : Mac} {k : ℕ}

theorem ignore_ok {α : Type} {m : Exec Stack α} {x : α} (h : m s = (.ok x, t)) : ignore m s = (.ok (), t) := bind_ok h

theorem arpLookup_put (h : Sound a) (hput : t.arpCache = arpPut a.arpCache ip mac) :
    t.arpLookup ip = some mac := by
  rw [arpLookup_eq, Stack.arpTable, hput, map_arpPut]
  exact h.unique.find_put h.nonempty

/-- The host that is asked for answers, and has learned who asks. -/
theorem Awaits.answers (h : Awaits b bytes)
    (hwire : EthFrame.OnWire ⟨dst, mac, ETH_TYPE_ARP, arpPkt 1 mac ip targetMac b.cfg.ip⟩ bytes) :
    ∃ t, netPoll n b = (.ok (), t) ∧ t.arpCache = arpPut b.arpCache ip mac ∧
      t.sent = b.sent ++ [⟨mac, b.cfg.mac, ETH_TYPE_ARP, arpPkt 2 b.cfg.mac b.cfg.ip mac ip⟩] := by
  obtain ⟨e, w, hfront⟩ := h.front_eq
  have hreply : answerArp ⟨1, mac, ip, b.cfg.ip⟩ (b.front bytes) = (.ok (), { b.front bytes with
      arpCache := arpPut b.arpCache ip mac
      sent := b.sent ++ [⟨mac, b.cfg.mac, ETH_TYPE_ARP, arpPkt 2 b.cfg.mac b.cfg.ip mac ip⟩] }) := by
    rw [hfront]
    refine (bind_ok (modify_apply _ _)).trans ((bind_ok (gets_apply _ _)).trans ?_)
    rw [if_pos ⟨rfl, rfl⟩]
    refine (bind_ok (gets_apply _ _)).trans (ignore_ok (x := true) ?_)
    refine sendEth_up ?_ mac ETH_TYPE_ARP ((length_arpPkt _ _ _ _ _).trans_le (by decide))
    exact h.up
  refine ⟨_, h.polls hwire (fun poll m => (hwire.handleFrame_arp poll m _).trans hreply) ?_ n, rfl, rfl⟩
  rw [hfront]

/-- Whoever hears a reply has learned who sent it. -/
theorem Awaits.learns {targetIp : Ip} (h : Awaits a bytes)
    (hwire : EthFrame.OnWire ⟨dst, mac, ETH_TYPE_ARP, arpPkt 2 mac ip targetMac targetIp⟩ bytes) :
    ∃ t, netPoll n a = (.ok (), t) ∧ t.arpCache = arpPut a.arpCache ip mac := by
  obtain ⟨e, w, hfront⟩ := h.front_eq
  have hput : answerArp ⟨2, mac, ip, targetIp⟩ (a.front bytes) = (.ok (), { a.front bytes with arpCache := arpPut a.arpCache ip mac }) := by
    rw [hfront]
    refine (bind_ok (modify_apply _ _)).trans ((bind_ok (gets_apply _ _)).trans ?_)
    rw [if_neg fun hboth => absurd hboth.1 (show ¬ (2 : UInt16) = 1 by decide)]
    rfl
  refine ⟨_, h.polls hwire (fun poll m => (hwire.handleFrame_arp poll m _).trans hput) ?_ n, rfl⟩
  rw [hfront]

/-- A wait is over when its condition holds behind the first poll. -/
theorem waitUntil_first {poll : Exec Stack Unit} {deadline : UInt64} {done : Stack → Bool}
    (htime : s.ticks < deadline) (hworld : s.world ≠ []) (hpoll : poll s = (.ok (), t)) (hdone : done t = true) :
    waitUntil poll deadline done (k + 1) s = (.ok true, t) := by
  unfold waitUntil whileBefore
  rw [if_pos htime, if_neg (by simpa using hworld), bind_ok hpoll, bind_ok (gets_apply done t), hdone]
  rfl

theorem Awaits.world_ne_nil (h : Awaits a bytes) : a.world ≠ [] := by
  obtain ⟨e, w, hworld⟩ := h.world
  rw [hworld]
  exact List.cons_ne_nil _ _

/-- A host asks for the address of another one on its network: the other one answers and can
send back from then on, and the answer ends the wait of `resolve_mac` with its address. -/
theorem resolveMac_exchange {m : ℕ} (ha : Sound a) (hb : Sound b) (hup : a.up = true)
    (hlocal : resolveTarget a.cfg b.cfg.ip = b.cfg.ip) (hmiss : a.arpLookup b.cfg.ip = none) :
    ∃ request, (arpRequest b.cfg.ip a).2.sent = a.sent ++ [request] ∧ ∀ bytes, request.OnWire bytes → Awaits b bytes →
      ∃ b' reply, netPoll m b = (.ok (), b') ∧ b'.arpLookup a.cfg.ip = some a.cfg.mac ∧ b'.sent = b.sent ++ [reply] ∧
        ∀ bytes', reply.OnWire bytes' → Awaits a bytes' → a.ticks < a.ticks + 200 →
          (resolveMac (netPoll n) (k + 1) b.cfg.ip a).1 = .ok (some b.cfg.mac) := by
  obtain ⟨request, hrequest, hf⟩ : ∃ f : EthFrame,
      arpRequest b.cfg.ip a = (.ok (), { a with sent := a.sent ++ [f] }) ∧
        f = ⟨bcastMac, a.cfg.mac, ETH_TYPE_ARP, arpPkt 1 a.cfg.mac a.cfg.ip ⟨0, 0, 0, 0, 0, 0⟩ b.cfg.ip⟩ := by
    have hsent := sendEth_up hup bcastMac ETH_TYPE_ARP
      ((length_arpPkt 1 a.cfg.mac a.cfg.ip ⟨0, 0, 0, 0, 0, 0⟩ b.cfg.ip).trans_le (by decide))
    exact ⟨_, (bind_ok (gets_apply _ _)).trans (ignore_ok hsent), rfl⟩
  refine ⟨request, by rw [hrequest], fun bytes hwire hawait => ?_⟩
  rw [hf] at hwire
  obtain ⟨b', hpoll, hcache, hsent⟩ := hawait.answers (n := m) hwire
  refine ⟨b', _, hpoll, arpLookup_put hb hcache, hsent, fun bytes' hwire' hawait' htime => ?_⟩
  have hawait'' : Awaits { a with sent := a.sent ++ [request] } bytes' := ⟨hawait'.up, hawait'.rx, hawait'.world⟩
  obtain ⟨a', hpoll', hcache'⟩ := hawait''.learns (n := n) hwire'
  have hlookup : a'.arpLookup b.cfg.ip = some b.cfg.mac := arpLookup_put ha hcache'
  have hwait : waitUntil (netPoll n) (a.ticks + 200) (fun s => (s.arpLookup b.cfg.ip).isSome) (k + 1)
      { a with sent := a.sent ++ [request] } = (.ok true, a') :=
    waitUntil_first htime hawait'.world_ne_nil hpoll' (by rw [hlookup]; rfl)
  have hask : askMac (netPoll n) (k + 1) b.cfg.ip a = (.ok (some b.cfg.mac), a') := by
    refine (bind_ok hrequest).trans ((bind_ok (gets_apply _ _)).trans ((bind_ok hwait).trans ?_))
    rw [if_pos rfl, gets_apply, hlookup]
  have hrun : resolveMac (netPoll n) (k + 1) b.cfg.ip a = (.ok (some b.cfg.mac), a') := by
    refine (bind_ok (gets_apply _ _)).trans ((bind_ok (gets_apply _ _)).trans ?_)
    rw [hlocal, hmiss]
    exact hask
  rw [hrun]

end Arp

/-- A host of the network that the defaults describe. -/
def hostAt (mac : Mac) (n : UInt8) (world : List Arrival) : Stack :=
  { netInit mac 0 world with cfg := { netSetDefaults mac with ip := ⟨10, 0, 2, n⟩ } }

theorem sound_hostAt (mac : Mac) (n : UInt8) (world : List Arrival) : Sound (hostAt mac n world) :=
  ⟨(sound_start mac 0 world).unique, (sound_start mac 0 world).nonempty⟩

/-- The bytes of a frame, out of an array of zeros. -/
def EthFrame.bytes (f : EthFrame) : Bytes := (ethFrame (netSetDefaults f.src) f.dst f.ethertype f.payload .zero).getD []

theorem EthFrame.onWire_bytes {f : EthFrame} (h : ¬ f.payload.length + ETH_HLEN > 1518) : f.OnWire f.bytes := by
  refine ⟨netSetDefaults f.src, .zero, rfl, ?_⟩
  unfold EthFrame.bytes
  rw [ethFrame_eq _ h]
  rfl

def askingMac : Mac := ⟨2, 0, 0, 0, 0, 1⟩

def askedMac : Mac := ⟨2, 0, 0, 0, 0, 2⟩

def question : EthFrame := ⟨bcastMac, askingMac, ETH_TYPE_ARP, arpPkt 1 askingMac ⟨10, 0, 2, 15⟩ ⟨0, 0, 0, 0, 0, 0⟩ ⟨10, 0, 2, 16⟩⟩

def answer : EthFrame := ⟨askingMac, askedMac, ETH_TYPE_ARP, arpPkt 2 askedMac ⟨10, 0, 2, 16⟩ askingMac ⟨10, 0, 2, 15⟩⟩

def asking : Stack := hostAt askingMac 15 [⟨1, [answer.bytes]⟩]

def asked : Stack := hostAt askedMac 16 [⟨1, [question.bytes]⟩]

theorem resolveMac_exchange_hosts : (resolveMac (netPoll 0) 1 ⟨10, 0, 2, 16⟩ asking).1 = .ok (some askedMac) := by
  have hquestion : (arpRequest ⟨10, 0, 2, 16⟩ asking).2.sent = [question] := rfl
  have hanswer : (netPoll 0 asked).2.sent = [answer] := rfl
  obtain ⟨request, hsent, hhears⟩ := resolveMac_exchange (a := asking) (b := asked) (n := 0) (k := 0) (m := 0)
    (sound_hostAt _ _ _) (sound_hostAt _ _ _) rfl rfl rfl
  obtain rfl : question = request := List.singleton_inj.1 (hquestion.symm.trans hsent)
  obtain ⟨b', reply, hpoll, -, hreply, hends⟩ := hhears _ (EthFrame.onWire_bytes (by decide)) ⟨rfl, rfl, _, _, rfl⟩
  rw [hpoll] at hanswer
  obtain rfl : answer = reply := List.singleton_inj.1 (hanswer.symm.trans hreply)
  exact hends _ (EthFrame.onWire_bytes (by decide)) ⟨rfl, rfl, _, _, rfl⟩ (by decide)

/-! ### Ping -/

theorem resolveMac_moves {a u : Stack} {n : ℕ} {dst : Ip} (h : resolveMac (netPoll n) n dst a = (r, u)) : FrameMoves a u := by
  have hwalk := hears_resolveMac (n := n) (hears_netPoll n) dst a
  unfold Leads at hwalk
  rwa [h] at hwalk

section Ping

variable {a a' b : Stack} {bytes : Bytes} {n : ℕ} {seq : UInt16}

theorem EthFrame.OnWire.handleFrame_icmp {dst src : Mac} {srcIp dstIp : Ip} {type code : UInt8} {ident seq : UInt16} {rest : Bytes}
    (poll : Exec Stack Unit) (h : EthFrame.OnWire ⟨dst, src, ETH_TYPE_IPV4,
      ipv4Packet IP_PROTO_ICMP srcIp dstIp (icmpMessage type code (be16 ident ++ be16 seq ++ rest))⟩ bytes)
    (hto : dstIp = a.cfg.ip ∨ dstIp = bcastIp) :
    handleFrame poll n bytes a =
      answerIcmp ⟨type, code, ident, seq, icmpMessage type code (be16 ident ++ be16 seq ++ rest)⟩ srcIp a := by
  obtain ⟨hhandle, pre, pad, hbytes, hpre⟩ := h.handleFrame_ipv4 poll n hto
  have hparse := parseIcmp_icmpMessage pre pad type code ident seq rest
  rw [hpre, ← hbytes] at hparse
  rw [hhandle]
  show handleIcmp bytes 34 _ srcIp a = _
  unfold handleIcmp
  rw [hparse]
  rfl

variable {mac : Mac}

theorem echoReply_known (msg : IcmpMsg) {ip : Ip} (hup : a.up = true) (hknown : a.arpLookup ip = some mac)
    (hlen : msg.bytes.length + 20 ≤ 1500) : echoReply msg ip a = (.ok (), { a with sent := a.sent ++
      [⟨mac, a.cfg.mac, ETH_TYPE_IPV4, ipv4Packet IP_PROTO_ICMP a.cfg.ip ip (icmpMessage 0 msg.code (msg.bytes.drop 4))⟩] }) := by
  unfold echoReply
  rw [if_neg (not_lt.2 hlen)]
  refine (bind_ok (gets_apply _ _)).trans ((bind_ok (gets_apply _ _)).trans ?_)
  rw [hknown]
  refine ignore_ok (sendEth_up hup mac ETH_TYPE_IPV4 ?_)
  simp [ipv4Packet, ipv4Hdr, icmpMessage, icmpHdr, be16, le16, Ip.bytes]
  omega

theorem FrameMoves.length_pingSlots {s t : Stack} (h : FrameMoves s t) : t.pingSlots.length = s.pingSlots.length := by
  refine h.slots_keep (P := fun l => l.length = s.pingSlots.length) (fun msg u hu => ?_) rfl
  cases hfind : u.pingSlots.findIdx? (PingSlot.awaits msg) with
  | none => rwa [pingReply_none hfind]
  | some i => rwa [pingReply_some hfind, List.length_modify]

/-- The request of `net_ping`, and the slot that waits for its reply. -/
theorem netPing_ok {dst : Ip} (h : netPing n dst seq a = (.ok true, a')) :
    (∃ mac, a'.sent.getLast? = some ⟨mac, a.cfg.mac, ETH_TYPE_IPV4,
      ipv4Packet IP_PROTO_ICMP a.cfg.ip dst (icmpMessage 8 0 (be16 pingIdent ++ be16 seq ++ pingData))⟩) ∧
    a'.cfg = a.cfg ∧ ∃ p ∈ a'.pingSlots, p.active = true ∧ p.seq = seq := by
  obtain ⟨o, _, hslot, h⟩ := bind_ok_iff.1 h
  rw [gets_apply] at hslot
  obtain ⟨hfind, rfl⟩ := Prod.mk.inj hslot
  replace hfind := Outcome.ok.inj hfind
  cases o with
  | none => cases h
  | some slot =>
    obtain ⟨r, u, hresolve, h⟩ := bind_ok_iff.1 h
    have hmoves := resolveMac_moves hresolve
    cases r with
    | none => cases h
    | some mac =>
      have hsend : sendEth mac ETH_TYPE_IPV4 (ipv4Packet IP_PROTO_ICMP u.cfg.ip dst (icmpMessage 8 0 (be16 pingIdent ++ be16 seq ++ pingData)))
          { u with pingSlots := u.pingSlots.set slot ⟨seq, u.ticks, 0, true, false⟩ } = (.ok true, a') := h
      obtain ⟨-, -, rfl⟩ := sendEth_ok hsend
      have hlt : slot < u.pingSlots.length := by
        rw [hmoves.length_pingSlots]
        exact (List.findIdx?_eq_some_iff_getElem.1 hfind).1
      refine ⟨⟨mac, ?_⟩, hmoves.cfg, ⟨seq, u.ticks, 0, true, false⟩, List.mem_set hlt _, rfl, rfl⟩
      rw [List.getLast?_concat, hmoves.cfg]

/-- A reply to the number of a waiting slot is found by the next `net_ping_check`. -/
theorem check_pingReply (msg : IcmpMsg) (hident : msg.ident = pingIdent) (h : ∃ p ∈ a.pingSlots, p.active = true ∧ p.seq = msg.seq) :
    ∃ rtt, (netPingCheck msg.seq (pingReply msg a).2).1 = .ok (some rtt) := by
  obtain ⟨p, hp, hactive, hseq⟩ := h
  obtain ⟨i, hfind⟩ : ∃ i, a.pingSlots.findIdx? (PingSlot.awaits msg) = some i := by
    rw [← Option.isSome_iff_exists, List.findIdx?_isSome, List.any_eq_true]
    exact ⟨p, hp, by simp [PingSlot.awaits, hactive, hident, hseq]⟩
  obtain ⟨hi, hawaits, -⟩ := List.findIdx?_eq_some_iff_getElem.1 hfind
  have hmsg : msg.seq = a.pingSlots[i].seq := by
    simp only [PingSlot.awaits, Bool.and_eq_true, decide_eq_true_eq] at hawaits
    exact hawaits.2
  have hslots := pingReply_some hfind
  obtain ⟨j, hcheck⟩ : ∃ j, (pingReply msg a).2.pingSlots.findIdx? (PingSlot.answers msg.seq) = some j := by
    rw [← Option.isSome_iff_exists, List.findIdx?_isSome, List.any_eq_true, hslots]
    refine ⟨_, List.getElem_mem (show i < (a.pingSlots.modify i _).length by rwa [List.length_modify]), ?_⟩
    rw [List.getElem_modify_eq]
    simp [PingSlot.answers, hmsg]
  obtain ⟨hj, -⟩ := List.findIdx?_eq_some_iff_getElem.1 hcheck
  rw [check_some hcheck, List.getElem?_eq_getElem hj]
  exact ⟨_, rfl⟩

/-- A host that knows where a request comes from answers it, and the reply ends the wait of
the `ping` command. -/
theorem ping_exchange {k m : ℕ} (hping : netPing n b.cfg.ip seq a = (.ok true, a')) (hknown : b.arpLookup a.cfg.ip = some mac) :
    ∃ request, a'.sent.getLast? = some request ∧ ∀ bytes, request.OnWire bytes → Awaits b bytes →
      ∃ b' reply, netPoll m b = (.ok (), b') ∧ b'.sent = b.sent ++ [reply] ∧
        ∀ bytes', reply.OnWire bytes' → Awaits a' bytes' → ∃ rtt, (awaitReply n seq (k + 1) a').1 = .ok (some rtt) := by
  obtain ⟨⟨dst, hlast⟩, hcfg, hslot⟩ := netPing_ok hping
  refine ⟨_, hlast, fun bytes hwire hawait => ?_⟩
  obtain ⟨e, w, hfront⟩ := hawait.front_eq
  have hreply : ∀ poll j, handleFrame poll j bytes (b.front bytes) = (.ok (), { b.front bytes with sent := b.sent ++ [⟨mac, b.cfg.mac,
      ETH_TYPE_IPV4, ipv4Packet IP_PROTO_ICMP b.cfg.ip a.cfg.ip (icmpMessage 0 0 (be16 pingIdent ++ be16 seq ++ pingData))⟩] }) := by
    intro poll j
    rw [hwire.handleFrame_icmp poll (.inl (by rw [hfront]))]
    have hup : (b.front bytes).up = true := by
      rw [hfront]
      exact hawait.up
    have hfound : (b.front bytes).arpLookup a.cfg.ip = some mac := by
      rw [hfront]
      exact hknown
    have hecho := echoReply_known ⟨8, 0, pingIdent, seq, icmpMessage 8 0 (be16 pingIdent ++ be16 seq ++ pingData)⟩ hup hfound
      (show 60 ≤ 1500 by decide)
    rw [hfront] at hecho ⊢
    exact hecho
  refine ⟨_, _, hawait.polls hwire hreply (by rw [hfront]) m, rfl, fun bytes' hwire' hawait' => ?_⟩
  obtain ⟨e', w', hfront'⟩ := hawait'.front_eq
  obtain ⟨rtt, hcheck⟩ := check_pingReply (a := a'.front bytes')
    ⟨0, 0, pingIdent, seq, icmpMessage 0 0 (be16 pingIdent ++ be16 seq ++ pingData)⟩ rfl (by rwa [hfront'])
  have hpoll : netPoll n a' = (.ok (), (pingReply ⟨0, 0, pingIdent, seq, icmpMessage 0 0 (be16 pingIdent ++ be16 seq ++ pingData)⟩
      (a'.front bytes')).2) := by
    refine hawait'.polls hwire' (fun poll j => ?_) ?_ n
    · rw [hwire'.handleFrame_icmp poll (.inl (by rw [hfront', hcfg]))]
      rfl
    · unfold pingReply Exec.modify
      dsimp only
      split <;> rw [hfront']
  refine ⟨rtt, ?_⟩
  unfold awaitReply
  rw [bind_ok hpoll]
  rcases hrun : netPingCheck seq _ with ⟨r, v⟩
  rw [show r = .ok (some rtt) from (congrArg Prod.fst hrun).symm.trans hcheck] at hrun
  rw [bind_ok hrun]
  rfl

end Ping

/-- A host that knows the address of one neighbour. -/
def Stack.knowing (s : Stack) (n : UInt8) (mac : Mac) : Stack := { s with arpCache := [⟨⟨10, 0, 2, n⟩, mac, true⟩] }

def echoFrame (dst src : Mac) (srcIp dstIp : Ip) (type : UInt8) : EthFrame :=
  ⟨dst, src, ETH_TYPE_IPV4, ipv4Packet IP_PROTO_ICMP srcIp dstIp (icmpMessage type 0 (be16 pingIdent ++ be16 1 ++ pingData))⟩

def echoRequest : EthFrame := echoFrame askedMac askingMac ⟨10, 0, 2, 15⟩ ⟨10, 0, 2, 16⟩ 8

def echoAnswer : EthFrame := echoFrame askingMac askedMac ⟨10, 0, 2, 16⟩ ⟨10, 0, 2, 15⟩ 0

/-- The host behind its request. -/
def pinging : Outcome Bool × Stack := netPing 0 ⟨10, 0, 2, 16⟩ 1 ((hostAt askingMac 15 [⟨1, [echoAnswer.bytes]⟩]).knowing 16 askedMac)

def pinged : Stack := (hostAt askedMac 16 [⟨1, [echoRequest.bytes]⟩]).knowing 15 askingMac

theorem ping_exchange_hosts : ∃ rtt, (awaitReply 0 1 1 pinging.2).1 = .ok (some rtt) := by
  have hrequest : pinging.2.sent.getLast? = some echoRequest := rfl
  have hanswer : (netPoll 0 pinged).2.sent = [echoAnswer] := rfl
  obtain ⟨request, hlast, hhears⟩ := ping_exchange (b := pinged) (k := 0) (m := 0) (show pinging = (.ok true, _) from Prod.ext rfl rfl) rfl
  obtain rfl := Option.some.inj (hrequest.symm.trans hlast)
  obtain ⟨b', reply, hpoll, hreply, hends⟩ := hhears _ (EthFrame.onWire_bytes (by decide)) ⟨rfl, rfl, _, _, rfl⟩
  rw [hpoll] at hanswer
  obtain rfl : echoAnswer = reply := List.singleton_inj.1 (hanswer.symm.trans hreply)
  exact hends _ (EthFrame.onWire_bytes (by decide)) ⟨rfl, rfl, _, _, rfl⟩

/-! ### Datagrams -/

section Udp

variable {a a' b : Stack} {n : ℕ} {srcPort dstPort : UInt16} {data : Bytes}

/-- The datagram of `net_udp_send`. -/
theorem netUdpSend_ok {dst : Ip} (h : netUdpSend n dst srcPort dstPort data a = (.ok true, a')) :
    data.length ≤ 1472 ∧ ∃ mac, a'.sent.getLast? = some ⟨mac, a.cfg.mac, ETH_TYPE_IPV4, udpPacket a.cfg.ip dst srcPort dstPort data⟩ := by
  unfold netUdpSend at h
  split_ifs at h with hlen
  · cases h
  · obtain ⟨r, u, hresolve, h⟩ := bind_ok_iff.1 h
    have hmoves := resolveMac_moves hresolve
    cases r with
    | none => cases h
    | some mac =>
      have hsend : sendEth mac ETH_TYPE_IPV4 (udpPacket u.cfg.ip dst srcPort dstPort data) u = (.ok true, a') := h
      obtain ⟨-, -, rfl⟩ := sendEth_ok hsend
      refine ⟨by omega, mac, ?_⟩
      rw [List.getLast?_concat, hmoves.cfg]

/-- A datagram that was sent ends the wait of a receiver on its port, which gets the data as
far as it fits, and learns where it comes from. -/
theorem udp_exchange {k maxLen : ℕ} {timeout : UInt64} (hsend : netUdpSend n b.cfg.ip srcPort dstPort data a = (.ok true, a')) :
    ∃ frame, a'.sent.getLast? = some frame ∧ ∀ bytes, frame.OnWire bytes → Awaits b bytes → b.ticks < b.ticks + timeout →
      ∃ b', udpRecvWait (k + 1) dstPort maxLen timeout b = (.ok (data.take maxLen), b') ∧
        b'.udpRx.srcIp = a.cfg.ip ∧ b'.udpRx.srcPort = srcPort := by
  obtain ⟨hlen, mac, hlast⟩ := netUdpSend_ok hsend
  refine ⟨_, hlast, fun bytes hwire hawait htime => ?_⟩
  have hlisten : Awaits (udpListen true dstPort b) bytes := ⟨hawait.up, hawait.rx, hawait.world⟩
  obtain ⟨e, w, hfront⟩ := hlisten.front_eq
  have hrx : ((udpListen true dstPort b).front bytes).udpRx = { b.udpRx with waiting := true, port := dstPort, received := false } := by
    rw [hfront]
    rfl
  have hto : b.cfg.ip = ((udpListen true dstPort b).front bytes).cfg.ip ∨ b.cfg.ip = bcastIp := .inl (by rw [hfront]; rfl)
  obtain ⟨-, pre, pad, hbytes, hpre⟩ := hwire.handleFrame_ipv4 hang 0 hto
  obtain ⟨t, ht⟩ : ∃ t, t = { (udpListen true dstPort b).front bytes with
      udpRx := ⟨true, dstPort, a.cfg.ip, srcPort, 42, data.length, true⟩ } := ⟨_, rfl⟩
  have hhandle : ∀ poll j, handleFrame poll j bytes ((udpListen true dstPort b).front bytes) = (.ok (), t) := by
    intro poll j
    rw [(hwire.handleFrame_ipv4 poll j hto).1]
    have hparse := parseUdp_udpHdr pre pad srcPort dstPort data (by omega)
    rw [hpre, ← hbytes] at hparse
    show handleUdp bytes 34 _ a.cfg.ip _ = _
    unfold handleUdp
    have hoffer : ((udpListen true dstPort b).front bytes).udpRx.offer ⟨srcPort, dstPort, 42, data.length⟩ a.cfg.ip =
        ⟨true, dstPort, a.cfg.ip, srcPort, 42, data.length, true⟩ := by
      rw [hrx]
      exact if_pos ⟨rfl, rfl, rfl⟩
    rw [hparse, ht, ← hoffer]
    rfl
  have hpoll : netPoll (k + 1) (udpListen true dstPort b) = (.ok (), t) := by
    apply hlisten.polls hwire hhandle
    rw [ht, hfront]
  have hdata : t.udpData maxLen = data.take maxLen := by
    have hbuf : t.pktBuf = (pre ++ udpHdr srcPort dstPort data.length) ++ (data ++ (pad ++ b.pktBuf.drop bytes.length)) := by
      rw [ht, hfront]
      show bytes ++ b.pktBuf.drop bytes.length = _
      generalize b.pktBuf.drop bytes.length = tail
      rw [hbytes]
      simp only [List.append_assoc]
    have hhdr : (pre ++ udpHdr srcPort dstPort data.length).length = 42 := by
      rw [List.length_append, hpre]
      rfl
    have hfields : t.udpRx = ⟨true, dstPort, a.cfg.ip, srcPort, 42, data.length, true⟩ := by
      rw [ht]
    unfold Stack.udpData
    rw [hbuf, hfields]
    dsimp only
    rw [← hhdr, List.drop_left, List.take_append_of_le_length (Nat.min_le_left _ _), min_comm, ← List.take_take, List.take_length]
  have hwait : waitUntil (netPoll (k + 1)) (b.ticks + timeout) (·.udpRx.received) (k + 1) (udpListen true dstPort b) = (.ok true, t) :=
    waitUntil_first htime hawait.world_ne_nil hpoll (by rw [ht])
  refine ⟨udpListen false dstPort t, ?_, by rw [ht]; rfl, by rw [ht]; rfl⟩
  refine (bind_ok (gets_apply _ _)).trans ((bind_ok (modify_apply _ _)).trans ((bind_ok hwait).trans ?_))
  refine (bind_ok (gets_apply _ _)).trans ((bind_ok (modify_apply _ _)).trans ?_)
  rw [if_pos rfl, hdata]
  rfl

end Udp

def udpFrame : EthFrame := ⟨askedMac, askingMac, ETH_TYPE_IPV4, udpPacket ⟨10, 0, 2, 15⟩ ⟨10, 0, 2, 16⟩ 53 68 [1, 2, 3]⟩

theorem udp_exchange_hosts : (udpRecvWait 1 68 2 10 (hostAt askedMac 16 [⟨1, [udpFrame.bytes]⟩])).1 = .ok [1, 2] := by
  have hsend : netUdpSend 0 ⟨10, 0, 2, 16⟩ 53 68 [1, 2, 3] ((hostAt askingMac 15 []).knowing 16 askedMac) = (.ok true, _) := Prod.ext rfl rfl
  obtain ⟨frame, hlast, hhears⟩ := @udp_exchange _ _ (hostAt askedMac 16 [⟨1, [udpFrame.bytes]⟩]) 0 53 68 [1, 2, 3] 0 2 10 hsend
  obtain rfl : udpFrame = frame := Option.some.inj (Eq.trans rfl hlast)
  obtain ⟨b', hrecv, -⟩ := hhears _ (EthFrame.onWire_bytes (by decide)) ⟨rfl, rfl, _, _, rfl⟩ (by decide)
  rw [hrecv]
  rfl

end Tg11Kernel.Net
