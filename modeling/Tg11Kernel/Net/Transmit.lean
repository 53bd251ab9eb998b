import Tg11Kernel.Net.Query

/-! The bytes that are handed to the card. A packet is built in an array on the stack, which
begins with what was there before, and copied into another one for the frame. Every byte of a
packet is written first; of the frame only the header and the packet are, and when they are
shorter than the 60 bytes that go out, the rest is what the stack held. -/

namespace Tg11Kernel.Net

open Lib

/-! ### Writes at fixed places -/

section Writes

variable {n i k : ℕ} {b : Block n} {l : Bytes}

/-- What the first bytes are behind a write among them. -/
theorem firstBytes_write (hi : i + l.length ≤ k) (hk : k ≤ n) :
    (b.overwrite i l).firstBytes k = (b.firstBytes k).take i ++ l ++ (b.firstBytes k).drop (i + l.length) := by
  apply List.ext_getElem?
  intro j
  have hget : ∀ c : Block n, (c.firstBytes k)[j]? = if j < k then some (c.get j) else none := by
    intro c
    by_cases hj : j < k <;> simp [Block.firstBytes, hj]
  rw [hget, Block.get_overwrite (by omega)]
  by_cases hlow : j < i
  · rw [List.getElem?_append_left (by simp; omega), List.getElem?_append_left (by simp; omega), List.getElem?_take, if_pos hlow, hget]
    simp [show ¬ i ≤ j by omega]
  · by_cases hmid : j < i + l.length
    · rw [List.getElem?_append_left (by simp; omega), List.getElem?_append_right (by simp; omega)]
      simp [show i ≤ j by omega, hmid, show j < k by omega, show min i k = i by omega, List.getD_eq_getElem?_getD,
        List.getElem?_eq_getElem (show j - i < l.length by omega)]
    · rw [List.getElem?_append_right (by simp; omega), List.getElem?_drop]
      have hplace : i + l.length + (j - ((b.firstBytes k).take i ++ l).length) = j := by
        rw [List.length_append, List.length_take, Block.length_firstBytes]
        omega
      rw [hplace, hget, if_neg (show ¬ (i ≤ j ∧ j < i + l.length) by omega)]

/-- A write behind a header. -/
theorem firstBytes_write_behind {hdr rest : Bytes} (hb : b.firstBytes k = hdr ++ rest) (hi : i + l.length ≤ rest.length) (hk : k ≤ n) :
    (b.overwrite (hdr.length + i) l).firstBytes k = hdr ++ (rest.take i ++ l ++ rest.drop (i + l.length)) := by
  have hlen := congrArg List.length hb
  rw [Block.length_firstBytes, List.length_append] at hlen
  rw [firstBytes_write (by omega) hk, hb, Nat.add_assoc, List.take_length_add_append, List.drop_length_add_append]
  simp only [List.append_assoc]

/-- The bytes behind a write are left. -/
theorem drop_write {m : ℕ} (hi : i + l.length ≤ m) (hn : i + l.length ≤ n) :
    ((b.overwrite i l).firstBytes k).drop m = (b.firstBytes k).drop m := by
  apply List.ext_getElem?
  intro j
  rw [List.getElem?_drop, List.getElem?_drop]
  by_cases hj : m + j < k
  · simp [Block.firstBytes, hj, Block.get_overwrite hn, show ¬ (i ≤ m + j ∧ m + j < i + l.length) by omega]
  · simp [Block.firstBytes, hj]

end Writes

/-! ### The frame -/

/-- The array `frame` of `send_eth`, and the bytes that are handed on: at least 60. -/
def ethFrame (cfg : NetConfig) (dst : Mac) (ethertype : UInt16) (payload : Bytes) (frame : Block 1518) : Option Bytes :=
  if payload.length + ETH_HLEN > 1518 then none
  else
    let frame := frame.overwrite 0 dst.bytes
    let frame := frame.overwrite 6 cfg.mac.bytes
    let frame := frame.overwrite 12 (be16 ethertype)
    let frame := frame.overwrite ETH_HLEN payload
    let total := ETH_HLEN + payload.length
    some (frame.firstBytes (if total < 60 then 60 else total))

/-- The header and the payload, and what is left of the array up to 60 bytes. -/
theorem ethFrame_eq {cfg : NetConfig} {dst : Mac} {ethertype : UInt16} {payload : Bytes} (frame : Block 1518)
    (hlen : ¬ payload.length + ETH_HLEN > 1518) :
    ethFrame cfg dst ethertype payload frame =
      some (dst.bytes ++ cfg.mac.bytes ++ be16 ethertype ++ payload ++ (frame.firstBytes 60).drop (ETH_HLEN + payload.length)) := by
  have hframe : ethFrame cfg dst ethertype payload frame =
      some (((((frame.overwrite 0 dst.bytes).overwrite 6 cfg.mac.bytes).overwrite 12 (be16 ethertype)).overwrite ETH_HLEN payload).firstBytes
        (if ETH_HLEN + payload.length < 60 then 60 else ETH_HLEN + payload.length)) := if_neg hlen
  rw [hframe]
  generalize htotal : (if ETH_HLEN + payload.length < 60 then 60 else ETH_HLEN + payload.length) = total
  have hle : ETH_HLEN + payload.length ≤ total := by
    rw [← htotal]
    split_ifs <;> omega
  -- one field after the other is appended to the first bytes
  have hdst : (frame.overwrite 0 dst.bytes).firstBytes 6 = dst.bytes := Block.firstBytes_overwrite rfl (show 0 + 6 ≤ 1518 by omega)
  have hsrc := Block.firstBytes_overwrite (m := cfg.mac.bytes) hdst (show 6 + 6 ≤ 1518 by omega)
  have htype := Block.firstBytes_overwrite (m := be16 ethertype) hsrc (show 12 + 2 ≤ 1518 by omega)
  have hall := Block.firstBytes_overwrite (m := payload) htype (show 14 + payload.length ≤ 1518 by unfold ETH_HLEN at hlen; omega)
  have hrest : (((((frame.overwrite 0 dst.bytes).overwrite 6 cfg.mac.bytes).overwrite 12 (be16 ethertype)).overwrite ETH_HLEN payload).firstBytes
      total).drop (ETH_HLEN + payload.length) = (frame.firstBytes 60).drop (ETH_HLEN + payload.length) := by
    rw [drop_write (Nat.le_refl _) (by omega), drop_write (show 12 + 2 ≤ _ by unfold ETH_HLEN; omega) (show 12 + 2 ≤ 1518 by omega),
      drop_write (show 6 + 6 ≤ _ by unfold ETH_HLEN; omega) (show 6 + 6 ≤ 1518 by omega),
      drop_write (show 0 + 6 ≤ _ by unfold ETH_HLEN; omega) (show 0 + 6 ≤ 1518 by omega), ← htotal]
    split_ifs with hshort
    · rfl
    · rw [List.drop_eq_nil_of_le (by rw [Block.length_firstBytes]), List.drop_eq_nil_of_le (by rw [Block.length_firstBytes]; omega)]
  have hsplit := List.take_append_drop (ETH_HLEN + payload.length)
    (((((frame.overwrite 0 dst.bytes).overwrite 6 cfg.mac.bytes).overwrite 12 (be16 ethertype)).overwrite ETH_HLEN payload).firstBytes total)
  rw [hrest, Block.take_firstBytes, min_eq_left hle] at hsplit
  rw [← hsplit]
  congr 2

/-- The frame does not depend on the array exactly when there is nothing to fill up. -/
theorem ethFrame_same_iff (cfg : NetConfig) (dst : Mac) (ethertype : UInt16) {payload : Bytes} :
    (∀ f f', ethFrame cfg dst ethertype payload f = ethFrame cfg dst ethertype payload f') ↔ 46 ≤ payload.length := by
  by_cases hlen : payload.length + ETH_HLEN > 1518
  · have hnone : ∀ f, ethFrame cfg dst ethertype payload f = none := fun f => if_pos hlen
    unfold ETH_HLEN at hlen
    simp only [hnone, implies_true, true_iff]
    omega
  · simp only [ethFrame_eq _ hlen, Option.some.injEq, List.append_cancel_left_eq]
    constructor
    · intro h
      by_contra hshort
      have hlast := congrArg (fun l : Bytes => l[45 - payload.length]?) (h Block.zero fun _ => 1)
      simp [Block.firstBytes, Block.get, Block.zero, ETH_HLEN, show 14 + payload.length + (45 - payload.length) = 59 by omega] at hlast
    · intro hfull f f'
      rw [List.drop_eq_nil_of_le, List.drop_eq_nil_of_le]
      · rw [Block.length_firstBytes]
        unfold ETH_HLEN
        omega
      · rw [Block.length_firstBytes]
        unfold ETH_HLEN
        omega

/-! ### Packets -/

section Packets

variable {n : ℕ}

/-- `mem_zero`, and the fields of an IPv4 header, in the order of the source. -/
def memZero (len : ℕ) (pkt : Block n) : Block n := pkt.overwrite 0 (List.replicate len 0)

def ipv4Fields (total : ℕ) (protocol : UInt8) (srcIp dstIp : Ip) (pkt : Block n) : Block n :=
  let pkt := pkt.overwrite 0 [0x45]
  let pkt := pkt.overwrite 8 [64]
  let pkt := pkt.overwrite 9 [protocol]
  let pkt := pkt.overwrite 2 (be16 (UInt16.ofNat total))
  let pkt := pkt.overwrite 12 srcIp.bytes
  let pkt := pkt.overwrite 16 dstIp.bytes
  pkt.overwrite 10 (le16 (ipChecksum (pkt.firstBytes 20)))

variable {b : Block n} {k : ℕ}

theorem firstBytes_memZero {len : ℕ} (hn : len ≤ n) : (memZero len b).firstBytes len = List.replicate len 0 := by
  have h := Block.firstBytes_overwrite (b := b) (k := 0) (l := []) (m := List.replicate len 0) rfl (by simpa using hn)
  rw [List.length_replicate, Nat.zero_add, List.nil_append] at h
  exact h

theorem firstBytes_ipv4Fields (total : ℕ) (protocol : UInt8) (srcIp dstIp : Ip) {rest : Bytes} (hk : k ≤ n)
    (h : b.firstBytes k = List.replicate 20 0 ++ rest) :
    (ipv4Fields total protocol srcIp dstIp b).firstBytes k =
      ipv4Hdr total protocol srcIp dstIp (ipChecksum (ipv4Hdr total protocol srcIp dstIp 0)) ++ rest := by
  have hlen : 20 + rest.length = k := by
    have hlength := congrArg List.length h
    rw [Block.length_firstBytes, List.length_append, List.length_replicate] at hlength
    exact hlength.symm
  obtain ⟨c, hb⟩ : ∃ c, (((((b.overwrite 0 [0x45]).overwrite 8 [64]).overwrite 9 [protocol]).overwrite 2
    (be16 (UInt16.ofNat total))).overwrite 12 srcIp.bytes).overwrite 16 dstIp.bytes = c := ⟨_, rfl⟩
  have hrun : ipv4Fields total protocol srcIp dstIp b = c.overwrite 10 (le16 (ipChecksum (c.firstBytes 20))) := by
    rw [← hb]
    rfl
  have hc : c.firstBytes k = ipv4Hdr total protocol srcIp dstIp 0 ++ rest := by
    rw [← hb, firstBytes_write (show 16 + 4 ≤ k by omega) hk, firstBytes_write (show 12 + 4 ≤ k by omega) hk,
      firstBytes_write (show 2 + 2 ≤ k by omega) hk, firstBytes_write (show 9 + 1 ≤ k by omega) hk,
      firstBytes_write (show 8 + 1 ≤ k by omega) hk, firstBytes_write (show 0 + 1 ≤ k by omega) hk, h]
    simp [ipv4Hdr, List.replicate_succ, Ip.bytes, be16, le16]
  have hfirst : c.firstBytes 20 = ipv4Hdr total protocol srcIp dstIp 0 := by
    rw [← min_eq_left (show 20 ≤ k by omega), ← Block.take_firstBytes, hc]
    simp [ipv4Hdr, Ip.bytes, be16, le16]
  rw [hrun, hfirst, firstBytes_write (show 10 + 2 ≤ k by omega) hk, hc]
  generalize ipChecksum (ipv4Hdr total protocol srcIp dstIp 0) = sum
  simp [ipv4Hdr, Ip.bytes, be16, le16]

/-- The packet of `arp_request` and `arp_reply`. -/
def arpFields (opcode : UInt16) (cfg : NetConfig) (targetMac : Mac) (targetIp : Ip) (arp : Block 28) : Block 28 :=
  let arp := arp.overwrite 0 (be16 1)
  let arp := arp.overwrite 2 (be16 0x0800)
  let arp := arp.overwrite 4 [6]
  let arp := arp.overwrite 5 [4]
  let arp := arp.overwrite 6 (be16 opcode)
  let arp := arp.overwrite 8 cfg.mac.bytes
  let arp := arp.overwrite 14 cfg.ip.bytes
  let arp := arp.overwrite 18 targetMac.bytes
  arp.overwrite 24 targetIp.bytes

/-- Every byte of it is written. -/
theorem firstBytes_arpFields (opcode : UInt16) (cfg : NetConfig) (targetMac : Mac) (targetIp : Ip) (arp : Block 28) :
    (arpFields opcode cfg targetMac targetIp arp).firstBytes 28 = arpPkt opcode cfg.mac cfg.ip targetMac targetIp := by
  have h0 := Block.firstBytes_overwrite (b := arp) (k := 0) (l := []) (m := be16 1) rfl (show 0 + 2 ≤ 28 by omega)
  have h1 := Block.firstBytes_overwrite (m := be16 0x0800) h0 (show 2 + 2 ≤ 28 by omega)
  have h2 := Block.firstBytes_overwrite (m := [6]) h1 (show 4 + 1 ≤ 28 by omega)
  have h3 := Block.firstBytes_overwrite (m := [4]) h2 (show 5 + 1 ≤ 28 by omega)
  have h4 := Block.firstBytes_overwrite (m := be16 opcode) h3 (show 6 + 2 ≤ 28 by omega)
  have h5 := Block.firstBytes_overwrite (m := cfg.mac.bytes) h4 (show 8 + 6 ≤ 28 by omega)
  have h6 := Block.firstBytes_overwrite (m := cfg.ip.bytes) h5 (show 14 + 4 ≤ 28 by omega)
  have h7 := Block.firstBytes_overwrite (m := targetMac.bytes) h6 (show 18 + 6 ≤ 28 by omega)
  exact Block.firstBytes_overwrite (m := targetIp.bytes) h7 (show 24 + 4 ≤ 28 by omega)

/-- The packet of `net_ping`. -/
def pingFields (cfg : NetConfig) (dstIp : Ip) (seq : UInt16) (pkt : Block 60) : Block 60 :=
  let pkt := memZero 60 pkt
  let pkt := ipv4Fields 60 IP_PROTO_ICMP cfg.ip dstIp pkt
  let pkt := pkt.overwrite 20 [8]
  let pkt := pkt.overwrite 21 [0]
  let pkt := pkt.overwrite 24 (be16 pingIdent)
  let pkt := pkt.overwrite 26 (be16 seq)
  let pkt := pkt.overwrite 28 pingData
  pkt.overwrite 22 (le16 (ipChecksum ((pkt.firstBytes 60).drop 20)))

theorem firstBytes_pingFields (cfg : NetConfig) (dstIp : Ip) (seq : UInt16) (pkt : Block 60) :
    (pingFields cfg dstIp seq pkt).firstBytes 60 =
      ipv4Packet IP_PROTO_ICMP cfg.ip dstIp (icmpMessage 8 0 (be16 pingIdent ++ be16 seq ++ pingData)) := by
  have hzero : (memZero 60 pkt).firstBytes 60 = List.replicate 20 0 ++ List.replicate 40 0 := firstBytes_memZero (Nat.le_refl 60)
  have hip := firstBytes_ipv4Fields 60 IP_PROTO_ICMP cfg.ip dstIp (Nat.le_refl 60) hzero
  generalize hhdr : ipv4Hdr 60 IP_PROTO_ICMP cfg.ip dstIp (ipChecksum (ipv4Hdr 60 IP_PROTO_ICMP cfg.ip dstIp 0)) = hdr at hip
  have hdr_length : hdr.length = 20 := by
    rw [← hhdr]
    rfl
  obtain ⟨c, hb⟩ : ∃ c, (((((ipv4Fields 60 IP_PROTO_ICMP cfg.ip dstIp (memZero 60 pkt)).overwrite 20 [8]).overwrite 21 [0]).overwrite 24
    (be16 pingIdent)).overwrite 26 (be16 seq)).overwrite 28 pingData = c := ⟨_, rfl⟩
  have hrun : pingFields cfg dstIp seq pkt = c.overwrite 22 (le16 (ipChecksum ((c.firstBytes 60).drop 20))) := by
    rw [← hb]
    rfl
  have hc : c.firstBytes 60 = hdr ++ (icmpHdr 8 0 0 ++ (be16 pingIdent ++ be16 seq ++ pingData)) := by
    have h0 := firstBytes_write_behind (i := 0) (l := [8]) hip (by simp) (Nat.le_refl 60)
    have h1 := firstBytes_write_behind (i := 1) (l := [0]) h0 (by simp) (Nat.le_refl 60)
    have h2 := firstBytes_write_behind (i := 4) (l := be16 pingIdent) h1 (by simp [be16]) (Nat.le_refl 60)
    have h3 := firstBytes_write_behind (i := 6) (l := be16 seq) h2 (by simp [be16]) (Nat.le_refl 60)
    have h4 := firstBytes_write_behind (i := 8) (l := pingData) h3 (by simp [be16, pingData]) (Nat.le_refl 60)
    rw [hdr_length] at h0 h1 h2 h3 h4
    rw [← hb, h4]
    simp [icmpHdr, be16, le16, pingData]
  have hsum : (c.firstBytes 60).drop 20 = icmpHdr 8 0 0 ++ (be16 pingIdent ++ be16 seq ++ pingData) := by
    rw [hc, ← hdr_length, List.drop_left]
  have hlast := firstBytes_write_behind (i := 2) (l := le16 (ipChecksum (icmpHdr 8 0 0 ++ (be16 pingIdent ++ be16 seq ++ pingData)))) hc
    (by simp [icmpHdr, le16]) (Nat.le_refl 60)
  rw [hdr_length] at hlast
  rw [hrun, hsum, hlast]
  unfold ipv4Packet icmpMessage
  rw [← hhdr]
  generalize ipChecksum (icmpHdr 8 0 0 ++ (be16 pingIdent ++ be16 seq ++ pingData)) = sum
  simp [icmpHdr, be16, le16, pingData]

theorem exists_ipv4Hdr {a l : ℕ} (protocol : UInt8) (srcIp dstIp : Ip) (pkt : Block n) (hk : 20 + a + l ≤ n) :
    ∃ hdr, ipv4Hdr (20 + a + l) protocol srcIp dstIp (ipChecksum (ipv4Hdr (20 + a + l) protocol srcIp dstIp 0)) = hdr ∧ hdr.length = 20 ∧
      (ipv4Fields (20 + a + l) protocol srcIp dstIp (memZero (20 + a + l) pkt)).firstBytes (20 + a + l) =
        hdr ++ (List.replicate a 0 ++ List.replicate l 0) := by
  have hzero : (memZero (20 + a + l) pkt).firstBytes (20 + a + l) = List.replicate 20 0 ++ (List.replicate a 0 ++ List.replicate l 0) := by
    rw [firstBytes_memZero hk, List.replicate_add, List.replicate_add, List.append_assoc]
  exact ⟨_, rfl, rfl, firstBytes_ipv4Fields _ protocol srcIp dstIp hk hzero⟩

/-- The packet of `net_udp_send` and `net_udp_send_broadcast`. -/
def udpFields (srcIp dstIp : Ip) (srcPort dstPort : UInt16) (data : Bytes) (pkt : Block 1500) : Block 1500 :=
  let total := 20 + 8 + data.length
  let pkt := memZero total pkt
  let pkt := ipv4Fields total IP_PROTO_UDP srcIp dstIp pkt
  let pkt := pkt.overwrite 20 (be16 srcPort)
  let pkt := pkt.overwrite 22 (be16 dstPort)
  let pkt := pkt.overwrite 24 (be16 (UInt16.ofNat (8 + data.length)))
  let pkt := pkt.overwrite 26 [0, 0]
  pkt.overwrite 28 data

theorem firstBytes_udpFields {srcIp dstIp : Ip} {srcPort dstPort : UInt16} {data : Bytes} (pkt : Block 1500)
    (hdata : ¬ data.length + 20 + 8 > 1500) :
    (udpFields srcIp dstIp srcPort dstPort data pkt).firstBytes (20 + 8 + data.length) = udpPacket srcIp dstIp srcPort dstPort data := by
  have hk : 20 + 8 + data.length ≤ 1500 := by omega
  obtain ⟨hdr, hhdr, hdr_length, hip⟩ := exists_ipv4Hdr IP_PROTO_UDP srcIp dstIp pkt hk
  have h0 := firstBytes_write_behind (i := 0) (l := be16 srcPort) hip (by simp [be16]) hk
  have h1 := firstBytes_write_behind (i := 2) (l := be16 dstPort) h0 (by simp [be16]) hk
  have h2 := firstBytes_write_behind (i := 4) (l := be16 (UInt16.ofNat (8 + data.length))) h1 (by simp [be16]) hk
  have h3 := firstBytes_write_behind (i := 6) (l := [0, 0]) h2 (by simp +arith [be16]) hk
  have h4 := firstBytes_write_behind (i := 8) (l := data) h3 (by simp +arith [be16]) hk
  rw [hdr_length] at h0 h1 h2 h3 h4
  have htotal : 20 + (udpHdr srcPort dstPort data.length ++ data).length = 20 + 8 + data.length := by
    rw [List.length_append, ← Nat.add_assoc]
    rfl
  refine h4.trans ?_
  unfold udpPacket ipv4Packet
  rw [htotal, ← hhdr]
  simp [udpHdr, be16]
  omega

/-- The packet of `tcp_send_segment`. -/
def tcpFields (cfg : NetConfig) (c : TcpConn) (flags : UInt8) (data : Bytes) (pkt : Block 1500) : Block 1500 :=
  let total := 20 + 20 + data.length
  let pkt := memZero total pkt
  let pkt := ipv4Fields total IP_PROTO_TCP cfg.ip c.remoteIp pkt
  let pkt := pkt.overwrite 20 (be16 c.localPort)
  let pkt := pkt.overwrite 22 (be16 c.remotePort)
  let pkt := pkt.overwrite 24 (be32 c.seq)
  let pkt := pkt.overwrite 28 (be32 c.ack)
  let pkt := pkt.overwrite 32 [0x50]
  let pkt := pkt.overwrite 33 [flags]
  let pkt := pkt.overwrite 34 (be16 (UInt16.ofNat NET_TCP_BUF_SIZE))
  let pkt := pkt.overwrite 36 [0, 0]
  let pkt := pkt.overwrite 40 data
  pkt.overwrite 36 (le16 (tcpChecksum cfg.ip c.remoteIp ((pkt.firstBytes total).drop 20)))

theorem firstBytes_tcpFields {cfg : NetConfig} {c : TcpConn} {flags : UInt8} {data : Bytes} (pkt : Block 1500)
    (hdata : ¬ 20 + data.length + 20 > 1500) :
    (tcpFields cfg c flags data pkt).firstBytes (20 + 20 + data.length) =
      ipv4Packet IP_PROTO_TCP cfg.ip c.remoteIp
        (tcpSegment cfg.ip c.remoteIp c.localPort c.remotePort c.seq c.ack flags data) := by
  have hk : 20 + 20 + data.length ≤ 1500 := by omega
  obtain ⟨hdr, hhdr, hdr_length, hip⟩ := exists_ipv4Hdr IP_PROTO_TCP cfg.ip c.remoteIp pkt hk
  have h0 := firstBytes_write_behind (i := 0) (l := be16 c.localPort) hip (by simp [be16]) hk
  have h1 := firstBytes_write_behind (i := 2) (l := be16 c.remotePort) h0 (by simp [be16]) hk
  have h2 := firstBytes_write_behind (i := 4) (l := be32 c.seq) h1 (by simp +arith [be16, be32]) hk
  have h3 := firstBytes_write_behind (i := 8) (l := be32 c.ack) h2 (by simp +arith [be16, be32]) hk
  have h4 := firstBytes_write_behind (i := 12) (l := [0x50]) h3 (by simp +arith [be16, be32]) hk
  have h5 := firstBytes_write_behind (i := 13) (l := [flags]) h4 (by simp +arith [be16, be32]) hk
  have h6 := firstBytes_write_behind (i := 14) (l := be16 (UInt16.ofNat NET_TCP_BUF_SIZE)) h5 (by simp +arith [be16, be32]) hk
  have h7 := firstBytes_write_behind (i := 16) (l := [0, 0]) h6 (by simp +arith [be16, be32]) hk
  have h8 := firstBytes_write_behind (i := 20) (l := data) h7 (by simp +arith [be16, be32]) hk
  rw [hdr_length] at h0 h1 h2 h3 h4 h5 h6 h7 h8
  obtain ⟨p, hp⟩ : ∃ p, ((((((((((ipv4Fields (20 + 20 + data.length) IP_PROTO_TCP cfg.ip c.remoteIp (memZero (20 + 20 + data.length) pkt)).overwrite
    20 (be16 c.localPort)).overwrite 22 (be16 c.remotePort)).overwrite 24 (be32 c.seq)).overwrite 28 (be32 c.ack)).overwrite 32 [0x50]).overwrite
    33 [flags]).overwrite 34 (be16 (UInt16.ofNat NET_TCP_BUF_SIZE))).overwrite 36 [0, 0]).overwrite 40 data) = p := ⟨_, rfl⟩
  have hrun : tcpFields cfg c flags data pkt =
      p.overwrite 36 (le16 (tcpChecksum cfg.ip c.remoteIp ((p.firstBytes (20 + 20 + data.length)).drop 20))) := by
    rw [← hp]
    rfl
  have hfields : p.firstBytes (20 + 20 + data.length) =
      hdr ++ (tcpHdr c.localPort c.remotePort c.seq c.ack flags 0 ++ data) := by
    rw [← hp, h8]
    simp [tcpHdr, be16, be32, le16]
    omega
  have hsum : (p.firstBytes (20 + 20 + data.length)).drop 20 = tcpHdr c.localPort c.remotePort c.seq c.ack flags 0 ++ data := by
    rw [hfields, ← hdr_length, List.drop_left]
  rw [hrun, hsum]
  have hlast := firstBytes_write_behind (i := 16)
    (l := le16 (tcpChecksum cfg.ip c.remoteIp (tcpHdr c.localPort c.remotePort c.seq c.ack flags 0 ++ data))) hfields
    (by simp +arith [tcpHdr, be16, be32, le16]) hk
  rw [hdr_length] at hlast
  rw [hlast]
  have htotal : 20 + (tcpSegment cfg.ip c.remoteIp c.localPort c.remotePort c.seq c.ack flags data).length = 20 + 20 + data.length := by
    unfold tcpSegment
    rw [List.length_append, ← Nat.add_assoc]
    rfl
  have hseg : tcpSegment cfg.ip c.remoteIp c.localPort c.remotePort c.seq c.ack flags data =
      tcpHdr c.localPort c.remotePort c.seq c.ack flags
        (tcpChecksum cfg.ip c.remoteIp (tcpHdr c.localPort c.remotePort c.seq c.ack flags 0 ++ data)) ++ data := rfl
  unfold ipv4Packet
  rw [htotal, ← hhdr, hseg]
  generalize tcpChecksum cfg.ip c.remoteIp (tcpHdr c.localPort c.remotePort c.seq c.ack flags 0 ++ data) = sum
  simp [tcpHdr, be16, be32, le16]

/-- The echo reply of `handle_icmp`; the message is copied and changed in the copy. -/
def echoFields (cfg : NetConfig) (srcIp : Ip) (icmp : Bytes) (reply : Block 1500) : Block 1500 :=
  let total := 20 + icmp.length
  let reply := reply.overwrite 20 icmp
  let reply := reply.overwrite 20 [0]
  let reply := reply.overwrite 22 [0, 0]
  let reply := reply.overwrite 22 (le16 (ipChecksum ((reply.firstBytes total).drop 20)))
  let reply := memZero 20 reply
  ipv4Fields total IP_PROTO_ICMP cfg.ip srcIp reply

theorem firstBytes_echoFields (cfg : NetConfig) (srcIp : Ip) {type code c0 c1 : UInt8} {rest : Bytes} (reply : Block 1500)
    (hdata : ¬ (type :: code :: c0 :: c1 :: rest).length + 20 > 1500) :
    (echoFields cfg srcIp (type :: code :: c0 :: c1 :: rest) reply).firstBytes (20 + (type :: code :: c0 :: c1 :: rest).length) =
      ipv4Packet IP_PROTO_ICMP cfg.ip srcIp (icmpMessage 0 code rest) := by
  have hk : 20 + (type :: code :: c0 :: c1 :: rest).length ≤ 1500 := by omega
  have h0 := Block.firstBytes_overwrite (b := reply) (m := type :: code :: c0 :: c1 :: rest) rfl hk
  have hold : (reply.firstBytes 20).length = 20 := Block.length_firstBytes _ _
  generalize reply.firstBytes 20 = old at h0 hold
  have h1 := firstBytes_write_behind (i := 0) (l := [0]) h0 (by simp) hk
  have h2 := firstBytes_write_behind (i := 2) (l := [0, 0]) h1 (by simp +arith) hk
  rw [hold] at h1 h2
  obtain ⟨p, hp⟩ : ∃ p, ((reply.overwrite 20 (type :: code :: c0 :: c1 :: rest)).overwrite 20 [0]).overwrite 22 [0, 0] = p := ⟨_, rfl⟩
  have hrun : echoFields cfg srcIp (type :: code :: c0 :: c1 :: rest) reply =
      ipv4Fields (20 + (type :: code :: c0 :: c1 :: rest).length) IP_PROTO_ICMP cfg.ip srcIp
        (memZero 20 (p.overwrite 22 (le16 (ipChecksum ((p.firstBytes (20 + (type :: code :: c0 :: c1 :: rest).length)).drop 20))))) := by
    rw [← hp]
    rfl
  have hfields : p.firstBytes (20 + (type :: code :: c0 :: c1 :: rest).length) = old ++ (icmpHdr 0 code 0 ++ rest) := by
    rw [← hp, h2]
    simp [icmpHdr, le16]
  have hsum : (p.firstBytes (20 + (type :: code :: c0 :: c1 :: rest).length)).drop 20 = icmpHdr 0 code 0 ++ rest := by
    rw [hfields, ← hold, List.drop_left]
  have hlast := firstBytes_write_behind (i := 2) (l := le16 (ipChecksum (icmpHdr 0 code 0 ++ rest))) hfields (by simp +arith [icmpHdr, le16]) hk
  rw [hold] at hlast
  have hzero : (memZero 20 (p.overwrite 22 (le16 (ipChecksum (icmpHdr 0 code 0 ++ rest))))).firstBytes
      (20 + (type :: code :: c0 :: c1 :: rest).length) = List.replicate 20 0 ++ icmpMessage 0 code rest := by
    unfold memZero
    rw [firstBytes_write (by simp) hk, hlast, List.length_replicate, Nat.zero_add, List.take_zero, List.nil_append]
    congr 1
    rw [← hold, List.drop_left]
    unfold icmpMessage
    generalize ipChecksum (icmpHdr 0 code 0 ++ rest) = sum
    simp [icmpHdr, le16]
  rw [hrun, hsum, firstBytes_ipv4Fields _ _ _ _ hk hzero]
  rfl

end Packets

/-! ### Every send -/

/-- The arrays on the stack, with what was there before. -/
structure StackArrays where
  frame : Block 1518
  packet : Block 1500
  ping : Block 60
  arp : Block 28

/-- What is sent, with the address that was found for it. -/
inductive Send where
  | arpRequest (ip : Ip)
  | arpReply (dstMac : Mac) (dstIp : Ip)
  | echoReply (dstMac : Mac) (srcIp : Ip) (icmp : Bytes)
  | ping (dstMac : Mac) (dstIp : Ip) (seq : UInt16)
  | udp (dstMac : Mac) (dstIp : Ip) (srcPort dstPort : UInt16) (data : Bytes)
  | udpBroadcast (srcPort dstPort : UInt16) (data : Bytes)
  | tcp (dstMac : Mac) (c : TcpConn) (flags : UInt8) (data : Bytes)

namespace Send

/-- The bytes that are handed to `e1000_send`; none when the send returns before. -/
def frame (cfg : NetConfig) (m : StackArrays) : Send → Option Bytes
  | arpRequest ip => ethFrame cfg bcastMac ETH_TYPE_ARP ((arpFields 1 cfg ⟨0, 0, 0, 0, 0, 0⟩ ip m.arp).firstBytes 28) m.frame
  | arpReply dstMac dstIp => ethFrame cfg dstMac ETH_TYPE_ARP ((arpFields 2 cfg dstMac dstIp m.arp).firstBytes 28) m.frame
  | echoReply dstMac srcIp icmp =>
    if icmp.length < 8 ∨ icmp.length + 20 > 1500 then none
    else ethFrame cfg dstMac ETH_TYPE_IPV4 ((echoFields cfg srcIp icmp m.packet).firstBytes (20 + icmp.length)) m.frame
  | ping dstMac dstIp seq => ethFrame cfg dstMac ETH_TYPE_IPV4 ((pingFields cfg dstIp seq m.ping).firstBytes 60) m.frame
  | udp dstMac dstIp srcPort dstPort data =>
    if data.length + 20 + 8 > 1500 then none
    else ethFrame cfg dstMac ETH_TYPE_IPV4
      ((udpFields cfg.ip dstIp srcPort dstPort data m.packet).firstBytes (20 + 8 + data.length)) m.frame
  | udpBroadcast srcPort dstPort data =>
    if data.length + 20 + 8 > 1500 then none
    else ethFrame cfg bcastMac ETH_TYPE_IPV4
      ((udpFields zeroIp bcastIp srcPort dstPort data m.packet).firstBytes (20 + 8 + data.length)) m.frame
  | tcp dstMac c flags data =>
    if 20 + data.length + 20 > 1500 then none
    else ethFrame cfg dstMac ETH_TYPE_IPV4 ((tcpFields cfg c flags data m.packet).firstBytes (20 + 20 + data.length)) m.frame

/-- The packet fills a frame, or nothing is sent. -/
def Fills : Send → Prop
  | arpRequest _ => False
  | arpReply _ _ => False
  | echoReply _ _ icmp => icmp.length < 8 ∨ 26 ≤ icmp.length
  | ping _ _ _ => True
  | udp _ _ _ _ data => 18 ≤ data.length
  | udpBroadcast _ _ data => 18 ≤ data.length
  | tcp _ _ _ data => 6 ≤ data.length

/-- The frame of a packet that does not depend on the arrays depends on `frame` alone. -/
theorem same_iff (cfg : NetConfig) (send : Send) {dst : Mac} {ethertype : UInt16} {payload : Bytes}
    (h : ∀ m, send.frame cfg m = ethFrame cfg dst ethertype payload m.frame) :
    (∀ m m', send.frame cfg m = send.frame cfg m') ↔ 46 ≤ payload.length := by
  rw [← ethFrame_same_iff cfg dst ethertype]
  constructor
  · intro hsame f f'
    have hsend := hsame ⟨f, Block.zero, Block.zero, Block.zero⟩ ⟨f', Block.zero, Block.zero, Block.zero⟩
    rwa [h, h] at hsend
  · intro hsame m m'
    rw [h, h]
    exact hsame _ _

theorem same_none {cfg : NetConfig} {send : Send} (h : ∀ m, send.frame cfg m = none) :
    ∀ m m', send.frame cfg m = send.frame cfg m' := by
  intro m m'
  rw [h, h]

/-- A packet with its length leaves nothing of the arrays in the frame when it fills one. -/
theorem frame_same_iff (cfg : NetConfig) (send : Send) : (∀ m m', send.frame cfg m = send.frame cfg m') ↔ send.Fills := by
  cases send with
  | arpRequest ip =>
    have h := same_iff cfg (.arpRequest ip) fun m =>
      congrArg (fun p => ethFrame cfg bcastMac ETH_TYPE_ARP p m.frame) (firstBytes_arpFields 1 cfg _ ip m.arp)
    rw [h]
    simp [Fills, arpPkt, be16, Mac.bytes, Ip.bytes]
  | arpReply dstMac dstIp =>
    have h := same_iff cfg (.arpReply dstMac dstIp) fun m =>
      congrArg (fun p => ethFrame cfg dstMac ETH_TYPE_ARP p m.frame) (firstBytes_arpFields 2 cfg dstMac dstIp m.arp)
    rw [h]
    simp [Fills, arpPkt, be16, Mac.bytes, Ip.bytes]
  | echoReply dstMac srcIp icmp =>
    by_cases hsent : icmp.length < 8 ∨ icmp.length + 20 > 1500
    · refine ⟨fun _ => ?_, fun _ => same_none fun m => if_pos hsent⟩
      unfold Fills
      omega
    · push Not at hsent
      obtain ⟨type, code, c0, c1, rest, rfl⟩ : ∃ type code c0 c1 rest, icmp = type :: code :: c0 :: c1 :: rest := by
        rcases icmp with _ | ⟨type, _ | ⟨code, _ | ⟨c0, _ | ⟨c1, rest⟩⟩⟩⟩
        · simp at hsent
        · simp at hsent
        · simp at hsent
        · simp at hsent
        · exact ⟨type, code, c0, c1, rest, rfl⟩
      have h := same_iff cfg (.echoReply dstMac srcIp (type :: code :: c0 :: c1 :: rest)) fun m =>
        (if_neg (by omega)).trans (congrArg (fun p => ethFrame cfg dstMac ETH_TYPE_IPV4 p m.frame)
          (firstBytes_echoFields cfg srcIp m.packet (by omega)))
      rw [h]
      simp only [ipv4Packet, ipv4Hdr, icmpMessage, icmpHdr, be16, le16, Ip.bytes, List.length_append, List.length_cons, List.length_nil, Fills]
      simp only [List.length_cons] at hsent
      omega
  | ping dstMac dstIp seq =>
    have h := same_iff cfg (.ping dstMac dstIp seq) fun m =>
      congrArg (fun p => ethFrame cfg dstMac ETH_TYPE_IPV4 p m.frame) (firstBytes_pingFields cfg dstIp seq m.ping)
    rw [h]
    simp [Fills, ipv4Packet, ipv4Hdr, icmpMessage, icmpHdr, be16, le16, Ip.bytes, pingData]
  | udp dstMac dstIp srcPort dstPort data =>
    by_cases hsent : data.length + 20 + 8 > 1500
    · refine ⟨fun _ => ?_, fun _ => same_none fun m => if_pos hsent⟩
      unfold Fills
      omega
    · have h := same_iff cfg (.udp dstMac dstIp srcPort dstPort data) fun m =>
        (if_neg hsent).trans (congrArg (fun p => ethFrame cfg dstMac ETH_TYPE_IPV4 p m.frame) (firstBytes_udpFields m.packet hsent))
      rw [h]
      simp only [udpPacket, ipv4Packet, ipv4Hdr, udpHdr, be16, le16, Ip.bytes, List.length_append, List.length_cons, List.length_nil, Fills]
      omega
  | udpBroadcast srcPort dstPort data =>
    by_cases hsent : data.length + 20 + 8 > 1500
    · refine ⟨fun _ => ?_, fun _ => same_none fun m => if_pos hsent⟩
      unfold Fills
      omega
    · have h := same_iff cfg (.udpBroadcast srcPort dstPort data) fun m =>
        (if_neg hsent).trans (congrArg (fun p => ethFrame cfg bcastMac ETH_TYPE_IPV4 p m.frame) (firstBytes_udpFields m.packet hsent))
      rw [h]
      simp only [udpPacket, ipv4Packet, ipv4Hdr, udpHdr, be16, le16, Ip.bytes, List.length_append, List.length_cons, List.length_nil, Fills]
      omega
  | tcp dstMac c flags data =>
    by_cases hsent : 20 + data.length + 20 > 1500
    · refine ⟨fun _ => ?_, fun _ => same_none fun m => if_pos hsent⟩
      unfold Fills
      omega
    · have h := same_iff cfg (.tcp dstMac c flags data) fun m =>
        (if_neg hsent).trans (congrArg (fun p => ethFrame cfg dstMac ETH_TYPE_IPV4 p m.frame) (firstBytes_tcpFields m.packet hsent))
      rw [h]
      simp only [ipv4Packet, ipv4Hdr, tcpSegment, tcpHdr, be16, be32, le16, Ip.bytes, List.length_append, List.length_cons, List.length_nil,
        Fills]
      omega

end Send

/-- Two runs hand the same bytes to the card, whatever was on the stack, exactly when the
packet fills a frame: for any packet of `send_eth`, and for every packet of the stack. -/
theorem transmit_same_iff (cfg : NetConfig) :
    (∀ dst ethertype payload, (∀ f f', ethFrame cfg dst ethertype payload f = ethFrame cfg dst ethertype payload f') ↔ 46 ≤ payload.length) ∧
    ∀ send : Send, (∀ m m', send.frame cfg m = send.frame cfg m') ↔ send.Fills :=
  ⟨fun dst ethertype _ => ethFrame_same_iff cfg dst ethertype, Send.frame_same_iff cfg⟩

/-- An ARP request shows what was on the stack. -/
theorem not_transmit_same : ¬ ∀ (cfg : NetConfig) (send : Send) (m m' : StackArrays), send.frame cfg m = send.frame cfg m' := by
  intro h
  exact (Send.frame_same_iff (netSetDefaults bcastMac) (.arpRequest zeroIp)).1 (h _ _)

end Tg11Kernel.Net
