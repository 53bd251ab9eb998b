import Tg11Kernel.Net.Steady

/-! Every packet that is built verifies. The checksum of a header or a message is computed
with the field at zero and stored without a swap; summed again with the field in place, in
network order, the words give `0xFFFF`. For TCP the pseudo header comes in front. -/

namespace Tg11Kernel.Net

open Lib Exec

/-! ### Fields -/

variable (v : UInt16)

theorem le16_value : v.toUInt8.toNat + 256 * (v >>> 8).toUInt8.toNat = v.toNat := by
  have hlt := v.toNat_lt
  have hhigh : (v >>> 8).toNat = v.toNat / 256 := by
    rw [UInt16.toNat_shiftRight]
    exact Nat.shiftRight_eq_div_pow v.toNat 8
  rw [UInt16.toNat_toUInt8, UInt16.toNat_toUInt8, hhigh]
  omega

theorem complement_toNat {n : ℕ} (h : n < 65536) : (~~~UInt16.ofNat n).toNat = 65535 - n := by
  have hn : (UInt16.ofNat n).toNat = n := UInt16.toNat_ofNat_of_lt' h
  rw [UInt16.toNat_not, hn]
  rfl

theorem htons_low : (htons v).toUInt8 = (v >>> 8).toUInt8 := by
  apply UInt8.toBitVec_inj.1
  unfold htons
  ext i hi
  simp

theorem htons_high : (htons v >>> 8).toUInt8 = v.toUInt8 := by
  apply UInt8.toBitVec_inj.1
  unfold htons
  ext i hi
  have hout : v.toBitVec.getLsbD (8 + (8 + i)) = false := BitVec.getLsbD_of_ge _ _ (by omega)
  have hin : 8 + i < 16 := by omega
  have hbit : v.toBitVec.getLsbD i = v.toBitVec[i] := BitVec.getLsbD_eq_getElem (by omega)
  have hlow : ¬ 8 + i < 8 := by omega
  simp [hout, hin, hbit, hlow]

/-- A swapped number stored without a swap is in network order. -/
theorem le16_htons : le16 (htons v) = be16 v := by
  unfold le16 be16
  rw [htons_low, htons_high]

/-! ### The IPv4 header -/

theorem ipv4Hdr_sum (total : ℕ) (protocol : UInt8) (srcIp dstIp : Ip) (checksum : UInt16) :
    (littleWords (ipv4Hdr total protocol srcIp dstIp checksum)).sum =
      (littleWords (ipv4Hdr total protocol srcIp dstIp 0)).sum + checksum.toNat := by
  have hfield := le16_value checksum
  have hlow : (0 : UInt16).toUInt8.toNat = 0 := rfl
  have hhigh : ((0 : UInt16) >>> 8).toUInt8.toNat = 0 := rfl
  simp only [ipv4Hdr, be16, le16, Ip.bytes, List.cons_append, List.nil_append, littleWords, List.sum_cons, List.sum_nil]
  rw [hlow, hhigh]
  omega

theorem verifies_ipv4Hdr (total : ℕ) (protocol : UInt8) (srcIp dstIp : Ip) :
    Verifies (ipv4Hdr total protocol srcIp dstIp (ipChecksum (ipv4Hdr total protocol srcIp dstIp 0))) := by
  apply verifies_of_little
  rw [ipv4Hdr_sum]
  unfold ipChecksum
  rw [complement_toNat (foldCarries_lt _)]

/-! ### The ICMP message -/

theorem icmpMessage_sum (type code : UInt8) (checksum : UInt16) (rest : Bytes) :
    (littleWords (icmpHdr type code checksum ++ rest)).sum = (littleWords (icmpHdr type code 0 ++ rest)).sum + checksum.toNat := by
  have hfield := le16_value checksum
  have hlow : (0 : UInt16).toUInt8.toNat = 0 := rfl
  have hhigh : ((0 : UInt16) >>> 8).toUInt8.toNat = 0 := rfl
  simp only [icmpHdr, le16, List.cons_append, List.nil_append, littleWords, List.sum_cons]
  rw [hlow, hhigh]
  omega

theorem verifies_icmpMessage (type code : UInt8) (rest : Bytes) : Verifies (icmpMessage type code rest) := by
  apply verifies_of_little
  unfold icmpMessage
  rw [icmpMessage_sum]
  unfold ipChecksum
  rw [complement_toNat (foldCarries_lt _)]

/-! ### The TCP segment -/

/-- What a receiver puts in front of a segment. -/
def pseudoHdr (srcIp dstIp : Ip) (len : ℕ) : Bytes := srcIp.bytes ++ dstIp.bytes ++ [0, IP_PROTO_TCP] ++ be16 (UInt16.ofNat len)

theorem be16_value : 256 * (v >>> 8).toUInt8.toNat + v.toUInt8.toNat = v.toNat := by
  rw [Nat.add_comm]
  exact le16_value v

theorem toNat_join (b0 b1 : UInt8) : (b0.toUInt16 <<< 8 ||| b1.toUInt16).toNat = 2 ^ 8 * b0.toNat + b1.toNat := by
  have h0 := b0.toNat_lt
  have h1 := b1.toNat_lt
  have hshift : (b0.toUInt16 <<< 8).toNat = 2 ^ 8 * b0.toNat := by
    rw [UInt16.toNat_shiftLeft, UInt8.toNat_toUInt16, Nat.shiftLeft_eq, Nat.mul_comm]
    exact Nat.mod_eq_of_lt (by change 2 ^ 8 * _ < _; omega)
  rw [UInt16.toNat_or, hshift, UInt8.toNat_toUInt16, Nat.two_pow_add_eq_or_of_lt h1]

theorem u16_be16 (rest : Bytes) : u16 (be16 v ++ rest) 0 = some v := by
  have hjoin : ((v >>> 8).toUInt8.toUInt16 <<< 8 ||| v.toUInt8.toUInt16) = v := by
    rw [← UInt16.toNat_inj, toNat_join]
    exact be16_value v
  exact congrArg some hjoin

theorem pseudoHdr_length (srcIp dstIp : Ip) (len : ℕ) : (pseudoHdr srcIp dstIp len).length = 12 := rfl

theorem pseudoHdr_sum (srcIp dstIp : Ip) (len : ℕ) : (bigWords (pseudoHdr srcIp dstIp len)).sum = pseudoSum srcIp dstIp len := by
  have hlen := be16_value (UInt16.ofNat len)
  have hnat : (UInt16.ofNat len).toNat = len % 65536 := UInt16.toNat_ofNat
  have hzero : (0 : UInt8).toNat = 0 := rfl
  simp only [pseudoHdr, Ip.bytes, be16, List.cons_append, List.nil_append, bigWords, List.sum_cons, List.sum_nil]
  unfold pseudoSum
  omega

section

variable (srcPort : UInt16) (dstPort : UInt16) (seq : UInt32) (ack : UInt32) (flags : UInt8) (checksum : UInt16)
include srcPort dstPort seq ack flags checksum

theorem tcpHdr_sum (data : Bytes) : (bigWords (tcpHdr srcPort dstPort seq ack flags (htons checksum) ++ data)).sum =
      (bigWords (tcpHdr srcPort dstPort seq ack flags 0 ++ data)).sum + checksum.toNat := by
  have hfield := be16_value checksum
  have hlow : (0 : UInt16).toUInt8.toNat = 0 := rfl
  have hhigh : ((0 : UInt16) >>> 8).toUInt8.toNat = 0 := rfl
  unfold tcpHdr
  rw [le16_htons]
  simp only [be16, be32, le16, List.cons_append, List.nil_append, bigWords, List.sum_cons]
  rw [hlow, hhigh]
  omega

theorem tcpHdr_length : (tcpHdr srcPort dstPort seq ack flags checksum).length = 20 := rfl

end

theorem verifies_tcpSegment (srcIp dstIp : Ip) (srcPort dstPort : UInt16) (seq ack : UInt32) (flags : UInt8) (data : Bytes) :
    Verifies (pseudoHdr srcIp dstIp (tcpSegment srcIp dstIp srcPort dstPort seq ack flags data).length ++
      tcpSegment srcIp dstIp srcPort dstPort seq ack flags data) := by
  have heven : (pseudoHdr srcIp dstIp (tcpSegment srcIp dstIp srcPort dstPort seq ack flags data).length).length % 2 = 0 := by
    rw [pseudoHdr_length]
  have hlen : (tcpSegment srcIp dstIp srcPort dstPort seq ack flags data).length =
      (tcpHdr srcPort dstPort seq ack flags 0 ++ data).length := by
    unfold tcpSegment
    rw [List.length_append, List.length_append, tcpHdr_length, tcpHdr_length]
  apply verifies_of_big
  rw [bigWords_append heven, List.sum_append, pseudoHdr_sum, hlen]
  unfold tcpSegment tcpChecksum
  rw [tcpHdr_sum, complement_toNat (foldCarries_lt _), Nat.add_assoc]

/-! ### Frames -/

/-- The checks a receiver makes of an IPv4 packet: its header, and the ICMP message or the
TCP segment in it. -/
structure PacketVerifies (p : Bytes) : Prop where
  header : Verifies (p.take 20)
  icmp : p[9]? = some IP_PROTO_ICMP → Verifies (p.drop 20)
  tcp : p[9]? = some IP_PROTO_TCP → ∃ srcIp dstIp, ipAt p 12 = some srcIp ∧ ipAt p 16 = some dstIp ∧
    Verifies (pseudoHdr srcIp dstIp (p.length - 20) ++ p.drop 20)

def EthFrame.Verifies (f : EthFrame) : Prop := f.ethertype = ETH_TYPE_IPV4 → PacketVerifies f.payload

/-- A packet whose payload verifies under its protocol. -/
theorem packetVerifies {protocol : UInt8} {srcIp dstIp : Ip} {payload : Bytes} (hicmp : protocol = IP_PROTO_ICMP → Lib.Verifies payload)
    (htcp : protocol = IP_PROTO_TCP → Lib.Verifies (pseudoHdr srcIp dstIp payload.length ++ payload)) :
    PacketVerifies (ipv4Packet protocol srcIp dstIp payload) := by
  have htake : (ipv4Packet protocol srcIp dstIp payload).take 20 =
      ipv4Hdr (20 + payload.length) protocol srcIp dstIp (ipChecksum (ipv4Hdr (20 + payload.length) protocol srcIp dstIp 0)) := rfl
  have hdrop : (ipv4Packet protocol srcIp dstIp payload).drop 20 = payload := rfl
  have hproto : (ipv4Packet protocol srcIp dstIp payload)[9]? = some protocol := rfl
  have hlen : (ipv4Packet protocol srcIp dstIp payload).length - 20 = payload.length := by
    show payload.length + 20 - 20 = payload.length
    omega
  constructor
  · rw [htake]
    exact verifies_ipv4Hdr _ _ _ _
  · intro h
    rw [hdrop]
    exact hicmp (Option.some.inj (hproto.symm.trans h))
  · intro h
    refine ⟨srcIp, dstIp, rfl, rfl, ?_⟩
    rw [hdrop, hlen]
    exact htcp (Option.some.inj (hproto.symm.trans h))

/-- The frames handed to the card behind those of `base` verify. -/
def SentVerify (base : List EthFrame) (s : Stack) : Prop := ∃ new, s.sent = base ++ new ∧ ∀ f ∈ new, f.Verifies

section Emits

variable {base : List EthFrame} {poll : Exec Stack Unit} {n : ℕ}

theorem sentVerify_send {s : Stack} (h : SentVerify base s) {f : EthFrame} (hf : f.Verifies) :
    SentVerify base { s with sent := s.sent ++ [f] } := by
  obtain ⟨new, hsent, hnew⟩ := h
  refine ⟨new ++ [f], ?_, ?_⟩
  · show s.sent ++ [f] = base ++ (new ++ [f])
    rw [hsent, List.append_assoc]
  · intro g hg
    rcases List.mem_append.1 hg with hg | hg
    · exact hnew g hg
    · rw [List.mem_singleton.1 hg]
      exact hf

theorem emits_sendEth {dst : Mac} {ethertype : UInt16} {payload : Bytes} (h : ethertype = ETH_TYPE_IPV4 → PacketVerifies payload) :
    Preserves (SentVerify base) (sendEth dst ethertype payload) := by
  unfold sendEth
  split_ifs
  · exact Preserves.pure
  · apply Preserves.read_bind
    intro src s hs
    unfold e1000Send
    split_ifs
    · exact sentVerify_send hs h
    · exact hs

theorem emits_arp {dst : Mac} {payload : Bytes} : Preserves (SentVerify base) (sendEth dst ETH_TYPE_ARP payload) :=
  emits_sendEth fun h => absurd h (by decide)

theorem emits_ipv4 (protocol : UInt8) (dst : Mac) (srcIp dstIp : Ip) (payload : Bytes)
    (hicmp : protocol = IP_PROTO_ICMP → Lib.Verifies payload) (htcp : protocol ≠ IP_PROTO_TCP) :
    Preserves (SentVerify base) (sendEth dst ETH_TYPE_IPV4 (ipv4Packet protocol srcIp dstIp payload)) :=
  emits_sendEth fun _ => packetVerifies hicmp fun h => absurd h htcp

/-- What a move keeps, if the frames behind those of `base` verify. -/
def Keeps (base : List EthFrame) (s t : Stack) : Prop := SentVerify base s → SentVerify base t

theorem keeps {α : Type} {m : Exec Stack α} (h : Preserves (SentVerify base) m) : Walks (Keeps base) m := fun s => .single (h s)

theorem emits {α : Type} {m : Exec Stack α} (h : Walks (Keeps base) m) : Preserves (SentVerify base) m :=
  fun s hs => invariant_of_moves (fun _ _ hs h => h hs) (h s) hs

theorem steady_keeps (base : List EthFrame) : Steady (Keeps base) where
  quiet s t _ hsent := by
    intro hs
    unfold SentVerify
    rwa [hsent]
  arp _ _ := keeps emits_arp
  tcp _ _ _ _ _ _ _ _ _ := by
    apply keeps
    apply emits_sendEth
    intro _
    exact packetVerifies (fun h => absurd h (by decide)) fun _ => verifies_tcpSegment _ _ _ _ _ _ _ _
  udp _ _ _ _ _ _ := keeps (emits_ipv4 _ _ _ _ _ (fun h => absurd h (by decide)) (by decide))

section

variable (frame : Bytes) (off : ℕ) (len : ℕ)
include frame off len

theorem emits_handleArp : Preserves (SentVerify base) (handleArp frame off len) := by
  apply Preserves.ofOption_bind
  intro arp _
  cases arp with
  | none => exact Preserves.pure
  | some arp =>
    refine Preserves.modify_bind (fun _ hs => hs) ?_
    apply Preserves.read_bind
    intro ip
    split_ifs
    · exact Preserves.read_bind fun cfg => emits_arp.ignore
    · exact Preserves.pure

theorem emits_handleIcmp (srcIp : Ip) : Preserves (SentVerify base) (handleIcmp frame off len srcIp) := by
  apply Preserves.ofOption_bind
  intro msg _
  cases msg with
  | none => exact Preserves.pure
  | some msg =>
    show Preserves _ (answerIcmp msg srcIp)
    unfold answerIcmp
    split_ifs
    · unfold echoReply
      split_ifs
      · exact Preserves.pure
      · apply Preserves.read_bind
        intro ip
        apply Preserves.read_bind
        intro mac
        cases mac with
        | none => exact Preserves.pure
        | some dstMac =>
          apply Preserves.ignore
          apply emits_sendEth
          intro _
          apply packetVerifies
          · exact fun _ => verifies_icmpMessage _ _ _
          · exact fun h => absurd h (by decide)
    · unfold pingReply
      apply Preserves.modify
      intro s hs
      split
      · exact hs
      · exact hs
    · exact Preserves.pure

end

theorem emits_handleFrame (hpoll : Preserves (SentVerify base) poll) (frame : Bytes) :
    Preserves (SentVerify base) (handleFrame poll n frame) := by
  unfold handleFrame
  split_ifs
  · exact Preserves.pure
  · apply Preserves.ofOption_bind
    intro etype _
    unfold dispatchFrame
    split_ifs
    · exact emits_handleArp _ _ _
    · apply Preserves.read_bind
      intro ip
      apply Preserves.ofOption_bind
      intro pkt _
      cases pkt with
      | none => exact Preserves.pure
      | some pkt =>
        show Preserves _ (dispatchIpv4 poll n frame pkt)
        unfold dispatchIpv4
        split_ifs
        · exact emits_handleIcmp _ _ _ _
        · exact emits ((steady_keeps base).handleTcp (keeps hpoll) _ _ _ _)
        · exact emits ((steady_keeps base).handleUdp _ _ _ _)
        · exact Preserves.pure
    · exact Preserves.pure

theorem emits_pollLoop {handle : Bytes → Exec Stack Unit} (hhandle : ∀ frame, Preserves (SentVerify base) (handle frame)) (count : ℕ) :
    Preserves (SentVerify base) (pollLoop handle count) := by
  induction count with
  | zero => exact Preserves.pure
  | succ count ih =>
    have hrx : Preserves (SentVerify base) e1000PollRx := by
      intro s hs
      unfold e1000PollRx
      split_ifs
      · cases s.rx <;> exact hs
      · exact hs
    apply hrx.bind
    intro frame
    cases frame with
    | none => exact Preserves.pure
    | some frame => exact (hhandle frame).bind fun _ => ih

theorem emits_arrive : Preserves (SentVerify base) (modify Stack.arrive) := emits (steady_keeps base).arrive

theorem emits_netPoll (n : ℕ) : Preserves (SentVerify base) (netPoll n) := by
  induction n with
  | zero => exact emits_arrive.bind fun _ => emits_pollLoop (emits_handleFrame Preserves.hang) 64
  | succ n ih => exact emits_arrive.bind fun _ => emits_pollLoop (emits_handleFrame ih) 64

theorem emits_netPing (n : ℕ) (dstIp : Ip) (seq : UInt16) : Preserves (SentVerify base) (netPing n dstIp seq) := by
  apply Preserves.read_bind
  intro slot
  cases slot with
  | none => exact Preserves.pure
  | some slot =>
    apply (emits ((steady_keeps base).resolveMac (keeps (emits_netPoll n)) dstIp)).bind
    intro mac
    cases mac with
    | none => exact Preserves.pure
    | some dstMac =>
      apply Preserves.read_bind
      intro ip
      refine Preserves.modify_bind (fun _ hs => hs) ?_
      exact emits_ipv4 _ _ _ _ _ (fun _ => verifies_icmpMessage _ _ _) (by decide)

theorem emits_call (c : Call) (n : ℕ) : Preserves (SentVerify base) (c.run n) := by
  by_cases hc : c.Pings
  · cases c with
    | ping dstIp seq => exact (emits_netPing n dstIp seq).ignore
    | pingCheck seq =>
      apply Preserves.ignore
      intro s hs
      unfold netPingCheck
      split
      · exact hs
      · exact hs
    | _ => exact hc.elim
  · exact emits ((steady_keeps base).call (keeps (emits_netPoll n)) hc)

end Emits

/-- Every frame that a call hands to the card verifies, whatever the state, the
configuration and the frames that arrive meanwhile are. -/
theorem checksums_verify (c : Call) (n : ℕ) (s : Stack) :
    ∃ new, (c.run n s).2.sent = s.sent ++ new ∧ ∀ f ∈ new, f.Verifies :=
  emits_call c n s ⟨[], (List.append_nil _).symm, by simp⟩

end Tg11Kernel.Net
