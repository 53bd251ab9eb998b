import Tg11Kernel.Net.Api
import Tg11Kernel.Lib.Overlay

/-! What a waiting receiver gets. The slot holds a pointer into `pkt_buf` and the bytes are
copied out after `net_poll` has returned, so that every frame that is handled between
overwrites the front of the buffer first. The slot itself is filled once, by the first
datagram for the port; the bytes are the payload of that datagram exactly when the frames
behind it in the same `net_poll` leave them as they are. -/

namespace Tg11Kernel.Net

open Lib Exec

/-! ### The datagram of a frame -/

/-- The UDP datagram for `ip` in an IPv4 packet, with its sender. -/
def ipv4Datagram (ip : Ip) (frame : Bytes) (off len : ℕ) : Option (Datagram × Ip) := do
  let pkt ← (parseIpv4 ip frame off len).join
  if pkt.protocol = IP_PROTO_UDP then do
    let d ← (parseUdp frame pkt.payload pkt.payloadLen).join
    some (d, pkt.srcIp)
  else none

/-- The well-formed UDP datagram for `ip` that a frame holds, with its sender. -/
def datagram (ip : Ip) (frame : Bytes) : Option (Datagram × Ip) :=
  if frame.length < ETH_HLEN then none
  else do
    let etype ← u16 frame 12
    if etype = ETH_TYPE_IPV4 then ipv4Datagram ip frame ETH_HLEN (frame.length - ETH_HLEN) else none

def Datagram.payload (d : Datagram) (frame : Bytes) : Bytes := window frame d.data d.dataLen

/-- The frame holds a well-formed datagram for the port. -/
def IsFor (ip : Ip) (port : UInt16) (frame : Bytes) : Prop := ∃ d src, datagram ip frame = some (d, src) ∧ d.dstPort = port

/-- What a frame does to the slot. -/
def UdpRx.take (ip : Ip) (rx : UdpRx) (frame : Bytes) : UdpRx :=
  match datagram ip frame with
  | some (d, src) => rx.offer d src
  | none => rx

variable {frame : Bytes} {off len : ℕ} {d : Datagram} {ip : Ip}

theorem parseUdp_window (h : parseUdp frame off len = some (some d)) :
    d.data + d.dataLen ≤ off + len := by
  unfold parseUdp at h
  split_ifs at h with hlen
  · simp at h
  · simp only [Option.bind_eq_bind, Option.bind_eq_some_iff] at h
    obtain ⟨srcPort, -, dstPort, -, udpLen, -, h⟩ := h
    split_ifs at h with hudp
    · simp at h
    · obtain rfl : _ = d := by simpa using h
      show off + 8 + (udpLen.toNat - 8) ≤ off + len
      omega

theorem parseIpv4_window {pkt : Ipv4Pkt}
    (h : parseIpv4 ip frame off len = some (some pkt)) : pkt.payload + pkt.payloadLen ≤ off + len := by
  unfold parseIpv4 at h
  split_ifs at h with hlen
  · simp at h
  · simp only [Option.bind_eq_bind, Option.bind_eq_some_iff] at h
    obtain ⟨verIhl, -, h⟩ := h
    split_ifs at h with hver
    · simp at h
    · simp only [Option.bind_eq_some_iff] at h
      obtain ⟨totalLen, -, h⟩ := h
      split_ifs at h with hhdr
      · simp at h
      · simp only [Option.bind_eq_some_iff] at h
        obtain ⟨dstIp, -, h⟩ := h
        split_ifs at h with hdst
        · simp at h
        · simp only [Option.bind_eq_some_iff] at h
          obtain ⟨protocol, -, srcIp, -, h⟩ := h
          obtain rfl : _ = pkt := by simpa using h
          show off + (verIhl &&& 0x0F).toNat * 4 + (totalLen.toNat - (verIhl &&& 0x0F).toNat * 4) ≤ off + len
          omega

/-- The payload lies inside the frame. -/
theorem datagram_window {src : Ip} (h : datagram ip frame = some (d, src)) :
    d.data + d.dataLen ≤ frame.length := by
  unfold datagram at h
  split_ifs at h with hlen
  simp only [Option.bind_eq_bind, Option.bind_eq_some_iff] at h
  obtain ⟨etype, -, h⟩ := h
  split_ifs at h with htype
  unfold ipv4Datagram at h
  simp only [Option.bind_eq_bind, Option.bind_eq_some_iff, Option.join_eq_some_iff] at h
  obtain ⟨pkt, hpkt, h⟩ := h
  split_ifs at h with hproto
  simp only [Option.bind_eq_some_iff, Option.join_eq_some_iff] at h
  obtain ⟨d', hd, h⟩ := h
  obtain ⟨rfl, rfl⟩ : d' = d ∧ pkt.srcIp = src := by simpa using h
  have hudp := parseUdp_window hd
  have hip := parseIpv4_window hpkt
  omega

/-! ### The slot -/

/-- The slot of a receiver that waits for a port and has nothing yet. -/
structure Listens (port : UInt16) (rx : UdpRx) : Prop where
  waiting : rx.waiting = true
  port : rx.port = port
  received : rx.received = false

section Slot

variable {ip : Ip} {port : UInt16} {rx : UdpRx}

theorem UdpRx.offer_taken (d : Datagram) (src : Ip) (h : Listens port rx) (hport : d.dstPort = port) :
    rx.offer d src = { rx with srcIp := src, srcPort := d.srcPort, data := d.data, dataLen := d.dataLen, received := true } :=
  if_pos ⟨h.waiting, hport.trans h.port.symm, h.received⟩

theorem UdpRx.take_received (h : rx.received = true) (frame : Bytes) : rx.take ip frame = rx := by
  unfold UdpRx.take
  cases datagram ip frame with
  | none => rfl
  | some found => exact if_neg fun hoffer => absurd h (by rw [hoffer.2.2]; exact Bool.false_ne_true)

theorem foldl_take_received (h : rx.received = true) (frames : List Bytes) : frames.foldl (UdpRx.take ip) rx = rx := by
  induction frames with
  | nil => rfl
  | cons frame frames ih => rw [List.foldl_cons, UdpRx.take_received h, ih]

variable {frame : Bytes} {frames : List Bytes}

theorem UdpRx.take_other (h : Listens port rx) (hnot : ¬ IsFor ip port frame) : rx.take ip frame = rx := by
  unfold UdpRx.take
  cases hd : datagram ip frame with
  | none => rfl
  | some found => exact if_neg fun hoffer => hnot ⟨found.1, found.2, hd, hoffer.2.1.trans h.port⟩

theorem foldl_take_other (h : Listens port rx) (hnot : ∀ f ∈ frames, ¬ IsFor ip port f) :
    frames.foldl (UdpRx.take ip) rx = rx := by
  induction frames with
  | nil => rfl
  | cons frame frames ih =>
    rw [List.foldl_cons, UdpRx.take_other h (hnot frame List.mem_cons_self)]
    exact ih fun f hf => hnot f (List.mem_cons_of_mem frame hf)

/-- Frames that were handled, cut at the first datagram for the port. -/
structure FirstFor (ip : Ip) (port : UInt16) (frames before : List Bytes) (frame : Bytes) (after : List Bytes) (d : Datagram) : Prop where
  frames : frames = before ++ frame :: after
  before : ∀ f ∈ before, ¬ IsFor ip port f
  datagram : ∃ src, datagram ip frame = some (d, src)
  port : d.dstPort = port

/-- The slot is filled by the first datagram for the port and points at its payload. -/
theorem foldl_take_first (h : Listens port rx) {before after : List Bytes} {d : Datagram}
    (hfirst : FirstFor ip port frames before frame after d) :
    (frames.foldl (UdpRx.take ip) rx).data = d.data ∧ (frames.foldl (UdpRx.take ip) rx).dataLen = d.dataLen := by
  obtain ⟨src, hd⟩ := hfirst.datagram
  have htake : rx.take ip frame = rx.offer d src := by
    unfold UdpRx.take
    rw [hd]
  rw [hfirst.frames, List.foldl_append, foldl_take_other h hfirst.before, List.foldl_cons, htake,
    UdpRx.offer_taken d src h hfirst.port, foldl_take_received rfl]
  exact ⟨rfl, rfl⟩

/-- A slot that is filled was filled by a datagram for the port. -/
theorem exists_first (h : Listens port rx) (hreceived : (frames.foldl (UdpRx.take ip) rx).received = true) :
    ∃ before frame after d, FirstFor ip port frames before frame after d := by
  induction frames with
  | nil =>
    rw [List.foldl_nil, h.received] at hreceived
    cases hreceived
  | cons f frames ih =>
    by_cases hfor : IsFor ip port f
    · obtain ⟨d, src, hd, hport⟩ := hfor
      exact ⟨[], f, frames, d, rfl, nofun, ⟨src, hd⟩, hport⟩
    · rw [List.foldl_cons, UdpRx.take_other h hfor] at hreceived
      obtain ⟨before, frame, after, d, hfirst⟩ := ih hreceived
      refine ⟨f :: before, frame, after, d, by rw [hfirst.frames]; rfl, ?_, hfirst.datagram, hfirst.port⟩
      intro g hg
      rcases List.mem_cons.1 hg with rfl | hg
      · exact hfor
      · exact hfirst.before g hg

end Slot

end Tg11Kernel.Net
