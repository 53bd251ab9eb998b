import Tg11Kernel.Net.Identity
import Tg11Kernel.Net.Steady

/-! What handling a frame does to the tables of the stack. An ARP packet puts its sender into
the cache, an echo reply fills a ping slot; everything else that a poll does leaves both
tables. All calls are walks along such moves, but for those that fill and empty the ping
slots themselves. -/

namespace Tg11Kernel.Net

open Lib Exec Relation

variable {s t u : Stack} {α : Type}

/-- The sender of an ARP packet. -/
def senderOf (frame : Bytes) : Option (Ip × Mac) :=
  if frame.length < ETH_HLEN then none
  else do
    let etype ← u16 frame 12
    if etype = ETH_TYPE_ARP then do
      let arp ← (parseArp frame ETH_HLEN (frame.length - ETH_HLEN)).join
      some (arp.senderIp, arp.senderMac)
    else none

/-- The echo reply that a frame is. -/
def echoOf (ip : Ip) (frame : Bytes) : Option IcmpMsg :=
  if frame.length < ETH_HLEN then none
  else do
    let etype ← u16 frame 12
    if etype = ETH_TYPE_IPV4 then do
      let pkt ← (parseIpv4 ip frame ETH_HLEN (frame.length - ETH_HLEN)).join
      if pkt.protocol = IP_PROTO_ICMP then do
        let msg ← (parseIcmp frame pkt.payload pkt.payloadLen).join
        if msg.type = 0 ∧ msg.code = 0 then some msg else none
      else none
    else none

namespace Stack

/-- The cache has the sender of the frame. -/
def sees (s : Stack) (frame : Bytes) : Stack :=
  match senderOf frame with
  | none => s
  | some p => { s with arpCache := arpPut s.arpCache p.1 p.2 }

/-- The slot that waits for the frame is filled. -/
def echoed (s : Stack) (frame : Bytes) : Stack :=
  match echoOf s.cfg.ip frame with
  | none => s
  | some msg => (pingReply msg s).2

def took (s : Stack) (frame : Bytes) : Stack := (s.sees frame).echoed frame

end Stack

inductive FrameMove : Stack → Stack → Prop
  | quiet (s t : Stack) (h : t.overheard = s.overheard) : FrameMove s t
  | took (s : Stack) (frame : Bytes) (rx : List Bytes) : FrameMove s ((s.receive frame rx).took frame)

abbrev FrameMoves := ReflTransGen FrameMove

/-- A program that changes the tables by handling frames alone. -/
abbrev Hears (m : Exec Stack α) : Prop := Walks FrameMove m

theorem Hears.of_quiet {m : Exec Stack α} (h : ∀ s, (m s).2.overheard = s.overheard) : Hears m := fun s => .single (.quiet s _ (h s))

/-! ### Polls -/

theorem hears_sendEth (dst : Mac) (ethertype : UInt16) (payload : Bytes) : Hears (sendEth dst ethertype payload) := by
  apply Hears.of_quiet
  intro s
  obtain ⟨ok, frames, heq⟩ := sendEth_cases dst ethertype payload s
  rw [heq]
  rfl

theorem FrameMove.steady : Steady FrameMove where
  quiet s t h _ := .quiet s t h
  arp _ _ := hears_sendEth _ _ _
  tcp _ _ _ _ _ _ _ _ _ := hears_sendEth _ _ _
  udp _ _ _ _ _ _ := hears_sendEth _ _ _

section Polls

variable {poll : Exec Stack Unit} {n : ℕ} (hpoll : Hears poll)

include hpoll

theorem hears_waitUntil (deadline : UInt64) (done : Stack → Bool) (k : ℕ) : Hears (waitUntil poll deadline done k) :=
  FrameMove.steady.waitUntil hpoll deadline done k

theorem hears_resolveMac (dstIp : Ip) : Hears (resolveMac poll n dstIp) := FrameMove.steady.resolveMac hpoll dstIp

end Polls

/-! ### Frames -/

section Frames

variable {poll : Exec Stack Unit} {n : ℕ} {frame : Bytes}

theorem sees_none (h : senderOf frame = none) (s : Stack) : s.sees frame = s := by
  unfold Stack.sees
  rw [h]

theorem echoed_none (h : echoOf s.cfg.ip frame = none) : s.echoed frame = s := by
  unfold Stack.echoed
  rw [h]

/-- A frame of neither kind. -/
theorem took_none (hsender : senderOf frame = none) (hecho : echoOf s.cfg.ip frame = none) : s.took frame = s := by
  unfold Stack.took
  rw [sees_none hsender, echoed_none hecho]

theorem handleArp_sees (hlen : ¬ frame.length < ETH_HLEN) (hetype : u16 frame 12 = some ETH_TYPE_ARP) (s : Stack) :
    FrameMoves (s.sees frame) (handleArp frame ETH_HLEN (frame.length - ETH_HLEN) s).2 := by
  have hsender : senderOf frame = (parseArp frame ETH_HLEN (frame.length - ETH_HLEN)).join.map fun arp => (arp.senderIp, arp.senderMac) := by
    unfold senderOf
    rw [if_neg hlen, hetype]
    rcases parseArp frame ETH_HLEN (frame.length - ETH_HLEN) with _ | _ | arp <;> rfl
  unfold handleArp
  rcases hparse : parseArp frame ETH_HLEN (frame.length - ETH_HLEN) with _ | _ | arp <;> rw [hparse] at hsender
  · rw [sees_none hsender]
    exact .refl
  · rw [sees_none hsender]
    exact .refl
  · have hsees : s.sees frame = { s with arpCache := arpPut s.arpCache arp.senderIp arp.senderMac } := by
      unfold Stack.sees
      rw [hsender]
      rfl
    have hanswer : Hears (do
        let ip ← gets fun s => s.cfg.ip
        if arp.opcode = 1 ∧ arp.targetIp = ip then arpReply arp.senderMac arp.senderIp else pure () : Exec Stack Unit) := by
      apply Walks.read_bind
      intro ip
      split_ifs
      · exact Walks.read_bind fun cfg => (hears_sendEth _ _ _).ignore
      · exact Walks.pure
    rw [hsees]
    exact hanswer _

theorem hears_echoReply (msg : IcmpMsg) (srcIp : Ip) : Hears (echoReply msg srcIp) := by
  unfold echoReply
  split_ifs
  · exact Walks.pure
  · apply Walks.read_bind
    intro ip
    apply Walks.read_bind
    intro mac
    cases mac with
    | none => exact Walks.pure
    | some dstMac => exact (hears_sendEth _ _ _).ignore

theorem answerIcmp_echoed {msg : IcmpMsg} (hecho : echoOf s.cfg.ip frame = if msg.type = 0 ∧ msg.code = 0 then some msg else none)
    (srcIp : Ip) : FrameMoves (s.echoed frame) (answerIcmp msg srcIp s).2 := by
  unfold answerIcmp
  split_ifs with hrequest hreply
  · have hno : ¬ (msg.type = 0 ∧ msg.code = 0) := fun h => absurd (hrequest.1.symm.trans h.1) (by decide)
    rw [if_neg hno] at hecho
    rw [echoed_none hecho]
    exact hears_echoReply msg srcIp s
  · rw [if_pos hreply] at hecho
    unfold Stack.echoed
    rw [hecho]
  · rw [if_neg hreply] at hecho
    rw [echoed_none hecho]
    exact .refl

theorem handleIpv4_echoed (hpoll : Hears poll) (hlen : ¬ frame.length < ETH_HLEN) (hetype : u16 frame 12 = some ETH_TYPE_IPV4)
    (s : Stack) : FrameMoves (s.echoed frame) (handleIpv4 poll n frame ETH_HLEN (frame.length - ETH_HLEN) s).2 := by
  have hecho : echoOf s.cfg.ip frame = (do
      let pkt ← (parseIpv4 s.cfg.ip frame ETH_HLEN (frame.length - ETH_HLEN)).join
      if pkt.protocol = IP_PROTO_ICMP then do
        let msg ← (parseIcmp frame pkt.payload pkt.payloadLen).join
        if msg.type = 0 ∧ msg.code = 0 then some msg else none
      else none) := by
    unfold echoOf
    rw [if_neg hlen, hetype]
    rfl
  rw [handleIpv4_eq]
  rcases hpkt : parseIpv4 s.cfg.ip frame ETH_HLEN (frame.length - ETH_HLEN) with _ | _ | pkt <;> rw [hpkt] at hecho
  · rw [echoed_none hecho]
    exact .refl
  · rw [echoed_none hecho]
    exact .refl
  · show FrameMoves (s.echoed frame) (dispatchIpv4 poll n frame pkt s).2
    replace hecho : echoOf s.cfg.ip frame = (if pkt.protocol = IP_PROTO_ICMP then do
        let msg ← (parseIcmp frame pkt.payload pkt.payloadLen).join
        if msg.type = 0 ∧ msg.code = 0 then some msg else none
      else none) := hecho
    unfold dispatchIpv4
    split_ifs with hicmp htcp hudp
    · rw [if_pos hicmp] at hecho
      unfold handleIcmp
      rcases hmsg : parseIcmp frame pkt.payload pkt.payloadLen with _ | _ | msg <;> rw [hmsg] at hecho
      · rw [echoed_none hecho]
        exact .refl
      · rw [echoed_none hecho]
        exact .refl
      · exact answerIcmp_echoed hecho _
    · rw [if_neg hicmp] at hecho
      rw [echoed_none hecho]
      exact FrameMove.steady.handleTcp hpoll frame _ _ _ s
    · rw [if_neg hicmp] at hecho
      rw [echoed_none hecho]
      exact FrameMove.steady.handleUdp frame _ _ _ s
    · rw [if_neg hicmp] at hecho
      rw [echoed_none hecho]
      exact .refl

/-- The handler does to the tables what the frame does. -/
theorem handleFrame_took (hpoll : Hears poll) (frame : Bytes) (s : Stack) : FrameMoves (s.took frame) (handleFrame poll n frame s).2 := by
  unfold handleFrame
  split_ifs with hlen
  · rw [took_none (if_pos hlen) (if_pos hlen)]
    exact .refl
  · cases hetype : u16 frame 12 with
    | none =>
      rw [took_none (by unfold senderOf; rw [if_neg hlen, hetype]; rfl) (by unfold echoOf; rw [if_neg hlen, hetype]; rfl)]
      exact .refl
    | some etype =>
      show FrameMoves (s.took frame) (dispatchFrame poll n frame etype s).2
      have hsender : etype ≠ ETH_TYPE_ARP → senderOf frame = none := by
        intro hne
        unfold senderOf
        rw [if_neg hlen, hetype]
        exact if_neg hne
      have hecho : ∀ ip, etype ≠ ETH_TYPE_IPV4 → echoOf ip frame = none := by
        intro ip hne
        unfold echoOf
        rw [if_neg hlen, hetype]
        exact if_neg hne
      unfold dispatchFrame Stack.took
      split_ifs with harp hipv4
      · rw [echoed_none (hecho _ (by rw [harp]; decide))]
        rw [harp] at hetype
        exact handleArp_sees hlen hetype s
      · rw [sees_none (hsender harp)]
        rw [hipv4] at hetype
        exact handleIpv4_echoed hpoll hlen hetype s
      · rw [sees_none (hsender harp), echoed_none (hecho _ hipv4)]
        exact .refl

theorem hears_pollLoop (hpoll : Hears poll) (count : ℕ) : Hears (pollLoop (handleFrame poll n) count) := by
  induction count with
  | zero => exact Walks.pure
  | succ count ih =>
    intro s
    have hnone : e1000PollRx s = (.ok none, s) → Leads FrameMove (pollLoop (handleFrame poll n) (count + 1)) s := by
      intro heq
      unfold Leads pollLoop
      rw [bind_ok heq]
      exact .refl
    by_cases hup : s.up = true
    · cases hrx : s.rx with
      | nil =>
        apply hnone
        unfold e1000PollRx
        rw [if_pos hup, hrx]
      | cons f rx =>
        have heq : e1000PollRx s = (.ok (some (f.take 2048)), s.receive (f.take 2048) rx) := by
          unfold e1000PollRx
          rw [if_pos hup, hrx]
        unfold Leads pollLoop
        rw [bind_ok heq]
        apply bind_state (I := fun t => FrameMoves s t)
        · exact (handleFrame_took hpoll _ _).head (.took s _ rx)
        · exact fun _ t ht => ht.trans (ih t)
    · exact hnone (if_neg hup)

theorem hears_netPoll (n : ℕ) : Hears (netPoll n) := by
  induction n with
  | zero => exact FrameMove.steady.arrive.bind fun _ => hears_pollLoop Walks.hang 64
  | succ n ih => exact FrameMove.steady.arrive.bind fun _ => hears_pollLoop ih 64

end Frames

theorem hears_call (n : ℕ) {call : Call} (h : ¬ call.Pings) : Hears (call.run n) := FrameMove.steady.call (hears_netPoll n) h

end Tg11Kernel.Net
