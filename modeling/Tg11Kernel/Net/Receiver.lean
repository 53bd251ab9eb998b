import Tg11Kernel.Net.Runs

/-! The bytes that `udp_recv_wait` copies out. Frames that are handled behind the datagram, in
the same `net_poll`, have overwritten the front of the buffer before. -/

namespace Tg11Kernel.Net

open Lib Exec

/-- Between the two states the frames were handled, and nothing else touched the buffer or
the slot. -/
structure Passed (frames : List Bytes) (s t : Stack) : Prop where
  cfg : t.cfg = s.cfg
  handled : t.handled = s.handled ++ frames
  pktBuf : t.pktBuf = frames.foldl overlay s.pktBuf
  udpRx : t.udpRx = frames.foldl (UdpRx.take s.cfg.ip) s.udpRx

theorem Passed.refl (s : Stack) : Passed [] s s := ⟨rfl, (List.append_nil _).symm, rfl, rfl⟩

variable {s t : Stack} {deadline : UInt64} {port : UInt16}

theorem Passed.trans {fs gs : List Bytes} {u : Stack} (h : Passed fs s t) (h' : Passed gs t u) : Passed (fs ++ gs) s u where
  cfg := h'.cfg.trans h.cfg
  handled := by rw [h'.handled, h.handled, List.append_assoc]
  pktBuf := by rw [h'.pktBuf, h.pktBuf, List.foldl_append]
  udpRx := by rw [h'.udpRx, h.udpRx, h.cfg, List.foldl_append]

theorem passed_none (hcfg : t.cfg = s.cfg) (hhandled : t.handled = s.handled) (hbuf : t.pktBuf = s.pktBuf)
    (hrx : t.udpRx = s.udpRx) : ∃ frames, Passed frames s t := ⟨[], hcfg, by rw [hhandled, List.append_nil], hbuf, hrx⟩

theorem PollMove.passed (h : PollMove s t) : ∃ frames, Passed frames s t := by
  cases h with
  | other _ h =>
    simp only [Stack.watched, Prod.mk.injEq] at h
    obtain ⟨hcfg, hhandled, hbuf, hrx, -, -⟩ := h
    exact passed_none hcfg hhandled hbuf hrx
  | received frame rx => exact ⟨[frame], rfl, rfl, rfl, rfl⟩
  | arrived i seg => exact passed_none rfl rfl rfl rfl
  | acked i => exact passed_none rfl rfl rfl rfl
  | unsent i => exact passed_none rfl rfl rfl rfl
  | finished i c seg => exact passed_none rfl rfl rfl rfl
  | shut i c seg => exact passed_none rfl rfl rfl rfl

theorem PollMoves.passed (h : PollMoves s t) : ∃ frames, Passed frames s t := by
  induction h with
  | refl => exact ⟨[], Passed.refl s⟩
  | tail _ hmove ih =>
    obtain ⟨fs, hfs⟩ := ih
    obtain ⟨gs, hgs⟩ := hmove.passed
    exact ⟨fs ++ gs, hfs.trans hgs⟩

theorem whileBefore_true {body : Exec Stack Bool}
    (h : whileBefore deadline body s = (.ok true, t)) : body s = (.ok true, t) := by
  unfold whileBefore at h
  split_ifs at h
  · simp at h
  · exact h
  · simp at h

/-- A wait that says so was left with its condition. -/
theorem waitUntil_done {poll : Exec Stack Unit} {done : Stack → Bool} {k : ℕ}
    (h : waitUntil poll deadline done k s = (.ok true, t)) : done t = true := by
  induction k generalizing s with
  | zero =>
    have hhang := whileBefore_true h
    simp at hhang
  | succ k ih =>
    have hbody := whileBefore_true h
    rw [bind_ok_iff] at hbody
    obtain ⟨_, u, -, hrest⟩ := hbody
    rw [bind_ok_iff] at hrest
    obtain ⟨stop, v, hgets, hrest⟩ := hrest
    obtain ⟨rfl, rfl⟩ : done u = stop ∧ u = v := by simpa using hgets
    split_ifs at hrest with hstop
    · obtain rfl : u = t := by simpa using hrest
      exact hstop
    · exact ih hrest

/-- The bytes of the payload that are copied out are the same in the last of the later frames
that reach them. -/
def Undisturbed (frame : Bytes) (d : Datagram) (maxLen : ℕ) (after : List Bytes) : Prop :=
  ∀ j, d.data ≤ j → j < d.data + min d.dataLen maxLen → LeavesAt after j frame[j]?

theorem take_payload (d : Datagram) (frame : Bytes) (maxLen : ℕ) :
    (d.payload frame).take maxLen = window frame d.data (min d.dataLen maxLen) := by
  unfold Datagram.payload window
  rw [List.take_take, min_comm]

/-- The slot and the buffer when the frames of the call have been handled. -/
theorem udpData_eq_iff {frames before after : List Bytes} {frame : Bytes} {d : Datagram} (maxLen : ℕ)
    (hpassed : Passed frames s t) (hlistens : Listens port s.udpRx) (hfirst : FirstFor s.cfg.ip port frames before frame after d) :
    t.udpData maxLen = (d.payload frame).take maxLen ↔ Undisturbed frame d maxLen after := by
  obtain ⟨hdata, hlen⟩ := foldl_take_first hlistens hfirst
  obtain ⟨src, hd⟩ := hfirst.datagram
  have hwithin := datagram_window hd
  have hbuf : t.pktBuf = after.foldl overlay (overlay (before.foldl overlay s.pktBuf) frame) := by
    rw [hpassed.pktBuf, hfirst.frames, List.foldl_append, List.foldl_cons]
  have hread : t.udpData maxLen = window t.pktBuf d.data (min d.dataLen maxLen) := by
    unfold Stack.udpData window
    rw [hpassed.udpRx, hdata, hlen]
  rw [hread, take_payload, hbuf, ← window_overlay (before.foldl overlay s.pktBuf) (show d.data + min d.dataLen maxLen ≤ frame.length by omega),
    window_foldl_overlay]
  unfold Undisturbed
  constructor
  · intro h j hj hj'
    have hleaves := h j hj hj'
    rwa [getElem?_overlay, if_pos (by omega)] at hleaves
  · intro h j hj hj'
    rw [getElem?_overlay, if_pos (by omega)]
    exact h j hj hj'

/-- What a call that returns bytes did: frames were handled, the first datagram for the port
among them, and the bytes were taken from the slot. -/
theorem udpRecvWait_run {n : ℕ} {maxLen : ℕ} {timeout : UInt64} {data : Bytes}
    (hrun : udpRecvWait n port maxLen timeout s = (.ok data, t)) (hdata : data ≠ []) :
    ∃ frames u, Passed frames (udpListen true port s) u ∧ u.udpRx.received = true ∧ data = u.udpData maxLen ∧
      t.handled = u.handled := by
  have hlisten : udpRecvWait n port maxLen timeout s = (do
      let received ← waitUntil (netPoll n) (s.ticks + timeout) (·.udpRx.received) n
      let data ← gets fun s => if received = true then s.udpData maxLen else []
      modify (udpListen false port)
      pure data : Exec Stack Bytes) (udpListen true port s) := rfl
  rw [hlisten, bind_ok_iff] at hrun
  obtain ⟨received, u, hwait, hrest⟩ := hrun
  have hmoves : PollMoves (udpListen true port s) u := by
    have hwalk := walks_waitUntil PollMove.idle (walks_netPoll n) (s.ticks + timeout) (·.udpRx.received) n (udpListen true port s)
    unfold Leads at hwalk
    rwa [hwait] at hwalk
  obtain ⟨frames, hpassed⟩ := hmoves.passed
  replace hrest : (Outcome.ok (if received = true then u.udpData maxLen else []), udpListen false port u) = (.ok data, t) := hrest
  obtain ⟨hcopied, rfl⟩ : (if received = true then u.udpData maxLen else []) = data ∧ udpListen false port u = t := by
    simpa using hrest
  split_ifs at hcopied with hreceived
  · rw [hreceived] at hwait
    exact ⟨frames, u, hpassed, waitUntil_done hwait, hcopied.symm, rfl⟩
  · exact absurd hcopied.symm hdata

/-- The frames that were handled while the call waited. -/
def handledIn (s t : Stack) : List Bytes := t.handled.drop s.handled.length

/-- A call that returns bytes has handled a datagram for the port, and the bytes are the
payload of the first one exactly when the frames behind it left them as they are. -/
theorem udpRecvWait_iff {n : ℕ} {port : UInt16} {maxLen : ℕ} {timeout : UInt64} {s t : Stack} {data : Bytes}
    (hrun : udpRecvWait n port maxLen timeout s = (.ok data, t)) (hdata : data ≠ []) :
    (∃ before frame after d, FirstFor s.cfg.ip port (handledIn s t) before frame after d) ∧
      ∀ before frame after d, FirstFor s.cfg.ip port (handledIn s t) before frame after d →
        (data = (d.payload frame).take maxLen ↔ Undisturbed frame d maxLen after) := by
  obtain ⟨frames, u, hpassed, hreceived, rfl, hhandled⟩ := udpRecvWait_run hrun hdata
  have hlistens : Listens port (udpListen true port s).udpRx := ⟨rfl, rfl, rfl⟩
  have hframes : handledIn s t = frames := by
    unfold handledIn
    rw [hhandled, hpassed.handled]
    exact List.drop_left
  rw [hframes]
  constructor
  · rw [hpassed.udpRx] at hreceived
    exact exists_first hlistens hreceived
  · intro before frame after d hfirst
    exact udpData_eq_iff maxLen hpassed hlistens hfirst

/-! ### Two answers in one poll -/

/-- A broadcast of a DHCP server. -/
def serverFrame (data : Bytes) : Bytes :=
  bcastMac.bytes ++ [0x52, 0x55, 10, 0, 2, 2] ++ be16 ETH_TYPE_IPV4 ++ udpPacket ⟨10, 0, 2, 2⟩ bcastIp 67 68 data

def twoAnswers : Stack := netInit ⟨0x52, 0x54, 0, 0x12, 0x34, 0x56⟩ 0 [⟨1, [serverFrame [1], serverFrame [2]]⟩]

theorem udpRecvWait_twoAnswers :
    udpRecvWait 1 68 10 100 twoAnswers = (.ok [2], (udpRecvWait 1 68 10 100 twoAnswers).2) := by
  have hok : (udpRecvWait 1 68 10 100 twoAnswers).1 = .ok [2] := by decide
  exact Prod.ext hok rfl

theorem firstFor_twoAnswers : FirstFor twoAnswers.cfg.ip 68 (handledIn twoAnswers (udpRecvWait 1 68 10 100 twoAnswers).2)
    [] (serverFrame [1]) [serverFrame [2]] ⟨67, 68, 42, 1⟩ where
  frames := by decide +kernel
  before := nofun
  datagram := ⟨⟨10, 0, 2, 2⟩, by decide⟩
  port := rfl

/-- The second answer is copied out. -/
theorem not_payload_of_first : ¬ ∀ (n : ℕ) (port : UInt16) (maxLen : ℕ) (timeout : UInt64) (s t : Stack) (data : Bytes),
    udpRecvWait n port maxLen timeout s = (.ok data, t) → data ≠ [] →
    ∀ before frame after d, FirstFor s.cfg.ip port (handledIn s t) before frame after d →
      data = (d.payload frame).take maxLen := by
  intro h
  have heq := h 1 68 10 100 twoAnswers _ [2] udpRecvWait_twoAnswers (by decide) _ _ _ _ firstFor_twoAnswers
  exact absurd heq (by decide)

theorem udpRecvWait_iff_twoAnswers :
    (∃ before frame after d, FirstFor twoAnswers.cfg.ip 68 (handledIn twoAnswers (udpRecvWait 1 68 10 100 twoAnswers).2)
      before frame after d) ∧
    ([2] = (Datagram.payload ⟨67, 68, 42, 1⟩ (serverFrame [1])).take 10 ↔
      Undisturbed (serverFrame [1]) ⟨67, 68, 42, 1⟩ 10 [serverFrame [2]]) := by
  have h := udpRecvWait_iff udpRecvWait_twoAnswers (by decide)
  exact ⟨h.1, h.2 _ _ _ _ firstFor_twoAnswers⟩

end Tg11Kernel.Net
