import Tg11Kernel.Net.Steps

/-! What the calls do beside polling: they open a connection, send on it, read from it and
close it. Opening and closing change the connection before the segment goes out, and the
segment may have to wait for an address; the moves between belong to the same step. -/

namespace Tg11Kernel.Net

open Lib Exec Relation

/-- A segment goes out, and the sequence number is advanced. -/
def Stack.transmit (s : Stack) (i : Conn) (flags : UInt8) (len : ℕ) (d : UInt32) : Stack :=
  (s.log i (.sent flags (s.conns i).seq len)).setConn i { s.conns i with seq := (s.conns i).seq + d }

/-- The state in which a close waits. -/
def ClosesAs (c : TcpConn) (state : TcpState) : Prop :=
  c.active = true ∧ (c.state = .established ∧ state = .finWait1 ∨ c.state = .closeWait ∧ state = .lastAck)

/-- A close on the way to its FIN. -/
structure Closing (s : Stack) (i : Conn) (state : TcpState) (u : Stack) : Prop where
  closes : ClosesAs (s.conns i) state
  moves : PollMoves (s.setConn i { s.conns i with state := state }) u

/-- A connect on the way to its SYN. -/
structure Opening (s : Stack) (i : Conn) (dstIp : Ip) (dstPort : UInt16) (u : Stack) : Prop where
  free : (s.conns i).active = false
  moves : PollMoves (openConn i dstIp dstPort s) u

inductive StackMove : Stack → Stack → Prop
  | poll (s t : Stack) (h : PollMove s t) : StackMove s t
  | opened (s : Stack) (i : Conn) (dstIp : Ip) (dstPort : UInt16) (u : Stack) (h : Opening s i dstIp dstPort u) : StackMove s u
  | synSent (s : Stack) (i : Conn) (dstIp : Ip) (dstPort : UInt16) (u : Stack) (h : Opening s i dstIp dstPort u) :
    StackMove s (u.transmit i TCP_SYN 0 1)
  | synUnsent (s : Stack) (i : Conn) (dstIp : Ip) (dstPort : UInt16) (u : Stack) (h : Opening s i dstIp dstPort u) :
    StackMove s ((u.log i (.unsent TCP_SYN)).setConn i { u.conns i with active := false })
  | chunk (s : Stack) (i : Conn) (len : ℕ) (hstate : (s.conns i).state ≠ .synSent) :
    StackMove s (s.transmit i (TCP_ACK ||| TCP_PSH) len (UInt32.ofNat len))
  | chunkUnsent (s : Stack) (i : Conn) : StackMove s (s.log i (.unsent (TCP_ACK ||| TCP_PSH)))
  | closing (s : Stack) (i : Conn) (state : TcpState) (u : Stack) (h : Closing s i state u) : StackMove s u
  | finSent (s : Stack) (i : Conn) (state : TcpState) (u : Stack) (h : Closing s i state u) :
    StackMove s (u.transmit i (TCP_FIN ||| TCP_ACK) 0 1)
  | finUnsent (s : Stack) (i : Conn) (state : TcpState) (u : Stack) (h : Closing s i state u) :
    StackMove s ((u.log i (.unsent (TCP_FIN ||| TCP_ACK))).setConn i { u.conns i with seq := (u.conns i).seq + 1 })
  | gaveUp (s : Stack) (i : Conn) : StackMove s ((s.log i (.gaveUp (s.conns i))).setConn i (s.conns i).shut)
  | read (s : Stack) (i : Conn) (k : ℕ) :
    StackMove s ((s.setConn i { s.conns i with rxBuf := (s.conns i).rxBuf.drop k }).log i (.returned ((s.conns i).rxBuf.take k)))
  | listens (s : Stack) (waiting : Bool) (port : UInt16) : StackMove s (udpListen waiting port s)

abbrev StackMoves := ReflTransGen StackMove

section Calls

variable {α : Type} {m : Exec Stack α} {n : ℕ} {s : Stack} {i : Conn}

theorem walks_polls (h : Walks PollMove m) : Walks StackMove m := h.mono fun s t => .poll s t

theorem StackMove.idle : Idle StackMove := fun s t h => .poll s t (.other s t h.watched)

theorem walks_stackPoll (n : ℕ) : Walks StackMove (netPoll n) := walks_polls (walks_netPoll n)

theorem walks_waitPolls (n : ℕ) (deadline : UInt64) (done : Stack → Bool) (k : ℕ) :
    Walks StackMove (waitUntil (netPoll n) deadline done k) := walks_waitUntil StackMove.idle (walks_stackPoll n) deadline done k

section Idle

variable {Move : Stack → Stack → Prop} (hidle : Idle Move) (hpoll : ∀ n, Walks Move (netPoll n))

include hidle

theorem walks_netPingCheck (seq : UInt16) : Walks Move (netPingCheck seq) := by
  intro s
  unfold Leads netPingCheck
  split
  · exact .refl
  · exact .single (hidle _ _ ⟨rfl, rfl, List.suffix_rfl⟩)

theorem walks_netUdpSendBroadcast (srcPort dstPort : UInt16) (data : Bytes) :
    Walks Move (netUdpSendBroadcast srcPort dstPort data) := by
  unfold netUdpSendBroadcast
  split_ifs
  · exact Walks.pure
  · exact walks_sendEth hidle _ _ _

include hpoll

theorem walks_netPing (n : ℕ) (dstIp : Ip) (seq : UInt16) : Walks Move (netPing n dstIp seq) := by
  apply Walks.read_bind
  intro slot
  cases slot with
  | none => exact Walks.pure
  | some slot =>
    apply (walks_resolveMac hidle (hpoll n) dstIp).bind
    intro mac
    cases mac with
    | none => exact Walks.pure
    | some dstMac =>
      apply Walks.read_bind
      intro ip
      exact Walks.modify_bind (fun s => hidle _ _ ⟨rfl, rfl, List.suffix_rfl⟩) (walks_sendEth hidle _ _ _)

theorem walks_netUdpSend (n : ℕ) (dstIp : Ip) (srcPort dstPort : UInt16) (data : Bytes) :
    Walks Move (netUdpSend n dstIp srcPort dstPort data) := by
  unfold netUdpSend
  split_ifs
  · exact Walks.pure
  · apply (walks_resolveMac hidle (hpoll n) dstIp).bind
    intro mac
    cases mac with
    | none => exact Walks.pure
    | some dstMac => exact Walks.read_bind fun ip => walks_sendEth hidle _ _ _

end Idle

theorem walks_udpRecvWait (n : ℕ) (port : UInt16) (maxLen : ℕ) (timeout : UInt64) :
    Walks StackMove (udpRecvWait n port maxLen timeout) := by
  apply Walks.read_bind
  intro now
  refine Walks.modify_bind (fun s => .listens s true port) ?_
  apply (walks_waitPolls n _ _ n).bind
  intro received
  apply Walks.read_bind
  intro data
  exact Walks.modify_bind (fun s => .listens s false port) Walks.pure

theorem walks_deactivate (i : Conn) : Walks StackMove (deactivate i .closed) := fun s => .single (.gaveUp s i)

theorem walks_awaitAnswer (n : ℕ) (i : Conn) : Walks StackMove (awaitAnswer n i) := by
  have hclosed : Walks StackMove (do deactivate i .closed; pure (none : Option Conn)) :=
    (walks_deactivate i).bind fun _ => Walks.pure
  apply Walks.read_bind
  intro now
  apply (walks_waitPolls n _ _ n).bind
  intro answered
  split_ifs
  · apply Walks.read_bind
    intro c
    split_ifs
    · exact Walks.pure
    · exact hclosed
  · exact hclosed

theorem connectOn_moves (n : ℕ) (dstIp : Ip) (dstPort : UInt16) (hfree : (s.conns i).active = false) :
    Leads StackMove (connectOn n i dstIp dstPort) s := by
  have hrun : connectOn n i dstIp dstPort s = (do
      let ok ← tcpSendSegment (netPoll n) n i TCP_SYN []
      if ok = true then handshake n i
      else do
        let c ← getConn i
        putConn i { c with active := false }
        pure none : Exec Stack (Option Conn)) (openConn i dstIp dstPort s) := rfl
  have hattempt := tcpSendSegment_attempt (n := n) (walks_netPoll n) i TCP_SYN [] (openConn i dstIp dstPort s)
  unfold Leads
  rw [hrun, bind_apply]
  generalize tcpSendSegment (netPoll n) n i TCP_SYN [] (openConn i dstIp dstPort s) = r at hattempt ⊢
  cases hattempt with
  | sent u h =>
    have hmove : StackMove s (u.transmit i TCP_SYN 0 1) := .synSent s i dstIp dstPort u ⟨hfree, h⟩
    exact (walks_awaitAnswer n i _).head hmove
  | unsent u h => exact .single (.synUnsent s i dstIp dstPort u ⟨hfree, h⟩)
  | fail u h => exact .single (.opened s i dstIp dstPort u ⟨hfree, h⟩)
  | hang u h => exact .single (.opened s i dstIp dstPort u ⟨hfree, h⟩)

theorem netTcpConnect_eq (n : ℕ) (dstIp : Ip) (dstPort : UInt16) (s : Stack) : netTcpConnect n dstIp dstPort s =
    ((List.finRange NET_TCP_MAX_CONN).find? fun i => !(s.conns i).active).elim (pure none) (connectOn n · dstIp dstPort) s := by
  unfold netTcpConnect
  rw [bind_ok (gets_apply _ s)]
  cases (List.finRange NET_TCP_MAX_CONN).find? fun i => !(s.conns i).active <;> rfl

theorem walks_netTcpConnect (n : ℕ) (dstIp : Ip) (dstPort : UInt16) : Walks StackMove (netTcpConnect n dstIp dstPort) := by
  intro s
  unfold Leads
  rw [netTcpConnect_eq]
  cases hfree : (List.finRange NET_TCP_MAX_CONN).find? fun i => !(s.conns i).active with
  | none => exact .refl
  | some i =>
    have hi := List.find?_some hfree
    exact connectOn_moves n dstIp dstPort (by simpa using hi)

theorem react_ne_synSent {c : TcpConn} {seg : Segment} (h : c.state ≠ .synSent) : (c.react seg).state ≠ .synSent := by
  unfold TcpConn.react
  split_ifs
  · exact TcpState.noConfusion
  · cases hstate : c.state with
    | synSent => exact absurd hstate h
    | established =>
      simp only [TcpConn.reactIn]
      split_ifs
      · exact h
      · exact h
    | finWait1 =>
      simp only [TcpConn.reactIn]
      split_ifs
      · exact TcpState.noConfusion
      · exact TcpState.noConfusion
      · exact h
    | finWait2 =>
      simp only [TcpConn.reactIn]
      split_ifs
      · exact h
      · exact h
    | lastAck =>
      simp only [TcpConn.reactIn]
      split_ifs
      · exact TcpState.noConfusion
      · exact h
    | closed => exact h
    | closeWait => exact h
    | timeWait => exact h

/-- In a poll no connection goes back to waiting for a SYN-ACK. -/
theorem PollMoves.ne_synSent {t : Stack} (h : PollMoves s t) (hs : (s.conns i).state ≠ .synSent) : (t.conns i).state ≠ .synSent :=
  h.keeps (P := fun c => c.state ≠ .synSent) (fun _ _ _ h => react_ne_synSent h) (fun _ _ => TcpState.noConfusion)
    (fun _ => TcpState.noConfusion) hs

theorem polls_stackMoves {t : Stack} (h : PollMoves s t) : StackMoves s t := ReflTransGen.mono (fun s t => .poll s t) _ _ h

/-- Between two chunks the stack polls. -/
theorem pause_moves (n : ℕ) (s : Stack) (deadline : UInt64) :
    PollMoves s (ignore (waitUntil (netPoll n) deadline (fun _ => false) n) s).2 :=
  (walks_waitUntil PollMove.idle (walks_netPoll n) deadline (fun _ => false) n).ignore s

theorem sendChunks_moves (n : ℕ) (i : Conn) (k : ℕ) (data : Bytes) (s : Stack) (hs : (s.conns i).state ≠ .synSent) :
    Leads StackMove (sendChunks n i k data) s := by
  induction k generalizing data s with
  | zero => exact .refl
  | succ k ih =>
    unfold sendChunks
    split_ifs with hdata
    · exact .refl
    · have hattempt := tcpSendSegment_attempt (n := n) (walks_netPoll n) i (TCP_ACK ||| TCP_PSH) (data.take 1400) s
      unfold Leads
      rw [bind_apply]
      generalize tcpSendSegment (netPoll n) n i (TCP_ACK ||| TCP_PSH) (data.take 1400) s = r at hattempt ⊢
      cases hattempt with
      | sent u h =>
        have hu := PollMoves.ne_synSent h hs
        have hmove := StackMove.chunk u i (data.take 1400).length hu
        generalize ht : u.transmit i (TCP_ACK ||| TCP_PSH) (data.take 1400).length (UInt32.ofNat (data.take 1400).length) = t at hmove
        have hnext : (t.conns i).state ≠ .synSent := by
          rw [← ht, Stack.transmit, setConn_conns_self]
          exact hu
        have hpause := pause_moves n t (t.ticks + 2)
        have hrest : StackMoves t ((do
            ignore (waitUntil (netPoll n) (t.ticks + 2) (fun _ => false) n)
            sendChunks n i k (data.drop 1400) : Exec Stack Bool) t).2 := by
          apply bind_state_of (I := fun v => StackMoves t v)
          · exact polls_stackMoves hpause
          · intro _ _
            exact (polls_stackMoves hpause).trans (ih _ _ (PollMoves.ne_synSent hpause hnext))
        rw [← ht] at hrest hmove
        exact ((polls_stackMoves h).tail hmove).trans hrest
      | unsent u h => exact (polls_stackMoves h).tail (.chunkUnsent u i)
      | fail u h => exact polls_stackMoves h
      | hang u h => exact polls_stackMoves h

theorem walks_netTcpSend (n : ℕ) (i : Conn) (data : Bytes) : Walks StackMove (netTcpSend n i data) := by
  intro s
  have hrun : netTcpSend n i data s = (if (s.conns i).active = true ∧ (s.conns i).state = .established
    then sendChunks n i data.length data else pure false : Exec Stack Bool) s := rfl
  unfold Leads
  rw [hrun]
  split_ifs with hopen
  · exact sendChunks_moves n i _ data s (by rw [hopen.2]; decide)
  · exact .refl

theorem walks_takeReceived (i : Conn) (bufSize : ℕ) : Walks StackMove (takeReceived i bufSize) := by
  intro s
  have hrun : takeReceived i bufSize s = (if (s.conns i).rxBuf = [] then pure (some [])
    else do
      putConn i { s.conns i with rxBuf := (s.conns i).rxBuf.drop bufSize }
      modify (Stack.log i (.returned ((s.conns i).rxBuf.take bufSize)))
      pure (some ((s.conns i).rxBuf.take bufSize)) : Exec Stack (Option Bytes)) s := rfl
  unfold Leads
  rw [hrun]
  split_ifs
  · exact .refl
  · exact .single (.read s i bufSize)

theorem walks_netTcpRecv (n : ℕ) (i : Conn) (bufSize : ℕ) (timeout : UInt64) :
    Walks StackMove (netTcpRecv n i bufSize timeout) := by
  apply Walks.read_bind
  intro c
  split_ifs
  · apply Walks.read_bind
    intro now
    apply (walks_waitPolls n _ _ n).bind
    intro ready
    split_ifs
    · exact walks_takeReceived i bufSize
    · exact Walks.pure
  · exact Walks.pure

theorem walks_awaitClose (n : ℕ) (i : Conn) : Walks StackMove (awaitClose n i) := by
  apply Walks.read_bind
  intro c
  apply Walks.read_bind
  intro now
  split_ifs
  · exact (walks_waitPolls n _ _ n).ignore
  · exact Walks.pure

theorem sendFin_moves (n : ℕ) {state : TcpState} (h : ClosesAs (s.conns i) state) : Leads StackMove (sendFin n i state) s := by
  have hrun : sendFin n i state s = (do
      ignore (tcpSendSegment (netPoll n) n i (TCP_FIN ||| TCP_ACK) [])
      advanceSeq i 1
      awaitClose n i : Exec Stack Unit) (s.setConn i { s.conns i with state := state }) := rfl
  have hattempt := tcpSendSegment_attempt (n := n) (walks_netPoll n) i (TCP_FIN ||| TCP_ACK) []
    (s.setConn i { s.conns i with state := state })
  unfold Leads
  rw [hrun, bind_apply, ignore, bind_apply]
  generalize tcpSendSegment (netPoll n) n i (TCP_FIN ||| TCP_ACK) [] (s.setConn i { s.conns i with state := state }) = r
    at hattempt ⊢
  cases hattempt with
  | sent u hu =>
    have hmove : StackMove s (u.transmit i (TCP_FIN ||| TCP_ACK) 0 1) := .finSent s i state u ⟨h, hu⟩
    exact (walks_awaitClose n i _).head hmove
  | unsent u hu =>
    have hmove := StackMove.finUnsent s i state u ⟨h, hu⟩
    exact (walks_awaitClose n i _).head hmove
  | fail u hu => exact .single (.closing s i state u ⟨h, hu⟩)
  | hang u hu => exact .single (.closing s i state u ⟨h, hu⟩)

theorem walks_netTcpClose (n : ℕ) (i : Conn) : Walks StackMove (netTcpClose n i) := by
  intro s
  have hrun : netTcpClose n i s = (if (s.conns i).active = true then do
      closeActive n i (s.conns i).state
      deactivate i .closed
    else pure () : Exec Stack Unit) s := rfl
  unfold Leads
  rw [hrun]
  split_ifs with hactive
  · apply bind_state (I := fun t => StackMoves s t)
    · cases hstate : (s.conns i).state with
      | established => exact sendFin_moves n ⟨hactive, .inl ⟨hstate, rfl⟩⟩
      | closeWait => exact sendFin_moves n ⟨hactive, .inr ⟨hstate, rfl⟩⟩
      | _ => exact .refl
    · exact fun _ t ht => ht.trans (walks_deactivate i t)
  · exact .refl

/-- Every call leads along the moves. -/
theorem walks_call (n : ℕ) (call : Call) : Walks StackMove (call.run n) := by
  cases call with
  | poll => exact walks_polls (walks_netPoll n)
  | ping dstIp seq => exact (walks_netPing StackMove.idle walks_stackPoll n dstIp seq).ignore
  | pingCheck seq => exact (walks_netPingCheck StackMove.idle seq).ignore
  | udpSend dstIp srcPort dstPort data => exact (walks_netUdpSend StackMove.idle walks_stackPoll n dstIp srcPort dstPort data).ignore
  | udpSendBroadcast srcPort dstPort data => exact (walks_netUdpSendBroadcast StackMove.idle srcPort dstPort data).ignore
  | udpRecv port maxLen timeout => exact (walks_udpRecvWait n port maxLen timeout).ignore
  | tcpConnect dstIp dstPort => exact (walks_netTcpConnect n dstIp dstPort).ignore
  | tcpSend i data => exact (walks_netTcpSend n i data).ignore
  | tcpRecv i bufSize timeout => exact (walks_netTcpRecv n i bufSize timeout).ignore
  | tcpClose i => exact walks_netTcpClose n i

theorem walks_runCalls (n : ℕ) (calls : List Call) : Walks StackMove (runCalls n calls) := by
  induction calls with
  | nil => exact Walks.pure
  | cons call calls ih => exact (walks_call n call).bind fun _ => ih

end Calls

end Tg11Kernel.Net
