import Tg11Kernel.Net.Connection

/-! What a connection makes of the byte stream of the other side. The bytes that were returned
and those in `rx_buf` are the front of the stream, and no byte behind them is acknowledged,
as long as accepted data fits into the buffer and a FIN is taken where the stream ends. -/

namespace Tg11Kernel.Net

open Lib Exec Relation

/-- The bytes that `net_tcp_recv` returned. -/
def returnedBytes : List TcpEvent → Bytes
  | [] => []
  | .returned data :: older => returnedBytes older ++ data
  | .arrived _ _ :: older => returnedBytes older
  | .sent _ _ _ :: older => returnedBytes older
  | .unsent _ :: older => returnedBytes older
  | .gaveUp _ :: older => returnedBytes older

/-- The bytes that were taken from the stream: those returned and those still there. -/
def takenBytes (events : List TcpEvent) (c : TcpConn) : Bytes := returnedBytes events ++ c.rxBuf

/-- A segment of the peer's stream: a SYN, or the bytes from the offset `o` on. -/
structure FromPeer (irs : UInt32) (stream : Bytes) (seg : Segment) (o : ℕ) : Prop where
  syn : has seg.flags TCP_SYN = true → seg.seqNum = irs ∧ seg.data = [] ∧ has seg.flags TCP_FIN ≠ true
  seqNum : has seg.flags TCP_SYN ≠ true → seg.seqNum = irs + 1 + UInt32.ofNat o
  data : seg.data <+: stream.drop o
  fin : has seg.flags TCP_FIN = true → o + seg.data.length = stream.length

/-- The position `ack` is in the first `p` bytes of the stream, at their end, or behind the
FIN that follows them. -/
def Acked (irs : UInt32) (stream : Bytes) (p : ℕ) (ack : UInt32) : Prop :=
  (∃ q ≤ p, ack = irs + 1 + UInt32.ofNat q) ∨ p = stream.length ∧ ack = irs + 1 + UInt32.ofNat (p + 1)

/-- What the receiver owes the stream. -/
structure Received (irs : UInt32) (stream : Bytes) (v : ConnView) : Prop where
  returned : returnedBytes v.events <+: stream
  taken : takenBytes v.events v.conn <+: stream
  acked : Opened v.events → Acked irs stream (takenBytes v.events v.conn).length v.conn.ack

/-- A segment whose data is taken. -/
def TakesData (c : TcpConn) (seg : Segment) : Prop :=
  has seg.flags TCP_RST ≠ true ∧ c.state = .established ∧ 0 < seg.data.length ∧ seg.seqNum = c.ack

/-- The data that is taken comes from the place that is awaited and fits into the buffer, and
a FIN is taken at the end of the stream; `p` bytes were taken before. -/
structure Harmless (stream : Bytes) (p : ℕ) (c : TcpConn) (seg : Segment) (o : ℕ) : Prop where
  awaited : TakesData c seg → o = p
  room : TakesData c seg → c.rxBuf.length + seg.data.length ≤ NET_TCP_BUF_SIZE
  fin : PeerFin c seg → seg.data = [] → p = stream.length
  lastFin : LastFin c seg → o < p ∨ o = stream.length ∧ p = stream.length

/-- Each segment that arrived is one of the stream and was harmless then. -/
def Orderly (irs : UInt32) (stream : Bytes) : List TcpEvent → TcpEvent → Prop
  | older, .arrived c seg => ∃ o, FromPeer irs stream seg o ∧ Harmless stream (takenBytes older c).length c seg o
  | _, _ => True

/-! ### The invariant -/

structure StreamInv (irs : UInt32) (stream : Bytes) (v : ConnView) : Prop where
  taken : takenBytes v.events v.conn <+: stream
  waiting : v.conn.state = .synSent → takenBytes v.events v.conn = []
  established : v.conn.state = .established → v.conn.ack = irs + 1 + UInt32.ofNat (takenBytes v.events v.conn).length
  acked : Opened v.events → Acked irs stream (takenBytes v.events v.conn).length v.conn.ack
  fin : ∀ c seg, .arrived c seg ∈ v.events → PeerFin c seg → seg.data = [] →
    (takenBytes v.events v.conn).length = stream.length ∧ seg.seqNum = irs + 1 + UInt32.ofNat stream.length

section Invariant

variable {irs : UInt32} {stream : Bytes} {v w : ConnView}

/-- A change that takes no bytes, keeps `ack`, and does not enter a state that waits. -/
theorem StreamInv.keep (h : StreamInv irs stream v) (htaken : takenBytes w.events w.conn = takenBytes v.events v.conn)
    (hack : w.conn.ack = v.conn.ack) (hwaiting : w.conn.state = .synSent → v.conn.state = .synSent)
    (hestablished : w.conn.state = .established → v.conn.state = .established) (hopened : Opened w.events → Opened v.events)
    (hfin : ∀ c seg, .arrived c seg ∈ w.events → PeerFin c seg → seg.data = [] → .arrived c seg ∈ v.events ∨
      (takenBytes v.events v.conn).length = stream.length ∧ seg.seqNum = irs + 1 + UInt32.ofNat stream.length) :
    StreamInv irs stream w where
  taken := by
    rw [htaken]
    exact h.taken
  waiting hstate := htaken.trans (h.waiting (hwaiting hstate))
  established hstate := by
    rw [hack, htaken]
    exact h.established (hestablished hstate)
  acked ho := by
    rw [hack, htaken]
    exact h.acked (hopened ho)
  fin c seg hseg hpeer hdata := by
    rw [htaken]
    rcases hfin c seg hseg hpeer hdata with hmem | hready
    · exact h.fin c seg hmem hpeer hdata
    · exact hready

/-- An event that is neither an arrival nor a read. -/
def Quiet : TcpEvent → Prop
  | .sent _ _ _ => True
  | .unsent _ => True
  | .gaveUp _ => True
  | .arrived _ _ => False
  | .returned _ => False

variable {e : TcpEvent} {events : List TcpEvent} {c : TcpConn} {seg : Segment} {o : ℕ}

theorem takenBytes_quiet (he : Quiet e) (events : List TcpEvent) (c : TcpConn) :
    takenBytes (e :: events) c = takenBytes events c := by
  cases e with
  | arrived c seg => exact he.elim
  | returned data => exact he.elim
  | sent flags seq len => rfl
  | unsent flags => rfl
  | gaveUp c => rfl

theorem mem_quiet (he : Quiet e)
    (h : .arrived c seg ∈ e :: events) : .arrived c seg ∈ events := by
  rcases List.mem_cons.1 h with rfl | h
  · exact he.elim
  · exact h

theorem opened_quiet (he : Quiet e) (h : Opened (e :: events)) : Opened events := by
  obtain ⟨c, seg, hmem, hrest⟩ := h
  exact ⟨c, seg, mem_quiet he hmem, hrest⟩

/-- Such an event, with a change of the connection that the stream does not see. -/
theorem StreamInv.quiet (h : StreamInv irs stream v) (he : Quiet e) (hbuf : c.rxBuf = v.conn.rxBuf)
    (hack : c.ack = v.conn.ack) (hstate : c.state = v.conn.state ∨ c.state = .closed) : StreamInv irs stream ((v.log e).put c) := by
  apply h.keep (w := (v.log e).put c)
  · show takenBytes (e :: v.events) c = takenBytes v.events v.conn
    rw [takenBytes_quiet he]
    unfold takenBytes
    rw [hbuf]
  · exact hack
  · intro hw
    rcases hstate with hs | hs
    · exact hs.symm.trans hw
    · exact absurd (hs.symm.trans hw) (by decide)
  · intro hw
    rcases hstate with hs | hs
    · exact hs.symm.trans hw
    · exact absurd (hs.symm.trans hw) (by decide)
  · exact opened_quiet he
  · exact fun c seg hseg _ _ => .inl (mem_quiet he hseg)

/-- A change of the state alone, to one that neither waits nor takes data. -/
theorem StreamInv.settle (h : StreamInv irs stream v) (hbuf : c.rxBuf = v.conn.rxBuf) (hack : c.ack = v.conn.ack)
    (hwaiting : c.state ≠ .synSent) (hestablished : c.state ≠ .established) : StreamInv irs stream (v.put c) := by
  apply h.keep (w := v.put c)
  · show takenBytes v.events c = takenBytes v.events v.conn
    unfold takenBytes
    rw [hbuf]
  · exact hack
  · exact fun hw => absurd hw hwaiting
  · exact fun hw => absurd hw hestablished
  · exact id
  · exact fun c seg hseg _ _ => .inl hseg

/-! ### Segments -/

theorem has_of_has_or {flags a b : UInt8} (h : has flags (a ||| b) = true) : has flags a = true := by
  unfold has at h ⊢
  rw [beq_iff_eq] at h ⊢
  have habs : (a ||| b) &&& a = a := by
    rw [UInt8.and_comm, ← UInt8.toBitVec_inj]
    simp only [UInt8.toBitVec_and, UInt8.toBitVec_or]
    ext k hk
    simp
    intro ha
    simp [ha]
  calc flags &&& a = flags &&& ((a ||| b) &&& a) := by rw [habs]
    _ = (flags &&& (a ||| b)) &&& a := (UInt8.and_assoc _ _ _).symm
    _ = a := by rw [h, habs]

/-- What a segment in the order of the stream may be. -/
def Arrives (irs : UInt32) (stream : Bytes) (v : ConnView) (seg : Segment) (o : ℕ) : Prop :=
  FromPeer irs stream seg o ∧ Harmless stream (takenBytes v.events v.conn).length v.conn seg o

theorem opened_arrived (h : Opened (.arrived c seg :: events))
    (hnot : ¬ (c.state = .synSent ∧ has seg.flags TCP_RST ≠ true ∧ has seg.flags (TCP_SYN ||| TCP_ACK) = true)) : Opened events := by
  obtain ⟨c', seg', hmem, hrest⟩ := h
  rcases List.mem_cons.1 hmem with heq | hmem
  · obtain ⟨rfl, rfl⟩ : c' = c ∧ seg' = seg := by simpa using heq
    exact absurd hrest hnot
  · exact ⟨c', seg', hmem, hrest⟩

/-- A FIN without data that is taken where the stream ends. -/
theorem fin_ready (h : Arrives irs stream v seg o) (hpeer : PeerFin v.conn seg) (hdata : seg.data = []) :
    (takenBytes v.events v.conn).length = stream.length ∧ seg.seqNum = irs + 1 + UInt32.ofNat stream.length := by
  obtain ⟨hfrom, hharmless⟩ := h
  have hend := hfrom.fin hpeer.2.1
  rw [hdata] at hend
  have hseq := hfrom.seqNum fun hsyn => (hfrom.syn hsyn).2.2 hpeer.2.1
  rw [show o = stream.length from hend] at hseq
  exact ⟨hharmless.fin hpeer hdata, hseq⟩

/-- A segment that takes no bytes, keeps `ack` and opens nothing. -/
theorem StreamInv.arrive_keep (h : StreamInv irs stream v) (hseg : Arrives irs stream v seg o)
    (hbuf : c.rxBuf = v.conn.rxBuf) (hack : c.ack = v.conn.ack) (hwaiting : c.state = .synSent → v.conn.state = .synSent)
    (hestablished : c.state = .established → v.conn.state = .established)
    (hnot : ¬ (v.conn.state = .synSent ∧ has seg.flags TCP_RST ≠ true ∧ has seg.flags (TCP_SYN ||| TCP_ACK) = true)) :
    StreamInv irs stream ((v.log (.arrived v.conn seg)).put c) := by
  apply h.keep (w := (v.log (.arrived v.conn seg)).put c)
  · show returnedBytes v.events ++ c.rxBuf = takenBytes v.events v.conn
    rw [hbuf]
    rfl
  · exact hack
  · exact hwaiting
  · exact hestablished
  · exact fun ho => opened_arrived ho hnot
  · intro c' seg' hmem hpeer hdata
    rcases List.mem_cons.1 hmem with heq | hmem
    · obtain ⟨rfl, rfl⟩ : c' = v.conn ∧ seg' = seg := by simpa using heq
      exact .inr (fin_ready hseg hpeer hdata)
    · exact .inl hmem

/-- The SYN-ACK sets `ack` to the first byte of the stream. -/
theorem StreamInv.arrive_synAck (h : StreamInv irs stream v) (hseg : Arrives irs stream v seg o)
    (hstate : v.conn.state = .synSent) (hflags : has seg.flags (TCP_SYN ||| TCP_ACK) = true) :
    StreamInv irs stream ((v.log (.arrived v.conn seg)).put
      { v.conn with ack := seg.seqNum + 1, seq := seg.ackNum, state := .established }) := by
  have hsyn := hseg.1.syn (has_of_has_or hflags)
  have hnone : takenBytes v.events v.conn = [] := h.waiting hstate
  have hack : seg.seqNum + 1 = irs + 1 + UInt32.ofNat 0 := by
    rw [hsyn.1]
    exact (UInt32.add_zero _).symm
  exact {
    taken := h.taken
    waiting := fun hs => by cases hs
    established := fun _ => by
      show seg.seqNum + 1 = irs + 1 + UInt32.ofNat (takenBytes v.events v.conn).length
      rw [hnone]
      exact hack
    acked := fun _ => .inl ⟨0, Nat.zero_le _, hack⟩
    fin := by
      intro c' seg' hmem hpeer hdata
      rcases List.mem_cons.1 hmem with heq | hmem
      · obtain ⟨rfl, rfl⟩ : c' = v.conn ∧ seg' = seg := by simpa using heq
        exact absurd (hstate.symm.trans hpeer.2.2) (by decide)
      · exact h.fin c' seg' hmem hpeer hdata }

theorem prefix_append_of_drop {taken data stream : Bytes} (htaken : taken <+: stream) (hdata : data <+: stream.drop taken.length) :
    taken ++ data <+: stream := by
  obtain ⟨rest, rfl⟩ := htaken
  rw [List.drop_left] at hdata
  exact (List.prefix_append_right_inj taken).2 hdata

section

variable (h : StreamInv irs stream v)
include h

variable {seg : Segment} {o : ℕ} {c : TcpConn}

/-- Data from the awaited place is taken as a whole. -/
theorem StreamInv.arrive_data (hseg : Arrives irs stream v seg o)
    (htakes : TakesData v.conn seg) : StreamInv irs stream ((v.log (.arrived v.conn seg)).put (v.conn.accept seg)) := by
  obtain ⟨hfrom, hharmless⟩ := hseg
  have hroom := hharmless.room htakes
  have hplace := hharmless.awaited htakes
  have htaken : takenBytes (.arrived v.conn seg :: v.events) (v.conn.accept seg) = takenBytes v.events v.conn ++ seg.data := by
    unfold takenBytes TcpConn.accept
    rw [List.take_of_length_le (by omega), ← List.append_assoc]
    rfl
  have hprefix : takenBytes v.events v.conn ++ seg.data <+: stream := by
    apply prefix_append_of_drop h.taken
    rw [← hplace]
    exact hfrom.data
  have hack : (v.conn.accept seg).ack = irs + 1 + UInt32.ofNat (takenBytes v.events v.conn ++ seg.data).length := by
    show seg.seqNum + UInt32.ofNat seg.data.length = _
    rw [htakes.2.2.2, h.established htakes.2.1, List.length_append, UInt32.ofNat_add, UInt32.add_assoc]
  exact {
    taken := by
      show takenBytes (.arrived v.conn seg :: v.events) (v.conn.accept seg) <+: stream
      rw [htaken]
      exact hprefix
    waiting := fun hstate => absurd (htakes.2.1.symm.trans hstate) (by decide)
    established := fun _ => by
      show (v.conn.accept seg).ack = irs + 1 + UInt32.ofNat (takenBytes (.arrived v.conn seg :: v.events) (v.conn.accept seg)).length
      rw [htaken]
      exact hack
    acked := fun _ => by
      show Acked irs stream (takenBytes (.arrived v.conn seg :: v.events) (v.conn.accept seg)).length (v.conn.accept seg).ack
      rw [htaken]
      exact .inl ⟨_, Nat.le_refl _, hack⟩
    fin := by
      intro c' seg' hmem hpeer hdata
      rcases List.mem_cons.1 hmem with heq | hmem
      · obtain ⟨rfl, rfl⟩ : c' = v.conn ∧ seg' = seg := by simpa using heq
        have hpos := htakes.2.2.1
        rw [hdata] at hpos
        exact absurd hpos (Nat.lt_irrefl 0)
      · obtain ⟨hall, hseq⟩ := h.fin c' seg' hmem hpeer hdata
        refine ⟨?_, hseq⟩
        show (takenBytes (.arrived v.conn seg :: v.events) (v.conn.accept seg)).length = stream.length
        have hle := hprefix.length_le
        rw [htaken]
        rw [List.length_append] at hle ⊢
        omega }

/-- A FIN that ends the connection acknowledges no more than was taken, or the end of the stream. -/
theorem StreamInv.arrive_lastFin (hseg : Arrives irs stream v seg o)
    (hlast : LastFin v.conn seg) (hbuf : c.rxBuf = v.conn.rxBuf) (hack : c.ack = seg.seqNum + 1)
    (hwaiting : c.state ≠ .synSent) (hestablished : c.state ≠ .established) :
    StreamInv irs stream ((v.log (.arrived v.conn seg)).put c) := by
  have htaken : takenBytes (.arrived v.conn seg :: v.events) c = takenBytes v.events v.conn := by
    show returnedBytes v.events ++ c.rxBuf = takenBytes v.events v.conn
    rw [hbuf]
    rfl
  have hseq := hseg.1.seqNum fun hsyn => (hseg.1.syn hsyn).2.2 hlast.2.1
  have hnext : c.ack = irs + 1 + UInt32.ofNat (o + 1) := by
    rw [hack, hseq, UInt32.add_assoc, UInt32.ofNat_add]
    rfl
  exact {
    taken := by
      show takenBytes (.arrived v.conn seg :: v.events) c <+: stream
      rw [htaken]
      exact h.taken
    waiting := fun hstate => absurd hstate hwaiting
    established := fun hstate => absurd hstate hestablished
    acked := fun _ => by
      show Acked irs stream (takenBytes (.arrived v.conn seg :: v.events) c).length c.ack
      rw [htaken]
      rcases hseg.2.lastFin hlast with hlt | ⟨hend, hall⟩
      · exact .inl ⟨o + 1, hlt, hnext⟩
      · refine .inr ⟨hall, ?_⟩
        rw [hall, ← hend]
        exact hnext
    fin := by
      intro c' seg' hmem hpeer hdata
      show (takenBytes (.arrived v.conn seg :: v.events) c).length = stream.length ∧ _
      rw [htaken]
      rcases List.mem_cons.1 hmem with heq | hmem
      · obtain ⟨rfl, rfl⟩ : c' = v.conn ∧ seg' = seg := by simpa using heq
        exact fin_ready hseg hpeer hdata
      · exact h.fin c' seg' hmem hpeer hdata }

/-- A segment of the stream that is harmless keeps the invariant, in every state. -/
theorem StreamInv.arrive (hseg : Arrives irs stream v seg o) :
    StreamInv irs stream ((v.log (.arrived v.conn seg)).put (v.conn.react seg)) := by
  have hkeep : ∀ c : TcpConn, c.rxBuf = v.conn.rxBuf → c.ack = v.conn.ack → c.state ≠ .synSent → c.state ≠ .established →
      ¬ (v.conn.state = .synSent ∧ has seg.flags TCP_RST ≠ true ∧ has seg.flags (TCP_SYN ||| TCP_ACK) = true) →
      StreamInv irs stream ((v.log (.arrived v.conn seg)).put c) := fun c hbuf hack hwaiting hestablished hnot =>
    h.arrive_keep hseg hbuf hack (fun hs => absurd hs hwaiting) (fun hs => absurd hs hestablished) hnot
  have hsame : ¬ (v.conn.state = .synSent ∧ has seg.flags TCP_RST ≠ true ∧ has seg.flags (TCP_SYN ||| TCP_ACK) = true) →
      StreamInv irs stream ((v.log (.arrived v.conn seg)).put v.conn) := fun hnot =>
    h.arrive_keep hseg rfl rfl id id hnot
  unfold TcpConn.react
  split_ifs with hrst
  · exact hkeep _ rfl rfl (fun hs => by cases hs) (fun hs => by cases hs) fun hnot => hnot.2.1 hrst
  · have hother : v.conn.state ≠ .synSent →
        ¬ (v.conn.state = .synSent ∧ has seg.flags TCP_RST ≠ true ∧ has seg.flags (TCP_SYN ||| TCP_ACK) = true) :=
      fun hne hopen => hne hopen.1
    cases hstate : v.conn.state with
    | synSent =>
      simp only [TcpConn.reactIn]
      split_ifs with hflags
      · exact h.arrive_synAck hseg hstate hflags
      · exact hsame fun hopen => hflags hopen.2.2
    | established =>
      simp only [TcpConn.reactIn]
      split_ifs with htake
      · exact h.arrive_data hseg ⟨hrst, hstate, htake⟩
      · exact hsame (hother (by rw [hstate]; decide))
    | finWait1 =>
      simp only [TcpConn.reactIn]
      split_ifs with hack hfin
      · exact h.arrive_lastFin hseg ⟨hrst, hfin, .inl ⟨hstate, hack⟩⟩ rfl rfl (fun hs => by cases hs) (fun hs => by cases hs)
      · exact hkeep _ rfl rfl (fun hs => by cases hs) (fun hs => by cases hs) (hother (by rw [hstate]; decide))
      · exact hsame (hother (by rw [hstate]; decide))
    | finWait2 =>
      simp only [TcpConn.reactIn]
      split_ifs with hfin
      · have hne : ∀ state, state ≠ .finWait2 → v.conn.state ≠ state := fun state hs heq => hs (heq.symm.trans hstate)
        exact h.arrive_lastFin hseg ⟨hrst, hfin, .inr hstate⟩ rfl rfl (hne _ (by decide)) (hne _ (by decide))
      · exact hsame (hother (by rw [hstate]; decide))
    | lastAck =>
      simp only [TcpConn.reactIn]
      split_ifs with hack
      · exact hkeep _ rfl rfl (fun hs => by cases hs) (fun hs => by cases hs) (hother (by rw [hstate]; decide))
      · exact hsame (hother (by rw [hstate]; decide))
    | closed => exact hsame (hother (by rw [hstate]; decide))
    | closeWait => exact hsame (hother (by rw [hstate]; decide))
    | timeWait => exact hsame (hother (by rw [hstate]; decide))

/-- The FIN of the other side, whenever it is processed. -/
theorem StreamInv.finish (hseg : .arrived c seg ∈ v.events)
    (hpeer : PeerFin c seg) : StreamInv irs stream (v.put (v.conn.finish seg)) := by
  by_cases hdata : seg.data = []
  · obtain ⟨hall, hseq⟩ := h.fin c seg hseg hpeer hdata
    have hack : (v.conn.finish seg).ack = irs + 1 + UInt32.ofNat ((takenBytes v.events v.conn).length + 1) := by
      unfold TcpConn.finish
      rw [if_pos (by rw [hdata]; rfl), hseq, hall, UInt32.add_assoc, UInt32.ofNat_add]
      rfl
    exact {
      taken := h.taken
      waiting := fun hs => by cases hs
      established := fun hs => by cases hs
      acked := fun _ => .inr ⟨hall, hack⟩
      fin := h.fin }
  · have hlen : ¬ seg.data.length = 0 := fun h0 => hdata (List.length_eq_zero_iff.1 h0)
    apply h.settle
    · rfl
    · exact if_neg hlen
    · intro hs
      cases hs
    · intro hs
      cases hs

end

end Invariant

/-! ### Runs -/

/-- The invariant holds as long as all segments were harmless. -/
def StreamKept (irs : UInt32) (stream : Bytes) (v : ConnView) : Prop := Every (Orderly irs stream) v.events → StreamInv irs stream v

section Runs

variable {irs : UInt32} {stream : Bytes} {u v w : ConnView}

theorem StreamKept.quiet (h : StreamKept irs stream v) {e : TcpEvent} (he : Quiet e) {c : TcpConn} (hbuf : c.rxBuf = v.conn.rxBuf)
    (hack : c.ack = v.conn.ack) (hstate : c.state = v.conn.state ∨ c.state = .closed) : StreamKept irs stream ((v.log e).put c) :=
  fun hevery => (h hevery.2).quiet he hbuf hack hstate

theorem StreamKept.poll (h : StreamKept irs stream v) (hmove : ConnPoll v w) : StreamKept irs stream w := by
  cases hmove with
  | same => exact h
  | arrived seg hactive =>
    intro hevery
    obtain ⟨o, hseg⟩ := hevery.1
    exact (h hevery.2).arrive hseg
  | acked => exact h.quiet (e := .sent TCP_ACK v.conn.seq 0) trivial rfl rfl (.inl rfl)
  | unsent => exact h.quiet (e := .unsent TCP_ACK) trivial rfl rfl (.inl rfl)
  | finished c seg hseg hfin hsettled => exact fun hevery => (h hevery).finish hseg hfin
  | shut c seg hseg hlast => exact fun hevery => (h hevery).settle rfl rfl (fun hs => by cases hs) (fun hs => by cases hs)

theorem StreamKept.polls (h : StreamKept irs stream v) (hmoves : ConnPolls v w) : StreamKept irs stream w :=
  invariant_of_moves (I := StreamKept irs stream) (fun _ _ hu hmove => hu.poll hmove) hmoves h

theorem streamKept_fresh (irs : UInt32) (stream : Bytes) (dstIp : Ip) (localPort dstPort : UInt16) (isn : UInt32) :
    StreamKept irs stream ⟨isn, [], freshConn dstIp localPort dstPort isn⟩ := fun _ =>
  { taken := List.nil_prefix
    waiting := fun _ => rfl
    established := fun hs => by cases hs
    acked := fun hopened => absurd hopened not_opened_nil
    fin := fun _ _ hmem => absurd hmem List.not_mem_nil }

theorem ConnOpening.streamKept (h : ConnOpening u) : StreamKept irs stream u := by
  obtain ⟨dstIp, localPort, dstPort, isn, hpolls⟩ := h.opens
  exact (streamKept_fresh irs stream dstIp localPort dstPort isn).polls hpolls

theorem ConnClosing.streamKept {state : TcpState} (h : ConnClosing v state u) (hv : StreamKept irs stream v) : StreamKept irs stream u := by
  have hstate : state ≠ .synSent ∧ state ≠ .established := by
    rcases h.closes.2 with ⟨-, rfl⟩ | ⟨-, rfl⟩
    · decide
    · decide
  have hput : StreamKept irs stream (v.put { v.conn with state := state }) :=
    fun hevery => (hv hevery).settle rfl rfl hstate.1 hstate.2
  exact hput.polls h.polls

/-- A read moves bytes from the buffer to the caller. -/
theorem StreamInv.read (h : StreamInv irs stream v) (k : ℕ) :
    StreamInv irs stream ((v.log (.returned (v.conn.rxBuf.take k))).put { v.conn with rxBuf := v.conn.rxBuf.drop k }) := by
  have hmem : ∀ {c : TcpConn} {seg : Segment}, .arrived c seg ∈ TcpEvent.returned (v.conn.rxBuf.take k) :: v.events →
      .arrived c seg ∈ v.events := by
    intro c seg hseg
    simpa using hseg
  apply h.keep (w := (v.log (.returned (v.conn.rxBuf.take k))).put { v.conn with rxBuf := v.conn.rxBuf.drop k })
  · show returnedBytes v.events ++ v.conn.rxBuf.take k ++ v.conn.rxBuf.drop k = takenBytes v.events v.conn
    rw [List.append_assoc, List.take_append_drop]
    rfl
  · rfl
  · exact id
  · exact id
  · rintro ⟨c, seg, hseg, hrest⟩
    exact ⟨c, seg, hmem hseg, hrest⟩
  · exact fun c seg hseg _ _ => .inl (hmem hseg)

theorem StreamKept.move (h : StreamKept irs stream v) (hmove : ConnMove v w) : StreamKept irs stream w := by
  cases hmove with
  | poll _ hpoll => exact h.poll hpoll
  | opened _ hu => exact hu.streamKept
  | synSent u hu => exact hu.streamKept.quiet (e := .sent TCP_SYN u.conn.seq 0) trivial rfl rfl (.inl rfl)
  | synUnsent u hu => exact hu.streamKept.quiet (e := .unsent TCP_SYN) trivial rfl rfl (.inl rfl)
  | chunk len _ => exact h.quiet (e := .sent (TCP_ACK ||| TCP_PSH) v.conn.seq len) trivial rfl rfl (.inl rfl)
  | chunkUnsent => exact h.quiet (e := .unsent (TCP_ACK ||| TCP_PSH)) trivial rfl rfl (.inl rfl)
  | closing state _ hu => exact hu.streamKept h
  | finSent state u hu => exact (hu.streamKept h).quiet (e := .sent (TCP_FIN ||| TCP_ACK) u.conn.seq 0) trivial rfl rfl (.inl rfl)
  | finUnsent state u hu => exact (hu.streamKept h).quiet (e := .unsent (TCP_FIN ||| TCP_ACK)) trivial rfl rfl (.inl rfl)
  | gaveUp => exact h.quiet (e := .gaveUp v.conn) trivial rfl rfl (.inr rfl)
  | read k => exact fun hevery => (h hevery.2).read k

theorem streamKept_start (irs : UInt32) (stream : Bytes) (mac : Mac) (ticks : UInt64) (world : List Arrival) (i : Conn) :
    StreamKept irs stream ((netInit mac ticks world).view i) := fun _ =>
  { taken := List.nil_prefix
    waiting := fun hs => by cases hs
    established := fun hs => by cases hs
    acked := fun hopened => absurd hopened not_opened_nil
    fin := fun _ _ hmem => absurd hmem List.not_mem_nil }

/-- In every run, a connection whose segments belong to one stream and were all harmless has
received its front, and acknowledges no more of it. -/
theorem tcp_received (mac : Mac) (ticks : UInt64) (world : List Arrival) (n : ℕ) (calls : List Call) (i : Conn) (irs : UInt32)
    (stream : Bytes) (horderly : Every (Orderly irs stream) ((runCalls n calls (netInit mac ticks world)).2.events i)) :
    Received irs stream ((runCalls n calls (netInit mac ticks world)).2.view i) := by
  have hmoves := runCalls_view n calls (netInit mac ticks world) i
  have hkept := invariant_of_moves (I := StreamKept irs stream) (fun _ _ hu hmove => hu.move hmove) hmoves
    (streamKept_start irs stream mac ticks world i)
  have hinv := hkept horderly
  exact {
    returned := (List.prefix_append _ _).trans hinv.taken
    taken := hinv.taken
    acked := hinv.acked }

end Runs

/-! ### A FIN that overtakes a byte -/

def connectAndPoll : List Call := [.tcpConnect peerIp 80, .poll]

/-- The peer sends one byte, number 5001, and its FIN, number 5002; the FIN arrives first. -/
def earlyFin : List Bytes := [peerArp, peerFrame 5000 1001 (TCP_SYN ||| TCP_ACK) [], peerFrame 5002 1001 (TCP_FIN ||| TCP_ACK) []]

def waitingConn : TcpConn := ⟨true, .synSent, peerIp, 49152, 80, 1001, 0, [], false⟩
def openedConn : TcpConn := ⟨true, .established, peerIp, 49152, 80, 1001, 5001, [], false⟩
def synAck : Segment := ⟨80, 49152, 5000, 1001, TCP_SYN ||| TCP_ACK, []⟩

theorem events_earlyFin : (after connectAndPoll earlyFin).events firstConn =
    [.sent TCP_ACK 1001 0, .arrived openedConn ⟨80, 49152, 5002, 1001, TCP_FIN ||| TCP_ACK, []⟩, .sent TCP_ACK 1001 0,
      .arrived waitingConn synAck, .sent TCP_SYN 1000 0] := by
  decide +kernel

theorem fromPeer_synAck (stream : Bytes) : FromPeer 5000 stream synAck 0 where
  syn _ := ⟨rfl, rfl, by decide⟩
  seqNum h := absurd h (by decide)
  data := List.nil_prefix
  fin h := absurd h (by decide)

theorem fromPeer_earlyFin (c : TcpConn) (seg : Segment) (hmem : .arrived c seg ∈ (after connectAndPoll earlyFin).events firstConn) :
    ∃ o, FromPeer 5000 [7] seg o := by
  rw [events_earlyFin] at hmem
  simp only [List.mem_cons, TcpEvent.arrived.injEq, reduceCtorEq, false_or, or_false, List.not_mem_nil] at hmem
  rcases hmem with ⟨-, rfl⟩ | ⟨-, rfl⟩
  · exact ⟨1, {
      syn := fun hsyn => absurd hsyn (by decide)
      seqNum := fun _ => rfl
      data := List.nil_prefix
      fin := fun _ => rfl }⟩
  · exact ⟨0, fromPeer_synAck [7]⟩

/-- `ack` has passed a byte that never came. -/
theorem not_received_earlyFin : ¬ Received 5000 [7] ((after connectAndPoll earlyFin).view firstConn) := by
  intro hreceived
  have hopened : Opened ((after connectAndPoll earlyFin).view firstConn).events := by
    rw [view_events, events_earlyFin]
    exact ⟨waitingConn, synAck, by simp, rfl, by decide, by decide⟩
  have htaken : takenBytes ((after connectAndPoll earlyFin).view firstConn).events
      ((after connectAndPoll earlyFin).view firstConn).conn = [] := by
    decide +kernel
  have hack : ((after connectAndPoll earlyFin).view firstConn).conn.ack = 5003 := by decide +kernel
  have hacked := hreceived.acked hopened
  rw [htaken, hack] at hacked
  rcases hacked with ⟨q, hq, heq⟩ | ⟨hall, -⟩
  · rw [Nat.le_zero.1 hq] at heq
    exact absurd heq (by decide)
  · exact absurd hall (by decide)

theorem not_received : ¬ ∀ (mac : Mac) (ticks : UInt64) (world : List Arrival) (n : ℕ) (calls : List Call) (i : Conn)
    (irs : UInt32) (stream : Bytes),
    (∀ c seg, .arrived c seg ∈ (runCalls n calls (netInit mac ticks world)).2.events i → ∃ o, FromPeer irs stream seg o) →
      Received irs stream ((runCalls n calls (netInit mac ticks world)).2.view i) := by
  intro h
  have hrun := h ourMac 0 (hearing earlyFin) earlyFin.length connectAndPoll firstConn 5000 [7]
  rw [← after_eq] at hrun
  exact not_received_earlyFin (hrun fromPeer_earlyFin)

/-- The same peer, with its segments in order. -/
def inOrder : List Bytes := [peerArp, peerFrame 5000 1001 (TCP_SYN ||| TCP_ACK) [], peerFrame 5001 1001 TCP_ACK [7]]

theorem events_inOrder : (after connectAndPoll inOrder).events firstConn =
    [.sent TCP_ACK 1001 0, .arrived openedConn ⟨80, 49152, 5001, 1001, TCP_ACK, [7]⟩, .sent TCP_ACK 1001 0,
      .arrived waitingConn synAck, .sent TCP_SYN 1000 0] := by
  decide +kernel

theorem orderly_inOrder : Every (Orderly 5000 [7]) ((after connectAndPoll inOrder).events firstConn) := by
  have hbyte : Orderly 5000 [7] [.sent TCP_ACK 1001 0, .arrived waitingConn synAck, .sent TCP_SYN 1000 0]
      (.arrived openedConn ⟨80, 49152, 5001, 1001, TCP_ACK, [7]⟩) := by
    refine ⟨0, ?_, ?_⟩
    · exact {
        syn := fun hsyn => absurd hsyn (by decide)
        seqNum := fun _ => rfl
        data := List.prefix_rfl
        fin := fun hfin => absurd hfin (by decide) }
    · exact {
        awaited := fun _ => rfl
        room := fun _ => by decide
        fin := fun hpeer => absurd hpeer.2.1 (by decide)
        lastFin := fun hlast => absurd hlast.2.1 (by decide) }
  have hsynAck : Orderly 5000 [7] [.sent TCP_SYN 1000 0] (.arrived waitingConn synAck) := by
    refine ⟨0, fromPeer_synAck [7], ?_⟩
    exact {
      awaited := fun htakes => absurd htakes.2.1 (by decide)
      room := fun _ => by decide
      fin := fun hpeer => absurd hpeer.2.1 (by decide)
      lastFin := fun hlast => absurd hlast.2.1 (by decide) }
  rw [events_inOrder]
  exact And.intro trivial (And.intro hbyte (And.intro trivial (And.intro hsynAck (And.intro trivial trivial))))

theorem tcp_received_inOrder : Received 5000 [7] ((after connectAndPoll inOrder).view firstConn) := by
  have hrun := tcp_received ourMac 0 (hearing inOrder) inOrder.length connectAndPoll firstConn 5000 [7]
  rw [← after_eq] at hrun
  exact hrun orderly_inOrder

end Tg11Kernel.Net
