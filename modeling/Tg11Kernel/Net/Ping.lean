import Tg11Kernel.Net.ArpCache
import Tg11Kernel.Net.Bounds

/-! The `ping` command. A request takes the first free slot, and the slot is free again when
its reply has been seen. When the reply does not come in time the slot stays taken, and a
later reply is found by the next invocation that uses the sequence number. -/

namespace Tg11Kernel.Net

open Lib Exec Relation

variable {s t u v : Stack} {seq : UInt16} {T : UInt64} {rtt : UInt64}

/-! ### The command -/

/-- What is printed for a request. -/
inductive PingLine where
  | reply (seq : UInt16) (rtt : UInt64)
  | timeout (seq : UInt16)
  | sendFailed

/-- The polls after a request, with a look at the slots behind each. -/
def awaitReply (n : ℕ) (seq : UInt16) : ℕ → Exec Stack (Option UInt64)
  | 0 => pure none
  | k + 1 => do
    netPoll n
    match ← netPingCheck seq with
    | some rtt => pure (some rtt)
    | none => awaitReply n seq k

def PingLine.ofAnswer (seq : UInt16) : Option UInt64 → PingLine
  | some rtt => .reply seq rtt
  | none => .timeout seq

/-- The requests from `seq` on. -/
def pingLoop (n : ℕ) (dst : Ip) : ℕ → UInt16 → Exec Stack (List PingLine)
  | 0, _ => pure []
  | k + 1, seq => do
    let ok ← netPing n dst seq
    if ok = true then do
      let answer ← awaitReply n seq 300
      let lines ← pingLoop n dst k (seq + 1)
      pure (.ofAnswer seq answer :: lines)
    else pure [.sendFailed]

/-- `cmd_ping` behind the reading of its arguments, which leaves a count of at most 100. -/
def cmdPing (n : ℕ) (dst : Ip) (count : Fin 101) : Exec Stack (List PingLine) := pingLoop n dst count 1

/-! ### Slots -/

def PingSlot.Free (p : PingSlot) : Prop := p.active = false ∧ p.replied = false

/-- No slot is taken. -/
structure SlotsFree (s : Stack) : Prop where
  free : ∀ p ∈ s.pingSlots, p.Free
  nonempty : s.pingSlots ≠ []

/-- The first slot waits for the reply to a request that was sent at `T`. -/
def Outstanding (seq : UInt16) (T : UInt64) (s : Stack) : Prop :=
  ∃ p rest, s.pingSlots = p :: rest ∧ p.active = true ∧ p.replied = false ∧ p.seq = seq ∧ p.sendTick = T ∧ ∀ q ∈ rest, q.Free

/-- The first slot has its reply. -/
def Filled (seq : UInt16) (rtt : UInt64) (s : Stack) : Prop :=
  ∃ p rest, s.pingSlots = p :: rest ∧ p.active = false ∧ p.replied = true ∧ p.seq = seq ∧ p.rttMs = rtt ∧ ∀ q ∈ rest, q.Free

/-- The slot is taken for the sequence number. -/
def Taken (j : ℕ) (seq : UInt16) (s : Stack) : Prop :=
  ∃ p, s.pingSlots[j]? = some p ∧ p.seq = seq ∧ (p.active = true ∨ p.replied = true)

theorem not_taken {j : ℕ} {p : PingSlot} (hp : s.pingSlots[j]? = some p) (hfree : p.Free) : ¬ Taken j seq s := by
  rintro ⟨q, hq, -, htaken⟩
  obtain rfl : p = q := by simpa [hp] using hq
  rw [hfree.1, hfree.2] at htaken
  simp at htaken

/-- The frame is an echo reply to a request with the number. -/
def Echoes (ip : Ip) (seq : UInt16) (frame : Bytes) : Prop :=
  ∃ msg, echoOf ip frame = some msg ∧ msg.ident = pingIdent ∧ msg.seq = seq

/-! ### A reply -/

section Reply

variable {msg : IcmpMsg}

/-- The test of `handle_icmp`. -/
def PingSlot.awaits (msg : IcmpMsg) (p : PingSlot) : Bool := p.active && decide (msg.ident = pingIdent) && decide (msg.seq = p.seq)

theorem findIdx_free {l : List PingSlot} (h : ∀ q ∈ l, q.active = false) : l.findIdx? (PingSlot.awaits msg) = none := by
  rw [List.findIdx?_eq_none_iff]
  intro q hq
  simp [PingSlot.awaits, h q hq]

theorem pingReply_none (h : s.pingSlots.findIdx? (PingSlot.awaits msg) = none) : (pingReply msg s).2 = s := by
  unfold PingSlot.awaits at h
  unfold pingReply Exec.modify
  simp only [h]

theorem pingReply_some {i : ℕ} (h : s.pingSlots.findIdx? (PingSlot.awaits msg) = some i) :
    (pingReply msg s).2.pingSlots =
      s.pingSlots.modify i fun p => { p with rttMs := (s.ticks - p.sendTick) * 10, replied := true, active := false } := by
  unfold PingSlot.awaits at h
  unfold pingReply Exec.modify
  simp only [h]

theorem pingReply_idle (h : ∀ q ∈ s.pingSlots, q.active = false) : (pingReply msg s).2 = s := pingReply_none (findIdx_free h)

theorem Outstanding.reply (h : Outstanding seq T s) :
    (msg.ident = pingIdent ∧ msg.seq = seq → Filled seq ((s.ticks - T) * 10) (pingReply msg s).2) ∧
    (¬ (msg.ident = pingIdent ∧ msg.seq = seq) → (pingReply msg s).2 = s) := by
  obtain ⟨p, rest, hslots, hactive, hreplied, rfl, rfl, hrest⟩ := h
  constructor
  · rintro ⟨hident, hseq⟩
    have hfirst : s.pingSlots.findIdx? (PingSlot.awaits msg) = some 0 := by
      rw [hslots, List.findIdx?_cons]
      simp [PingSlot.awaits, hactive, hident, hseq]
    have hfilled := pingReply_some hfirst
    rw [hslots, List.modify_zero_cons] at hfilled
    exact ⟨_, rest, hfilled, rfl, rfl, rfl, rfl, hrest⟩
  · intro hother
    apply pingReply_none
    rw [hslots, List.findIdx?_cons, findIdx_free fun q hq => (hrest q hq).1]
    have hno : p.awaits msg = false := by
      unfold PingSlot.awaits
      rw [hactive, Bool.true_and, ← Bool.not_eq_true, Bool.and_eq_true, decide_eq_true_eq, decide_eq_true_eq]
      exact hother
    simp [hno]

/-- A reply takes a slot from nobody. -/
theorem Taken.reply {j : ℕ} (h : Taken j seq s) : Taken j seq (pingReply msg s).2 := by
  obtain ⟨p, hj, hseq, htaken⟩ := h
  cases hfind : s.pingSlots.findIdx? (PingSlot.awaits msg) with
  | none =>
    rw [pingReply_none hfind]
    exact ⟨p, hj, hseq, htaken⟩
  | some i =>
    unfold Taken
    rw [pingReply_some hfind]
    by_cases hij : i = j
    · subst hij
      refine ⟨{ p with rttMs := (s.ticks - p.sendTick) * 10, replied := true, active := false }, ?_, hseq, .inr rfl⟩
      rw [List.getElem?_modify_eq, hj]
      rfl
    · exact ⟨p, by simp [List.getElem?_modify_ne, hij, hj], hseq, htaken⟩

end Reply

/-! ### Frames -/

section Frames

variable {frame : Bytes} {rx : List Bytes}

/-- Of the ping slots a frame changes what a reply does. -/
theorem exists_took (s : Stack) (frame : Bytes) (rx : List Bytes) : ∃ w : Stack, (s.receive frame rx).took frame = w.echoed frame ∧
    w.pingSlots = s.pingSlots ∧ w.ticks = s.ticks ∧ w.cfg = s.cfg := by
  refine ⟨(s.receive frame rx).sees frame, rfl, ?_⟩
  unfold Stack.sees
  split <;> exact ⟨rfl, rfl, rfl⟩

theorem echoed_some {msg : IcmpMsg} (h : echoOf s.cfg.ip frame = some msg) : s.echoed frame = (pingReply msg s).2 := by
  unfold Stack.echoed
  rw [h]

theorem pingReply_cfg (msg : IcmpMsg) (s : Stack) : (pingReply msg s).2.cfg = s.cfg := by
  unfold pingReply Exec.modify
  simp only
  split <;> rfl

theorem FrameMove.cfg (h : FrameMove s t) : t.cfg = s.cfg := by
  cases h with
  | quiet _ h => exact congrArg Prod.fst h
  | took frame rx =>
    obtain ⟨w, hw, -, -, hcfg⟩ := exists_took s frame rx
    rw [hw, ← hcfg]
    cases hecho : echoOf w.cfg.ip frame with
    | none => rw [echoed_none hecho]
    | some msg => rw [echoed_some hecho, pingReply_cfg]

theorem FrameMoves.cfg (h : FrameMoves s t) : t.cfg = s.cfg := by
  induction h with
  | refl => rfl
  | tail _ hmove ih => exact hmove.cfg.trans ih

theorem FrameMove.slots (h : t.overheard = s.overheard) : t.pingSlots = s.pingSlots := congrArg (fun p => p.2.2.2.1) h

theorem Outstanding.congr (h : Outstanding seq T s) (hslots : t.pingSlots = s.pingSlots) : Outstanding seq T t := by
  unfold Outstanding
  rwa [hslots]

/-- What holds of the slots and is kept by every reply is kept while frames are handled. -/
theorem FrameMoves.slots_keep {P : List PingSlot → Prop} (hreply : ∀ msg s, P s.pingSlots → P (pingReply msg s).2.pingSlots)
    (hmoves : FrameMoves s t) (h : P s.pingSlots) : P t.pingSlots := by
  induction hmoves with
  | refl => exact h
  | @tail t u _ hmove ih =>
    cases hmove with
    | quiet _ h => rwa [FrameMove.slots h]
    | took frame rx =>
      obtain ⟨w, hw, hslots, -, -⟩ := exists_took t frame rx
      rw [← hslots] at ih
      rw [hw]
      cases hecho : echoOf w.cfg.ip frame with
      | none => rwa [echoed_none hecho]
      | some msg =>
        rw [echoed_some hecho]
        exact hreply msg w ih

theorem SlotsFree.moves (h : SlotsFree s) (hmoves : FrameMoves s t) : SlotsFree t := by
  have hkept : (∀ p ∈ t.pingSlots, p.Free) ∧ t.pingSlots ≠ [] := by
    refine hmoves.slots_keep (P := fun l => (∀ p ∈ l, p.Free) ∧ l ≠ []) (fun msg s hs => ?_) ⟨h.free, h.nonempty⟩
    rwa [pingReply_idle fun q hq => (hs.1 q hq).1]
  exact ⟨hkept.1, hkept.2⟩

theorem Taken.moves {j : ℕ} (h : Taken j seq s) (hmoves : FrameMoves s t) : Taken j seq t :=
  hmoves.slots_keep (P := fun l => ∃ p, l[j]? = some p ∧ p.seq = seq ∧ (p.active = true ∨ p.replied = true))
    (fun _ _ hs => Taken.reply hs) h

/-- A reply to the request that was sent in `v` has been handled, and the time is measured
from there to the state in which it was. -/
def Measured (v : Stack) (seq : UInt16) (rtt : UInt64) (t : Stack) : Prop :=
  ∃ u frame rx w, FrameMoves v u ∧ Echoes v.cfg.ip seq frame ∧ FrameMoves ((u.receive frame rx).took frame) w ∧ w.handled = t.handled ∧
    rtt = (u.ticks - v.ticks) * 10

/-- A reply to the request is among the frames. -/
def Heeded (v : Stack) (seq : UInt16) (t : Stack) : Prop := ∃ frame ∈ handledIn v t, Echoes v.cfg.ip seq frame

theorem Filled.move {t u : Stack} (h : Filled seq rtt t) (hmove : FrameMove t u) : Filled seq rtt u := by
  have hidle : ∀ w : Stack, w.pingSlots = t.pingSlots → ∀ q ∈ w.pingSlots, q.active = false := by
    intro w hw q hq
    obtain ⟨p, rest, hslots, hactive, -, -, -, hrest⟩ := h
    rw [hw, hslots, List.mem_cons] at hq
    rcases hq with rfl | hq
    · exact hactive
    · exact (hrest q hq).1
  have hcongr : ∀ w : Stack, w.pingSlots = t.pingSlots → Filled seq rtt w := by
    intro w hw
    unfold Filled
    rwa [hw]
  cases hmove with
  | quiet _ h => exact hcongr _ (FrameMove.slots h)
  | took frame rx =>
    obtain ⟨w, hw, hslots, -, -⟩ := exists_took t frame rx
    rw [hw]
    cases hecho : echoOf w.cfg.ip frame with
    | none =>
      rw [echoed_none hecho]
      exact hcongr w hslots
    | some msg =>
      rw [echoed_some hecho, pingReply_idle (hidle w hslots)]
      exact hcongr w hslots

/-- While a request waits: no reply has been handled, or one has and its time is in the slot. -/
inductive Waiting (v : Stack) (seq : UInt16) (t : Stack) : Prop
  | pending (hslot : Outstanding seq v.ticks t) (hnot : ¬ Heeded v seq t)
  | filled (u : Stack) (frame : Bytes) (rx : List Bytes) (hbefore : FrameMoves v u) (hecho : Echoes v.cfg.ip seq frame)
    (hafter : FrameMoves ((u.receive frame rx).took frame) t) (hslot : Filled seq ((u.ticks - v.ticks) * 10) t)

theorem FrameMoves.heard (h : FrameMoves s t) : Heard s t := .of_moves (ReflTransGen.mono (fun _ _ hmove => hmove.heard) _ _ h)

theorem handledIn_took (s : Stack) (frame : Bytes) (rx : List Bytes) : handledIn s ((s.receive frame rx).took frame) = [frame] := by
  have hhandled : ((s.receive frame rx).took frame).handled = s.handled ++ [frame] := by
    have hecho : ∀ w : Stack, (w.echoed frame).handled = w.handled := by
      intro w
      unfold Stack.echoed
      split
      · rfl
      · unfold pingReply Exec.modify
        simp only
        split <;> rfl
    unfold Stack.took
    rw [hecho]
    unfold Stack.sees
    split <;> rfl
  unfold handledIn
  rw [hhandled, List.drop_left]

theorem heeded_append {gs : List Bytes} (h : handledIn v u = handledIn v t ++ gs) :
    Heeded v seq u ↔ Heeded v seq t ∨ ∃ frame ∈ gs, Echoes v.cfg.ip seq frame := by
  unfold Heeded
  rw [h]
  simp only [List.mem_append, or_and_right, exists_or]

theorem Waiting.move {t u : Stack} (hmoves : FrameMoves v t) (h : Waiting v seq t) (hmove : FrameMove t u) : Waiting v seq u := by
  have hall := handledIn_trans hmoves.heard hmove.heard
  cases h with
  | filled u' frame rx hbefore hecho hafter hslot => exact .filled u' frame rx hbefore hecho (hafter.tail hmove) (hslot.move hmove)
  | pending hslot hnot =>
    cases hmove with
    | quiet _ h =>
      have hhandled : handledIn t u = [] := handledIn_same (congrArg (fun p => p.2.2.2.2) h)
      refine .pending (hslot.congr (FrameMove.slots h)) ?_
      rw [heeded_append hall, hhandled]
      simp [hnot]
    | took frame rx =>
      rw [handledIn_took] at hall
      obtain ⟨w, hw, hslots, hticks, hcfg⟩ := exists_took t frame rx
      have hip : w.cfg.ip = v.cfg.ip := by rw [hcfg, hmoves.cfg]
      have hpending : Outstanding seq v.ticks w := hslot.congr hslots
      by_cases hecho : Echoes v.cfg.ip seq frame
      · obtain ⟨msg, hmsg, hmatch⟩ := id hecho
        refine .filled t frame rx hmoves hecho .refl ?_
        rw [← hip] at hmsg
        rw [hw, echoed_some hmsg, ← hticks]
        exact hpending.reply.1 hmatch
      · have hsame : (t.receive frame rx).took frame = w := by
          rw [hw]
          cases hmsg : echoOf w.cfg.ip frame with
          | none => exact echoed_none hmsg
          | some msg =>
            rw [echoed_some hmsg]
            apply hpending.reply.2
            intro hmatch
            rw [hip] at hmsg
            exact hecho ⟨msg, hmsg, hmatch⟩
        refine .pending ?_ ?_
        · rw [hsame]
          exact hpending
        · rw [heeded_append hall]
          simp [hnot, hecho]

theorem Waiting.moves (h : Outstanding seq v.ticks v) (hmoves : FrameMoves v t) : Waiting v seq t := by
  induction hmoves with
  | refl =>
    refine .pending h ?_
    unfold Heeded
    rw [handledIn_same rfl]
    simp
  | tail hmoves hmove ih => exact ih.move hmoves hmove

/-- A reply that has filled the slot was handled. -/
theorem heeded_of_filled {frame : Bytes} {rx : List Bytes} (hbefore : FrameMoves v u) (hecho : Echoes v.cfg.ip seq frame)
    (hafter : FrameMoves ((u.receive frame rx).took frame) t) : Heeded v seq t := by
  have htook : FrameMoves u ((u.receive frame rx).took frame) := .single (.took u frame rx)
  have hrest : FrameMoves u t := htook.trans hafter
  have hall := handledIn_trans hbefore.heard hrest.heard
  rw [handledIn_trans htook.heard hafter.heard, handledIn_took] at hall
  refine ⟨frame, ?_, hecho⟩
  rw [hall]
  simp

theorem Waiting.heeded_iff (h : Waiting v seq t) : Heeded v seq t ↔ ¬ Outstanding seq v.ticks t := by
  cases h with
  | pending hslot hnot => exact ⟨fun hh => absurd hh hnot, fun hh => absurd hslot hh⟩
  | filled u frame rx hbefore hecho hafter hslot =>
    refine ⟨fun _ hpending => ?_, fun _ => heeded_of_filled hbefore hecho hafter⟩
    obtain ⟨p, rest, hslots, hactive, -⟩ := hpending
    obtain ⟨q, rest', hslots', hdone, -⟩ := hslot
    rw [hslots] at hslots'
    obtain ⟨rfl, rfl⟩ := List.cons.inj hslots'
    rw [hactive] at hdone
    cases hdone

end Frames

/-! ### Looking for a reply -/

section Check

/-- The test of `net_ping_check`. -/
def PingSlot.answers (seq : UInt16) (p : PingSlot) : Bool := p.replied && decide (p.seq = seq)

theorem check_none (h : s.pingSlots.findIdx? (PingSlot.answers seq) = none) : netPingCheck seq s = (.ok none, s) := by
  unfold PingSlot.answers at h
  unfold netPingCheck
  simp only [h]

theorem check_some {i : ℕ} (h : s.pingSlots.findIdx? (PingSlot.answers seq) = some i) :
    netPingCheck seq s = (.ok (s.pingSlots[i]?.map (·.rttMs)),
      { s with pingSlots := s.pingSlots.modify i fun p => { p with replied := false } }) := by
  unfold PingSlot.answers at h
  unfold netPingCheck
  simp only [h]

theorem check_pending (h : Outstanding seq T s) : netPingCheck seq s = (.ok none, s) := by
  obtain ⟨p, rest, hslots, -, hreplied, -, -, hrest⟩ := h
  apply check_none
  rw [List.findIdx?_eq_none_iff, hslots]
  intro q hq
  unfold PingSlot.answers
  rcases List.mem_cons.1 hq with rfl | hq
  · rw [hreplied, Bool.false_and]
  · rw [(hrest q hq).2, Bool.false_and]

/-- The reply is taken out of its slot. -/
theorem check_filled (h : Filled seq rtt s) :
    ∃ t, netPingCheck seq s = (.ok (some rtt), t) ∧ SlotsFree t ∧ t.handled = s.handled ∧ t.world = s.world ∧ t.up = s.up := by
  obtain ⟨p, rest, hslots, hactive, hreplied, rfl, rfl, hrest⟩ := h
  have hfirst : s.pingSlots.findIdx? (PingSlot.answers p.seq) = some 0 := by
    rw [hslots, List.findIdx?_cons]
    simp [PingSlot.answers, hreplied]
  have hrun := check_some hfirst
  rw [hslots, List.modify_zero_cons, List.getElem?_cons_zero, Option.map_some] at hrun
  refine ⟨_, hrun, ⟨?_, List.cons_ne_nil _ _⟩, rfl, rfl, rfl⟩
  intro q hq
  rcases List.mem_cons.1 hq with rfl | hq
  · exact ⟨hactive, rfl⟩
  · exact hrest q hq

/-- A look for one number takes no slot of another. -/
theorem check_taken {j : ℕ} {q : UInt16} (h : Taken j q s) (hne : q ≠ seq) : Taken j q (netPingCheck seq s).2 := by
  cases hfind : s.pingSlots.findIdx? (PingSlot.answers seq) with
  | none => rwa [check_none hfind]
  | some i =>
    obtain ⟨p, hj, hseq, htaken⟩ := h
    have hij : i ≠ j := by
      rintro rfl
      obtain ⟨hi, hmatch, -⟩ := List.findIdx?_eq_some_iff_getElem.1 hfind
      obtain rfl : s.pingSlots[i] = p := by simpa [List.getElem?_eq_getElem hi] using hj
      unfold PingSlot.answers at hmatch
      rw [Bool.and_eq_true, decide_eq_true_eq] at hmatch
      exact hne (hseq.symm.trans hmatch.2)
    rw [check_some hfind]
    exact ⟨p, by simp [List.getElem?_modify_ne, hij, hj], hseq, htaken⟩

end Check

/-! ### The wait for a reply -/

section Await

variable {n k : ℕ}

/-- So many calls of `net_poll`. -/
def pollTimes (n k : ℕ) (s : Stack) : Stack := (fun u => (netPoll n u).2)^[k] s

theorem pollTimes_moves (n k : ℕ) (s : Stack) : FrameMoves s (pollTimes n k s) := by
  induction k generalizing s with
  | zero => exact .refl
  | succ k ih => exact (hears_netPoll n s).trans (ih _)

theorem FrameMoves.up (h : FrameMoves s t) : t.up = s.up := by
  have hmove : ∀ u w : Stack, FrameMove u w → w.up = u.up := by
    intro u w hmove
    cases hmove with
    | quiet _ h => exact congrArg (fun p => p.2.1) h
    | took frame rx =>
      have hsees : ((u.receive frame rx).sees frame).up = u.up := by
        unfold Stack.sees
        split <;> rfl
      have hecho : ∀ v : Stack, (v.echoed frame).up = v.up := by
        intro v
        unfold Stack.echoed
        split
        · rfl
        · unfold pingReply Exec.modify
          simp only
          split <;> rfl
      exact (hecho _).trans hsees
  induction h with
  | refl => rfl
  | tail _ h ih => exact (hmove _ _ h).trans ih

theorem netPoll_returns (hn : s.world.length ≤ n) : ∃ u, netPoll n s = (.ok (), u) ∧ u.world.length ≤ s.world.length := by
  obtain ⟨_, u, hrun, hworld⟩ | ⟨_, _, hfalse⟩ := ends_netPoll n s hn
  · exact ⟨u, hrun, by omega⟩
  · exact hfalse.elim

theorem heeded_mono (h : FrameMoves v t) (h' : FrameMoves t u) (hh : Heeded v seq t) : Heeded v seq u := by
  rw [heeded_append (handledIn_trans h.heard h'.heard)]
  exact .inl hh

/-- How the wait for a reply ends, when one is handled in so many polls and when none is. -/
structure Awaited (v : Stack) (seq : UInt16) (n k : ℕ) (s : Stack) : Prop where
  answered : Heeded v seq (pollTimes n k s) → ∃ rtt t, awaitReply n seq k s = (.ok (some rtt), t) ∧ SlotsFree t ∧
    Measured v seq rtt t ∧ t.world.length ≤ s.world.length ∧ t.up = s.up
  unanswered : ¬ Heeded v seq (pollTimes n k s) → ∃ t, awaitReply n seq k s = (.ok none, t) ∧ Outstanding seq v.ticks t

theorem awaitReply_spec (hstart : Outstanding seq v.ticks v) (hmoves : FrameMoves v s) (hslot : Outstanding seq v.ticks s)
    (hn : s.world.length ≤ n) : Awaited v seq n k s := by
  induction k generalizing s with
  | zero =>
    constructor
    · exact fun hh => absurd hslot ((Waiting.moves hstart hmoves).heeded_iff.1 hh)
    · exact fun _ => ⟨s, rfl, hslot⟩
  | succ k ih =>
    obtain ⟨u, hpoll, hworld⟩ := netPoll_returns hn
    have hstep : FrameMoves s u := by
      have h := hears_netPoll n s
      unfold Leads at h
      rwa [hpoll] at h
    have hu : FrameMoves v u := hmoves.trans hstep
    have htimes : pollTimes n (k + 1) s = pollTimes n k u := by
      unfold pollTimes
      rw [Function.iterate_succ_apply, hpoll]
    have hrun : awaitReply n seq (k + 1) s = (do
        match ← netPingCheck seq with
        | some rtt => pure (some rtt)
        | none => awaitReply n seq k : Exec Stack (Option UInt64)) u := bind_ok hpoll
    rcases Waiting.moves hstart hu with ⟨hpending, -⟩ | ⟨w, frame, rx, hbefore, hecho, hafter, hfilled⟩
    · have hrest : awaitReply n seq (k + 1) s = awaitReply n seq k u := by
        rw [hrun, bind_ok (check_pending hpending)]
      have hawaited := ih hu hpending (by omega)
      constructor
      · intro hh
        rw [htimes] at hh
        obtain ⟨rtt, t, hend, hfree, hmeasured, hlen, hup⟩ := hawaited.answered hh
        exact ⟨rtt, t, hrest.trans hend, hfree, hmeasured, by omega, hup.trans hstep.up⟩
      · intro hh
        rw [htimes] at hh
        obtain ⟨t, hend, hslot⟩ := hawaited.unanswered hh
        exact ⟨t, hrest.trans hend, hslot⟩
    · constructor
      · intro _
        obtain ⟨t, hcheck, hfree, hhandled, hlen, hup⟩ := check_filled hfilled
        refine ⟨_, t, ?_, hfree, ⟨w, frame, rx, u, hbefore, hecho, hafter, hhandled.symm, rfl⟩, by rw [hlen]; exact hworld, hup.trans hstep.up⟩
        rw [hrun, bind_ok hcheck]
        rfl
      · intro hnot
        rw [htimes] at hnot
        exact absurd (heeded_mono hu (pollTimes_moves n k u) (heeded_of_filled hbefore hecho hafter)) hnot

/-- A slot of another number stays taken. -/
theorem awaitReply_taken {j : ℕ} {q : UInt16} (h : Taken j q s) (hne : q ≠ seq) : Taken j q (awaitReply n seq k s).2 := by
  induction k generalizing s with
  | zero => exact h
  | succ k ih =>
    apply bind_state (I := Taken j q) (h.moves (hears_netPoll n s))
    intro _ t ht
    apply bind_state (I := Taken j q) (check_taken ht hne)
    intro answer u hu
    cases answer with
    | some rtt => exact hu
    | none => exact ih hu

end Await

/-! ### Sending a request -/

section Request

variable {n : ℕ} {dst : Ip}

/-- How a request from free slots ends: the host is not resolved, or the first slot waits. -/
inductive Requested (n : ℕ) (dst : Ip) (seq : UInt16) (s : Stack) : Prop
  | unresolved (u : Stack) (hresolve : resolveMac (netPoll n) n dst s = (.ok none, u)) (hrun : netPing n dst seq s = (.ok false, u))
    (hfree : SlotsFree u) (hworld : u.world.length ≤ s.world.length) (hup : u.up = s.up)
  | sent (u : Stack) (hrun : netPing n dst seq s = (.ok true, u)) (hslot : Outstanding seq u.ticks u)
    (hworld : u.world.length ≤ s.world.length) (hup : u.up = s.up)

theorem netPing_spec (h : SlotsFree s) (hup : s.up = true) (hn : s.world.length ≤ n) (dst : Ip) (seq : UInt16) : Requested n dst seq s := by
  have hfirst : (s.pingSlots.findIdx? fun p => !p.active && !p.replied) = some 0 := by
    obtain ⟨p, rest, hslots⟩ := List.exists_cons_of_ne_nil h.nonempty
    obtain ⟨hactive, hreplied⟩ := h.free p (by rw [hslots]; exact List.mem_cons_self)
    rw [hslots, List.findIdx?_cons]
    simp [hactive, hreplied]
  have hslot : (gets fun s : Stack => s.pingSlots.findIdx? fun p => !p.active && !p.replied) s = (.ok (some 0), s) := by
    rw [gets_apply, hfirst]
  have hrun := congrFun (netPing.eq_def n dst seq) s
  rw [bind_ok hslot] at hrun
  obtain ⟨mac, u, hresolve, hworld⟩ | ⟨_, _, hfalse⟩ := returns_resolveMac (polls_netPoll n) hn dst
  · have hmoves : FrameMoves s u := by
      have h := hears_resolveMac (n := n) (hears_netPoll n) dst s
      unfold Leads at h
      rwa [hresolve] at h
    have hfree := h.moves hmoves
    cases mac with
    | none => exact .unresolved u hresolve (hrun.trans (bind_ok hresolve)) hfree hworld hmoves.up
    | some dstMac =>
      replace hrun := hrun.trans (bind_ok hresolve)
      obtain ⟨p, rest, hslots⟩ := List.exists_cons_of_ne_nil hfree.nonempty
      have hlen : ¬ (ipv4Packet IP_PROTO_ICMP u.cfg.ip dst (icmpMessage 8 0 (be16 pingIdent ++ be16 seq ++ pingData))).length + ETH_HLEN > 1518 := by
        simp [ipv4Packet, ipv4Hdr, icmpMessage, icmpHdr, be16, le16, Ip.bytes, pingData, ETH_HLEN]
      have hsend : ∀ w : Stack, w.up = true → ∃ frames, sendEth dstMac ETH_TYPE_IPV4
          (ipv4Packet IP_PROTO_ICMP u.cfg.ip dst (icmpMessage 8 0 (be16 pingIdent ++ be16 seq ++ pingData))) w =
            (.ok true, { w with sent := frames }) := by
        intro w hw
        unfold sendEth
        rw [if_neg hlen]
        exact ⟨_, if_pos hw⟩
      obtain ⟨frames, hsent⟩ := hsend { u with pingSlots := u.pingSlots.set 0 ⟨seq, u.ticks, 0, true, false⟩ } (hmoves.up.trans hup)
      refine .sent _ (hrun.trans hsent) ⟨⟨seq, u.ticks, 0, true, false⟩, rest, ?_, rfl, rfl, rfl, rfl, ?_⟩ hworld hmoves.up
      · show u.pingSlots.set 0 _ = _
        rw [hslots]
        rfl
      · intro q hq
        exact hfree.free q (by rw [hslots]; exact List.mem_cons_of_mem _ hq)
  · exact hfalse.elim

/-- A request takes a free slot. -/
theorem netPing_taken {j : ℕ} {q : UInt16} (h : Taken j q s) : Taken j q (netPing n dst seq s).2 := by
  apply bind_state_of (I := Taken j q) (m := gets fun s : Stack => s.pingSlots.findIdx? fun p => !p.active && !p.replied) h
  intro slot hslot
  have hfind : (s.pingSlots.findIdx? fun p => !p.active && !p.replied) = slot := by
    rw [gets_apply] at hslot
    simpa using hslot
  cases slot with
  | none => exact h
  | some i =>
    have hij : i ≠ j := by
      rintro rfl
      obtain ⟨hi, hfree, -⟩ := List.findIdx?_eq_some_iff_getElem.1 hfind
      rw [Bool.and_eq_true, Bool.not_eq_true', Bool.not_eq_true'] at hfree
      exact not_taken (List.getElem?_eq_getElem hi) hfree h
    apply bind_state (I := Taken j q) (h.moves (hears_resolveMac (hears_netPoll n) dst s))
    intro mac u hu
    cases mac with
    | none => exact hu
    | some dstMac =>
      have hset : Taken j q { u with pingSlots := u.pingSlots.set i ⟨seq, u.ticks, 0, true, false⟩ } := by
        obtain ⟨p, hj, hseq, htaken⟩ := hu
        exact ⟨p, by simp [List.getElem?_set_ne, hij, hj], hseq, htaken⟩
      exact hset.moves (hears_sendEth dstMac ETH_TYPE_IPV4
        (ipv4Packet IP_PROTO_ICMP u.cfg.ip dst (icmpMessage 8 0 (be16 pingIdent ++ be16 seq ++ pingData))) _)

end Request

/-! ### Invocations -/

section Invocation

variable {n k : ℕ} {dst : Ip}

/-- In one poll of the wait for it each request has its reply. -/
def AllAnswered (n : ℕ) (dst : Ip) : ℕ → UInt16 → Stack → Prop
  | 0, _, _ => True
  | k + 1, seq, s =>
    (netPing n dst seq s).1 = .ok true →
      Heeded (netPing n dst seq s).2 seq (pollTimes n 300 (netPing n dst seq s).2) ∧
      AllAnswered n dst k (seq + 1) (awaitReply n seq 300 (netPing n dst seq s).2).2

/-- No request fails but for the address, and each reply that is reported was measured. -/
def Honest (n : ℕ) (dst : Ip) : ℕ → UInt16 → Stack → Prop
  | 0, _, _ => True
  | k + 1, seq, s =>
    ((netPing n dst seq s).1 = .ok false → (resolveMac (netPoll n) n dst s).1 = .ok none) ∧
    ((netPing n dst seq s).1 = .ok true →
      (∀ rtt, (awaitReply n seq 300 (netPing n dst seq s).2).1 = .ok (some rtt) →
        Measured (netPing n dst seq s).2 seq rtt (awaitReply n seq 300 (netPing n dst seq s).2).2) ∧
      Honest n dst k (seq + 1) (awaitReply n seq 300 (netPing n dst seq s).2).2)

/-- What the books of an invocation are to be: it returns with all slots free. -/
structure Bookkept (n : ℕ) (dst : Ip) (k : ℕ) (seq : UInt16) (s : Stack) : Prop where
  returns : ∃ lines, (pingLoop n dst k seq s).1 = .ok lines
  free : ∀ p ∈ (pingLoop n dst k seq s).2.pingSlots, p.Free
  honest : Honest n dst k seq s

theorem pingLoop_sent {u : Stack} (hrun : netPing n dst seq s = (.ok true, u)) : pingLoop n dst (k + 1) seq s = (do
    let answer ← awaitReply n seq 300
    let lines ← pingLoop n dst k (seq + 1)
    pure (.ofAnswer seq answer :: lines) : Exec Stack (List PingLine)) u := bind_ok hrun

theorem pingLoop_answered {u t : Stack} {answer : Option UInt64} (hrun : netPing n dst seq s = (.ok true, u))
    (hend : awaitReply n seq 300 u = (.ok answer, t)) : pingLoop n dst (k + 1) seq s =
      (((pingLoop n dst k (seq + 1) t).1.map (.ofAnswer seq answer :: ·)), (pingLoop n dst k (seq + 1) t).2) := by
  rw [pingLoop_sent hrun, bind_ok hend, bind_pure_apply]

theorem pingLoop_unresolved {u : Stack} (hrun : netPing n dst seq s = (.ok false, u)) :
    pingLoop n dst (k + 1) seq s = (.ok [.sendFailed], u) := bind_ok hrun

theorem pingLoop_taken {j : ℕ} {q : UInt16} (h : Taken j q s) (hq : q.toNat < seq.toNat) (hk : seq.toNat + k ≤ 65536) :
    Taken j q (pingLoop n dst k seq s).2 := by
  induction k generalizing s seq with
  | zero => exact h
  | succ k ih =>
    apply bind_state (I := Taken j q) (netPing_taken h)
    intro ok t ht
    split_ifs
    · have hne : q ≠ seq := by
        rintro rfl
        omega
      apply bind_state (I := Taken j q) (awaitReply_taken ht hne)
      intro answer u hu
      cases k with
      | zero => exact hu
      | succ k =>
        have hnext : (seq + 1).toNat = seq.toNat + 1 := by
          rw [UInt16.toNat_add]
          exact Nat.mod_eq_of_lt (show seq.toNat + 1 < 65536 by omega)
        rw [bind_pure_apply]
        exact ih hu (by omega) (by omega)
    · exact ht

theorem Outstanding.taken (h : Outstanding seq T s) : Taken 0 seq s := by
  obtain ⟨p, rest, hslots, hactive, -, hseq, -, -⟩ := h
  exact ⟨p, by rw [hslots]; rfl, hseq, .inl hactive⟩

/-- When every request is answered, the books are kept and the slots are free behind the invocation. -/
theorem AllAnswered.bookkept (h : SlotsFree s) (hup : s.up = true) (hn : s.world.length ≤ n) (hall : AllAnswered n dst k seq s) :
    Bookkept n dst k seq s ∧ SlotsFree (pingLoop n dst k seq s).2 ∧ (pingLoop n dst k seq s).2.up = true ∧
      (pingLoop n dst k seq s).2.world.length ≤ s.world.length := by
  induction k generalizing s seq with
  | zero => exact ⟨⟨⟨[], rfl⟩, h.free, trivial⟩, h, hup, Nat.le_refl _⟩
  | succ k ih =>
    cases netPing_spec h hup hn dst seq with
    | unresolved u hresolve hrun hfree hworld hup' =>
      rw [pingLoop_unresolved hrun]
      refine ⟨⟨⟨_, by rw [pingLoop_unresolved hrun]⟩, by rw [pingLoop_unresolved hrun]; exact hfree.free, ?_⟩, hfree, hup'.trans hup, hworld⟩
      refine ⟨fun _ => by rw [hresolve], fun htrue => ?_⟩
      rw [hrun] at htrue
      cases htrue
    | sent u hrun hslot hworld hup' =>
      have hstep := hall (by rw [hrun])
      rw [hrun] at hstep
      obtain ⟨hheeded, hrest⟩ := hstep
      obtain ⟨rtt, t, hend, hfree, hmeasured, hlen, hup''⟩ := (awaitReply_spec hslot .refl hslot (by omega)).answered hheeded
      rw [hend] at hrest
      obtain ⟨hbooks, hfree', hup3, hlen'⟩ := ih hfree (hup''.trans (hup'.trans hup)) (by omega) hrest
      have hloop := pingLoop_answered (k := k) hrun hend
      obtain ⟨lines, hlines⟩ := hbooks.returns
      refine ⟨⟨⟨.ofAnswer seq (some rtt) :: lines, by rw [hloop, hlines]; rfl⟩, by rw [hloop]; exact hbooks.free, ?_⟩, by rw [hloop]; exact hfree',
        by rw [hloop]; exact hup3, by rw [hloop]; exact hlen'.trans (by omega)⟩
      constructor
      · intro hfalse
        rw [hrun] at hfalse
        cases hfalse
      · intro _
        rw [hrun, hend]
        refine ⟨fun rtt' heq => ?_, hbooks.honest⟩
        obtain rfl : rtt = rtt' := by simpa using heq
        exact hmeasured

/-- A request that is not answered leaves its slot taken. -/
theorem Bookkept.allAnswered (h : SlotsFree s) (hup : s.up = true) (hn : s.world.length ≤ n) (hk : seq.toNat + k ≤ 65536)
    (hbooks : Bookkept n dst k seq s) : AllAnswered n dst k seq s := by
  induction k generalizing s seq with
  | zero => trivial
  | succ k ih =>
    intro htrue
    cases netPing_spec h hup hn dst seq with
    | unresolved u hresolve hrun hfree hworld hup' =>
      rw [hrun] at htrue
      cases htrue
    | sent u hrun hslot hworld hup' =>
      have hawaited := awaitReply_spec (k := 300) hslot .refl hslot (show u.world.length ≤ n by omega)
      rw [hrun]
      by_cases hheeded : Heeded u seq (pollTimes n 300 u)
      · refine ⟨hheeded, ?_⟩
        obtain ⟨rtt, t, hend, hfree, -, hlen, hup''⟩ := hawaited.answered hheeded
        have hloop := pingLoop_answered (k := k) hrun hend
        rw [hend]
        cases k with
        | zero => trivial
        | succ k =>
          have hnext : (seq + 1).toNat = seq.toNat + 1 := by
            rw [UInt16.toNat_add]
            exact Nat.mod_eq_of_lt (show seq.toNat + 1 < 65536 by omega)
          apply ih hfree (hup''.trans (hup'.trans hup)) (by omega) (by omega)
          refine ⟨?_, ?_, ?_⟩
          · obtain ⟨lines, hlines⟩ := hbooks.returns
            rw [hloop] at hlines
            cases hrest : (pingLoop n dst (k + 1) (seq + 1) t).1 with
            | ok lines' => exact ⟨lines', rfl⟩
            | fail =>
              rw [hrest] at hlines
              cases hlines
            | hang =>
              rw [hrest] at hlines
              cases hlines
          · have hfree' := hbooks.free
            rwa [hloop] at hfree'
          · have hhonest := (hbooks.honest.2 (by rw [hrun])).2
            rwa [hrun, hend] at hhonest
      · obtain ⟨t, hend, hslot'⟩ := hawaited.unanswered hheeded
        have hloop := pingLoop_answered (k := k) hrun hend
        have htaken : Taken 0 seq (pingLoop n dst (k + 1) seq s).2 := by
          rw [hloop]
          cases k with
          | zero => exact hslot'.taken
          | succ k =>
            have hnext : (seq + 1).toNat = seq.toNat + 1 := by
              rw [UInt16.toNat_add]
              exact Nat.mod_eq_of_lt (show seq.toNat + 1 < 65536 by omega)
            exact pingLoop_taken hslot'.taken (by omega) (by omega)
        obtain ⟨p, hp, -⟩ := id htaken
        exact absurd htaken (not_taken hp (hbooks.free p (List.mem_of_getElem? hp)))

end Invocation

/-! ### Every run -/

/-- A command of the terminal, or another use of the stack. -/
inductive Command where
  | ping (dst : Ip) (count : Fin 101)
  | other (call : Call) (h : ¬ call.Pings)

def Command.run (n : ℕ) : Command → Exec Stack Unit
  | .ping dst count => ignore (cmdPing n dst count)
  | .other call _ => call.run n

/-- Every invocation of a run is as `P` says, in the state in which it begins. -/
def EachPing (n : ℕ) (P : Ip → ℕ → Stack → Prop) : List Command → Stack → Prop
  | [], _ => True
  | .ping dst count :: commands, s => P dst count s ∧ EachPing n P commands ((Command.ping dst count).run n s).2
  | .other call h :: commands, s => EachPing n P commands ((Command.other call h).run n s).2

theorem ignore_state {m : Exec Stack α} (s : Stack) : (ignore m s).2 = (m s).2 := by
  unfold ignore
  rw [bind_apply]
  rcases m s with ⟨_ | _ | _, t⟩ <;> rfl

theorem eachPing_iff {n : ℕ} {commands : List Command} (h : SlotsFree s) (hup : s.up = true) (hn : s.world.length ≤ n) :
    EachPing n (fun dst count u => Bookkept n dst count 1 u) commands s ↔
      EachPing n (fun dst count u => AllAnswered n dst count 1 u) commands s := by
  induction commands generalizing s with
  | nil => exact Iff.rfl
  | cons command commands ih =>
    cases command with
    | ping dst count =>
      have hone : Bookkept n dst count 1 s ↔ AllAnswered n dst count 1 s :=
        ⟨fun hb => hb.allAnswered h hup hn (by have := count.isLt; show 1 + _ ≤ 65536; omega), fun ha => (ha.bookkept h hup hn).1⟩
      unfold EachPing
      rw [hone]
      apply and_congr_right
      intro hall
      obtain ⟨-, hfree, hup', hworld⟩ := hall.bookkept h hup hn
      have hstate : ((Command.ping dst count).run n s).2 = (pingLoop n dst count 1 s).2 := ignore_state s
      rw [hstate]
      exact ih hfree hup' (by omega)
    | other call hcall =>
      have hmoves : FrameMoves s (call.run n s).2 := hears_call n hcall s
      have hworld := (call_world n call s).length_le
      exact ih (h.moves hmoves) (hmoves.up.trans hup) (by show (call.run n s).2.world.length ≤ n; omega)

theorem slotsFree_start (mac : Mac) (ticks : UInt64) (world : List Arrival) : SlotsFree (netInit mac ticks world) where
  free := by
    intro p hp
    obtain rfl := List.eq_of_mem_replicate hp
    exact ⟨rfl, rfl⟩
  nonempty := List.cons_ne_nil _ _

/-- In every run the books of every invocation are kept exactly when every request of every
invocation has its reply in one of the polls behind it. -/
theorem ping_books (mac : Mac) (ticks : UInt64) (world : List Arrival) (k : ℕ) (commands : List Command) :
    EachPing (world.length + k) (fun dst count u => Bookkept (world.length + k) dst count 1 u) commands (netInit mac ticks world) ↔
      EachPing (world.length + k) (fun dst count u => AllAnswered (world.length + k) dst count 1 u) commands (netInit mac ticks world) :=
  eachPing_iff (slotsFree_start mac ticks world) rfl (Nat.le_add_right _ _)

/-! ### A reply that is lost -/

theorem netPoll_silent (n : ℕ) (hrx : s.rx = []) (hworld : s.world = []) : netPoll n s = (.ok (), s) := by
  have harrive : s.arrive = s := by
    unfold Stack.arrive
    rw [hworld]
  have hpoll : e1000PollRx s = (.ok none, s) := by
    unfold e1000PollRx
    rw [hrx]
    split_ifs <;> rfl
  have hloop : ∀ handle : Bytes → Exec Stack Unit, pollLoop handle 64 s = (.ok (), s) := fun handle => bind_ok hpoll
  cases n with
  | zero =>
    rw [netPoll, bind_ok (show Exec.modify Stack.arrive s = (.ok (), s.arrive) from rfl), harrive]
    exact hloop _
  | succ n =>
    rw [netPoll, bind_ok (show Exec.modify Stack.arrive s = (.ok (), s.arrive) from rfl), harrive]
    exact hloop _

theorem pollTimes_silent (n k : ℕ) (hrx : s.rx = []) (hworld : s.world = []) : pollTimes n k s = s := by
  have hfixed : (netPoll n s).2 = s := by rw [netPoll_silent n hrx hworld]
  exact Function.iterate_fixed hfixed k

/-- The address of the host is answered, and nothing else arrives. -/
def unheard : Stack := netInit ourMac 0 [⟨1, [peerArp]⟩]

theorem unheard_run : (netPing 1 peerIp 1 unheard).1 = .ok true ∧ (netPing 1 peerIp 1 unheard).2.rx = [] ∧
    (netPing 1 peerIp 1 unheard).2.world.length = 0 := by
  decide +kernel

/-- The first request of the first invocation keeps its slot. -/
theorem not_ping_books : ¬ ∀ (mac : Mac) (ticks : UInt64) (world : List Arrival) (k : ℕ) (commands : List Command),
    EachPing (world.length + k) (fun dst count u => Bookkept (world.length + k) dst count 1 u) commands (netInit mac ticks world) := by
  intro hall
  obtain ⟨hsent, hrx, hworld⟩ := unheard_run
  have heach := hall ourMac 0 [⟨1, [peerArp]⟩] 0 [.ping peerIp 1]
  have hanswered := ((eachPing_iff (slotsFree_start _ _ _) rfl (Nat.le_refl 1)).1 heach).1
  obtain ⟨⟨frame, hframe, -⟩, -⟩ := hanswered hsent
  replace hframe : frame ∈ handledIn (netPing 1 peerIp 1 unheard).2 (pollTimes 1 300 (netPing 1 peerIp 1 unheard).2) := hframe
  rw [pollTimes_silent 1 300 hrx (List.length_eq_zero_iff.1 hworld), handledIn_same rfl] at hframe
  cases hframe

end Tg11Kernel.Net
