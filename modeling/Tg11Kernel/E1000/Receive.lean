import Tg11Kernel.E1000.Driver

/-! What holds of the receive ring while every buffer holds the frame that waits: the slots
behind the tail hold the frames received and not returned, and one slot, the tail's, is
neither theirs nor the card's. -/

namespace Tg11Kernel.E1000

open Lib Function

namespace Rx

variable {rx rx' : Rx}

/-- The slots that the card has filled and the driver not given back. -/
def filled (rx : Rx) : List Slot := between (rx.tail + 1) rx.head

/-- The oldest filled slot waits, and all filled slots are marked. -/
structure Waiting (rx : Rx) : Prop where
  cur : rx.cur = rx.tail + 1
  ne : rx.cur ≠ rx.head
  done : ∀ j ∈ rx.filled, (rx.descs j).Done

/-- The frame of the oldest filled slot is copied, and its descriptor is clear again. -/
structure Copied (rx : Rx) (dst : Frame) (old : Slot) : Prop where
  oldest : old = rx.tail + 1
  ne : old ≠ rx.head
  frame : dst = rx.frame old
  clear : ¬ (rx.descs old).Done
  done : ∀ j ∈ between (old + 1) rx.head, (rx.descs j).Done

/-- What holds of the oldest filled slot where the call is. -/
def AtOldest (rx : Rx) : Polling → Prop
  | .idle => rx.cur = rx.tail + 1 ∧ ∀ j ∈ rx.filled, (rx.descs j).Done
  | .measures _ => rx.Waiting
  | .copies copyLen dst => rx.Waiting ∧ copyLen = (rx.descs rx.cur).length.toNat ∧ dst.length ≤ copyLen ∧
      dst = (rx.bufs rx.cur).firstBytes dst.length
  | .advances dst => rx.Copied dst rx.cur
  | .kicks dst oldRx => rx.cur = oldRx + 1 ∧ rx.Copied dst oldRx

/-- The frames of the filled slots are those received and not returned. -/
structure Sound (rx : Rx) : Prop where
  addr : ∀ j, (rx.descs j).addr = j
  received : rx.received = rx.returned ++ rx.filled.map rx.frame
  card : ∀ j ∈ between rx.head rx.tail, ¬ (rx.descs j).Done
  gap : ¬ (rx.descs rx.tail).Done
  atOldest : rx.AtOldest rx.polling

theorem sound_init : Sound .init := by
  have hblank : ∀ j : Slot, ¬ (⟨j, 0, 0⟩ : RxDesc).Done := fun j => by simp [RxDesc.Done]
  have hfilled : init.filled = [] := by decide
  refine ⟨fun _ => rfl, ?_, fun j _ => hblank j, hblank _, by decide, ?_⟩
  · rw [hfilled]
    rfl
  · rw [hfilled]
    simp

section

variable (h : Sound rx)
include h

theorem Sound.idle (hphase : rx.polling = .idle) : rx.cur = rx.tail + 1 ∧ ∀ j ∈ rx.filled, (rx.descs j).Done := by
  have hat := h.atOldest
  rwa [hphase] at hat

/-- A poll finds a frame exactly when one waits. -/
theorem Sound.done_iff (hphase : rx.polling = .idle) : (rx.descs rx.cur).Done ↔ rx.cur ≠ rx.head := by
  obtain ⟨hcur, hdone⟩ := h.idle hphase
  constructor
  · intro hd heq
    have hne : rx.head ≠ rx.tail := by
      rw [← heq, hcur]
      exact fun h => absurd (add_eq_left.1 h) (by decide)
    exact h.card _ (head_mem_between hne) (heq ▸ hd)
  · intro hne
    have hmem : rx.cur ∈ rx.filled := by
      rw [hcur] at hne ⊢
      exact head_mem_between hne
    exact hdone _ hmem

theorem Sound.poll {up : Bool} {bufSize : ℕ} (hs : rx.poll up bufSize = some rx') : Sound rx' := by
  unfold Rx.poll at hs
  cases hphase : rx.polling with
  | idle =>
    rw [hphase] at hs
    obtain ⟨rfl⟩ := hs
    split_ifs with hbad
    · exact h
    · obtain ⟨hcur, hdone⟩ := h.idle hphase
      have hfound : (rx.descs rx.cur).Done := by
        simp only [Bool.or_eq_true, decide_eq_true_eq, not_or, not_not] at hbad
        exact hbad.2
      exact ⟨h.addr, h.received, h.card, h.gap, hcur, (h.done_iff hphase).1 hfound, hdone⟩
  | measures n => rw [hphase] at hs; cases hs
  | copies n dst => rw [hphase] at hs; cases hs
  | advances dst => rw [hphase] at hs; cases hs
  | kicks dst oldRx => rw [hphase] at hs; cases hs

/-- The length and the buffer of a descriptor stay when its status is cleared. -/
theorem Sound.clear {copyLen : ℕ} {dst : Frame} (hphase : rx.polling = .copies copyLen dst) (hlen : ¬ dst.length < copyLen) :
    Sound { rx with descs := update rx.descs rx.cur { rx.descs rx.cur with status := 0 }, polling := .advances dst } := by
  obtain ⟨hwait, hcopy, hle, hdst⟩ : rx.Waiting ∧ copyLen = (rx.descs rx.cur).length.toNat ∧ dst.length ≤ copyLen ∧
      dst = (rx.bufs rx.cur).firstBytes dst.length := by
    have hat := h.atOldest
    rwa [hphase] at hat
  set descs := update rx.descs rx.cur { rx.descs rx.cur with status := 0 }
  have hself : descs rx.cur = { rx.descs rx.cur with status := 0 } := update_self _ _ _
  have hother : ∀ j, j ≠ rx.cur → descs j = rx.descs j := fun j hj => update_of_ne hj _ _
  have haddr : ∀ j, (descs j).addr = j := by
    intro j
    by_cases hj : j = rx.cur
    · rw [hj, hself]
      exact h.addr rx.cur
    · rw [hother j hj]
      exact h.addr j
  have hframe : ({ rx with descs := descs, polling := .advances dst } : Rx).frame = rx.frame := by
    funext j
    by_cases hj : j = rx.cur
    · simp only [frame, hj, hself]
    · simp only [frame, hother j hj]
  have hclear : ∀ j, ¬ (rx.descs j).Done → ¬ (descs j).Done := by
    intro j hj
    by_cases hjc : j = rx.cur
    · rw [hjc, hself]
      simp [RxDesc.Done]
    · rwa [hother j hjc]
  have hfilled : rx.filled = rx.cur :: between (rx.cur + 1) rx.head := by
    have hne := hwait.ne
    rw [filled, ← hwait.cur]
    exact between_of_ne hne
  have hnodup : rx.cur ∉ between (rx.cur + 1) rx.head := by
    have hnd := nodup_between (rx.tail + 1) rx.head
    rw [← filled, hfilled] at hnd
    exact (List.nodup_cons.1 hnd).1
  refine ⟨haddr, ?_, fun j hj => hclear j (h.card j hj), hclear _ h.gap, hwait.cur, hwait.ne, ?_, ?_, ?_⟩
  · rw [hframe]
    exact h.received
  · rw [hframe, frame, h.addr, ← hcopy, ← Nat.le_antisymm hle (not_lt.1 hlen)]
    exact hdst
  · show ¬ (descs rx.cur).Done
    rw [hself]
    simp [RxDesc.Done]
  · intro j hj
    show (descs j).Done
    rw [hother j (ne_of_mem_of_not_mem hj hnodup)]
    exact hwait.done j (hfilled ▸ List.mem_cons_of_mem _ hj)

/-- The slot given back becomes the gap, and the old gap the card's. -/
theorem Sound.kick {dst : Frame} {oldRx : Slot} (hphase : rx.polling = .kicks dst oldRx) :
    Sound { rx with tail := oldRx, polling := .idle, returned := rx.returned ++ [dst] } := by
  obtain ⟨hcur, hcopied⟩ : rx.cur = oldRx + 1 ∧ rx.Copied dst oldRx := by
    have hat := h.atOldest
    rwa [hphase] at hat
  have hfilled : rx.filled = oldRx :: between (oldRx + 1) rx.head := by
    rw [filled, ← hcopied.oldest]
    exact between_of_ne hcopied.ne
  have hcard : between rx.head oldRx = between rx.head rx.tail ++ [rx.tail] := by
    have hne := hcopied.ne
    rw [hcopied.oldest] at hne ⊢
    exact between_succ hne
  refine ⟨h.addr, ?_, ?_, hcopied.clear, hcur, hcopied.done⟩
  · rw [h.received, hfilled, List.map_cons, List.append_assoc, hcopied.frame]
    rfl
  · intro j hj
    change j ∈ between rx.head oldRx at hj
    rw [hcard, List.mem_append, List.mem_singleton] at hj
    rcases hj with hj | rfl
    · exact h.card j hj
    · exact h.gap

theorem Sound.pollStep (hroom : ∀ n, rx.polling = .measures n → (rx.descs rx.cur).length.toNat ≤ n)
    (hs : rx.pollStep = some rx') : Sound rx' := by
  unfold Rx.pollStep at hs
  have hat := h.atOldest
  cases hphase : rx.polling with
  | idle => rw [hphase] at hs; cases hs
  | measures n =>
    rw [hphase] at hs hat
    obtain ⟨rfl⟩ := hs
    have hwait : rx.Waiting := hat
    exact ⟨h.addr, h.received, h.card, h.gap, ⟨hwait.cur, hwait.ne, hwait.done⟩, min_eq_left (hroom n hphase), Nat.zero_le _, rfl⟩
  | copies n dst =>
    rw [hphase] at hs hat
    obtain ⟨hwait, hcopy, hle, hdst⟩ := hat
    obtain ⟨rfl⟩ := hs
    split_ifs with hlt
    · refine ⟨h.addr, h.received, h.card, h.gap, ⟨hwait.cur, hwait.ne, hwait.done⟩, hcopy, ?_, ?_⟩
      · rw [List.length_append, List.length_singleton]
        exact hlt
      · rw [List.length_append, List.length_singleton, Block.firstBytes_succ, ← hdst]
    · exact h.clear hphase hlt
  | advances dst =>
    rw [hphase] at hs hat
    obtain ⟨rfl⟩ := hs
    exact ⟨h.addr, h.received, h.card, h.gap, rfl, hat.oldest, hat.ne, hat.frame, hat.clear, hat.done⟩
  | kicks dst oldRx =>
    rw [hphase] at hs
    obtain ⟨rfl⟩ := hs
    exact h.kick hphase

theorem Sound.fillHead (hne : rx.head ≠ rx.tail) {f : Frame} (hf : f.length ≤ RX_BUF_SIZE) : Sound (rx.fillHead f) := by
  have hstep : rx.head + 1 ≠ rx.tail + 1 := fun heq => hne (add_right_cancel heq)
  have hdesc : ∀ j, j ≠ rx.head → (rx.fillHead f).descs j = rx.descs j := fun j hj => update_of_ne hj _ _
  have hbuf : ∀ j, j ≠ rx.head → (rx.fillHead f).bufs j = rx.bufs j := by
    intro j hj
    exact update_of_ne (by rwa [h.addr]) _ _
  have hframe : ∀ j, j ≠ rx.head → (rx.fillHead f).frame j = rx.frame j := by
    intro j hj
    rw [frame, hdesc j hj, h.addr, hbuf j hj, frame, h.addr]
  have hself : (rx.fillHead f).descs rx.head = { rx.descs rx.head with
      length := UInt16.ofNat f.length, status := (rx.descs rx.head).status ||| (RXD_STAT_DD ||| RXD_STAT_EOP) } := update_self _ _ _
  have hdone : ((rx.fillHead f).descs rx.head).Done := by
    rw [hself]
    exact and_or_done _ _
  have hnew : (rx.fillHead f).frame rx.head = f := by
    have hval : (UInt16.ofNat f.length).toNat = f.length := UInt16.toNat_ofNat_of_lt' (hf.trans_lt (by decide))
    have hbytes : (rx.fillHead f).bufs rx.head = (rx.bufs rx.head).store f := by
      simp only [Rx.fillHead, h.addr, update_self]
    rw [frame, hself]
    simp only [h.addr, hval, hbytes]
    exact Block.firstBytes_store _ (hf.trans (by decide))
  have hfilled : (rx.fillHead f).filled = rx.filled ++ [rx.head] := between_succ hstep
  have hmem : ∀ j ∈ rx.filled, j ≠ rx.head := fun j hj => ne_of_mem_of_not_mem hj (tail_not_mem_between _ _)
  have hmark : ∀ old, rx.head + 1 ≠ old → (∀ j ∈ between old rx.head, (rx.descs j).Done) →
      ∀ j ∈ between old (rx.head + 1), ((rx.fillHead f).descs j).Done := by
    intro old hold hall j hj
    rw [between_succ hold, List.mem_append, List.mem_singleton] at hj
    rcases hj with hj | rfl
    · rw [hdesc j (ne_of_mem_of_not_mem hj (tail_not_mem_between _ _))]
      exact hall j hj
    · exact hdone
  have hwaiting : rx.Waiting → (rx.fillHead f).Waiting := fun hw => ⟨hw.cur, hw.cur ▸ hstep.symm, hmark _ hstep hw.done⟩
  have hcopied : ∀ {dst old}, rx.Copied dst old → (rx.fillHead f).Copied dst old := fun {dst old} hc =>
    ⟨hc.oldest, hc.oldest ▸ hstep.symm, hc.frame.trans (hframe old hc.ne).symm, (hdesc old hc.ne).symm ▸ hc.clear,
      hmark _ (fun heq => hc.ne (add_right_cancel heq).symm) hc.done⟩
  refine ⟨?_, ?_, ?_, ?_, ?_⟩
  · intro j
    by_cases hj : j = rx.head
    · rw [hj, hself]
      exact h.addr rx.head
    · rw [hdesc j hj]
      exact h.addr j
  · have hmap : rx.filled.map (rx.fillHead f).frame = rx.filled.map rx.frame :=
      List.map_congr_left fun j hj => hframe j (hmem j hj)
    rw [hfilled, List.map_append, List.map_singleton, hnew, hmap]
    show rx.received ++ [f] = rx.returned ++ (rx.filled.map rx.frame ++ [f])
    rw [h.received, List.append_assoc]
  · intro j hj
    have hcard : between rx.head rx.tail = rx.head :: between (rx.head + 1) rx.tail := between_of_ne hne
    have hnd := nodup_between rx.head rx.tail
    rw [hcard, List.nodup_cons] at hnd
    rw [hdesc j (ne_of_mem_of_not_mem hj hnd.1)]
    exact h.card j (hcard ▸ List.mem_cons_of_mem _ hj)
  · show ¬ ((rx.fillHead f).descs rx.tail).Done
    rw [hdesc rx.tail hne.symm]
    exact h.gap
  · show (rx.fillHead f).AtOldest rx.polling
    have hat := h.atOldest
    cases hphase : rx.polling with
    | idle =>
      obtain ⟨hcur, hdone⟩ := h.idle hphase
      exact ⟨hcur, hmark _ hstep hdone⟩
    | measures n =>
      rw [hphase] at hat
      exact hwaiting hat
    | copies n dst =>
      rw [hphase] at hat
      obtain ⟨hwait, hcopy, hle, hdst⟩ := hat
      have hcur : (rx.fillHead f).descs rx.cur = rx.descs rx.cur := hdesc _ hwait.ne
      refine ⟨hwaiting hwait, ?_, hle, ?_⟩
      · show n = ((rx.fillHead f).descs rx.cur).length.toNat
        rwa [hcur]
      · show dst = ((rx.fillHead f).bufs rx.cur).firstBytes dst.length
        rwa [hbuf _ hwait.ne]
    | advances dst =>
      rw [hphase] at hat
      exact hcopied hat
    | kicks dst old =>
      rw [hphase] at hat
      exact ⟨hat.1, hcopied hat.2⟩

theorem Sound.receive {f : Frame} (hs : rx.receive f = some rx') : Sound rx' := by
  unfold Rx.receive at hs
  split_ifs at hs with hbad
  obtain ⟨rfl⟩ := hs
  rw [not_or, not_lt] at hbad
  exact h.fillHead hbad.1 hbad.2

end

end Rx

/-- The slot that a call of `e1000_poll_rx` is reading. -/
def Rx.Reads (rx : Rx) (j : Slot) : Prop :=
  match rx.polling with
  | .idle => False
  | .kicks _ oldRx => j = oldRx
  | _ => j = rx.cur

theorem Rx.Sound.not_reads {rx : Rx} (h : rx.Sound) {j : Slot} (hj : j ∈ between rx.head rx.tail) : ¬ rx.Reads j := by
  have hoff : ∀ old, old = rx.tail + 1 → old ≠ rx.head → j ≠ old := by
    rintro old rfl hne rfl
    exact succ_not_mem_between hne hj
  have hat := h.atOldest
  unfold Rx.Reads
  cases hphase : rx.polling with
  | idle => exact not_false
  | measures n =>
    rw [hphase] at hat
    have hwait : rx.Waiting := hat
    exact hoff _ hwait.cur hwait.ne
  | copies n dst =>
    rw [hphase] at hat
    exact hoff _ hat.1.cur hat.1.ne
  | advances dst =>
    rw [hphase] at hat
    have hcopied : rx.Copied dst rx.cur := hat
    exact hoff _ hcopied.oldest hcopied.ne
  | kicks dst old =>
    rw [hphase] at hat
    exact hoff _ hat.2.oldest hat.2.ne

theorem Rx.Sound.found {rx : Rx} (h : rx.Sound) (hphase : rx.polling = .idle) :
    (rx.descs rx.cur).Done ↔ rx.returned ≠ rx.received := by
  rw [h.done_iff hphase, (h.idle hphase).1, h.received]
  refine not_congr ?_
  rw [List.self_eq_append_right, List.map_eq_nil_iff]
  exact between_eq_nil.symm

end Tg11Kernel.E1000
