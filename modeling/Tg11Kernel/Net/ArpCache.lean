import Tg11Kernel.Lib.Assoc
import Tg11Kernel.Net.Frames
import Tg11Kernel.Net.Receiver

/-! The answers to ARP requests. The cache is a table with a fixed number of slots, and every
frame that is handled puts the sender of an ARP packet; a run of the stack does nothing else
to it. `resolve_mac` looks at the cache behind each poll, so an answer is used exactly when
it is still there behind the poll that has handled it. -/

namespace Tg11Kernel.Net

open Lib Exec Relation Assoc

variable {s t u : Stack} {α : Type}

/-- The slot of the table that an entry is. -/
def ArpEntry.pair (e : ArpEntry) : Option (Ip × Mac) := if e.valid = true then some (e.ip, e.mac) else none

def Stack.arpTable (s : Stack) : Table Ip Mac := s.arpCache.map ArpEntry.pair

def senders (frames : List Bytes) : List (Ip × Mac) := frames.filterMap senderOf

/-! ### The cache as a table -/

section Table

variable {cache : List ArpEntry} {ip : Ip} {mac : Mac}

theorem holds_pair (ip : Ip) (e : ArpEntry) : holds ip e.pair = (e.valid && decide (e.ip = ip)) := by
  unfold ArpEntry.pair
  cases h : e.valid <;> simp

theorem isNone_pair (e : ArpEntry) : e.pair.isNone = !e.valid := by
  unfold ArpEntry.pair
  cases h : e.valid <;> simp

theorem map_arpPut : (arpPut cache ip mac).map ArpEntry.pair = put (cache.map ArpEntry.pair) ip mac := by
  have hholds : holds ip ∘ ArpEntry.pair = fun e => e.valid && decide (e.ip = ip) := funext (holds_pair ip)
  have hnone : Option.isNone ∘ ArpEntry.pair = fun e => !e.valid := funext isNone_pair
  unfold put slot arpPut
  rw [List.findIdx?_map, List.findIdx?_map, hholds, hnone]
  cases hknown : cache.findIdx? fun e => e.valid && decide (e.ip = ip) with
  | some i =>
    obtain ⟨hi, hentry, -⟩ := List.findIdx?_eq_some_iff_getElem.1 hknown
    rw [Bool.and_eq_true, decide_eq_true_eq] at hentry
    apply List.ext_getElem?
    intro j
    by_cases hj : i = j
    · subst hj
      simp [ArpEntry.pair, hi, hentry.1, hentry.2]
    · simp [List.getElem?_modify_ne, List.getElem?_set_ne, hj]
  | none =>
    cases hfree : cache.findIdx? fun e => !e.valid with
    | some i => simp [ArpEntry.pair, List.map_set]
    | none => simp [ArpEntry.pair, List.map_set]

theorem arpLookup_eq (s : Stack) (ip : Ip) : s.arpLookup ip = find s.arpTable ip := by
  unfold Stack.arpLookup Stack.arpTable find
  induction s.arpCache with
  | nil => rfl
  | cons e cache ih =>
    rw [List.find?_cons, List.map_cons, List.findSome?_cons, ← ih]
    unfold ArpEntry.pair
    cases hvalid : e.valid
    · simp
    · by_cases hip : e.ip = ip <;> simp [hip]

end Table

/-! ### Frames that are handled -/

/-- Frames were handled, and the cache has their senders. -/
def Heard (s t : Stack) : Prop := ∃ frames, t.handled = s.handled ++ frames ∧ t.arpTable = puts s.arpTable (senders frames)

namespace Heard

theorem of_same (hcache : t.arpCache = s.arpCache) (hhandled : t.handled = s.handled) : Heard s t :=
  ⟨[], by rw [hhandled, List.append_nil], by unfold Stack.arpTable; rw [hcache]; rfl⟩

theorem refl (s : Stack) : Heard s s := of_same rfl rfl

theorem trans (h : Heard s t) (h' : Heard t u) : Heard s u := by
  obtain ⟨fs, hhandled, htable⟩ := h
  obtain ⟨gs, hhandled', htable'⟩ := h'
  refine ⟨fs ++ gs, ?_, ?_⟩
  · rw [hhandled', hhandled, List.append_assoc]
  · rw [htable', htable, ← puts_append, senders, senders, senders, List.filterMap_append]

theorem of_moves (h : ReflTransGen Heard s t) : Heard s t := by
  induction h with
  | refl => exact .refl s
  | tail _ hmove ih => exact ih.trans hmove

theorem handledIn_eq (h : Heard s t) : t.handled = s.handled ++ handledIn s t := by
  obtain ⟨frames, hhandled, -⟩ := h
  unfold handledIn
  rw [hhandled, List.drop_left]

theorem table (h : Heard s t) : t.arpTable = puts s.arpTable (senders (handledIn s t)) := by
  obtain ⟨frames, hhandled, htable⟩ := h
  unfold handledIn
  rw [hhandled, List.drop_left, htable]

end Heard

theorem handledIn_trans (h : Heard s t) (h' : Heard t u) : handledIn s u = handledIn s t ++ handledIn t u := by
  have hhandled := (h.trans h').handledIn_eq
  rw [h'.handledIn_eq, h.handledIn_eq, List.append_assoc] at hhandled
  exact (List.append_cancel_left hhandled).symm

theorem handledIn_same (h : t.handled = s.handled) : handledIn s t = [] := by
  unfold handledIn
  rw [h, List.drop_length]

theorem FrameMove.heard (h : FrameMove s t) : Heard s t := by
  cases h with
  | quiet _ h =>
    simp only [Stack.overheard, Prod.mk.injEq] at h
    exact .of_same h.2.2.1 h.2.2.2.2
  | took frame rx =>
    have hecho : ∀ v : Stack, (v.echoed frame).arpCache = v.arpCache ∧ (v.echoed frame).handled = v.handled := by
      intro v
      unfold Stack.echoed
      cases echoOf v.cfg.ip frame with
      | none => exact ⟨rfl, rfl⟩
      | some msg =>
        simp only [pingReply, Exec.modify]
        split <;> exact ⟨rfl, rfl⟩
    have hsees : Heard s ((s.receive frame rx).sees frame) := by
      refine ⟨[frame], ?_⟩
      unfold Stack.sees
      cases h : senderOf frame with
      | none => simp [Stack.receive, Stack.arpTable, senders, h]
      | some p => simp [Stack.receive, Stack.arpTable, senders, h, map_arpPut]
    exact hsees.trans (.of_same (hecho _).1 (hecho _).2)

theorem Hears.heard {m : Exec Stack α} (h : Hears m) (s : Stack) : Heard s (m s).2 :=
  .of_moves (ReflTransGen.mono (fun _ _ hmove => hmove.heard) _ _ (h s))

/-- The ping slots are nothing to the cache. -/
theorem heard_call (n : ℕ) (call : Call) (s : Stack) : Heard s (call.run n s).2 := by
  have hlift : ∀ {β : Type} {m : Exec Stack β}, Hears m → Walks Heard m := fun h => h.mono fun _ _ hmove => hmove.heard
  by_cases hping : call.Pings
  · cases call with
    | ping dstIp seq =>
      have hwalk : Walks Heard (netPing n dstIp seq) := by
        apply Walks.read_bind
        intro slot
        cases slot with
        | none => exact Walks.pure
        | some slot =>
          apply (hlift (hears_resolveMac (hears_netPoll n) dstIp)).bind
          intro mac
          cases mac with
          | none => exact Walks.pure
          | some dstMac =>
            exact Walks.read_bind fun ip => Walks.modify_bind (fun s => .of_same rfl rfl) (hlift (hears_sendEth _ _ _))
      exact .of_moves (hwalk.ignore s)
    | pingCheck seq =>
      have hwalk : Walks Heard (netPingCheck seq) := by
        intro s
        unfold Leads netPingCheck
        split
        · exact .refl
        · exact .single (.of_same rfl rfl)
      exact .of_moves (hwalk.ignore s)
    | _ => exact absurd hping id
  · exact (hears_call n hping).heard s

theorem heard_runCalls (n : ℕ) (calls : List Call) (s : Stack) : Heard s (runCalls n calls s).2 := by
  have hwalk : Walks Heard (runCalls n calls) := by
    induction calls with
    | nil => exact Walks.pure
    | cons call calls ih => exact Walks.bind (fun s => .single (heard_call n call s)) fun _ => ih
  exact .of_moves (hwalk s)

end Tg11Kernel.Net
