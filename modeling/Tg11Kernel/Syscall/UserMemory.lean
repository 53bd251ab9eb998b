import Tg11Kernel.Syscall.Dispatch

/-! What the copy loops touch. A loop goes up from an address and touches one byte
after the other until one is not mapped, a character ends it or the length is
reached; so its accesses follow from the page tables and the bytes before it. -/

namespace Tg11Kernel.Syscall

open Lib Memory Exec

variable {ρ : Type} {s s' s'' : Kernel ρ} {t : PageTables} {stops : UInt64 → Bool} {addr : UInt64} {w : Bool}
  {l l' : List UInt64}

/-- The byte behind a mapped address. -/
def Kernel.byteAt (s : Kernel ρ) (addr : UInt64) : UInt8 :=
  match translate s.tables addr with
  | some tr => s.frames tr.phys
  | none => 0

/-- The state after more accesses that only read. -/
def Kernel.noting (s : Kernel ρ) (a : Access) : Kernel ρ := { s with accesses := s.accesses ++ [a] }

theorem exists_translate (h : userAddrReadable t addr = true) : ∃ tr, translate t addr = some tr := by
  refine translate_of_pagingGetPhys ?_
  simp only [userAddrReadable, Bool.and_eq_true, bne_iff_ne] at h
  exact h.2

theorem checkAddr_pos (h : userAddrReadable s.tables addr = true) : checkAddr addr s = (.ok (), s) := by
  rw [checkAddr, bind_ok (gets_apply _ s), require_pos h]
  rfl

theorem checkAddr_neg (h : ¬ userAddrReadable s.tables addr = true) : checkAddr addr s = (.fail, s) := by
  rw [checkAddr, bind_ok (gets_apply _ s), require_neg h]
  rfl

theorem checkedLoad_pos (h : userAddrReadable s.tables addr = true) :
    checkedLoad addr s = (.ok (s.byteAt addr), s.noting ⟨addr, false, s.byteAt addr⟩) := by
  obtain ⟨tr, htr⟩ := exists_translate h
  rw [checkedLoad, bind_ok (checkAddr_pos h), load, Kernel.byteAt, htr]
  rfl

theorem checkedLoad_neg (h : ¬ userAddrReadable s.tables addr = true) : checkedLoad addr s = (.fail, s) :=
  bind_fail (checkAddr_neg h)

/-- The state after one byte was stored. -/
def Kernel.storing (s : Kernel ρ) (addr : UInt64) (byte : UInt8) : Kernel ρ :=
  { s.noting ⟨addr, true, byte⟩ with
    frames := match translate s.tables addr with
      | some tr => Function.update s.frames tr.phys byte
      | none => s.frames }

theorem store_of_readable (h : userAddrReadable s.tables addr = true) (byte : UInt8) :
    store addr byte s = (.ok (), s.storing addr byte) := by
  obtain ⟨tr, htr⟩ := exists_translate h
  rw [store, Kernel.storing, htr]
  rfl

/-! ### Runs of bytes -/

/-- The addresses from `addr` on that are touched, at most `n`: up to the first one
that is not mapped, and up to the first one that stops the loop. -/
def touched (t : PageTables) (stops : UInt64 → Bool) : ℕ → UInt64 → List UInt64
  | 0, _ => []
  | n + 1, addr =>
    if userAddrReadable t addr = true then
      addr :: (if stops addr = true then [] else touched t stops n (addr + 1))
    else []

/-- All of the `n` addresses are mapped, and none stops the loop. -/
def runsOn (t : PageTables) (stops : UInt64 → Bool) : ℕ → UInt64 → Bool
  | 0, _ => true
  | n + 1, addr => userAddrReadable t addr && !stops addr && runsOn t stops n (addr + 1)

/-- Nothing but the length ends the loop. -/
def never : UInt64 → Bool := fun _ => false

theorem add_one_add_ofNat (addr : UInt64) (n : ℕ) : addr + 1 + UInt64.ofNat n = addr + UInt64.ofNat (n + 1) := by
  rw [UInt64.ofNat_add, UInt64.add_assoc, UInt64.add_comm 1]
  rfl

theorem add_ofNat_add_one (addr : UInt64) (n : ℕ) : addr + UInt64.ofNat n + 1 = addr + UInt64.ofNat (n + 1) := by
  rw [UInt64.ofNat_add, UInt64.add_assoc]
  rfl

/-- A run goes on after its first part if nothing ended that one. -/
theorem touched_add (m n : ℕ) (addr : UInt64) : touched t stops (m + n) addr =
      touched t stops m addr ++ if runsOn t stops m addr = true then touched t stops n (addr + UInt64.ofNat m) else [] := by
  induction m generalizing addr with
  | zero => simp [touched, runsOn]
  | succ m ih =>
    rw [Nat.add_right_comm, touched, touched, runsOn]
    by_cases hread : userAddrReadable t addr = true
    · by_cases hstop : stops addr = true
      · simp [hread, hstop]
      · simp [hread, hstop, ih, add_one_add_ofNat]
    · simp [hread]

/-- User memory, its mapping and the record of its accesses. -/
def Kernel.memory (s : Kernel ρ) : List Access × PageTables × (UInt64 → UInt8) := (s.accesses, s.tables, s.frames)

/-- From `s` to `s'` exactly the given addresses were touched, all by loads or all by stores. -/
structure Touched (s s' : Kernel ρ) (w : Bool) (addrs : List UInt64) : Prop where
  accesses : ∃ acc, s'.accesses = s.accesses ++ acc ∧ acc.map Access.addr = addrs ∧ ∀ a ∈ acc, a.write = w
  tables : s'.tables = s.tables
  frames : w = false → s'.frames = s.frames

namespace Touched

theorem nil (haccesses : s'.accesses = s.accesses) (htables : s'.tables = s.tables) (hframes : s'.frames = s.frames) :
    Touched s s' w [] :=
  ⟨⟨[], by rw [haccesses, List.append_nil], rfl, by simp⟩, htables, fun _ => hframes⟩

theorem refl : Touched s s w [] := nil rfl rfl rfl

theorem trans (h : Touched s s' w l) (h' : Touched s' s'' w l') : Touched s s'' w (l ++ l') := by
  obtain ⟨⟨acc, hacc, hl, hw⟩, htables, hframes⟩ := h
  obtain ⟨⟨acc', hacc', hl', hw'⟩, htables', hframes'⟩ := h'
  refine ⟨⟨acc ++ acc', ?_, ?_, ?_⟩, htables'.trans htables, fun h => (hframes' h).trans (hframes h)⟩
  · rw [hacc', hacc, List.append_assoc]
  · rw [List.map_append, hl, hl']
  · intro a ha
    rcases List.mem_append.1 ha with ha | ha
    · exact hw a ha
    · exact hw' a ha

theorem of_keeps {α : Type} {m : M ρ α} (h : Keeps Kernel.memory m) : Touched s (m s).2 w [] := by
  have hs := h s
  simp only [Kernel.memory, Prod.mk.injEq] at hs
  exact nil hs.1 hs.2.1 hs.2.2

/-- A program after another one, if the first one returns. -/
theorem bind {α β : Type} {m : M ρ α} {f : α → M ρ β} (h : Touched s (m s).2 w l)
    (hok : ∀ a s', m s = (.ok a, s') → Touched s' (f a s').2 w l') (hend : (∀ a, (m s).1 ≠ .ok a) → l' = []) :
    Touched s ((m >>= f) s).2 w (l ++ l') := by
  rw [bind_apply]
  rcases hm : m s with ⟨a | _ | _, s'⟩ <;> rw [hm] at h hend
  · exact h.trans (hok a s' hm)
  · rw [hend nofun, List.append_nil]
    exact h
  · rw [hend nofun, List.append_nil]
    exact h

theorem bind_left {α β : Type} {m : M ρ α} {f : α → M ρ β} (h : Touched s (m s).2 w [])
    (hok : ∀ a s', m s = (.ok a, s') → Touched s' (f a s').2 w l) (hend : (∀ a, (m s).1 ≠ .ok a) → l = []) :
    Touched s ((m >>= f) s).2 w l := h.bind hok hend

theorem bind_right {α β : Type} {m : M ρ α} {f : α → M ρ β} (h : Touched s (m s).2 w l)
    (hok : ∀ a s', m s = (.ok a, s') → Touched s' (f a s').2 w []) : Touched s ((m >>= f) s).2 w l := by
  rw [← List.append_nil l]
  exact h.bind hok fun _ => rfl

theorem orElse {α : Type} {m : M ρ α} {h : M ρ Unit} (hm : Touched s (m s).2 w l)
    (hh : Keeps Kernel.memory h) : Touched s (Exec.orElse m h s).2 w l :=
  Exec.orElse_state (I := fun s' => Touched s s' w l) hm fun s' hs' => by
    rw [← List.append_nil l]
    exact hs'.trans (of_keeps hh)

theorem load : Touched s (s.noting ⟨addr, false, s.byteAt addr⟩) false [addr] :=
  ⟨⟨_, rfl, rfl, by simp⟩, rfl, fun _ => rfl⟩

theorem store (byte : UInt8) : Touched s (s.storing addr byte) true [addr] :=
  ⟨⟨_, rfl, rfl, by simp⟩, rfl, by simp⟩

theorem byteAt (h : Touched s s' false l) : s'.byteAt = s.byteAt := by
  funext addr
  rw [Kernel.byteAt, Kernel.byteAt, h.tables, h.frames rfl]

end Touched

/-- The `n` bytes from an address on. -/
def Kernel.bytesAt (s : Kernel ρ) : ℕ → UInt64 → List UInt8
  | 0, _ => []
  | n + 1, addr => s.byteAt addr :: s.bytesAt n (addr + 1)

@[simp] theorem length_bytesAt (s : Kernel ρ) (n : ℕ) (addr : UInt64) : (s.bytesAt n addr).length = n := by
  induction n generalizing addr with
  | zero => rfl
  | succ n ih => rw [Kernel.bytesAt, List.length_cons, ih]

theorem bytesAt_congr (h : s'.byteAt = s.byteAt) (n : ℕ) (addr : UInt64) : s'.bytesAt n addr = s.bytesAt n addr := by
  induction n generalizing addr with
  | zero => rfl
  | succ n ih => rw [Kernel.bytesAt, Kernel.bytesAt, h, ih]

/-- A run of loads, and how it ends: it gives up at an address that is not mapped. -/
theorem userCopyAscii_spec (n : ℕ) (src : UInt64) (ht : s.tables = t) :
    Touched s (userCopyAscii n src s).2 false (touched t never n src) ∧
      (userCopyAscii n src s).1 = if runsOn t never n src = true then .ok (s.bytesAt n src) else .fail := by
  induction n generalizing src s with
  | zero => exact ⟨Touched.refl, rfl⟩
  | succ n ih =>
    subst ht
    rw [touched, runsOn, userCopyAscii]
    by_cases hread : userAddrReadable s.tables src = true
    · obtain ⟨htouched, hres⟩ := @ih (s.noting ⟨src, false, s.byteAt src⟩) (src + 1) rfl
      rw [bytesAt_congr Touched.load.byteAt] at hres
      rw [bind_ok (checkedLoad_pos hread), Exec.bind_pure_apply, hres, if_pos hread]
      refine ⟨Touched.load.trans htouched, ?_⟩
      simp only [hread, never, Bool.not_false, Bool.true_and, Kernel.bytesAt]
      split_ifs <;> rfl
    · rw [bind_fail (checkedLoad_neg hread)]
      simp [hread, Touched.refl]

/-- A run of loads up to a NUL. -/
theorem userCopyCstrLoop_touched (n : ℕ) (src : UInt64) (ht : s.tables = t)
    (hstops : ∀ a, stops a = true ↔ s.byteAt a = 0) :
    Touched s (userCopyCstrLoop n src s).2 false (touched t stops n src) := by
  induction n generalizing src s with
  | zero => exact Touched.refl
  | succ n ih =>
    subst ht
    rw [touched, userCopyCstrLoop]
    by_cases hread : userAddrReadable s.tables src = true
    · rw [bind_ok (checkedLoad_pos hread), if_pos hread]
      by_cases hnul : s.byteAt src = 0
      · rw [if_pos hnul, if_pos ((hstops src).2 hnul)]
        exact Touched.load
      · rw [if_neg hnul, if_neg fun hstop => hnul ((hstops src).1 hstop), Exec.bind_pure_apply]
        exact Touched.load.trans (@ih (s.noting ⟨src, false, s.byteAt src⟩) (src + 1) rfl hstops)
    · rw [bind_fail (checkedLoad_neg hread), if_neg hread]
      exact Touched.refl

/-- One chunk of a string: it is full exactly if nothing ended the run. -/
theorem scanChunk_spec (n : ℕ) (cursor : UInt64) (ht : s.tables = t) (hstops : ∀ a, stops a = true ↔ s.byteAt a = 0) :
    Touched s (scanChunk n cursor s).2 false (touched t stops n cursor) ∧
      if runsOn t stops n cursor = true then ∃ chunk, (scanChunk n cursor s).1 = .ok (chunk, false) ∧ chunk.length = n
      else ∀ chunk, (scanChunk n cursor s).1 ≠ .ok (chunk, false) := by
  induction n generalizing cursor s with
  | zero => exact ⟨Touched.refl, [], rfl, rfl⟩
  | succ n ih =>
    subst ht
    rw [touched, runsOn, scanChunk]
    by_cases hread : userAddrReadable s.tables cursor = true
    · rw [bind_ok (checkedLoad_pos hread), if_pos hread]
      by_cases hnul : s.byteAt cursor = 0
      · rw [if_pos hnul, if_pos ((hstops cursor).2 hnul)]
        exact ⟨Touched.load, by simp [(hstops cursor).2 hnul]⟩
      · have hstop : ¬ stops cursor = true := fun hstop => hnul ((hstops cursor).1 hstop)
        obtain ⟨htouched, hres⟩ := @ih (s.noting ⟨cursor, false, s.byteAt cursor⟩) (cursor + 1) rfl hstops
        have hbind := Exec.bind_pure_apply (scanChunk n (cursor + 1))
          (fun r => (s.byteAt cursor :: r.1, r.2)) (s.noting ⟨cursor, false, s.byteAt cursor⟩)
        rw [if_neg hnul, if_neg hstop, hread, Bool.eq_false_iff.2 hstop, Bool.not_false, Bool.true_and, Bool.true_and]
        refine ⟨(congrArg Prod.snd hbind) ▸ Touched.load.trans htouched, ?_⟩
        have hout := congrArg Prod.fst hbind
        split_ifs at hres ⊢
        · obtain ⟨chunk, hchunk, hlen⟩ := hres
          rw [hchunk] at hout
          exact ⟨_, hout, by rw [List.length_cons, hlen]⟩
        · intro chunk heq
          have heq := hout.symm.trans heq
          rcases hscan : (scanChunk n (cursor + 1) (s.noting ⟨cursor, false, s.byteAt cursor⟩)).1 with ⟨rest, ended⟩ | _ | _ <;>
            rw [hscan] at heq hres <;> simp [Outcome.map] at heq
          exact hres rest (by rw [heq.2])
    · rw [bind_fail (checkedLoad_neg hread), if_neg hread]
      simp [hread, Touched.refl]

/-- A run of stores, and how it ends. -/
theorem userCopyOut_spec (dst : UInt64) (bytes : List UInt8) (ht : s.tables = t) :
    Touched s (userCopyOut dst bytes s).2 true (touched t never bytes.length dst) ∧
      (userCopyOut dst bytes s).1 = if runsOn t never bytes.length dst = true then .ok () else .fail := by
  induction bytes generalizing dst s with
  | nil => exact ⟨Touched.refl, rfl⟩
  | cons byte bytes ih =>
    subst ht
    rw [List.length_cons, touched, runsOn, userCopyOut]
    by_cases hread : userAddrReadable s.tables dst = true
    · obtain ⟨htouched, hres⟩ := @ih (s.storing dst byte) (dst + 1) rfl
      rw [bind_ok (checkAddr_pos hread), bind_ok (store_of_readable hread byte), hres, if_pos hread]
      simp only [hread, never, Bool.not_false, Bool.true_and]
      exact ⟨(Touched.store byte).trans htouched, trivial⟩
    · rw [bind_fail (checkAddr_neg hread)]
      simp [hread, Touched.refl]

theorem userCopyOut_one_pos (h : userAddrReadable s.tables addr = true) (byte : UInt8) :
    userCopyOut addr [byte] s = (.ok (), s.storing addr byte) := by
  rw [userCopyOut, bind_ok (checkAddr_pos h), bind_ok (store_of_readable h byte)]
  rfl

theorem userCopyOut_one_neg (h : ¬ userAddrReadable s.tables addr = true) (byte : UInt8) :
    userCopyOut addr [byte] s = (.fail, s) :=
  bind_fail (checkAddr_neg h)

end Tg11Kernel.Syscall
