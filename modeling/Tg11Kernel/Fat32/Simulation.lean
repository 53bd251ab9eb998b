import Tg11Kernel.Fat32.File

/-! Two runs of the driver side by side. A relation between driver states that is
kept by the driver's few primitives (a cached read, a write, the error text, the
allocation hint, a directory listing) is kept by every operation, and related
runs return the same. The sector numbers an operation uses satisfy any predicate
that holds of the table and data sectors of valid clusters. Coherence of the
caches and containment in the volume are both instances. -/

namespace Tg11Kernel.Fat32

open Lib Exec

variable {δ : Type} {fs : Fat32State δ} {R : Driver δ → Driver δ → Prop} {allowed : ℕ → Prop}

/-- What a relation between driver states must provide. -/
structure Compat (fs : Fat32State δ) (R : Driver δ → Driver δ → Prop) (allowed : ℕ → Prop) : Prop where
  lastError_eq : ∀ {w w'}, R w w' → w.lastError = w'.lastError
  setError : ∀ {w w'} (msg : String), R w w' → R { w with lastError := msg } { w' with lastError := msg }
  hint_eq : ∀ {w w'}, R w w' → w.allocHintCluster = w'.allocHintCluster
  setHint : ∀ {w w'} (c : ℕ), R w w' → R { w with allocHintCluster := c } { w' with allocHintCluster := c }
  read : ∀ lba useFat, allowed lba →
    Sim R (fun _ => True) (readSectorCached fs lba useFat) (readSectorCached fs lba useFat)
  write : ∀ lba sec, allowed lba →
    Sim R (fun _ => True) (writeSectorUncached fs lba sec) (writeSectorUncached fs lba sec)
  fatSector_ok : ∀ {k c}, k < fs.fatCount ∨ k = 0 → clusterIsValid fs c → allowed (fatSector fs k c)
  dataSector_ok : ∀ {c}, clusterIsValid fs c → ∀ lba ∈ clusterSectors fs c, allowed lba
  firstSector_ok : ∀ {c}, clusterIsValid fs c → allowed (clusterToLba fs c)

/-- Listing a directory reads past the caches, which needs an argument of its own. -/
structure ListCompat (fs : Fat32State δ) (R : Driver δ → Driver δ → Prop) (allowed : ℕ → Prop) : Prop
    extends Compat fs R allowed where
  list : ∀ fuel c max, Sim R (fun _ => True) (lsDirCluster fs fuel c max) (lsDirCluster fs fuel c max)

namespace Compat

variable {α : Type} {Q : α → Prop} {m m' : M δ α}

/-! ### Error texts -/

section

variable (h : Compat fs R allowed)
include h

theorem sim_setError (msg : String) : Sim R (fun _ => True) (Fat32.setError msg) (Fat32.setError msg) :=
  Sim.modify (fun _ _ hR => h.setError msg hR) trivial

theorem sim_clearError : Sim R (fun _ => True) clearError clearError :=
  h.sim_setError ""

theorem sim_failWith (msg : String) : Sim R Q (failWith msg) (failWith msg) :=
  (h.sim_setError msg).bind fun _ _ => Sim.fail

theorem sim_orError (hm : Sim R Q m m') (msg : String) : Sim R Q (orError m msg) (orError m' msg) :=
  hm.orElse (h.sim_setError msg)

/-! ### The table -/

theorem sim_nextCluster (c : ℕ) : Sim R (fun v => ¬ badLink fs v) (nextCluster fs c) (nextCluster fs c) :=
  Sim.require.bind fun _ hc => (h.read _ _ (h.fatSector_ok (.inr rfl) hc)).bind fun _ _ =>
    Sim.require.bind fun _ _ => Sim.require.bind fun _ hb => Sim.pure hb

theorem sim_setEachCopy {c : ℕ} (hc : clusterIsValid fs c) (value n k : ℕ) (hn : n + k ≤ fs.fatCount) :
    Sim R (fun _ => True) (setEachCopy fs c value n k) (setEachCopy fs c value n k) := by
  induction n generalizing k with
  | zero => exact Sim.pure trivial
  | succ n ih =>
    have hk : allowed (fatSector fs k c) := h.fatSector_ok (.inl (by omega)) hc
    exact (h.read _ _ hk).bind fun _ _ => (h.write _ _ hk).bind fun _ _ => ih (k + 1) (by omega)

theorem sim_setClusterValue (c value : ℕ) :
    Sim R (fun _ => True) (setClusterValue fs c value) (setClusterValue fs c value) :=
  Sim.require.bind fun _ hc => Sim.require.bind fun _ _ => Sim.require.bind fun _ _ =>
    h.sim_setEachCopy hc value _ 0 (by omega)

theorem sim_lowerHint (c : ℕ) : Sim R (fun _ => True) (lowerHint fs c) (lowerHint fs c) := by
  refine Sim.modify (fun w w' hR => ?_) trivial
  rw [h.hint_eq hR]
  split
  · exact h.setHint c hR
  · exact hR

theorem sim_freeChain (fuel cur : ℕ) : Sim R (fun _ => True) (freeChain fs fuel cur) (freeChain fs fuel cur) := by
  induction fuel generalizing cur with
  | zero =>
    rw [freeChain]
    split
    · exact Sim.hang
    · exact Sim.pure trivial
  | succ fuel ih =>
    rw [freeChain]
    split
    · refine (h.sim_nextCluster cur).bind fun next _ => (h.sim_setClusterValue cur 0).bind fun _ _ =>
        (h.sim_lowerHint cur).bind fun _ _ => ?_
      split
      · exact Sim.pure trivial
      · exact ih next
    · exact Sim.pure trivial

theorem sim_zeroSectors {lbas : List ℕ} (hl : ∀ lba ∈ lbas, allowed lba) :
    Sim R (fun _ => True) (zeroSectors fs lbas) (zeroSectors fs lbas) := by
  induction lbas with
  | nil => exact Sim.pure trivial
  | cons lba rest ih =>
    exact (h.write _ _ (hl lba (by simp))).bind fun _ _ => ih fun l hl' => hl l (by simp [hl'])

theorem sim_claimCluster {c : ℕ} (hc : clusterIsValid fs c) :
    Sim R (fun _ => True) (claimCluster fs c) (claimCluster fs c) :=
  (h.sim_setClusterValue c _).bind fun _ _ => (h.sim_zeroSectors (h.dataSector_ok hc)).bind fun _ _ =>
    Sim.modify (fun _ _ hR => h.setHint _ hR) trivial

theorem sim_nextCluster_valid (c : ℕ) : Sim R (fun _ => clusterIsValid fs c) (nextCluster fs c) (nextCluster fs c) :=
  Sim.require.bind fun _ hc => (h.read _ _ (h.fatSector_ok (.inr rfl) hc)).bind fun _ _ =>
    Sim.require.bind fun _ _ => Sim.require.bind fun _ _ => Sim.pure hc

/-- Only clusters whose table entry could be read are claimed, and those are valid. -/
theorem sim_allocScan (n c : ℕ) :
    Sim R (fun o => ∀ c', o = some c' → clusterIsValid fs c') (allocScan fs n c) (allocScan fs n c) := by
  induction n generalizing c with
  | zero => exact Sim.pure (by simp)
  | succ n ih =>
    rw [allocScan]
    refine (h.sim_nextCluster_valid c).bind fun val hv => ?_
    split
    · exact (h.sim_claimCluster hv).bind fun _ _ => Sim.pure (by rintro _ ⟨⟩; exact hv)
    · exact ih (c + 1)

theorem sim_allocCluster : Sim R (clusterIsValid fs) (allocCluster fs) (allocCluster fs) := by
  refine (Sim.gets (Q := fun _ => True) fun w w' hR => ⟨h.hint_eq hR, trivial⟩).bind fun hint _ => ?_
  refine (h.sim_allocScan _ _).bind fun o ho => ?_
  cases o with
  | some c => exact Sim.pure (ho c rfl)
  | none =>
    refine (h.sim_allocScan _ 2).bind fun o ho => ?_
    cases o with
    | some c => exact Sim.pure (ho c rfl)
    | none => exact Sim.fail

end

/-! ### Walks -/

section Walk

variable {σ β : Type} {P : β → Prop}

theorem sim_scanSectors (h : Compat fs R allowed) {step : EntryStep σ β}
    (hstep : ∀ acc lba off e b, allowed lba → step acc lba off e = .inr b → P b) {lbas : List ℕ}
    (hl : ∀ lba ∈ lbas, allowed lba) (acc : σ) :
    Sim R (fun r => ∀ b, r = .inr b → P b) (scanSectors fs step lbas acc) (scanSectors fs step lbas acc) := by
  induction lbas generalizing acc with
  | nil => exact Sim.pure (by simp)
  | cons lba rest ih =>
    rw [scanSectors]
    have hlba := hl lba (by simp)
    refine (h.read _ _ hlba).bind fun sec _ => ?_
    have hsec : ∀ b, scanSector step lba sec acc = .inr b → P b := by
      rw [scanSector]
      generalize entryOffsets = offs
      induction offs generalizing acc with
      | nil => simp
      | cons off offs ih' =>
        intro b
        rw [foldUntil_cons]
        cases hr : step acc lba off (entryAt sec off) with
        | inl acc' => exact ih' acc' b
        | inr b' =>
          rintro ⟨⟩
          exact hstep _ _ _ _ _ hlba hr
    cases hr : scanSector step lba sec acc with
    | inl acc' => exact ih (fun l hl' => hl l (by simp [hl'])) acc'
    | inr b => exact Sim.pure (by rintro _ ⟨⟩; exact hsec b hr)

theorem sim_walkChain (h : Compat fs R allowed) {scan scan' : ℕ → σ → M δ (σ ⊕ β)}
    {atEnd : ℕ → σ → M δ β} {atExit : σ → M δ β}
    (hscan : ∀ c acc, clusterIsValid fs c → Sim R (fun r => ∀ b, r = .inr b → P b) (scan c acc) (scan' c acc))
    (hend : ∀ c acc, clusterIsValid fs c → Sim R P (atEnd c acc) (atEnd c acc))
    (hexit : ∀ acc, Sim R P (atExit acc) (atExit acc)) (fuel c : ℕ) (acc : σ) :
    Sim R P (walkChain fs scan atEnd atExit fuel c acc) (walkChain fs scan' atEnd atExit fuel c acc) := by
  induction fuel generalizing c acc with
  | zero =>
    rw [walkChain, walkChain]
    split
    · exact Sim.hang
    · exact hexit acc
  | succ fuel ih =>
    rw [walkChain, walkChain]
    split
    · rename_i hc
      refine (hscan c acc hc.1).bind fun r hr => ?_
      cases r with
      | inr b => exact Sim.pure (hr b rfl)
      | inl acc' =>
        refine (h.sim_nextCluster c).bind fun next _ => ?_
        split
        · exact hend c acc' hc.1
        · exact ih next acc'
    · exact hexit acc

end Walk

section

variable (h : Compat fs R allowed)
include h

section

variable (fuel : ℕ) (c : ℕ)
include fuel c

theorem sim_findEntryInDir (name83 : Name83) :
    Sim R (fun r : Found => allowed r.1) (findEntryInDir fs fuel c name83) (findEntryInDir fs fuel c name83) := by
  have hstep : ∀ acc lba off e b, allowed lba → findStep name83 acc lba off e = .inr b →
      ∀ r, b = some r → allowed r.1 := by
    intro acc lba off e b hlba hb r hr
    subst hr
    unfold findStep at hb
    split at hb
    · simp at hb
    split at hb
    · simp at hb
    split at hb
    · simp at hb
    split at hb
    · simp only [Sum.inr.injEq, Option.some.injEq] at hb
      rw [← hb]
      exact hlba
    · simp at hb
  refine (h.sim_walkChain (P := fun b => ∀ r, b = some r → allowed r.1) ?_ ?_ ?_ fuel c ()).bind ?_
  · exact fun c acc hc => h.sim_scanSectors hstep (h.dataSector_ok hc) acc
  · exact fun _ _ _ => Sim.fail
  · exact fun _ => Sim.fail
  · exact fun o ho => Sim.ofOption ho

theorem sim_growDir : Sim R (fun r : ℕ × ℕ => allowed r.1) (growDir fs fuel c) (growDir fs fuel c) := by
  refine h.sim_allocCluster.bind fun new hnew => (h.sim_setClusterValue c new).attempt.bind fun o _ => ?_
  cases o with
  | some _ => exact Sim.pure (h.firstSector_ok hnew)
  | none => exact (h.sim_freeChain fuel new).attempt.bind fun _ _ => Sim.fail

theorem sim_findFreeEntryInDir :
    Sim R (fun r : ℕ × ℕ => allowed r.1) (findFreeEntryInDir fs fuel c) (findFreeEntryInDir fs fuel c) := by
  have hstep : ∀ acc lba off e b, allowed lba → freeStep acc lba off e = .inr b → allowed b.1 := by
    intro acc lba off e b hlba hb
    unfold freeStep at hb
    split at hb
    · simp only [Sum.inr.injEq] at hb
      rw [← hb]
      exact hlba
    · simp at hb
  refine h.sim_walkChain (P := fun r : ℕ × ℕ => allowed r.1) ?_ ?_ ?_ fuel c ()
  · exact fun c acc hc => h.sim_scanSectors hstep (h.dataSector_ok hc) acc
  · exact fun c _ _ => h.sim_growDir fuel c
  · exact fun _ => Sim.fail

/-! ### Paths -/

theorem sim_getParentCluster : Sim R (fun _ => True) (getParentCluster fs fuel c) (getParentCluster fs fuel c) := by
  rw [getParentCluster]
  split
  · exact Sim.pure trivial
  · refine (h.sim_findEntryInDir fuel c dotdot83).attempt.bind fun o _ => ?_
    rcases o with _ | ⟨_, _, entry⟩
    · exact Sim.pure trivial
    · exact Sim.pure trivial

theorem sim_enterDir (part : Path) : Sim R (fun _ => True) (enterDir fs fuel c part) (enterDir fs fuel c part) :=
  (Sim.ofOption (Q := fun _ => True) fun _ _ => trivial).bind fun name83 _ =>
    (h.sim_findEntryInDir fuel c name83).bind fun ⟨_, _, _⟩ _ =>
      Sim.require.bind fun _ _ => Sim.require.bind fun _ _ => Sim.pure trivial

end

theorem sim_resolveDirLoop (fuel n : ℕ) (p : Path) (cur : ℕ) :
    Sim R (fun _ => True) (resolveDirLoop fs fuel n p cur) (resolveDirLoop fs fuel n p cur) := by
  induction n generalizing p cur with
  | zero => exact Sim.hang
  | succ n ih =>
    rw [resolveDirLoop]
    refine (Sim.ofOption (Q := fun _ => True) fun _ _ => trivial).bind fun ⟨part, np⟩ _ => ?_
    dsimp only
    split
    · exact Sim.pure trivial
    split
    · exact ih np cur
    split
    · exact (h.sim_getParentCluster fuel cur).bind fun parent _ => ih np parent
    · exact (h.sim_enterDir fuel cur part).bind fun next _ => ih np next

theorem sim_resolveDirCluster (fuel : ℕ) (path : Option Path) :
    Sim R (fun _ => True) (resolveDirCluster fs fuel path) (resolveDirCluster fs fuel path) := by
  refine Sim.require.bind fun _ _ => ?_
  split
  · exact Sim.pure trivial
  · exact (Sim.ofOption (Q := fun _ => True) fun _ _ => trivial).bind fun p _ => h.sim_resolveDirLoop fuel _ p _

theorem sim_resolveParentLoop (fuel n : ℕ) (p : Path) (cur : ℕ) :
    Sim R (fun _ => True) (resolveParentLoop fs fuel n p cur) (resolveParentLoop fs fuel n p cur) := by
  induction n generalizing p cur with
  | zero => exact Sim.hang
  | succ n ih =>
    rw [resolveParentLoop]
    refine (Sim.ofOption (Q := fun _ => True) fun _ _ => trivial).bind fun ⟨part, np⟩ _ => ?_
    dsimp only
    split
    · exact Sim.pure trivial
    refine (Sim.ofOption (Q := fun _ => True) fun _ _ => trivial).bind fun ⟨check, _⟩ _ => ?_
    dsimp only
    split
    · exact Sim.pure trivial
    split
    · exact ih np cur
    split
    · exact (h.sim_getParentCluster fuel cur).bind fun parent _ => ih np parent
    · exact (h.sim_enterDir fuel cur part).bind fun next _ => ih np next

theorem sim_resolveParentAndLeaf (fuel : ℕ) (path : Option Path) :
    Sim R (fun _ => True) (resolveParentAndLeaf fs fuel path) (resolveParentAndLeaf fs fuel path) :=
  Sim.require.bind fun _ _ => (Sim.ofOption (Q := fun _ => True) fun _ _ => trivial).bind fun p _ =>
    (h.sim_resolveParentLoop fuel _ p _).bind fun ⟨_, _⟩ _ => Sim.require.bind fun _ _ =>
      (Sim.ofOption (Q := fun _ => True) fun _ _ => trivial).bind fun _ _ => Sim.pure trivial

/-! ### Operations on entries -/

theorem sim_check (p : Prop) [Decidable p] (msg : String) :
    Sim R (fun _ => p) (orError (Exec.require p : M δ Unit) msg) (orError (Exec.require p) msg) :=
  h.sim_orError Sim.require msg

theorem sim_resolveTarget (fuel : ℕ) (path : Option Path) (argsOk : Bool) (invalidMsg resolveMsg : String) :
    Sim R (fun _ => fs.mounted = true) (resolveTarget fs fuel path argsOk invalidMsg resolveMsg)
      (resolveTarget fs fuel path argsOk invalidMsg resolveMsg) :=
  h.sim_clearError.bind fun _ _ => (h.sim_check _ _).bind fun _ hm =>
    (h.sim_orError (h.sim_resolveParentAndLeaf fuel path) _).mono fun _ _ => hm.1

theorem sim_lookupTarget (fuel : ℕ) (path : Option Path) (invalidMsg resolveMsg missingMsg : String) :
    Sim R (fun r : Found => allowed r.1 ∧ fs.mounted = true)
      (lookupTarget fs fuel path invalidMsg resolveMsg missingMsg)
      (lookupTarget fs fuel path invalidMsg resolveMsg missingMsg) :=
  (h.sim_resolveTarget fuel path true _ _).bind fun ⟨parent, name83⟩ hm =>
    (h.sim_orError (h.sim_findEntryInDir fuel parent name83) _).mono fun _ hl => ⟨hl, hm⟩

theorem sim_updateEntry {lba : ℕ} (hl : allowed lba) (off : ℕ) (f : Entry → Entry) (readMsg writeMsg : String) :
    Sim R (fun _ => True) (updateEntry fs lba off f readMsg writeMsg)
      (updateEntry fs lba off f readMsg writeMsg) :=
  (h.sim_orError (h.read lba false hl) readMsg).bind fun _ _ =>
    h.sim_orError (h.write lba _ hl) writeMsg

theorem sim_touchFilePath (fuel : ℕ) (path : Option Path) :
    Sim R (fun _ => True) (touchFilePath fs fuel path) (touchFilePath fs fuel path) := by
  refine (h.sim_resolveTarget fuel path true _ _).bind fun ⟨parent, name83⟩ _ =>
    (h.sim_findEntryInDir fuel parent name83).attempt.bind fun o _ => ?_
  rcases o with _ | ⟨_, _, entry⟩
  · exact (h.sim_orError (h.sim_findFreeEntryInDir fuel parent) _).bind fun ⟨lba, off⟩ hl =>
      (h.sim_updateEntry hl off _ _ _).bind fun _ _ => h.sim_clearError
  · dsimp only
    split
    · exact h.sim_failWith _
    · exact h.sim_clearError

theorem sim_rollback (fuel first : ℕ) (msg : String) :
    Sim R Q (rollback fs fuel first msg) (rollback fs fuel first msg) := by
  rw [rollback]
  split
  · exact (h.sim_freeChain fuel first).attempt.bind fun _ _ => h.sim_failWith msg
  · exact h.sim_failWith msg

theorem sim_allocChain (fuel n first prev : ℕ) (hf : first = 0 ∨ clusterIsValid fs first) :
    Sim R (fun r => r.1 = 0 ∨ clusterIsValid fs r.1) (allocChain fs fuel n first prev)
      (allocChain fs fuel n first prev) := by
  induction n generalizing first prev with
  | zero => exact Sim.pure hf
  | succ n ih =>
    rw [allocChain]
    refine h.sim_allocCluster.attempt.bind fun o ho => ?_
    cases o with
    | none => exact h.sim_rollback fuel first _
    | some cur =>
      have hcur := ho cur rfl
      have hf' : (if first = 0 then cur else first) = 0 ∨
          clusterIsValid fs (if first = 0 then cur else first) := by
        split
        · exact .inr hcur
        · exact hf
      dsimp only
      split
      · refine (h.sim_setClusterValue prev cur).attempt.bind fun o _ => ?_
        cases o with
        | none => exact h.sim_rollback fuel _ _
        | some _ => exact ih _ _ hf'
      · exact ih _ _ hf'

theorem sim_writeSectors {lbas : List ℕ} (hl : ∀ lba ∈ lbas, allowed lba) (rest : List UInt8) :
    Sim R (fun _ => True) (writeSectors fs lbas rest) (writeSectors fs lbas rest) := by
  induction lbas generalizing rest with
  | nil => exact Sim.pure trivial
  | cons lba lbas ih =>
    rw [writeSectors]
    split
    · exact Sim.pure trivial
    · exact (h.sim_orError (h.write lba _ (hl lba (by simp))) _).bind fun _ _ =>
        ih (fun l hl' => hl l (by simp [hl'])) _

theorem sim_writeClusters (fuel cur : ℕ) (rest : List UInt8) (hc : cur < 2 ∨ clusterIsValid fs cur) :
    Sim R (fun _ => True) (writeClusters fs fuel cur rest) (writeClusters fs fuel cur rest) := by
  induction fuel generalizing cur rest with
  | zero =>
    rw [writeClusters]
    split
    · exact Sim.hang
    · exact Sim.pure trivial
  | succ fuel ih =>
    rw [writeClusters]
    split
    · rename_i hcur
      have hv : clusterIsValid fs cur := hc.resolve_left (by omega)
      refine (h.sim_writeSectors (h.dataSector_ok hv) rest).bind fun rest' _ => ?_
      split
      · exact Sim.pure trivial
      refine (h.sim_orError (h.sim_nextCluster cur) _).bind fun next hnext => ?_
      split
      · exact Sim.pure trivial
      · exact ih next rest' (valid_of_not_badLink hnext (by omega))
    · exact Sim.pure trivial

theorem sim_findOrCreate (fuel : ℕ) (path : Option Path) (parent : ℕ) (name83 : Name83) :
    Sim R (fun r : Found => allowed r.1) (findOrCreate fs fuel path parent name83)
      (findOrCreate fs fuel path parent name83) := by
  refine (h.sim_findEntryInDir fuel parent name83).attempt.bind fun o ho => ?_
  cases o with
  | some found => exact Sim.pure (ho found rfl)
  | none =>
    refine (h.sim_touchFilePath fuel path).attempt.bind fun o _ => ?_
    cases o with
    | some _ => exact h.sim_orError (h.sim_findEntryInDir fuel parent name83) _
    | none =>
      refine (Sim.gets (Q := fun _ => True) fun w w' hR => ⟨h.lastError_eq hR, trivial⟩).bind fun text _ => ?_
      split
      · exact h.sim_failWith _
      · exact Sim.fail

theorem sim_endChain (fuel first prev : ℕ) :
    Sim R (fun _ => True) (endChain fs fuel first prev) (endChain fs fuel first prev) := by
  rw [endChain]
  split
  · refine (h.sim_setClusterValue prev _).attempt.bind fun o _ => ?_
    cases o with
    | none => exact h.sim_rollback fuel first _
    | some _ => exact Sim.pure trivial
  · exact Sim.pure trivial

theorem sim_freeOldChain (fuel old : ℕ) :
    Sim R (fun _ => True) (freeOldChain fs fuel old) (freeOldChain fs fuel old) := by
  rw [freeOldChain]
  split
  · exact h.sim_orError (h.sim_freeChain fuel old) _
  · exact Sim.pure trivial

theorem sim_replaceData (fuel : ℕ) {found : Found} (hl : allowed found.1) (data : List UInt8) :
    Sim R (fun _ => True) (replaceData fs fuel found data) (replaceData fs fuel found data) :=
  (h.sim_freeOldChain fuel _).bind fun _ _ => (h.sim_allocChain fuel _ 0 0 (.inl rfl)).bind fun ⟨first, prev⟩ hf =>
    (h.sim_endChain fuel first prev).bind fun _ _ =>
      (h.sim_writeClusters fuel first data (hf.imp (fun h => by simp only at h; omega) id)).bind fun _ _ =>
        h.sim_updateEntry hl _ _ _ _

theorem sim_writeFilePath (fuel : ℕ) (path : Option Path) (data : Option (List UInt8)) :
    Sim R (fun _ => True) (writeFilePath fs fuel path data) (writeFilePath fs fuel path data) := by
  refine (h.sim_resolveTarget fuel path _ _ _).bind fun ⟨parent, name83⟩ _ =>
    (h.sim_findOrCreate fuel path parent name83).bind fun found hl => ?_
  split
  · exact h.sim_failWith _
  · exact (h.sim_replaceData fuel hl _).bind fun _ _ => h.sim_clearError

theorem sim_orFree (fuel c : ℕ) (hm : Sim R Q m m') (msg : String) :
    Sim R Q (orFree fs fuel c m msg) (orFree fs fuel c m' msg) :=
  hm.orElse ((h.sim_freeChain fuel c).attempt.bind fun _ _ => h.sim_setError msg)

theorem sim_zeroDirSectors (fuel c : ℕ) {lbas : List ℕ} (hl : ∀ lba ∈ lbas, allowed lba) :
    Sim R (fun _ => True) (zeroDirSectors fs fuel c lbas) (zeroDirSectors fs fuel c lbas) := by
  induction lbas with
  | nil => exact Sim.pure trivial
  | cons lba rest ih =>
    exact (h.sim_orFree fuel c (h.write lba _ (hl lba (by simp))) _).bind fun _ _ =>
      ih fun l hl' => hl l (by simp [hl'])

section

variable (fuel : ℕ) (path : Option Path)
include fuel path

theorem sim_mkdirPath : Sim R (fun _ => True) (mkdirPath fs fuel path) (mkdirPath fs fuel path) := by
  refine (h.sim_resolveTarget fuel path true _ _).bind fun ⟨parent, name83⟩ _ =>
    (h.sim_findEntryInDir fuel parent name83).attempt.bind fun o _ => ?_
  cases o with
  | some _ => exact h.sim_failWith _
  | none =>
    refine (h.sim_orError (h.sim_findFreeEntryInDir fuel parent) _).bind fun ⟨lba, off⟩ hl =>
      (h.sim_orError h.sim_allocCluster _).bind fun c hc =>
        (h.sim_zeroDirSectors fuel c (h.dataSector_ok hc)).bind fun _ _ => ?_
    have hfirst := h.firstSector_ok hc
    exact (h.sim_orFree fuel c (h.read _ false hfirst) _).bind fun _ _ =>
      (h.sim_orFree fuel c (h.write _ _ hfirst) _).bind fun _ _ =>
        (h.sim_orFree fuel c (h.read _ false hl) _).bind fun _ _ =>
          (h.sim_orFree fuel c (h.write _ _ hl) _).bind fun _ _ => h.sim_clearError

theorem sim_getAttrPath : Sim R (fun _ => True) (getAttrPath fs fuel path) (getAttrPath fs fuel path) :=
  (h.sim_lookupTarget fuel path _ _ _).bind fun ⟨_, _, _⟩ _ => h.sim_clearError.bind fun _ _ => Sim.pure trivial

theorem sim_setAttrPath (setMask clearMask : UInt8) : Sim R (fun _ => True) (setAttrPath fs fuel path setMask clearMask)
      (setAttrPath fs fuel path setMask clearMask) := by
  refine (h.sim_lookupTarget fuel path _ _ _).bind fun ⟨_, off, entry⟩ hl => ?_
  dsimp only
  split
  · exact h.sim_failWith _
  · exact (h.sim_updateEntry hl.1 off _ _ _).bind fun _ _ => h.sim_clearError.bind fun _ _ => Sim.pure trivial

theorem sim_statPath : Sim R (fun _ => True) (statPath fs fuel path) (statPath fs fuel path) := by
  refine Sim.require.bind fun _ _ => ?_
  split
  · exact Sim.pure trivial
  refine (h.sim_resolveDirCluster fuel path).attempt.bind fun o _ => ?_
  cases o with
  | some _ => exact Sim.pure trivial
  | none =>
    exact (h.sim_resolveParentAndLeaf fuel path).bind fun ⟨parent, name83⟩ _ =>
      (h.sim_findEntryInDir fuel parent name83).bind fun ⟨_, _, _⟩ _ => Sim.pure trivial

end

theorem sim_countFree (n c : ℕ) : Sim R (fun _ => True) (countFree fs n c) (countFree fs n c) := by
  induction n generalizing c with
  | zero => exact Sim.pure trivial
  | succ n ih =>
    exact (h.sim_nextCluster c).bind fun next _ => (ih (c + 1)).bind fun rest _ => Sim.pure trivial

theorem sim_getFreeBytes : Sim R (fun _ => True) (getFreeBytes fs) (getFreeBytes fs) :=
  Sim.require.bind fun _ _ => (h.sim_countFree _ 2).bind fun _ _ => Sim.pure trivial

/-- Reading a file adds the walk over the file's own chain, which starts at a
cluster number taken from the entry as it is. -/
theorem sim_readFilePath (fuel : ℕ) (path : Option Path) (cap : ℕ) (hread : fs.mounted = true →
      ∀ entry, Sim R (fun _ => True) (readFileEntry fs fuel entry cap) (readFileEntry fs fuel entry cap)) :
    Sim R (fun _ => True) (readFilePath fs fuel path cap) (readFilePath fs fuel path cap) :=
  (h.sim_lookupTarget fuel path _ _ _).bind fun ⟨_, _, entry⟩ hm =>
    (h.sim_orError (hread hm.2 entry) _).bind fun _ _ => h.sim_clearError.bind fun _ _ => Sim.pure trivial

end

end Compat

namespace ListCompat

section

variable (h : ListCompat fs R allowed) (fuel : ℕ)
include h fuel

theorem sim_freeTarget (entry : Entry) :
    Sim R (fun _ => True) (freeTarget fs fuel entry) (freeTarget fs fuel entry) := by
  rw [freeTarget]
  split
  · exact (h.sim_check _ _).bind fun _ _ => (h.sim_orError (h.list fuel _ 2) _).bind fun names _ =>
      (h.sim_check _ _).bind fun _ _ => h.sim_orError (h.sim_freeChain fuel _) _
  split
  · exact h.sim_orError (h.sim_freeChain fuel _) _
  · exact Sim.pure trivial

theorem sim_removePath (path : Option Path) :
    Sim R (fun _ => True) (removePath fs fuel path) (removePath fs fuel path) :=
  (h.sim_lookupTarget fuel path _ _ _).bind fun ⟨_, off, entry⟩ hl =>
    (h.sim_freeTarget fuel entry).bind fun _ _ =>
      (h.sim_updateEntry hl.1 off _ _ _).bind fun _ _ => h.sim_clearError

theorem sim_lsPath (path : Option Path) (max : ℕ) :
    Sim R (fun _ => True) (lsPath fs fuel path max) (lsPath fs fuel path max) :=
  (h.sim_resolveDirCluster fuel path).bind fun c _ => h.list fuel c max

theorem sim_run (o : PathOp) (hread : ∀ path cap, o = .read path cap →
      Sim R (fun _ => True) (readFilePath fs fuel path cap) (readFilePath fs fuel path cap)) :
    Sim R (fun _ => True) (o.run fs fuel) (o.run fs fuel) := by
  cases o with
  | ls path maxEntries => exact (h.sim_lsPath fuel path maxEntries).bind fun _ _ => Sim.pure trivial
  | read path cap => exact (hread path cap rfl).bind fun _ _ => Sim.pure trivial
  | stat path => exact (h.sim_statPath fuel path).bind fun _ _ => Sim.pure trivial
  | touch path => exact (h.sim_touchFilePath fuel path).bind fun _ _ => Sim.pure trivial
  | write path data => exact (h.sim_writeFilePath fuel path data).bind fun _ _ => Sim.pure trivial
  | mkdir path => exact (h.sim_mkdirPath fuel path).bind fun _ _ => Sim.pure trivial
  | remove path => exact (h.sim_removePath fuel path).bind fun _ _ => Sim.pure trivial
  | getAttr path => exact (h.sim_getAttrPath fuel path).bind fun _ _ => Sim.pure trivial
  | setAttr path setMask clearMask =>
    exact (h.sim_setAttrPath fuel path setMask clearMask).bind fun _ _ => Sim.pure trivial
  | freeBytes => exact h.sim_getFreeBytes.bind fun _ _ => Sim.pure trivial

end

end ListCompat

end Tg11Kernel.Fat32
