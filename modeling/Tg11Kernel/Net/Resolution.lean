import Tg11Kernel.Net.ArpCache
import Tg11Kernel.Net.Bounds

/-! What `resolve_mac` answers. It polls until the cache has the address, and looks only
behind a poll. When the first entry of the cache is the answer and the other senders of the
same poll are more than the free entries, the answer is gone before it is looked for. -/

namespace Tg11Kernel.Net

open Lib Exec Assoc

variable {s t : Stack} {n k : ℕ} {target : Ip}

/-! ### Polls of a wait -/

/-- The polls of a wait, each with the states before and behind it. -/
def waitPolls (poll : Exec Stack Unit) (deadline : UInt64) (done : Stack → Bool) : ℕ → Stack → List (Stack × Stack)
  | 0, _ => []
  | n + 1, s =>
    if s.ticks < deadline ∧ s.world.isEmpty = false then
      (s, (poll s).2) :: if done (poll s).2 = true then [] else waitPolls poll deadline done n (poll s).2
    else []

/-- The polls of `resolve_mac`; there are none when the cache has the address. -/
def resolvePolls (n : ℕ) (dstIp : Ip) (s : Stack) : List (Stack × Stack) :=
  if (s.arpLookup (resolveTarget s.cfg dstIp)).isSome = true then []
  else waitPolls (netPoll n) ((arpRequest (resolveTarget s.cfg dstIp) s).2.ticks + 200)
    (fun u => (u.arpLookup (resolveTarget s.cfg dstIp)).isSome) n (arpRequest (resolveTarget s.cfg dstIp) s).2

/-- The poll has handled an ARP packet from the address. -/
def HasAnswer (target : Ip) (p : Stack × Stack) : Prop := target ∈ (senders (handledIn p.1 p.2)).map Prod.fst

/-- The answer is in the cache behind the poll: it is not in the first entry, or the senders
behind it that are new to the cache find free entries. -/
def AnswerLasts (target : Ip) (p : Stack × Stack) : Prop := Lasting target p.1.arpTable (senders (handledIn p.1 p.2))

/-- The cache has each address once. -/
structure Sound (s : Stack) : Prop where
  unique : Unique s.arpTable
  nonempty : s.arpTable ≠ []

theorem Sound.heard (h : Sound s) (hheard : Heard s t) : Sound t where
  unique := by
    rw [hheard.table]
    exact h.unique.puts _
  nonempty := by
    rw [hheard.table]
    exact puts_ne_nil h.nonempty _

/-- What a lookup finds was said last, or was in the cache before. -/
theorem Sound.lookup (h : Sound s) (hheard : Heard s t) {ip : Ip} {mac : Mac} (hfind : t.arpLookup ip = some mac) :
    last ip (senders (handledIn s t)) = some mac ∨ last ip (senders (handledIn s t)) = none ∧ s.arpLookup ip = some mac := by
  rw [arpLookup_eq, hheard.table] at hfind
  rw [arpLookup_eq]
  exact h.unique.find_puts hfind

/-! ### The wait -/

section Wait

variable {deadline : UInt64} {found : Bool}

theorem whileBefore_go {body : Exec Stack Bool} (h : s.ticks < deadline ∧ s.world.isEmpty = false) :
    whileBefore deadline body s = body s := by
  unfold whileBefore
  rw [if_pos h.1, if_neg (by rw [h.2]; exact Bool.false_ne_true)]

theorem whileBefore_stop {body : Exec Stack Bool} (h : ¬ (s.ticks < deadline ∧ s.world.isEmpty = false))
    (hrun : whileBefore deadline body s = (.ok found, t)) : found = false ∧ t.arpCache = s.arpCache ∧ t.handled = s.handled := by
  unfold whileBefore at hrun
  split_ifs at hrun with htime hworld
  · obtain ⟨rfl, rfl⟩ : false = found ∧ { s with ticks := deadline } = t := by simpa using hrun
    exact ⟨rfl, rfl, rfl⟩
  · exact absurd ⟨htime, by simpa using hworld⟩ h
  · obtain ⟨rfl, rfl⟩ : false = found ∧ s = t := by simpa using hrun
    exact ⟨rfl, rfl, rfl⟩

/-- How a wait for an address ends: it says whether the cache has the address, the polls have
handled the frames, and it is successful exactly when an answer lasts. -/
structure Waited (target : Ip) (polls : List (Stack × Stack)) (s t : Stack) (found : Bool) : Prop where
  outcome : found = (t.arpLookup target).isSome
  answered : target ∈ (senders (handledIn s t)).map Prod.fst ↔ ∃ p ∈ polls, HasAnswer target p
  lasts : found = true ↔ ∃ p ∈ polls, AnswerLasts target p

theorem Waited.stopped (hmiss : s.arpLookup target = none) (h : found = false ∧ t.arpCache = s.arpCache ∧ t.handled = s.handled) :
    Waited target [] s t found := by
  obtain ⟨rfl, hcache, hhandled⟩ := h
  have hlookup : t.arpLookup target = none := by
    rw [← hmiss]
    unfold Stack.arpLookup
    rw [hcache]
  exact ⟨by rw [hlookup]; rfl, by simp [handledIn_same hhandled, senders], by simp⟩

theorem waitUntil_answer (hs : Sound s) (hmiss : s.arpLookup target = none)
    (hwait : waitUntil (netPoll n) deadline (fun u => (u.arpLookup target).isSome) k s = (.ok found, t)) :
    Waited target (waitPolls (netPoll n) deadline (fun u => (u.arpLookup target).isSome) k s) s t found := by
  induction k generalizing s with
  | zero =>
    by_cases hgo : s.ticks < deadline ∧ s.world.isEmpty = false
    · unfold waitUntil at hwait
      rw [whileBefore_go hgo] at hwait
      simp at hwait
    · exact .stopped hmiss (whileBefore_stop hgo hwait)
  | succ k ih =>
    unfold waitPolls
    by_cases hgo : s.ticks < deadline ∧ s.world.isEmpty = false
    · unfold waitUntil at hwait
      rw [whileBefore_go hgo, bind_ok_iff] at hwait
      obtain ⟨_, u, hpoll, hrest⟩ := hwait
      replace hrest : (if (u.arpLookup target).isSome = true then pure true
        else waitUntil (netPoll n) deadline (fun u => (u.arpLookup target).isSome) k : Exec Stack Bool) u = (.ok found, t) := hrest
      have hheard : Heard s u := by
        have h := (hears_netPoll n).heard s
        rwa [hpoll] at h
      have hu : Sound u := hs.heard hheard
      have hlasts : (u.arpLookup target).isSome = true ↔ AnswerLasts target (s, u) := by
        rw [arpLookup_eq] at hmiss
        rw [arpLookup_eq, hheard.table]
        exact find_isSome_iff hs.unique hs.nonempty hmiss
      rw [if_pos hgo, hpoll]
      by_cases hdone : (u.arpLookup target).isSome = true
      · rw [if_pos hdone] at hrest ⊢
        obtain ⟨rfl, rfl⟩ : true = found ∧ u = t := by simpa using hrest
        exact ⟨hdone.symm, by simp [HasAnswer], by simp [hlasts.1 hdone]⟩
      · rw [if_neg hdone] at hrest ⊢
        have hheard' : Heard u t := by
          have h := (hears_waitUntil (hears_netPoll n) deadline (fun u => (u.arpLookup target).isSome) k).heard u
          rwa [hrest] at h
        have hwaited := ih hu (by simpa using hdone) hrest
        refine ⟨hwaited.outcome, ?_, ?_⟩
        · simp only [List.mem_cons, exists_eq_or_imp, ← hwaited.answered]
          rw [handledIn_trans hheard hheard', senders, List.filterMap_append, List.map_append, List.mem_append]
          rfl
        · simp only [List.mem_cons, exists_eq_or_imp, ← hwaited.lasts, ← hlasts, hdone, Bool.false_eq_true, false_or]
    · rw [if_neg hgo]
      exact .stopped hmiss (whileBefore_stop hgo hwait)

end Wait

/-! ### `resolve_mac` -/

/-- What a caller of `resolve_mac` relies on: when an ARP packet from the address is handled,
the answer is the address that the last one names. -/
def UsesAnswer (n : ℕ) (dstIp : Ip) (s : Stack) : Prop :=
  ∃ r t, resolveMac (netPoll n) n dstIp s = (.ok r, t) ∧
    ∀ mac, last (resolveTarget s.cfg dstIp) (senders (handledIn s t)) = some mac → r = some mac

/-- When one of the polls has an answer, the answer lasts in one of them. -/
def AnswersLast (n : ℕ) (dstIp : Ip) (s : Stack) : Prop :=
  (∃ p ∈ resolvePolls n dstIp s, HasAnswer (resolveTarget s.cfg dstIp) p) →
    ∃ p ∈ resolvePolls n dstIp s, AnswerLasts (resolveTarget s.cfg dstIp) p

/-- The wait of `resolve_mac` answers what the cache has at its end. -/
theorem askMac_waited (hs : Sound s) (hmiss : s.arpLookup target = none) {r : Option Mac}
    (hrun : askMac (netPoll n) n target s = (.ok r, t)) :
    r = t.arpLookup target ∧ Heard s t ∧ Waited target (waitPolls (netPoll n) ((arpRequest target s).2.ticks + 200)
      (fun u => (u.arpLookup target).isSome) n (arpRequest target s).2) s t r.isSome := by
  obtain ⟨frames, hrequest⟩ := arpRequest_apply target s
  rw [hrequest]
  unfold askMac at hrun
  rw [bind_ok hrequest] at hrun
  generalize hs' : { s with sent := frames } = s' at hrun ⊢
  have hheard : Heard s s' := by
    subst hs'
    exact .of_same rfl rfl
  have hsame : handledIn s t = handledIn s' t := by
    subst hs'
    rfl
  have hmiss' : s'.arpLookup target = none := by
    subst hs'
    exact hmiss
  replace hrun : (waitUntil (netPoll n) (s'.ticks + 200) (fun u => (u.arpLookup target).isSome) n >>= fun found =>
    if found = true then gets fun u => u.arpLookup target else pure none) s' = (.ok r, t) := hrun
  obtain ⟨found, u, hwait, hrest⟩ := bind_ok_iff.1 hrun
  have hwaited := waitUntil_answer (hs.heard hheard) hmiss' hwait
  have hheard' : Heard s' u := by
    have h := (hears_waitUntil (hears_netPoll n) (s'.ticks + 200) (fun u => (u.arpLookup target).isSome) n).heard s'
    rwa [hwait] at h
  have hend : r = u.arpLookup target ∧ u = t := by
    have houtcome := hwaited.outcome
    split_ifs at hrest with hfound
    · obtain ⟨rfl, rfl⟩ : u.arpLookup target = r ∧ u = t := by simpa using hrest
      exact ⟨rfl, rfl⟩
    · obtain ⟨rfl, rfl⟩ : none = r ∧ u = t := by simpa using hrest
      rw [Bool.not_eq_true] at hfound
      rw [hfound, eq_comm, Option.isSome_eq_false_iff, Option.isNone_iff_eq_none] at houtcome
      exact ⟨houtcome.symm, rfl⟩
  obtain ⟨rfl, rfl⟩ := hend
  refine ⟨rfl, hheard.trans hheard', ?_⟩
  rw [← hwaited.outcome]
  exact ⟨hwaited.outcome, by rw [hsame]; exact hwaited.answered, hwaited.lasts⟩

theorem usesAnswer_iff (hs : Sound s) (hn : s.world.length ≤ n) (dstIp : Ip) : UsesAnswer n dstIp s ↔ AnswersLast n dstIp s := by
  obtain ⟨r, t, hrun, -⟩ | ⟨_, _, hfalse⟩ := returns_resolveMac (polls_netPoll n) hn dstIp
  swap
  · exact hfalse.elim
  have huses : UsesAnswer n dstIp s ↔
      ∀ mac, last (resolveTarget s.cfg dstIp) (senders (handledIn s t)) = some mac → r = some mac := by
    unfold UsesAnswer
    rw [hrun]
    constructor
    · rintro ⟨r', t', heq, h⟩
      obtain ⟨rfl, rfl⟩ : r = r' ∧ t = t' := by simpa using heq
      exact h
    · exact fun h => ⟨r, t, rfl, h⟩
  rw [huses]
  have htarget : resolveMac (netPoll n) n dstIp s = (s.arpLookup (resolveTarget s.cfg dstIp)).elim
      (askMac (netPoll n) n (resolveTarget s.cfg dstIp)) (fun mac => pure (some mac)) s := by
    unfold resolveMac
    rw [bind_ok (gets_apply _ s), bind_ok (gets_apply _ s)]
    cases s.arpLookup (resolveTarget s.cfg dstIp) <;> rfl
  rw [htarget] at hrun
  unfold AnswersLast resolvePolls
  generalize resolveTarget s.cfg dstIp = target at hrun ⊢
  cases hlookup : s.arpLookup target with
  | some mac =>
    rw [hlookup] at hrun
    obtain ⟨rfl, rfl⟩ : some mac = r ∧ s = t := by simpa using hrun
    simp [handledIn_same, senders]
  | none =>
    rw [hlookup] at hrun
    obtain ⟨rfl, hheard, hwaited⟩ := askMac_waited hs hlookup hrun
    rw [Option.isSome_none, if_neg Bool.false_ne_true, ← hwaited.answered, ← hwaited.lasts]
    constructor
    · intro h hanswered
      obtain ⟨mac, hmac⟩ := Option.ne_none_iff_exists'.1 (mt last_eq_none_iff.1 (not_not.2 hanswered))
      rw [h mac hmac]
      rfl
    · intro h mac hmac
      have hanswered : target ∈ (senders (handledIn s t)).map Prod.fst := by
        by_contra hnot
        rw [last_eq_none_iff.2 hnot] at hmac
        cases hmac
      obtain ⟨mac', hmac'⟩ := Option.isSome_iff_exists.1 (h hanswered)
      rcases hs.lookup hheard hmac' with hlast | ⟨hlast, -⟩
      · rw [hmac', ← hlast, hmac]
      · rw [hlast] at hmac
        cases hmac

/-! ### Every run -/

section

variable (mac : Mac) (ticks : UInt64) (world : List Arrival)
include mac ticks world

theorem arpTable_start : (netInit mac ticks world).arpTable = List.replicate ARP_CACHE_SIZE none := by
  unfold Stack.arpTable
  exact List.map_replicate

theorem lookup_start (ip : Ip) : (netInit mac ticks world).arpLookup ip = none := by
  rw [arpLookup_eq, arpTable_start, find_eq_none_iff]
  intro i v hi
  cases List.eq_of_mem_replicate (List.mem_of_getElem? hi)

theorem sound_start : Sound (netInit mac ticks world) where
  unique := by
    intro i j k v w hi
    rw [arpTable_start] at hi
    cases List.eq_of_mem_replicate (List.mem_of_getElem? hi)
  nonempty := by
    rw [arpTable_start]
    exact List.cons_ne_nil _ _

end

/-- The stack after some calls. -/
def reached (mac : Mac) (ticks : UInt64) (world : List Arrival) (n : ℕ) (calls : List Call) : Stack :=
  (runCalls n calls (netInit mac ticks world)).2

theorem reached_heard (mac : Mac) (ticks : UInt64) (world : List Arrival) (n : ℕ) (calls : List Call) :
    Heard (netInit mac ticks world) (reached mac ticks world n calls) := heard_runCalls n calls _

/-- The cache has each address once, with what its last ARP packet says; `resolve_mac` returns,
and uses the answers that it gets exactly when one of them lasts until it is looked for. -/
theorem arp_answers (mac : Mac) (ticks : UInt64) (world : List Arrival) (m : ℕ) (calls : List Call) :
    Unique (reached mac ticks world m calls).arpTable ∧
    (∀ ip hw, (reached mac ticks world m calls).arpLookup ip = some hw →
      last ip (senders (reached mac ticks world m calls).handled) = some hw) ∧
    ∀ k dstIp, UsesAnswer ((reached mac ticks world m calls).world.length + k) dstIp (reached mac ticks world m calls) ↔
      AnswersLast ((reached mac ticks world m calls).world.length + k) dstIp (reached mac ticks world m calls) := by
  have hheard := reached_heard mac ticks world m calls
  have hsound := (sound_start mac ticks world).heard hheard
  refine ⟨hsound.unique, ?_, fun k dstIp => usesAnswer_iff hsound (Nat.le_add_right _ _) dstIp⟩
  intro ip hw hfind
  have hhandled : handledIn (netInit mac ticks world) (reached mac ticks world m calls) = (reached mac ticks world m calls).handled := rfl
  rcases (sound_start mac ticks world).lookup hheard hfind with hlast | ⟨-, hold⟩
  · rwa [hhandled] at hlast
  · rw [lookup_start] at hold
    cases hold

/-! ### A full poll -/

/-- The answer and, behind it, more senders than the cache has entries. -/
def crowd : Stack := netInit ourMac 0 [⟨1, peerArp :: neighbours⟩]

theorem crowd_run : (resolveMac (netPoll 1) 1 peerIp crowd).1 = .ok none ∧
    last (resolveTarget crowd.cfg peerIp) (senders (handledIn crowd (resolveMac (netPoll 1) 1 peerIp crowd).2)) = some peerMac := by
  decide +kernel

theorem not_usesAnswer : ¬ ∀ (mac : Mac) (ticks : UInt64) (world : List Arrival) (m : ℕ) (calls : List Call) (k : ℕ) (dstIp : Ip),
    UsesAnswer ((reached mac ticks world m calls).world.length + k) dstIp (reached mac ticks world m calls) := by
  intro hall
  obtain ⟨r, t, hrun, huses⟩ := hall ourMac 0 [⟨1, peerArp :: neighbours⟩] 0 [] 0 peerIp
  obtain ⟨hnone, hlast⟩ := crowd_run
  replace hrun : resolveMac (netPoll 1) 1 peerIp crowd = (.ok r, t) := hrun
  rw [hrun] at hnone hlast
  have hr := huses peerMac hlast
  rw [hr] at hnone
  cases hnone

end Tg11Kernel.Net
