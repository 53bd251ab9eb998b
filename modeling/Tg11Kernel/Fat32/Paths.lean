import Tg11Kernel.Fat32.Tree
import Tg11Kernel.Fat32.Names
import Tg11Kernel.Lib.Fields

/-! The two path walkers. Both go through the components of a path; one of them looks ahead
and stops before the last one. On a consistent volume a step from a directory is a function of
the component, so both walks are folds over the components, and what they have to do with each
other is a fact about lists. -/

namespace Tg11Kernel.Fat32

open Lib Exec

variable {δ : Type} {fs : Fat32State δ} {dev : BlockDevice δ} {content : δ → ℕ → Sector} {disk : ℕ → Sector}

/-! ### Components -/

/-- The part that `path_next_part` finds is the first component. -/
theorem pathNextPart_spec (p : Path) : (fields isSep p = [] ∧ ∃ np, pathNextPart p = some ([], np)) ∨
      ∃ part np, fields isSep p = part :: fields isSep np ∧ part ≠ [] ∧ np.length < p.length ∧
        pathNextPart p = if part.length ≥ 16 then none else some (part, np) := by
  have hlen : (p.dropWhile isSep).length ≤ p.length := (List.dropWhile_suffix _).length_le
  have hnot := @List.head_dropWhile_not _ isSep p
  rw [pathNextPart, ← fields_dropWhile p]
  generalize p.dropWhile isSep = q at hlen hnot ⊢
  cases q with
  | nil => exact .inl ⟨rfl, [], rfl⟩
  | cons c q =>
    have hc : isSep c = false := hnot (by simp)
    have hsplit := List.takeWhile_append_dropWhile (p := fun c => !isSep c) (l := c :: q)
    have hpart : ∀ d ∈ (c :: q).takeWhile (fun c => !isSep c), isSep d = false := by
      intro d hd
      simpa using List.mem_takeWhile_imp hd
    have hne : (c :: q).takeWhile (fun c => !isSep c) ≠ [] := by simp [hc]
    have hend := @List.head_dropWhile_not _ (fun c => !isSep c) (c :: q)
    have hdrop : (c :: q).drop ((c :: q).takeWhile fun c => !isSep c).length = (c :: q).dropWhile fun c => !isSep c :=
      calc (c :: q).drop ((c :: q).takeWhile fun c => !isSep c).length
        _ = ((c :: q).takeWhile (fun c => !isSep c) ++ (c :: q).dropWhile fun c => !isSep c).drop
            ((c :: q).takeWhile fun c => !isSep c).length := by rw [hsplit]
        _ = (c :: q).dropWhile fun c => !isSep c := List.drop_left
    have hpos := List.length_pos_iff.2 hne
    have hshort : ((c :: q).dropWhile fun c => !isSep c).length < (c :: q).length := by
      have := congrArg List.length hsplit
      rw [List.length_append] at this
      omega
    refine .inr ⟨_, _, ?_, hne, hshort.trans_le hlen, by rw [hdrop]⟩
    rcases hrest : (c :: q).dropWhile (fun c => !isSep c) with _ | ⟨d, rest⟩
    · rw [hrest, List.append_nil] at hsplit
      rw [hsplit] at hpart hne ⊢
      simp [fields_of_forall_not hpart hne]
    · have hd : isSep d = true := by simpa [hrest] using hend
      rw [fields_cons_sep hd, ← fields_field_append hpart hne hd, ← hrest, hsplit]

theorem upcase_dot {c : UInt8} : upcase c = 46 ↔ c = 46 := by
  constructor
  · intro h
    by_contra hne
    exact upcase_ne_dot hne h
  · rintro rfl
    rfl

theorem map_upcase_dotName (part : Path) : part.map upcase = dotName ↔ part = dotName := by
  simp [dotName, List.map_eq_cons_iff, upcase_dot]

theorem map_upcase_dotdotName (part : Path) : part.map upcase = dotdotName ↔ part = dotdotName := by
  simp [dotdotName, List.map_eq_cons_iff, upcase_dot]

/-- Letter case does not matter to the folding of a name. -/
theorem nameTo83_map_upcase (name : Path) : nameTo83 (name.map upcase) = nameTo83 name := by
  have hloop : ∀ (name : Path) (inExt : Bool) (base ext : List UInt8),
      nameTo83Loop (name.map upcase) inExt base ext = nameTo83Loop name inExt base ext := by
    intro name
    induction name with
    | nil => intros; rfl
    | cons c name ih =>
      intro inExt base ext
      simp only [List.map_cons, nameTo83Loop, upcase_upcase, ih]
  rw [nameTo83, nameTo83, hloop]

/-- A name that does not fit the part buffer does not fold. -/
theorem nameTo83_of_long {name : Path} (h : name.length ≥ 16) : nameTo83 name = none := by
  by_contra hsome
  obtain ⟨name83, hname⟩ := Option.ne_none_iff_exists'.1 hsome
  obtain ⟨base, ext, hs, -⟩ := nameTo83_iff.1 hname
  have hbase := hs.baseLength
  have hext := hs.extLength
  rcases hs.spelling with ⟨hn, -⟩ | hn
  · have hlen := congrArg List.length hn
    rw [List.length_map] at hlen
    omega
  · have hlen := congrArg List.length hn
    rw [List.length_map, List.length_append, List.length_cons] at hlen
    omega

/-! ### Steps and walks on a disk -/

section Walk

variable (fs : Fat32State δ) (disk : ℕ → Sector) (dirs : ℕ → List Slot)

/-- The slots of every directory. -/
def Listing : Prop := ∀ d, Dir fs disk d → ∃ l, Chain fs disk d l ∧ dirs d = dirSlots fs l

/-- The parent that the link of a directory names. -/
def parentDir (d : ℕ) : ℕ :=
  if d = fs.rootCluster then fs.rootCluster
  else (parentOf (lookup disk dotdot83 (dirs d))).elim fs.rootCluster fun c => if c < 2 then fs.rootCluster else c

/-- The subdirectory that a component names. -/
def subdir (d : ℕ) (part : Path) : Option ℕ := (nameTo83 part).bind fun name83 => subdirOf (lookup disk name83 (dirs d))

/-- Where a component leads. -/
def goPart (d : ℕ) (part : Path) : Option ℕ :=
  if part.length ≥ 16 then none
  else if part = dotName then some d
  else if part = dotdotName then some (parentDir fs disk dirs d)
  else subdir disk dirs d part

/-- Where the components lead, one after the other. -/
def walkParts (parts : List Path) (d : ℕ) : Option ℕ := parts.foldlM (goPart fs disk dirs) d

/-- The directory before the last component, and the last component folded. -/
def walkToLeaf : List Path → ℕ → Option (ℕ × Name83)
  | [], _ => none
  | [last], d =>
    if last.length ≥ 16 ∨ last = dotName ∨ last = dotdotName then none
    else (nameTo83 last).map fun name83 => (d, name83)
  | part :: next :: rest, d => (goPart fs disk dirs d part).bind (walkToLeaf (next :: rest))

end Walk

variable {dirs : ℕ → List Slot} {d : ℕ} {part : Path} {parts rest : List Path}

theorem exists_listing (h : Consistent fs disk) : ∃ dirs, Listing fs disk dirs := by
  have hslots : ∀ d, ∃ slots, Dir fs disk d → ∃ l, Chain fs disk d l ∧ slots = dirSlots fs l := by
    intro d
    by_cases hd : Dir fs disk d
    · obtain ⟨l, hl⟩ := h.dir_chain hd
      exact ⟨_, fun _ => ⟨l, hl, rfl⟩⟩
    · exact ⟨[], fun hd' => absurd hd' hd⟩
  choose dirs hdirs using hslots
  exact ⟨dirs, hdirs⟩

@[simp] theorem walkParts_nil (d : ℕ) : walkParts fs disk dirs [] d = some d := rfl

theorem walkParts_cons (part : Path) (parts : List Path) (d : ℕ) :
    walkParts fs disk dirs (part :: parts) d = (goPart fs disk dirs d part).bind (walkParts fs disk dirs parts) :=
  List.foldlM_cons

theorem walkParts_append (parts rest : List Path) (d : ℕ) :
    walkParts fs disk dirs (parts ++ rest) d = (walkParts fs disk dirs parts d).bind (walkParts fs disk dirs rest) :=
  List.foldlM_append

theorem walkToLeaf_cons (hrest : rest ≠ []) (part : Path) (d : ℕ) :
    walkToLeaf fs disk dirs (part :: rest) d = (goPart fs disk dirs d part).bind (walkToLeaf fs disk dirs rest) := by
  cases rest with
  | nil => exact absurd rfl hrest
  | cons next rest => rfl

theorem walkToLeaf_append (hrest : rest ≠ []) (parts : List Path) (d : ℕ) :
    walkToLeaf fs disk dirs (parts ++ rest) d = (walkParts fs disk dirs parts d).bind (walkToLeaf fs disk dirs rest) := by
  induction parts generalizing d with
  | nil => rfl
  | cons part parts ih =>
    rw [List.cons_append, walkToLeaf_cons (by simp [hrest]), walkParts_cons, Option.bind_assoc]
    congr 1
    funext d'
    exact ih d'

theorem walkToLeaf_long (hlong : part.length ≥ 16) (rest : List Path) (d : ℕ) : walkToLeaf fs disk dirs (part :: rest) d = none := by
  cases rest with
  | nil => simp [walkToLeaf, hlong]
  | cons next rest => simp [walkToLeaf, goPart, hlong]

theorem goPart_map_upcase (d : ℕ) (part : Path) : goPart fs disk dirs d (part.map upcase) = goPart fs disk dirs d part := by
  simp only [goPart, subdir, List.length_map, map_upcase_dotName, map_upcase_dotdotName, nameTo83_map_upcase]

theorem walkParts_map_upcase (parts : List Path) (d : ℕ) :
    walkParts fs disk dirs (parts.map fun part => part.map upcase) d = walkParts fs disk dirs parts d := by
  rw [walkParts, List.foldlM_map]
  simp only [goPart_map_upcase]
  rfl

theorem walkToLeaf_map_upcase (parts : List Path) (d : ℕ) :
    walkToLeaf fs disk dirs (parts.map fun part => part.map upcase) d = walkToLeaf fs disk dirs parts d := by
  induction parts generalizing d with
  | nil => rfl
  | cons part rest ih =>
    cases rest with
    | nil => simp only [List.map_cons, List.map_nil, walkToLeaf, List.length_map, map_upcase_dotName, map_upcase_dotdotName,
        nameTo83_map_upcase]
    | cons next rest =>
      rw [List.map_cons, walkToLeaf_cons (by simp), walkToLeaf_cons (by simp), goPart_map_upcase]
      congr 1
      funext d'
      exact ih d'

/-! ### The driver's walkers -/

/-- What `fat32_resolve_parent_and_leaf` does after its loop. -/
def takeLeaf (r : ℕ × Path) : M δ (ℕ × Name83) := do
  Exec.require (r.2 ≠ [] ∧ r.2 ≠ dotName ∧ r.2 ≠ dotdotName)
  let name83 ← Exec.ofOption (nameTo83 r.2)
  pure (r.1, name83)

/-- The last component is folded, unless it is a link to a directory or its parent. -/
theorem evals_takeLeaf {last : Path} (d : ℕ) (hshort : last.length < 16) (hne : last ≠ []) :
    Evals (OnDisk content disk) (takeLeaf (d, last) : M δ (ℕ × Name83)) ((walkToLeaf fs disk dirs [last] d).elim .fail .ok)
      (OnDisk content disk) := by
  unfold takeLeaf walkToLeaf
  by_cases hdot : last = dotName ∨ last = dotdotName
  · rw [if_pos (.inr hdot)]
    exact (Evals.require_fail (by tauto)).bind_fail
  · have hfit : ¬ (last.length ≥ 16 ∨ last = dotName ∨ last = dotdotName) := by
      rintro (hlong | hlink)
      · omega
      · exact hdot hlink
    rw [if_neg hfit]
    refine (Evals.require ⟨hne, by tauto⟩).bind ?_
    cases nameTo83 last with
    | none => exact Evals.fail.bind_fail
    | some name83 => exact Evals.pure _

section Driver

variable (ho : Online fs dev content) (h : Consistent fs disk) (hlist : Listing fs disk dirs) {fuel : ℕ}
  (hf : fs.dataClusters ≤ fuel)

include ho hlist hf

theorem evals_getParentCluster (hd : Dir fs disk d) :
    Evals (OnDisk content disk) (getParentCluster fs fuel d) (.ok (parentDir fs disk dirs d)) (OnDisk content disk) := by
  unfold getParentCluster parentDir
  split_ifs
  · exact Evals.pure _
  · obtain ⟨l, hl, hslots⟩ := hlist d hd
    rw [hslots]
    exact evals_parentFound (evals_findEntryInDir ho hl ((hl.length_le ho.toMounted).trans hf) dotdot83)

theorem evals_enterDir (hd : Dir fs disk d) (part : Path) :
    Evals (OnDisk content disk) (enterDir fs fuel d part) ((subdir disk dirs d part).elim .fail .ok) (OnDisk content disk) := by
  unfold enterDir subdir
  cases nameTo83 part with
  | none => exact Evals.fail.bind_fail
  | some name83 =>
    obtain ⟨l, hl, hslots⟩ := hlist d hd
    rw [hslots]
    exact evals_enterFound (evals_findEntryInDir ho hl ((hl.length_le ho.toMounted).trans hf) name83)

omit ho hf in
/-- A step from a directory leads to a directory. -/
theorem dir_goPart {d' : ℕ} (h : Consistent fs disk) (hd : Dir fs disk d) (hgo : goPart fs disk dirs d part = some d') :
    Dir fs disk d' := by
  obtain ⟨l, hl, hslots⟩ := hlist d hd
  unfold goPart at hgo
  split_ifs at hgo
  · exact Option.some.inj hgo ▸ hd
  · obtain rfl := Option.some.inj hgo
    unfold parentDir
    split_ifs
    · exact Dir.root
    · rw [hslots]
      exact dir_of_parentOf h hd hl
  · obtain ⟨name83, hname, hsub⟩ := Option.bind_eq_some_iff.1 hgo
    rw [hslots] at hsub
    exact dir_of_subdirOf hd hl (not_dotName hname) hsub

/-- One round of either loop on a component that fits its buffer. -/
theorem evals_round {β : Type} (hd : Dir fs disk d) (hpart : part.length < 16) {f : ℕ → M δ β} {o : ℕ → Option β}
    (hnext : ∀ d', goPart fs disk dirs d part = some d' → Evals (OnDisk content disk) (f d') ((o d').elim .fail .ok) (OnDisk content disk)) :
    Evals (OnDisk content disk) (if part = dotName then f d
      else if part = dotdotName then do
        let parent ← getParentCluster fs fuel d
        f parent
      else do
        let cur ← enterDir fs fuel d part
        f cur) (((goPart fs disk dirs d part).bind o).elim .fail .ok) (OnDisk content disk) := by
  have hfit : ¬ part.length ≥ 16 := by omega
  unfold goPart at hnext ⊢
  rw [if_neg hfit] at hnext ⊢
  by_cases hdot : part = dotName
  · rw [if_pos hdot] at hnext ⊢
    rw [if_pos hdot]
    exact hnext d rfl
  rw [if_neg hdot] at hnext ⊢
  rw [if_neg hdot]
  by_cases hdotdot : part = dotdotName
  · rw [if_pos hdotdot] at hnext ⊢
    rw [if_pos hdotdot]
    exact (evals_getParentCluster ho hlist hf hd).bind (hnext _ rfl)
  rw [if_neg hdotdot] at hnext ⊢
  rw [if_neg hdotdot]
  have henter := evals_enterDir ho hlist hf hd part
  cases hsub : subdir disk dirs d part with
  | none =>
    rw [hsub] at henter
    exact henter.bind_fail
  | some d' =>
    rw [hsub] at henter
    exact henter.bind (hnext d' hsub)

include h

theorem evals_resolveDirLoop (n : ℕ) (p : Path) (hn : p.length < n) (hd : Dir fs disk d) :
    Evals (OnDisk content disk) (resolveDirLoop fs fuel n p d) ((walkParts fs disk dirs (fields isSep p) d).elim .fail .ok)
      (OnDisk content disk) := by
  induction n generalizing p d with
  | zero => omega
  | succ n ih =>
    rw [resolveDirLoop]
    rcases pathNextPart_spec p with ⟨hnil, np, hnext⟩ | ⟨part, np, hcons, hne, hlt, hnext⟩
    · rw [hnext, hnil]
      exact Evals.pure d
    · rw [hnext, hcons, walkParts_cons]
      by_cases hlong : part.length ≥ 16
      · rw [if_pos hlong, goPart, if_pos hlong]
        exact Evals.fail.bind_fail
      · rw [if_neg hlong, ofOption_some, pure_bind_eq]
        dsimp only
        rw [if_neg hne]
        exact evals_round ho hlist hf hd (by omega) fun d' hgo => ih np (by omega) (dir_goPart hlist h hd hgo)

theorem evals_resolveParentLoop (n : ℕ) (p : Path) (hn : p.length < n) (hd : Dir fs disk d) :
    Evals (OnDisk content disk) (resolveParentLoop fs fuel n p d >>= takeLeaf)
      ((walkToLeaf fs disk dirs (fields isSep p) d).elim .fail .ok) (OnDisk content disk) := by
  induction n generalizing p d with
  | zero => omega
  | succ n ih =>
    rw [resolveParentLoop]
    rcases pathNextPart_spec p with ⟨hnil, np, hnext⟩ | ⟨part, np, hcons, hne, hlt, hnext⟩
    · rw [hnext, hnil, ofOption_some, pure_bind_eq]
      have hno : ¬ (([] : Path) ≠ [] ∧ ([] : Path) ≠ dotName ∧ ([] : Path) ≠ dotdotName) := fun hand => hand.1 rfl
      have hfail : Evals (OnDisk content disk) (takeLeaf (d, []) : M δ (ℕ × Name83)) .fail (OnDisk content disk) :=
        (Evals.require_fail hno).bind_fail
      exact hfail
    · rw [hnext, hcons]
      by_cases hlong : part.length ≥ 16
      · rw [if_pos hlong, walkToLeaf_long hlong]
        exact Evals.fail.bind_fail.bind_fail
      · rw [if_neg hlong, ofOption_some, pure_bind_eq]
        dsimp only
        rw [if_neg hne]
        rcases pathNextPart_spec np with ⟨hnil, np', hpeek⟩ | ⟨check, np', hcons', hne', hlt', hpeek⟩
        · rw [hpeek, hnil, ofOption_some, pure_bind_eq]
          exact evals_takeLeaf d (by omega) hne
        · rw [hpeek, hcons', walkToLeaf_cons (by simp)]
          by_cases hlong' : check.length ≥ 16
          · have hnone : (goPart fs disk dirs d part).bind (walkToLeaf fs disk dirs (check :: fields isSep np')) = none := by
              rw [Option.bind_eq_none_iff]
              exact fun d' _ => walkToLeaf_long hlong' _ d'
            rw [if_pos hlong', hnone]
            exact Evals.fail.bind_fail.bind_fail
          · rw [if_neg hlong', ofOption_some, pure_bind_eq]
            dsimp only
            rw [if_neg hne']
            have hround := evals_round ho hlist hf hd (Nat.lt_of_not_ge hlong)
              (f := fun cur => resolveParentLoop fs fuel n np cur >>= takeLeaf) fun d' hgo => ih np (by omega) (dir_goPart hlist h hd hgo)
            rw [hcons'] at hround
            rw [apply_ite (· >>= takeLeaf), apply_ite (· >>= takeLeaf)]
            simpa only [bind_assoc] using hround

/-- `fat32_resolve_dir_cluster` walks all components. -/
theorem evals_resolveDirCluster (p : Path) : Evals (OnDisk content disk) (resolveDirCluster fs fuel (some p))
      ((walkParts fs disk dirs (fields isSep p) fs.rootCluster).elim .fail .ok) (OnDisk content disk) := by
  rw [resolveDirCluster, require_pos ho.mounted, pure_bind_eq]
  by_cases hroot : isRootPath (some p) = true
  · have hnil : fields isSep p = [] := by
      apply fields_of_forall
      intro c hc
      have hp : p = [] ∨ p = [47] := by simpa [isRootPath] using hroot
      rcases hp with rfl | rfl
      · simp at hc
      · obtain rfl : c = 47 := by simpa using hc
        rfl
    rw [if_pos hroot, hnil]
    exact Evals.pure _
  · rw [if_neg hroot, ofOption_some, pure_bind_eq]
    exact evals_resolveDirLoop ho h hlist hf _ p (by omega) Dir.root

theorem evals_resolveParentAndLeaf (p : Path) : Evals (OnDisk content disk) (resolveParentAndLeaf fs fuel (some p))
      ((walkToLeaf fs disk dirs (fields isSep p) fs.rootCluster).elim .fail .ok) (OnDisk content disk) := by
  rw [resolveParentAndLeaf, require_pos ho.mounted, pure_bind_eq, ofOption_some, pure_bind_eq]
  exact evals_resolveParentLoop ho h hlist hf _ p (by omega) Dir.root

end Driver

/-! ### What the walkers have to do with each other -/

/-- The link of every subdirectory names the directory it is in; the root may be written as 0. -/
def UpLinks (fs : Fat32State δ) (disk : ℕ → Sector) : Prop :=
  ∀ d l s l', Dir fs disk d → Chain fs disk d l → s ∈ usedSlots disk (dirSlots fs l) → (slotEntry disk s).InUse →
    ¬ DotName (slotEntry disk s).name → (slotEntry disk s).isDir → Chain fs disk (slotEntry disk s).firstCluster l' →
    ∃ found, lookup disk dotdot83 (dirSlots fs l') = some found ∧
      (found.2.2.firstCluster = d ∨ d = fs.rootCluster ∧ found.2.2.firstCluster = 0)

/-- The component names a subdirectory of `d`. -/
def HasDir (fs : Fat32State δ) (disk : ℕ → Sector) (d : ℕ) (x : Path) : Prop :=
  ∃ name83 l found, nameTo83 x = some name83 ∧ Chain fs disk d l ∧ lookup disk name83 (dirSlots fs l) = some found ∧
    found.2.2.isDir ∧ 2 ≤ found.2.2.firstCluster

/-- The directory that `fat32_resolve_dir_cluster` reaches along some components. -/
def StandsAt (fs : Fat32State δ) (fuel : ℕ) (w : Driver δ) (parts : List Path) (d : ℕ) : Prop :=
  (resolveDirCluster fs fuel (some (parts.flatMap fun part => part ++ [47])) w).1 = .ok d

/-- Both walkers return the same for both paths. -/
def SameResults (fs : Fat32State δ) (fuel : ℕ) (w : Driver δ) (path path' : Path) : Prop :=
  (resolveParentAndLeaf fs fuel (some path') w).1 = (resolveParentAndLeaf fs fuel (some path) w).1 ∧
    (resolveDirCluster fs fuel (some path') w).1 = (resolveDirCluster fs fuel (some path) w).1

/-- The two walkers on a path: they agree, and they look only at the components, up to letter
case and to steps that lead nowhere. -/
structure WalkersAgree (fs : Fat32State δ) (fuel : ℕ) (disk : ℕ → Sector) (w : Driver δ) (path : Path) : Prop where
  found : ∀ parent name83, (resolveParentAndLeaf fs fuel (some path) w).1 = .ok (parent, name83) →
    ∃ l, Chain fs disk parent l ∧ ∀ c, (resolveDirCluster fs fuel (some path) w).1 = .ok c ↔
      ∃ found, lookup disk name83 (dirSlots fs l) = some found ∧ found.2.2.isDir ∧ 2 ≤ found.2.2.firstCluster ∧
        found.2.2.firstCluster = c
  fails : (resolveParentAndLeaf fs fuel (some path) w).1 = .fail → (resolveDirCluster fs fuel (some path) w).1 = .fail
  ends : (resolveParentAndLeaf fs fuel (some path) w).1 ≠ .hang ∧ (resolveDirCluster fs fuel (some path) w).1 ≠ .hang
  spelling : ∀ path', (fields isSep path').map (fun part => part.map upcase) = (fields isSep path).map (fun part => part.map upcase) →
    SameResults fs fuel w path path'
  dot : ∀ path' before after, after ≠ [] → fields isSep path = before ++ after →
    fields isSep path' = before ++ dotName :: after → SameResults fs fuel w path path'
  up : ∀ path' before after x d, after ≠ [] → fields isSep path = before ++ after →
    fields isSep path' = before ++ x :: dotdotName :: after → StandsAt fs fuel w before d → HasDir fs disk d x →
    SameResults fs fuel w path path'

theorem dir_walkParts (h : Consistent fs disk) (hlist : Listing fs disk dirs) {d' : ℕ} (hd : Dir fs disk d)
    (hwalk : walkParts fs disk dirs parts d = some d') : Dir fs disk d' := by
  induction parts generalizing d with
  | nil => exact Option.some.inj hwalk ▸ hd
  | cons part parts ih =>
    rw [walkParts_cons] at hwalk
    obtain ⟨d'', hgo, hrest⟩ := Option.bind_eq_some_iff.1 hwalk
    exact ih (dir_goPart hlist h hd hgo) hrest

theorem subdirOf_iff {found : Option Found} {c : ℕ} :
    subdirOf found = some c ↔ ∃ e, found = some e ∧ e.2.2.isDir ∧ 2 ≤ e.2.2.firstCluster ∧ e.2.2.firstCluster = c := by
  cases found with
  | none => simp [subdirOf]
  | some e => simp [subdirOf, and_assoc]

/-- A component that is no link names a subdirectory. -/
theorem goPart_name (hpart : part ≠ dotName ∧ part ≠ dotdotName) (d : ℕ) :
    goPart fs disk dirs d part = subdir disk dirs d part := by
  rw [goPart, if_neg hpart.1, if_neg hpart.2]
  by_cases hlong : part.length ≥ 16
  · rw [if_pos hlong, subdir, nameTo83_of_long hlong]
    rfl
  · rw [if_neg hlong]

theorem walkToLeaf_name (hpart : part ≠ dotName ∧ part ≠ dotdotName) (d : ℕ) :
    walkToLeaf fs disk dirs [part] d = (nameTo83 part).map fun name83 => (d, name83) := by
  rw [walkToLeaf]
  by_cases hlong : part.length ≥ 16
  · rw [if_pos (.inl hlong), nameTo83_of_long hlong]
    rfl
  · rw [if_neg (by tauto)]

/-- Into a subdirectory and up again. -/
theorem goPart_up (h : Consistent fs disk) (hlist : Listing fs disk dirs) (hup : UpLinks fs disk) {x : Path} (hd : Dir fs disk d)
    (hx : HasDir fs disk d x) : walkParts fs disk dirs [x, dotdotName] d = some d := by
  obtain ⟨name83, l, found, hname, hl, hfound, hisDir, hc⟩ := hx
  obtain ⟨l₁, hl₁, hslots⟩ := hlist d hd
  obtain rfl := hl.unique hl₁
  obtain ⟨hmem, heq, hfirst, hattr, hname83⟩ := lookup_some hfound
  have hdot : ¬ DotName (slotEntry disk (found.1, found.2.1)).name := by
    rw [← heq, hname83]
    exact not_dotName hname
  have huse : (slotEntry disk (found.1, found.2.1)).InUse := by
    rw [← heq]
    exact ⟨hfirst, hattr⟩
  have hne : x ≠ dotName ∧ x ≠ dotdotName := by
    have hnone : nameTo83 dotName = none ∧ nameTo83 dotdotName = none := ⟨rfl, rfl⟩
    constructor
    · rintro rfl
      simp [hnone.1] at hname
    · rintro rfl
      simp [hnone.2] at hname
  have hsub : subdir disk dirs d x = some found.2.2.firstCluster := by
    rw [subdir, hname, hslots, Option.bind_some, hfound, subdirOf, Option.bind_some, if_pos ⟨hisDir, hc⟩]
  have hchild : Dir fs disk found.2.2.firstCluster := dir_of_subdirOf hd hl (not_dotName hname) (by
    rw [hfound, subdirOf, Option.bind_some, if_pos ⟨hisDir, hc⟩])
  obtain ⟨l', hl', hslots'⟩ := hlist _ hchild
  have hroot : found.2.2.firstCluster ≠ fs.rootCluster := by
    rw [heq]
    exact h.notRoot _ ⟨⟨⟨d, l, hd, hl, hmem⟩, huse⟩, hdot⟩
  obtain ⟨link, hlink, hparent⟩ := hup d l _ l' hd hl hmem huse hdot (heq ▸ hisDir) (heq ▸ hl')
  have hback : parentDir fs disk dirs found.2.2.firstCluster = d := by
    rw [parentDir, if_neg hroot, hslots', hlink, parentOf, Option.map_some, Option.elim_some]
    have htwo := hl.two_le
    rcases hparent with heq' | ⟨heq', hzero⟩
    · rw [heq', if_neg (by omega)]
    · rw [hzero, if_pos (by omega), heq']
  have hgo : goPart fs disk dirs found.2.2.firstCluster dotdotName = some d := by
    rw [goPart, if_neg (by decide), if_neg (by decide), if_pos rfl, hback]
  rw [walkParts_cons, goPart_name hne, hsub, Option.bind_some, walkParts_cons, hgo]
  rfl

theorem walkers_agree (ho : Online fs dev content) (h : Consistent fs disk) (hup : UpLinks fs disk) {fuel : ℕ}
    (hf : fs.dataClusters ≤ fuel) {w : Driver δ} (hw : OnDisk content disk w) {path last : Path} {init : List Path}
    (hpath : fields isSep path = init ++ [last]) (hlast : last ≠ dotName ∧ last ≠ dotdotName) :
    WalkersAgree fs fuel disk w path := by
  obtain ⟨dirs, hlist⟩ := exists_listing h
  have hdir : ∀ p, (resolveDirCluster fs fuel (some p) w).1 =
      (walkParts fs disk dirs (fields isSep p) fs.rootCluster).elim .fail .ok := by
    intro p
    obtain ⟨w', hrun, -⟩ := evals_resolveDirCluster ho h hlist hf p w hw
    rw [hrun]
  have hleaf : ∀ p, (resolveParentAndLeaf fs fuel (some p) w).1 =
      (walkToLeaf fs disk dirs (fields isSep p) fs.rootCluster).elim .fail .ok := by
    intro p
    obtain ⟨w', hrun, -⟩ := evals_resolveParentAndLeaf ho h hlist hf p w hw
    rw [hrun]
  have hdetour : ∀ path' before mid after, after ≠ [] → fields isSep path = before ++ after →
      fields isSep path' = before ++ (mid ++ after) →
      (∀ d, walkParts fs disk dirs before fs.rootCluster = some d → walkParts fs disk dirs mid d = some d) →
      SameResults fs fuel w path path' := by
    intro path' before mid after hafter hold hnew hmid
    unfold SameResults
    rw [hleaf, hleaf, hdir, hdir, hold, hnew, walkToLeaf_append (by simp [hafter]), walkToLeaf_append hafter, walkParts_append,
      walkParts_append]
    cases hwalk : walkParts fs disk dirs before fs.rootCluster with
    | none => exact ⟨rfl, rfl⟩
    | some d =>
      rw [Option.bind_some, Option.bind_some, Option.bind_some, Option.bind_some, walkToLeaf_append hafter, walkParts_append, hmid d hwalk]
      exact ⟨rfl, rfl⟩
  constructor
  · intro parent name83 hok
    rw [hleaf, hpath, walkToLeaf_append (by simp)] at hok
    cases hwalk : walkParts fs disk dirs init fs.rootCluster with
    | none => simp [hwalk] at hok
    | some d =>
      rw [hwalk, Option.bind_some, walkToLeaf_name hlast] at hok
      cases hname : nameTo83 last with
      | none => simp [hname] at hok
      | some name =>
        obtain ⟨rfl, rfl⟩ : d = parent ∧ name = name83 := by simpa [hname] using hok
        obtain ⟨l, hl, hslots⟩ := hlist d (dir_walkParts h hlist Dir.root hwalk)
        refine ⟨l, hl, fun c => ?_⟩
        rw [hdir, hpath, walkParts_append, hwalk, Option.bind_some, walkParts_cons, goPart_name hlast, subdir, hname, hslots,
          Option.bind_some, ← subdirOf_iff]
        cases subdirOf (lookup disk name (dirSlots fs l)) <;> simp
  · intro hfail
    rw [hleaf, hpath, walkToLeaf_append (by simp)] at hfail
    rw [hdir, hpath, walkParts_append]
    cases hwalk : walkParts fs disk dirs init fs.rootCluster with
    | none => rfl
    | some d =>
      rw [hwalk, Option.bind_some, walkToLeaf_name hlast] at hfail
      cases hname : nameTo83 last with
      | none =>
        rw [Option.bind_some, walkParts_cons, goPart_name hlast, subdir, hname]
        rfl
      | some name => simp [hname] at hfail
  · rw [hleaf, hdir]
    constructor
    · cases walkToLeaf fs disk dirs (fields isSep path) fs.rootCluster <;> simp
    · cases walkParts fs disk dirs (fields isSep path) fs.rootCluster <;> simp
  · intro path' hcase
    unfold SameResults
    rw [hleaf, hleaf, hdir, hdir, ← walkToLeaf_map_upcase, hcase, walkToLeaf_map_upcase, ← walkParts_map_upcase, hcase,
      walkParts_map_upcase]
    exact ⟨rfl, rfl⟩
  · intro path' before after hafter hold hnew
    exact hdetour path' before [dotName] after hafter hold hnew fun d _ => rfl
  · intro path' before after x d hafter hold hnew hstands hx
    apply hdetour path' before [x, dotdotName] after hafter hold hnew
    intro d' hwalk
    have hparts : ∀ part ∈ before, part ≠ [] ∧ ∀ c ∈ part, isSep c = false := by
      intro part hmem
      apply of_mem_fields (l := path)
      rw [hold]
      exact List.mem_append_left _ hmem
    rw [StandsAt, hdir, fields_flatMap rfl hparts, hwalk] at hstands
    obtain rfl : d' = d := by simpa using hstands
    exact goPart_up h hlist hup (dir_walkParts h hlist Dir.root hwalk) hx

/-! ### A volume with one directory -/

/-- Write bytes from an offset on. -/
def putBytes (sec : Sector) (off : ℕ) : List UInt8 → Sector
  | [] => sec
  | c :: rest => putBytes (sec.set off c) (off + 1) rest

/-- The entry of a directory. -/
def dirEntryBytes (name : List UInt8) (cluster : UInt8) : List UInt8 :=
  name ++ List.replicate (11 - name.length) 32 ++ [0x10] ++ List.replicate 14 0 ++ [cluster] ++ List.replicate 5 0

/-- The root, in cluster 2, has the directory `A`, in cluster 3. -/
def treeDisk : ℕ → Sector := fun lba =>
  if lba = 1 then putBytes Block.zero 8 [0xFF, 0xFF, 0xFF, 0x0F, 0xFF, 0xFF, 0xFF, 0x0F]
  else if lba = 2 then putBytes Block.zero 0 (dirEntryBytes [65] 3)
  else if lba = 3 then putBytes Block.zero 0 (dirEntryBytes [46] 3 ++ dirEntryBytes [46, 46] 0)
  else Block.zero

abbrev treeVolume : Fat32State (ℕ → Sector) := smallVolume diskDevice

theorem treeDisk_used : usedSlots treeDisk (dirSlots treeVolume [2]) = [(2, 0)] ∧
    usedSlots treeDisk (dirSlots treeVolume [3]) = [(3, 0), (3, 32)] := by decide

theorem treeDisk_rest : (∀ s ∈ (dirSlots treeVolume [2]).dropWhile (fun s => (slotEntry treeDisk s).first ≠ 0x00),
      (slotEntry treeDisk s).first = 0x00) ∧
    ∀ s ∈ (dirSlots treeVolume [3]).dropWhile (fun s => (slotEntry treeDisk s).first ≠ 0x00),
      (slotEntry treeDisk s).first = 0x00 := by decide

theorem treeDisk_entries : (slotEntry treeDisk (2, 0)).firstCluster = 3 ∧ (slotEntry treeDisk (3, 0)).firstCluster = 3 ∧
    (slotEntry treeDisk (3, 32)).firstCluster = 0 ∧ (slotEntry treeDisk (3, 0)).name = dot83 ∧
    (slotEntry treeDisk (3, 32)).name = dotdot83 ∧ (slotEntry treeDisk (2, 0)).name ≠ dot83 ∧
    (slotEntry treeDisk (2, 0)).name ≠ dotdot83 := by decide +kernel

theorem treeDisk_entry : (slotEntry treeDisk (2, 0)).isDir ∧ (slotEntry treeDisk (2, 0)).first ≠ 0xE5 ∧
    (slotEntry treeDisk (2, 0)).attr ≠ FAT32_ATTR_LFN := by decide +kernel

theorem treeDisk_chain {c : ℕ} (hc : c = 2 ∨ c = 3) : Chain treeVolume treeDisk c [c] := by
  have hval : fatVal treeVolume treeDisk 2 = 0x0FFFFFFF ∧ fatVal treeVolume treeDisk 3 = 0x0FFFFFFF := by decide +kernel
  have hlink : link treeVolume treeDisk c = none := by
    rw [link]
    rcases hc with rfl | rfl
    · rw [hval.1, if_pos (by decide)]
    · rw [hval.2, if_pos (by decide)]
  refine ⟨⟨rfl, hlink⟩, ?_⟩
  rintro d hd
  obtain rfl : d = c := by simpa using hd
  rcases hc with rfl | rfl <;> decide

theorem treeDisk_dir {d : ℕ} (hd : Dir treeVolume treeDisk d) : d = 2 ∨ d = 3 := by
  obtain ⟨hfirst, -, -, hdot, hdotdot, -, -⟩ := treeDisk_entries
  induction hd with
  | root => exact .inl rfl
  | @sub d l s hd hl hs huse hname hdir hc ih =>
    obtain rfl := hl.unique (treeDisk_chain ih)
    rcases ih with rfl | rfl
    · rw [treeDisk_used.1] at hs
      obtain rfl : s = (2, 0) := by simpa using hs
      exact .inr hfirst
    · rw [treeDisk_used.2] at hs
      rcases List.mem_cons.1 hs with rfl | hs
      · exact absurd (.inl hdot) hname
      · obtain rfl : s = (3, 32) := by simpa using hs
        exact absurd (.inr hdotdot) hname

theorem treeDisk_sub : Dir treeVolume treeDisk 3 := by
  obtain ⟨hfirst, -, -, -, -, hdot, hdotdot⟩ := treeDisk_entries
  obtain ⟨hdir, huse⟩ := treeDisk_entry
  have hmem : (2, 0) ∈ usedSlots treeDisk (dirSlots treeVolume [2]) := by
    rw [treeDisk_used.1]
    exact List.mem_singleton.2 rfl
  have hname : ¬ DotName (slotEntry treeDisk (2, 0)).name := fun h => h.elim hdot hdotdot
  have hsub : Dir treeVolume treeDisk _ := Dir.sub Dir.root (treeDisk_chain (.inl rfl)) hmem huse hname hdir (by rw [hfirst]; omega)
  rwa [hfirst] at hsub

theorem treeDisk_live {s : Slot} (hs : Live treeVolume treeDisk s) : s = (2, 0) ∨ s = (3, 0) ∨ s = (3, 32) := by
  obtain ⟨⟨d, l, hd, hl, hmem⟩, -⟩ := hs
  have hd := treeDisk_dir hd
  obtain rfl := hl.unique (treeDisk_chain hd)
  rcases hd with rfl | rfl
  · rw [treeDisk_used.1] at hmem
    exact .inl (by simpa using hmem)
  · rw [treeDisk_used.2] at hmem
    exact .inr (by simpa using hmem)

theorem treeDisk_owner {s : Slot} (hs : Owner treeVolume treeDisk s) : s = (2, 0) := by
  obtain ⟨-, -, -, hdot, hdotdot, -, -⟩ := treeDisk_entries
  rcases treeDisk_live hs.1 with rfl | rfl | rfl
  · rfl
  · exact absurd (.inl hdot) hs.2
  · exact absurd (.inr hdotdot) hs.2

theorem treeDisk_consistent : Consistent treeVolume treeDisk := by
  obtain ⟨hfirst, hself, hparent, -⟩ := treeDisk_entries
  have hhead : ∀ c, Head treeVolume treeDisk c → c = 2 ∨ c = 3 := by
    rintro c (hroot | ⟨s, hs, heq, -⟩)
    · exact .inl hroot
    · rw [treeDisk_owner hs, hfirst] at heq
      exact .inr heq.symm
  constructor
  · exact ⟨[2], treeDisk_chain (.inl rfl)⟩
  · intro s hs
    rcases treeDisk_live hs with rfl | rfl | rfl
    · exact .inr ⟨[3], hfirst ▸ treeDisk_chain (.inr rfl)⟩
    · exact .inr ⟨[3], hself ▸ treeDisk_chain (.inr rfl)⟩
    · exact .inl hparent
  · intro s hs _
    rcases treeDisk_live hs with rfl | rfl | rfl
    · exact .inr (hfirst ▸ treeDisk_sub)
    · exact .inr (hself ▸ treeDisk_sub)
    · exact .inl hparent
  · intro s t hs ht _ _
    rw [treeDisk_owner hs, treeDisk_owner ht]
  · intro s hs
    rw [treeDisk_owner hs, hfirst]
    decide
  · intro c d l l' hc hd hne hl hl'
    obtain rfl := hl.unique (treeDisk_chain (hhead c hc))
    obtain rfl := hl'.unique (treeDisk_chain (hhead d hd))
    simpa using hne.symm
  · intro d l hd hl
    have hd := treeDisk_dir hd
    obtain rfl := hl.unique (treeDisk_chain hd)
    rcases hd with rfl | rfl
    · exact treeDisk_rest.1
    · exact treeDisk_rest.2

theorem treeDisk_upLinks : UpLinks treeVolume treeDisk := by
  intro d l s l' hd hl hs huse hdot hdir hl'
  obtain ⟨hfirst, -, hparent, -⟩ := treeDisk_entries
  obtain rfl := treeDisk_owner ⟨⟨⟨d, l, hd, hl, hs⟩, huse⟩, hdot⟩
  have hd := treeDisk_dir hd
  obtain rfl := hl.unique (treeDisk_chain hd)
  rw [hfirst] at hl'
  obtain rfl := hl'.unique (treeDisk_chain (.inr rfl))
  have hfound : lookup treeDisk dotdot83 (dirSlots treeVolume [3]) = some (3, 32, slotEntry treeDisk (3, 32)) := by decide +kernel
  refine ⟨_, hfound, .inr ⟨?_, hparent⟩⟩
  rcases hd with rfl | rfl
  · rfl
  · rw [treeDisk_used.2] at hs
    simp at hs

/-- The path `a/b` on the volume with the directory `A`. -/
theorem walkers_agree_tree : WalkersAgree treeVolume 100 treeDisk (initialDriver treeDisk) [97, 47, 98] := by
  have hpath : fields isSep [97, 47, 98] = [[97]] ++ [[98]] := by decide +kernel
  exact walkers_agree smallVolume_online treeDisk_consistent treeDisk_upLinks (le_refl 100) (onDisk_initialDriver treeDisk)
    hpath (by decide)

end Tg11Kernel.Fat32
