import Tg11Kernel.Shell.Variables

/-! The autorun script and its crash guard. Each boot clears a flag in storage, and a heartbeat
sets it again when the boot has lasted for a while; a boot that finds the flag cleared skips the
script. The script itself starts after a delay of its own. Time passes, the shell polls, the user
gives commands and the machine dies in any order. -/

namespace Tg11Kernel.Shell

/-! ### Configuration -/

/-- The configuration files of autorun. -/
inductive ConfigFile
  | mode
  | onceState
  | delay
  | safeMode
  | clean
  | lastStatus
  | lastSource
  deriving DecidableEq

/-- The size of the buffer that a file is read into. -/
def ConfigFile.bufSize : ConfigFile → ℕ
  | mode => 32
  | onceState => 8
  | delay => 32
  | safeMode => 16
  | clean => 16
  | lastStatus => 48
  | lastSource => 48

inductive AutorunMode
  | off
  | always
  | once
  deriving DecidableEq

def AUTORUN_DEFAULT_DELAY_SECONDS : ℕ := 8
def AUTORUN_SAFE_BOOT_WINDOW_TICKS : ℕ := 15 * 100

/-- The script on the boot volume or the one in the memory file system. -/
inductive ScriptSource
  | fat
  | ramfs

def ScriptSource.path : ScriptSource → Text
  | fat => chars "/autorun.sh\n"
  | ramfs => chars "/etc/autorun.sh\n"

/-- Who started the script: the boot, in the mode read before, or the command. -/
inductive Caller
  | boot (mode : AutorunMode)
  | command
  deriving DecidableEq

/-- The variables `autorun_…`, the timer, what storage holds and the script runs that go on. -/
structure Autorun where
  config : ConfigFile → Option Text
  ticks : ℕ
  bootStartedAt : ℕ
  bootDeadline : ℕ
  bootPending : Bool
  bootCleanMarked : Bool
  safeLatched : Bool
  scripts : List (Caller × ScriptSource)

namespace Autorun

/-- `terminal_read_config_text`: the text of a file, as far as the buffer has room. -/
def readConfig (file : ConfigFile) (s : Autorun) : Option Text :=
  (s.config file).map fun text => (text.take (file.bufSize - 1)).takeWhile (· ≠ 0)

/-- `terminal_write_config_text` -/
def writeConfig (file : ConfigFile) (text : Text) (s : Autorun) : Autorun :=
  { s with config := Function.update s.config file (some text) }

def getAutorunMode (s : Autorun) : AutorunMode :=
  match s.readConfig .mode with
  | none => .always
  | some text =>
    if (chars "off").isPrefixOf text then .off
    else if (chars "once").isPrefixOf text then .once
    else .always

def setAutorunMode : AutorunMode → Autorun → Autorun
  | .off => writeConfig .mode (chars "off\n")
  | .once => writeConfig .mode (chars "once\n")
  | .always => writeConfig .mode (chars "always\n")

def autorunOnceDone (s : Autorun) : Bool :=
  match s.readConfig .onceState with
  | none => false
  | some text => text.head? = some 49

def setAutorunOnceDone (done : Bool) : Autorun → Autorun :=
  writeConfig .onceState (if done then chars "1\n" else chars "0\n")

/-- `read_token`: a word that fits a buffer. -/
def readToken (s : Text) (outSize : ℕ) : Option Text :=
  let token := (s.dropWhile (· = 32)).takeWhile (· ≠ 32)
  if token.length + 1 > outSize then none else some token

/-- The loop of `parse_dec_u32`. -/
def parseDecLoop : Text → ℕ → Option ℕ
  | [], v => some v
  | c :: s, v =>
    if c < 48 ∨ c > 57 then none
    else if v * 10 + (c.toNat - 48) > 0xFFFFFFFF then none
    else parseDecLoop s (v * 10 + (c.toNat - 48))

def parseDecU32 (s : Text) : Option ℕ := if s = [] then none else parseDecLoop s 0

def getAutorunDelaySeconds (s : Autorun) : ℕ :=
  ((s.readConfig .delay).bind fun text => (readToken text 16).bind parseDecU32).getD AUTORUN_DEFAULT_DELAY_SECONDS

/-- `uint_to_dec` -/
def uintToDec (n : ℕ) : Text := (Nat.toDigits 10 n).map fun c => c.toNat.toUInt8

def setAutorunDelaySeconds (seconds : ℕ) : Autorun → Autorun := writeConfig .delay (uintToDec seconds)

def getAutorunSafeMode (s : Autorun) : Bool :=
  match s.readConfig .safeMode with
  | none => true
  | some text => !((chars "off").isPrefixOf text || text.head? = some 48)

def setAutorunSafeMode (enabled : Bool) : Autorun → Autorun :=
  writeConfig .safeMode (if enabled then chars "on\n" else chars "off\n")

def getAutorunCleanFlag (s : Autorun) : Bool :=
  match s.readConfig .clean with
  | none => true
  | some text => text.head? = some 49

def setAutorunCleanFlag (clean : Bool) : Autorun → Autorun :=
  writeConfig .clean (if clean then chars "1\n" else chars "0\n")

def setAutorunLastStatus (status : Text) : Autorun → Autorun := writeConfig .lastStatus status

def setAutorunLastSource (source : Text) : Autorun → Autorun := writeConfig .lastSource source

/-! ### One boot -/

def autorunBootBegin (s : Autorun) : Autorun :=
  let latched := s.getAutorunSafeMode && !s.getAutorunCleanFlag
  setAutorunLastStatus (if latched then chars "skipped-safe\n" else chars "armed\n")
    (setAutorunLastSource (chars "none\n")
      (setAutorunCleanFlag false { s with bootStartedAt := s.ticks, bootCleanMarked := false, safeLatched := latched }))

def autorunBootHeartbeat (s : Autorun) : Autorun :=
  if s.bootCleanMarked = true ∨ s.ticks - s.bootStartedAt < AUTORUN_SAFE_BOOT_WINDOW_TICKS then s
  else setAutorunCleanFlag true { s with bootCleanMarked := true }

def autorunShouldRunOnBoot (s : Autorun) : Bool :=
  if s.getAutorunMode = .off then false
  else if s.getAutorunMode = .once ∧ s.autorunOnceDone = true then false
  else !s.safeLatched

def scheduleBootAutorun (s : Autorun) : Autorun :=
  if s.autorunShouldRunOnBoot then
    setAutorunLastStatus (chars "scheduled\n")
      { s with bootPending := true, bootDeadline := s.ticks + s.getAutorunDelaySeconds * 100 }
  else { s with bootPending := false }

/-- The machine starts: nothing is left but storage. `before` and `during` are the ticks until
`terminal_autorun_boot_begin` and from there to `terminal_run_boot_autorun`. -/
def boot (config : ConfigFile → Option Text) (before during : ℕ) : Autorun :=
  let begun := autorunBootBegin ⟨config, before, 0, 0, false, false, false, []⟩
  scheduleBootAutorun { begun with ticks := begun.ticks + during }

/-- The script found is started; when there is none, the status says so. -/
def runScript (caller : Caller) (source : Option ScriptSource) (s : Autorun) : Autorun :=
  match source with
  | none => setAutorunLastSource (chars "none\n") (setAutorunLastStatus (chars "no-script\n") s)
  | some source => { s with scripts := (caller, source) :: s.scripts }

/-- `terminal_poll_boot_autorun`; `blocked` says that the editor, a script or a capture is active
or that the input line is not empty. -/
def pollBootAutorun (blocked : Bool) (source : Option ScriptSource) (s : Autorun) : Autorun :=
  if s.bootPending = true ∧ s.bootDeadline ≤ s.ticks ∧ blocked = false then
    runScript (.boot s.getAutorunMode) source { s with bootPending := false }
  else s

/-- What follows when a script returns. -/
def finishScript (ok : Bool) (caller : Caller) (source : ScriptSource) (s : Autorun) : Autorun :=
  let s := setAutorunLastSource source.path s
  if ok then
    let s := setAutorunLastStatus (chars "executed\n") s
    if caller = .boot .once then setAutorunOnceDone true s else s
  else setAutorunLastStatus (chars "error\n") s

/-- The arguments of `cmd_autorun` that do something. -/
inductive Command
  | safe (enabled : Bool)
  | delay (seconds : ℕ)
  | off
  | always
  | once
  | rearm
  | stop
  | run (source : Option ScriptSource)

def cmdAutorun : Command → Autorun → Autorun
  | .safe enabled, s => { setAutorunSafeMode enabled s with safeLatched := false }
  | .delay seconds, s =>
    if seconds > 3600 then s
    else if s.bootPending then scheduleBootAutorun (setAutorunDelaySeconds seconds s)
    else setAutorunDelaySeconds seconds s
  | .off, s => { setAutorunMode .off s with bootPending := false }
  | .always, s => scheduleBootAutorun (setAutorunMode .always s)
  | .once, s => scheduleBootAutorun (setAutorunOnceDone false (setAutorunMode .once s))
  | .rearm, s => scheduleBootAutorun (setAutorunOnceDone false s)
  | .stop, s => setAutorunLastSource (chars "none\n") (setAutorunLastStatus (chars "canceled\n") { s with bootPending := false })
  | .run source, s => runScript .command source s

inductive Event
  | tick (n : ℕ)
  | poll (blocked : Bool) (source : Option ScriptSource)
  | finish (ok : Bool)
  | command (c : Command)
  | reset (before during : ℕ)

/-- What happens to the machine; the shell does not poll while a script runs. -/
def step (s : Autorun) : Event → Option Autorun
  | .tick n => some { s with ticks := s.ticks + n }
  | .poll blocked source => if s.scripts = [] then some (pollBootAutorun blocked source (autorunBootHeartbeat s)) else none
  | .finish ok =>
    match s.scripts with
    | [] => none
    | (caller, source) :: rest => some (finishScript ok caller source { s with scripts := rest })
  | .command c => some (cmdAutorun c s)
  | .reset before during => some (boot s.config before during)

/-! ### What the functions leave alone -/

section Fields

variable (s : Autorun) (file : ConfigFile) (text : Text)

@[simp] theorem writeConfig_safeLatched : (writeConfig file text s).safeLatched = s.safeLatched := rfl

@[simp] theorem writeConfig_bootPending : (writeConfig file text s).bootPending = s.bootPending := rfl

@[simp] theorem writeConfig_bootCleanMarked : (writeConfig file text s).bootCleanMarked = s.bootCleanMarked := rfl

@[simp] theorem writeConfig_scripts : (writeConfig file text s).scripts = s.scripts := rfl

theorem writeConfig_config (other : ConfigFile) :
    (writeConfig file text s).config other = if other = file then some text else s.config other := by
  simp [writeConfig, Function.update_apply]

end Fields

/-- The flag in storage is cleared until the heartbeat marks the boot. -/
def Flagged (s : Autorun) : Prop := s.bootCleanMarked = false → s.config .clean = some (chars "0\n")

/-- A boot that skips the script has not scheduled it. -/
def Skips (s : Autorun) : Prop := s.safeLatched = true ∧ s.bootPending = false

/-- The step keeps the mark of the boot and the flag in storage. -/
structure KeepsFlag (s s' : Autorun) : Prop where
  marked : s'.bootCleanMarked = s.bootCleanMarked
  clean : s'.config .clean = s.config .clean

namespace KeepsFlag

variable {s s' s'' : Autorun}

theorem refl (s : Autorun) : KeepsFlag s s := ⟨rfl, rfl⟩

theorem trans (h : KeepsFlag s s') (h' : KeepsFlag s' s'') : KeepsFlag s s'' :=
  ⟨h'.marked.trans h.marked, h'.clean.trans h.clean⟩

theorem write {file : ConfigFile} (hne : file ≠ .clean) (text : Text) (s : Autorun) : KeepsFlag s (writeConfig file text s) := by
  refine ⟨rfl, ?_⟩
  rw [writeConfig_config, if_neg (Ne.symm hne)]

theorem flagged (h : KeepsFlag s s') (hs : Flagged s) : Flagged s' := by
  intro hm
  rw [h.marked] at hm
  rw [h.clean, hs hm]

end KeepsFlag

theorem keepsFlag_setAutorunMode (mode : AutorunMode) (s : Autorun) : KeepsFlag s (setAutorunMode mode s) := by
  have hne : ConfigFile.mode ≠ .clean := by decide
  cases mode <;> exact KeepsFlag.write hne _ s

theorem keepsFlag_schedule (s : Autorun) : KeepsFlag s s.scheduleBootAutorun := by
  have hpending : KeepsFlag s { s with bootPending := true, bootDeadline := s.ticks + s.getAutorunDelaySeconds * 100 } := ⟨rfl, rfl⟩
  have hstatus : ∀ text s, KeepsFlag s (setAutorunLastStatus text s) := fun text s => .write (by decide) text s
  rw [scheduleBootAutorun]
  split_ifs
  · exact hpending.trans (hstatus _ _)
  · exact ⟨rfl, rfl⟩

theorem keepsFlag_runScript (caller : Caller) (source : Option ScriptSource) (s : Autorun) :
    KeepsFlag s (runScript caller source s) := by
  cases source with
  | none => exact (KeepsFlag.write (by decide) _ s).trans (.write (by decide) _ _)
  | some source => exact ⟨rfl, rfl⟩

theorem keepsFlag_poll (blocked : Bool) (source : Option ScriptSource) (s : Autorun) :
    KeepsFlag s (s.pollBootAutorun blocked source) := by
  rw [pollBootAutorun]
  split_ifs
  · have hpending : KeepsFlag s { s with bootPending := false } := ⟨rfl, rfl⟩
    exact hpending.trans (keepsFlag_runScript _ source _)
  · exact .refl s

theorem keepsFlag_finish (ok : Bool) (caller : Caller) (source : ScriptSource) (s : Autorun) :
    KeepsFlag s (finishScript ok caller source s) := by
  have hsource : KeepsFlag s (setAutorunLastSource source.path s) := .write (by decide) _ s
  have hstatus : ∀ text s, KeepsFlag s (setAutorunLastStatus text s) := fun text s => .write (by decide) text s
  unfold finishScript
  split_ifs
  · exact (hsource.trans (hstatus _ _)).trans (.write (by decide) _ _)
  · exact hsource.trans (hstatus _ _)
  · exact hsource.trans (hstatus _ _)

theorem keepsFlag_command (c : Command) (s : Autorun) : KeepsFlag s (cmdAutorun c s) := by
  have hdelay : ∀ seconds, KeepsFlag s (setAutorunDelaySeconds seconds s) := fun seconds => .write (by decide) _ s
  have honce : ∀ s, KeepsFlag s (setAutorunOnceDone false s) := fun s => .write (by decide) _ s
  cases c with
  | safe enabled =>
    have hsafe : KeepsFlag s (setAutorunSafeMode enabled s) := .write (by decide) _ s
    exact ⟨hsafe.marked, hsafe.clean⟩
  | delay seconds =>
    rw [cmdAutorun]
    split_ifs
    · exact .refl s
    · exact (hdelay seconds).trans (keepsFlag_schedule _)
    · exact hdelay seconds
  | off => exact ⟨rfl, (keepsFlag_setAutorunMode .off s).clean⟩
  | always => exact (keepsFlag_setAutorunMode .always s).trans (keepsFlag_schedule _)
  | once => exact ((keepsFlag_setAutorunMode .once s).trans (honce _)).trans (keepsFlag_schedule _)
  | rearm => exact (honce s).trans (keepsFlag_schedule _)
  | stop =>
    have hstop : KeepsFlag s { s with bootPending := false } := ⟨rfl, rfl⟩
    exact (hstop.trans (.write (by decide) _ _)).trans (.write (by decide) _ _)
  | run source => exact keepsFlag_runScript .command source s

variable {s : Autorun}

theorem flagged_heartbeat (h : Flagged s) : Flagged s.autorunBootHeartbeat := by
  rw [autorunBootHeartbeat]
  split_ifs
  · exact h
  · intro hm
    exact absurd hm (by simp [setAutorunCleanFlag])

theorem flagged_boot (config : ConfigFile → Option Text) (before during : ℕ) : Flagged (boot config before during) := by
  apply (keepsFlag_schedule _).flagged
  intro _
  simp [autorunBootBegin, setAutorunLastStatus, setAutorunLastSource, setAutorunCleanFlag, writeConfig_config]

/-! ### Boots that skip the script -/

theorem skips_schedule (h : s.safeLatched = true) : Skips s.scheduleBootAutorun := by
  have hno : s.autorunShouldRunOnBoot = false := by simp [autorunShouldRunOnBoot, h]
  simp [scheduleBootAutorun, hno, Skips, h]

theorem skips_boot (hclean : s.config .clean = some (chars "0\n")) (hsafe : s.getAutorunSafeMode = true)
    (before during : ℕ) : Skips (boot s.config before during) := by
  have hflag : s.getAutorunCleanFlag = false := by
    rw [getAutorunCleanFlag, readConfig, hclean]
    decide
  apply skips_schedule
  show (s.getAutorunSafeMode && !s.getAutorunCleanFlag) = true
  simp [hsafe, hflag]

theorem skips_poll (h : Skips s) (blocked : Bool) (source : Option ScriptSource) :
    s.pollBootAutorun blocked source = s := by
  rw [pollBootAutorun, if_neg]
  simp [h.2]

theorem skips_heartbeat (h : Skips s) : Skips s.autorunBootHeartbeat := by
  rw [autorunBootHeartbeat]
  split_ifs
  · exact h
  · exact h

theorem skips_runScript (h : Skips s) (caller : Caller) (source : Option ScriptSource) :
    Skips (runScript caller source s) := by
  cases source with
  | none => exact h
  | some source => exact h

theorem skips_finish (h : Skips s) (ok : Bool) (caller : Caller) (source : ScriptSource) :
    Skips (finishScript ok caller source s) := by
  unfold finishScript
  split_ifs
  · exact h
  · exact h
  · exact h

/-- Only the command that sets safe mode ends the skipping. -/
theorem skips_command (h : Skips s) {c : Command} (hc : ∀ enabled, c ≠ .safe enabled) : Skips (cmdAutorun c s) := by
  cases c with
  | safe enabled => exact absurd rfl (hc enabled)
  | delay seconds =>
    rw [cmdAutorun]
    split_ifs with hmax hpending
    · exact h
    · exact absurd hpending (by simp [h.2])
    · exact h
  | off => exact ⟨h.1, rfl⟩
  | always => exact skips_schedule h.1
  | once => exact skips_schedule h.1
  | rearm => exact skips_schedule h.1
  | stop => exact ⟨h.1, rfl⟩
  | run source => exact skips_runScript h .command source

/-! ### Sequences of boots -/

/-- A machine in some boot, whether the script was running when the boot before died, and whether
this boot has started the script by itself. -/
structure History where
  now : Autorun
  crashed : Bool
  started : Bool

namespace History

def step (h : History) (e : Event) : Option History :=
  (h.now.step e).map fun s =>
    match e with
    | .reset _ _ => ⟨s, h.now.scripts ≠ [], false⟩
    | .poll _ _ => ⟨s, h.crashed, h.started || s.scripts ≠ []⟩
    | _ => ⟨s, h.crashed, h.started⟩

/-- The histories in which every event is allowed where it happens. The first boot may find
anything in storage. -/
inductive Reaches (allowed : History → Event → Prop) : History → Prop
  | boot (config : ConfigFile → Option Text) (before during : ℕ) : Reaches allowed ⟨boot config before during, false, false⟩
  | step {h h' : History} {e : Event} (hreach : Reaches allowed h) (hallowed : allowed h e) (hstep : h.step e = some h') :
      Reaches allowed h'

/-- Safe mode is on whenever the machine boots. -/
def SafeModeOn (h : History) (e : Event) : Prop := ∀ before during, e = .reset before during → h.now.getAutorunSafeMode = true

/-- The machine does not die in the script once the heartbeat has marked the boot, and a boot that
skips the script is not told otherwise. -/
def Guarded (h : History) (e : Event) : Prop :=
  (∀ before during, e = .reset before during → h.now.scripts ≠ [] → h.now.bootCleanMarked = false) ∧
    ∀ enabled, e = .command (.safe enabled) → h.now.safeLatched = false

/-- A boot after a crash of the script does not start it. -/
def CrashGuard (h : History) : Prop := h.crashed = true → h.started = false

structure Inv (h : History) : Prop where
  flagged : h.now.Flagged
  skips : h.crashed = true → h.now.Skips ∧ h.started = false

variable {h : History}

theorem inv_step {h' : History} {e : Event} (hinv : Inv h) (hsafe : SafeModeOn h e) (hguard : Guarded h e)
    (hstep : h.step e = some h') : Inv h' := by
  obtain ⟨s, hs, rfl⟩ := Option.map_eq_some_iff.1 hstep
  cases e with
  | tick n =>
    obtain rfl := Option.some.inj hs
    exact ⟨hinv.flagged, hinv.skips⟩
  | poll blocked source =>
    rw [Autorun.step] at hs
    split_ifs at hs with hidle
    obtain rfl := Option.some.inj hs
    refine ⟨(keepsFlag_poll blocked source _).flagged (flagged_heartbeat hinv.flagged), fun hcrashed => ?_⟩
    obtain ⟨hskips, hstarted⟩ := hinv.skips hcrashed
    have hbeat := skips_heartbeat hskips
    have hscripts : h.now.autorunBootHeartbeat.scripts = [] := by
      rw [autorunBootHeartbeat]
      split_ifs
      · exact hidle
      · exact hidle
    rw [skips_poll hbeat]
    exact ⟨hbeat, by simp [hstarted, hscripts]⟩
  | finish ok =>
    rw [Autorun.step] at hs
    split at hs
    · simp at hs
    · rename_i caller source rest hscripts
      obtain rfl := Option.some.inj hs
      have hpop : KeepsFlag h.now { h.now with scripts := rest } := ⟨rfl, rfl⟩
      refine ⟨(hpop.trans (keepsFlag_finish ok caller source _)).flagged hinv.flagged, fun hcrashed => ?_⟩
      obtain ⟨hskips, hstarted⟩ := hinv.skips hcrashed
      have hpopped : Skips { h.now with scripts := rest } := hskips
      exact ⟨skips_finish hpopped ok caller source, hstarted⟩
  | command c =>
    obtain rfl := Option.some.inj hs
    refine ⟨(keepsFlag_command c h.now).flagged hinv.flagged, fun hcrashed => ?_⟩
    obtain ⟨hskips, hstarted⟩ := hinv.skips hcrashed
    refine ⟨skips_command hskips fun enabled hc => ?_, hstarted⟩
    have hlatched := hguard.2 enabled (by rw [hc])
    rw [hskips.1] at hlatched
    exact absurd hlatched (by simp)
  | reset before during =>
    obtain rfl := Option.some.inj hs
    refine ⟨flagged_boot _ before during, fun hcrashed => ⟨?_, rfl⟩⟩
    have hrunning : h.now.scripts ≠ [] := by simpa using hcrashed
    exact skips_boot (hinv.flagged (hguard.1 before during rfl hrunning)) (hsafe before during rfl) before during

theorem reaches_inv (hr : Reaches (fun h e => SafeModeOn h e ∧ Guarded h e) h) : Inv h := by
  induction hr with
  | boot config before during => exact ⟨flagged_boot config before during, by simp⟩
  | step hreach hallowed hstep ih => exact inv_step ih hallowed.1 hallowed.2 hstep

/-- Where every step meets the condition, a script that has crashed the machine is not started by
the next boot. -/
theorem reaches_crashGuard {h : History} (hr : Reaches (fun h e => SafeModeOn h e ∧ Guarded h e) h) : CrashGuard h :=
  fun hcrashed => ((reaches_inv hr).skips hcrashed).2

/-- Storage in which only a delay is set. -/
def delayed (seconds : ℕ) : ConfigFile → Option Text := fun file => if file = .delay then some (uintToDec seconds) else none

/-- A boot in which the script is started within its first five seconds and crashes the machine, and
the next boot. -/
theorem reaches_crashGuard_early : ∃ h : History, h.crashed = true ∧ CrashGuard h := by
  have h₀ : Reaches (fun h e => SafeModeOn h e ∧ Guarded h e) ⟨boot (delayed 5) 0 0, false, false⟩ := .boot (delayed 5) 0 0
  have h₁ := h₀.step (e := .tick 500) ⟨nofun, nofun, nofun⟩ rfl
  have h₂ := h₁.step (e := .poll false (some .fat)) ⟨nofun, nofun, nofun⟩ rfl
  have h₃ := h₂.step (e := .reset 0 0) ⟨fun _ _ _ => by decide, fun _ _ _ _ => by decide, nofun⟩ rfl
  exact ⟨_, by decide, reaches_crashGuard h₃⟩

/-- A delay of fifteen seconds lets the heartbeat come first, and the script is started again. -/
theorem not_crashGuard : ¬ ∀ h, Reaches SafeModeOn h → CrashGuard h := by
  intro hall
  have h₀ : Reaches SafeModeOn ⟨boot (delayed 15) 0 0, false, false⟩ := .boot (delayed 15) 0 0
  have h₁ := h₀.step (e := .tick 1500) nofun rfl
  have h₂ := h₁.step (e := .poll false (some .fat)) nofun rfl
  have h₃ := h₂.step (e := .reset 0 0) (fun _ _ _ => by decide) rfl
  have h₄ := h₃.step (e := .tick 1500) nofun rfl
  have h₅ := h₄.step (e := .poll false (some .fat)) nofun rfl
  exact absurd (hall _ h₅ (by decide)) (by decide)

end History

end Autorun

end Tg11Kernel.Shell
