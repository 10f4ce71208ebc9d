import Mathlib.Data.List.Infix
import QuickStart.Speedtest.Writes

/-! # Rejected commands

`sscanf` stores every number as soon as it has read it, and `run_speedtest_by_cmd` lets it store them in the
configuration that the threads use. -/

namespace QuickStart.Speedtest
open State

/-! ### `sscanf` of the kernel -/

def isspace (b : Byte) : Bool := b = 0x20 ∨ (0x09 ≤ b ∧ b ≤ 0x0d) ∨ b = 0xa0

def isdigit (b : Byte) : Bool := 0x30 ≤ b ∧ b ≤ 0x39

/-- `simple_strtoul` of the digits. -/
def simpleStrtoul (digits : List Byte) : Nat := digits.foldl (fun v b => v * 10 + (b.toNat - 0x30)) 0

/-- `%d` behind the white space: the number as an `int`, and the rest. -/
def scanInt (s : List Byte) : Option (BitVec 32 × List Byte) :=
  let minus := s.head? = some 0x2d
  let digits := if minus then s.tail else s
  if digits.head?.any isdigit then
    let v := BitVec.ofNat 32 (simpleStrtoul (digits.takeWhile isdigit))
    some (if minus then -v else v, digits.dropWhile isdigit)
  else none

/-- The numbers that `sscanf` reads with `n` conversions `%d`. -/
def sscanf : Nat → List Byte → List (BitVec 32)
  | 0, _ => []
  | n + 1, s =>
    match scanInt (s.dropWhile isspace) with
    | some (v, rest) => v :: sscanf n rest
    | none => []

theorem length_sscanf_le (n : Nat) (s : List Byte) : (sscanf n s).length ≤ n := by
  induction n generalizing s with
  | zero => exact le_refl _
  | succ n ih =>
    rw [sscanf]
    split
    · exact Nat.succ_le_succ (ih _)
    · exact Nat.zero_le _

-- The command `1 0 100 42 1`.
example : sscanf 5 [0x31, 0x20, 0x30, 0x20, 0x31, 0x30, 0x30, 0x20, 0x34, 0x32, 0x20, 0x31, 0x0a] = [1, 0, 100, 42, 1] := by
  decide

/-! ### A call that fails -/

/-- The configuration, the tasks and the hook are the same. -/
structure Unchanged (m m' : Mod) : Prop where
  enable : ∀ d, (m'.stCfg d).enable = (m.stCfg d).enable
  durTime : ∀ d, (m'.stCfg d).durTime = (m.stCfg d).durTime
  speed : ∀ d, (m'.stCfg d).speed = (m.stCfg d).speed
  pktSize : ∀ d, (m'.stCfg d).pktSize = (m.stCfg d).pktSize
  port : ∀ d, (m'.stCfg d).port = (m.stCfg d).port
  loopTimerEnable : m'.stLoopTimerEnable = m.stLoopTimerEnable
  tasks : m'.ptr = m.ptr
  hook : m'.rxHook = m.rxHook

/-- The values that `sscanf` overwrites, in the order of the numbers. -/
def Cfg.numbers (cfg : Cfg) : List (BitVec 32) := [cfg.enable, cfg.durTime, cfg.speed, cfg.pktSize]

/-- The numbers, and behind them the values that are there. -/
theorem getD_eq_iff {l nums : List (BitVec 32)} (h : nums.length ≤ l.length) :
    nums <+: l ↔ ∀ i v, l[i]? = some v → nums.getD i v = v := by
  rw [List.prefix_iff_getElem?]
  constructor
  · intro hget i v hi
    by_cases hlt : i < nums.length
    · have := hget i hlt
      rw [hi] at this
      rw [List.getD_eq_getElem _ _ hlt, Option.some.inj this]
    · exact List.getD_eq_default _ _ (Nat.le_of_not_lt hlt)
  · intro hsame i hlt
    have hi := List.getElem?_eq_getElem (lt_of_lt_of_le hlt h)
    have := hsame i _ hi
    rw [List.getD_eq_getElem _ _ hlt] at this
    rw [hi, this]

/-- Fewer than five numbers leave the configuration as it is exactly when they are those which are there. -/
theorem sscanfCmd_unchanged {m : Mod} {nums : List (BitVec 32)} (hfew : nums.length < 5) :
    Unchanged m (sscanfCmd m 0 nums) ↔ nums <+: (m.stCfg 0).numbers := by
  have hself : (sscanfCmd m 0 nums).stCfg 0 = { m.stCfg 0 with
      enable := nums.getD 0 (m.stCfg 0).enable
      durTime := nums.getD 1 (m.stCfg 0).durTime
      speed := nums.getD 2 (m.stCfg 0).speed
      pktSize := nums.getD 3 (m.stCfg 0).pktSize } := setCfg_self m 0 _
  have hother {d : Dir} (hd : d ≠ 0) : (sscanfCmd m 0 nums).stCfg d = m.stCfg d := setCfg_of_ne hd
  rw [getD_eq_iff (Nat.le_of_lt_succ hfew)]
  constructor
  · intro hu i v hi
    have henable := hu.enable 0
    have hdur := hu.durTime 0
    have hspeed := hu.speed 0
    have hsize := hu.pktSize 0
    rw [hself] at henable hdur hspeed hsize
    match i, hi with
    | 0, rfl => exact henable
    | 1, rfl => exact hdur
    | 2, rfl => exact hspeed
    | 3, rfl => exact hsize
    | i + 4, hi => cases hi
  · intro hsame
    have hcfg : (sscanfCmd m 0 nums).stCfg = m.stCfg := by
      funext d
      by_cases hd : d = 0
      · subst hd
        rw [hself, hsame 0 _ rfl, hsame 1 _ rfl, hsame 2 _ rfl, hsame 3 _ rfl]
      · exact hother hd
    have htasks : (sscanfCmd m 0 nums).ptr = m.ptr := by
      funext sl
      cases sl with
      | sender d => rw [Mod.ptr, hcfg, Mod.ptr]
      | compute => rfl
    refine ⟨fun d => ?_, fun d => ?_, fun d => ?_, fun d => ?_, fun d => ?_, ?_, htasks, rfl⟩
    · rw [hcfg]
    · rw [hcfg]
    · rw [hcfg]
    · rw [hcfg]
    · rw [hcfg]
    · exact List.getD_eq_default _ _ (Nat.le_of_lt_succ hfew)

/-- The statements of a call that reads fewer than five numbers. -/
theorem rejected_steps {K : Kernel} {s : State} (hidle : s.ctl = .idle) (cmd : List Byte)
    (hfew : (sscanf 5 cmd).length < 5) (ok ok' : Bool) : ∃ t u v c, (lts K).step s (.command (sscanf 5 cmd)) = some t ∧
      (lts K).step t (.ctl ok) = some u ∧ u.ctl = .cmd c (.out 1) ∧ (lts K).step u (.ctl ok') = some v ∧ v.ctl = .idle ∧
      v.mod = sscanfCmd s.mod 0 (sscanf 5 cmd) := by
  have hcall : (lts K).step s (.command (sscanf 5 cmd)) = some
      (s.goto (.cmd ⟨sscanf 5 cmd, s.threads.length, false⟩ (.parse 0))) := if_pos ⟨hidle, length_sscanf_le 5 cmd⟩
  have hparse : (lts K).step (s.goto (.cmd ⟨sscanf 5 cmd, s.threads.length, false⟩ (.parse 0))) (.ctl ok) = some
      ({ s with mod := sscanfCmd s.mod 0 (sscanf 5 cmd) }.goto (.cmd ⟨sscanf 5 cmd, s.threads.length, false⟩ (.out 1))) :=
    if_neg hfew.ne
  exact ⟨_, _, _, _, hcall, hparse, rfl, rfl, rfl, rfl⟩

/-- A call that reads fewer than five numbers returns 1, and has changed nothing exactly when the numbers it has read
    are, one by one, the values of the first direction. -/
theorem rejected_unchanged {K : Kernel} {s : State} (hidle : s.ctl = .idle) (cmd : List Byte)
    (hfew : (sscanf 5 cmd).length < 5) (ok ok' : Bool) : ∃ t u v c, (lts K).step s (.command (sscanf 5 cmd)) = some t ∧
      (lts K).step t (.ctl ok) = some u ∧ u.ctl = .cmd c (.out 1) ∧ (lts K).step u (.ctl ok') = some v ∧ v.ctl = .idle ∧
      (Unchanged s.mod v.mod ↔ sscanf 5 cmd <+: (s.mod.stCfg 0).numbers) := by
  obtain ⟨t, u, v, c, ht, hu, hret, hv, hback, hmod⟩ := rejected_steps (K := K) hidle cmd hfew ok ok'
  exact ⟨t, u, v, c, ht, hu, hret, hv, hback, by rw [hmod]; exact sscanfCmd_unchanged hfew⟩

/-- After the initialisation of the module `enable` is 0 already. -/
theorem rejected_unchanged_zero : ∃ t u v, (lts kernel32).step (start kernel32 1000) (.command (sscanf 5 [0x30])) = some t ∧
    (lts kernel32).step t (.ctl true) = some u ∧ (lts kernel32).step u (.ctl true) = some v ∧
    Unchanged (start kernel32 1000).mod v.mod := by
  obtain ⟨t, u, v, -, ht, hu, -, hv, -, hsame⟩ := rejected_unchanged (K := kernel32) (s := start kernel32 1000) rfl [0x30]
    (by decide) true true
  exact ⟨t, u, v, ht, hu, hv, hsame.mpr ⟨[0, 0, 0], by decide⟩⟩

/-- While both senders run, the command `0` clears `enable` of the first direction and returns 1. -/
theorem rejected_disables : ∃ s t u v c, (lts kernel32).Reachable s ∧ s.ctl = .idle ∧ (s.mod.stCfg 0).task = .task 0 ∧
    (s.mod.stCfg 0).enable = 1 ∧ (lts kernel32).step s (.command (sscanf 5 [0x30])) = some t ∧
    (lts kernel32).step t (.ctl true) = some u ∧ u.ctl = .cmd c (.out 1) ∧ (lts kernel32).step u (.ctl true) = some v ∧
    (v.mod.stCfg 0).enable = 0 ∧ ¬Unchanged s.mod v.mod := by
  have hrun : ((lts kernel32).runIf (fun _ _ => True) (start kernel32 1000) commandRun).any
      (fun s => s.ctl == .idle && (s.mod.stCfg 0).task == .task 0 && (s.mod.stCfg 0).enable == 1) = true := by decide
  obtain ⟨s, hr, hp⟩ := Lts.exists_reach_of_runIf hrun ⟨1000, by decide, rfl⟩
  simp only [Bool.and_eq_true, beq_iff_eq] at hp
  obtain ⟨⟨hidle, htask⟩, henable⟩ := hp
  obtain ⟨t, u, v, c, ht, hu, hret, hv, -, hmod⟩ := rejected_steps (K := kernel32) hidle [0x30] (by decide) true true
  have hcleared : (v.mod.stCfg 0).enable = 0 := by
    rw [hmod, sscanfCmd]
    exact congrArg Cfg.enable (setCfg_self s.mod 0 _)
  refine ⟨s, t, u, v, c, hr, hidle, htask, henable, ht, hu, hret, hv, hcleared, fun hsame => ?_⟩
  have := hsame.enable 0
  rw [hcleared, henable] at this
  cases this

end QuickStart.Speedtest
