import QuickStart.Speedtest.Writers
import QuickStart.Speedtest.Writes

/-! # The settings of a test

A command stores its numbers direction by direction, in the configuration that the threads use and in the variable
that the timer tests. What it sets stays until the next command, whatever runs in between. -/

namespace QuickStart.Speedtest
open State

/-- What a command sets for a direction. -/
structure Setting where
  enable : BitVec 32
  durTime : BitVec 32
  speed : BitVec 32
  pktSize : BitVec 32
  port : BitVec 8
  deriving DecidableEq, Repr

structure Settings where
  cfg : Dir → Setting
  loopTimerEnable : BitVec 32

namespace Settings

/-- Before the first command. -/
def initial : Settings where
  cfg _ := ⟨0, 0, 0, 0, 0⟩
  loopTimerEnable := 1

/-- A command with five numbers sets both directions; one with fewer leaves the second as it is. -/
def command (h : Settings) : List (BitVec 32) → Settings
  | [e, t, v, n, l] => { cfg := fun d => ⟨e, t, v, n, getSpeedtestPortByIndex d⟩, loopTimerEnable := l }
  | nums =>
    { h with
      cfg := Function.update h.cfg 0
        { h.cfg 0 with
          enable := nums.getD 0 (h.cfg 0).enable
          durTime := nums.getD 1 (h.cfg 0).durTime
          speed := nums.getD 2 (h.cfg 0).speed
          pktSize := nums.getD 3 (h.cfg 0).pktSize } }

/-- The settings as the commands so far say. -/
def observe (_ : State) (e : Event) (h : Settings) : Settings :=
  match e with
  | .command nums => h.command nums
  | _ => h

end Settings

/-- The configuration of a direction is set as `x` says, except that a sender may have cleared `enable` at its end. -/
structure Cfg.SetAs (c : Cfg) (x : Setting) : Prop where
  enable : c.enable = x.enable ∨ c.enable = 0
  durTime : c.durTime = x.durTime
  speed : c.speed = x.speed
  pktSize : c.pktSize = x.pktSize
  port : c.port = x.port

structure Shows (m : Mod) (h : Settings) : Prop where
  cfg : ∀ d, (m.stCfg d).SetAs (h.cfg d)
  loopTimerEnable : m.stLoopTimerEnable = h.loopTimerEnable

/-! ### What leaves the settings alone -/

/-- The settings of a direction are the same, except that `enable` may have been cleared. -/
structure Cfg.Leaves (c c' : Cfg) : Prop where
  enable : c'.enable = c.enable ∨ c'.enable = 0
  durTime : c'.durTime = c.durTime
  speed : c'.speed = c.speed
  pktSize : c'.pktSize = c.pktSize
  port : c'.port = c.port

structure SettingsKept (m m' : Mod) : Prop where
  cfg : ∀ d, (m.stCfg d).Leaves (m'.stCfg d)
  loopTimerEnable : m'.stLoopTimerEnable = m.stLoopTimerEnable

theorem Cfg.SetAs.leaves {c c' : Cfg} {x : Setting} (hc : c.SetAs x) (hk : c.Leaves c') : c'.SetAs x where
  enable := hk.enable.elim (fun he => hc.enable.imp he.trans he.trans) Or.inr
  durTime := hk.durTime.trans hc.durTime
  speed := hk.speed.trans hc.speed
  pktSize := hk.pktSize.trans hc.pktSize
  port := hk.port.trans hc.port

theorem Shows.keep {m m' : Mod} {h : Settings} (hm : Shows m h) (hk : SettingsKept m m') : Shows m' h where
  cfg d := (hm.cfg d).leaves (hk.cfg d)
  loopTimerEnable := hk.loopTimerEnable.trans hm.loopTimerEnable

theorem Cfg.Leaves.refl (c : Cfg) : c.Leaves c := ⟨Or.inl rfl, rfl, rfl, rfl, rfl⟩

namespace SettingsKept
variable {m m' : Mod}

theorem of_eq (hcfg : m'.stCfg = m.stCfg) (hloop : m'.stLoopTimerEnable = m.stLoopTimerEnable) : SettingsKept m m' where
  cfg d := by
    rw [hcfg]
    exact .refl _
  loopTimerEnable := hloop

theorem setCfg {e : Dir} {c : Cfg} (hc : (m.stCfg e).Leaves c) : SettingsKept m (m.setCfg e c) where
  cfg d := by
    by_cases hde : d = e
    · subst hde
      rwa [setCfg_self]
    · rw [setCfg_of_ne hde]
      exact .refl _
  loopTimerEnable := rfl

theorem setStatus (m : Mod) (e : Dir) (st : Status) : SettingsKept m (m.setStatus e st) :=
  setCfg ⟨Or.inl rfl, rfl, rfl, rfl, rfl⟩

theorem setTask (m : Mod) (e : Dir) (p : Ptr) : SettingsKept m (m.setTask e p) := setCfg ⟨Or.inl rfl, rfl, rfl, rfl, rfl⟩

theorem computePkt (m : Mod) (skb : Skb) : SettingsKept m (computePkt m skb) := by
  unfold Speedtest.computePkt
  split
  · have hk := setStatus m 0 (countPkt (m.stCfg 0).status skb)
    exact ⟨hk.cfg, hk.loopTimerEnable⟩
  · split
    · have hk := setStatus m 1 (countPkt (m.stCfg 1).status skb)
      exact ⟨hk.cfg, hk.loopTimerEnable⟩
    · exact of_eq rfl rfl

theorem callRxHook (m : Mod) (skb : Skb) (h : RxHook) : SettingsKept m (callRxHook m skb h).1 := by
  rcases callRxHook_cases m skb h with he | he | ⟨bit, he⟩ <;> rw [he]
  · exact of_eq rfl rfl
  · unfold kfifoIn
    split <;> exact of_eq rfl rfl
  · unfold freeProbeSkb
    dsimp only
    split <;> exact of_eq rfl rfl

theorem xmitSpeedtestPkt (m : Mod) (skb : Skb) (dev : Option String) : SettingsKept m (xmitSpeedtestPkt m skb dev).1 := by
  rcases xmitSpeedtestPkt_skbs m skb dev with ⟨-, he⟩ | ⟨-, he⟩ <;> rw [he] <;> exact of_eq rfl rfl

theorem speedtestLoopDetectCb (K : Kernel) (m : Mod) : SettingsKept m (speedtestLoopDetectCb K m) := by
  unfold Speedtest.speedtestLoopDetectCb armLoopDetectTimer
  dsimp only
  split
  · exact of_eq rfl rfl
  · split <;> split <;> exact of_eq rfl rfl

end SettingsKept

theorem Sends.settings {K : Kernel} {stop : Bool} {x : Input} {m : Mod} {d : Dir} {cfg : Cfg} {pc pc' : SenderPc}
    (h : Sends K m.jiffies stop x (m.stCfg d) pc cfg pc') : SettingsKept m (m.setCfg d cfg) := by
  cases h with
  | clearsEnable => exact .setCfg ⟨Or.inr rfl, rfl, rfl, rfl, rfl⟩
  | _ => exact .setCfg ⟨Or.inl rfl, rfl, rfl, rfl, rfl⟩

theorem Computes.settings {K : Kernel} {stop : Bool} {m m' : Mod} {pc pc' : ComputePc}
    (h : Computes K stop m pc m' pc') : SettingsKept m m' := by
  cases h with
  | counts endTime skb rest =>
    have hk := SettingsKept.computePkt { m with compSkbqueue := rest } skb
    exact ⟨hk.cfg, hk.loopTimerEnable⟩
  | loses | finishes => exact .setStatus _ _ _
  | _ => exact .of_eq rfl rfl

/-- A thread changes nothing of the settings but `enable`, which it may clear. -/
theorem bodyStep_settings {K : Kernel} {stop : Bool} {x : Input} {m m' : Mod} {b b' : Body}
    (hs : bodyStep K stop x m b = some (m', b')) : SettingsKept m m' := by
  cases bodyStep_executes hs with
  | sends d h => exact h.settings
  | computes h => exact h.settings

/-! ### Commands -/

/-- The call of `sscanf` that the control is at. -/
def Ctl.parsing : Ctl → Option (Command × Dir)
  | .cmd c (.parse d) => some (c, d)
  | _ => none

theorem parsing_stopAt {ctl : Ctl} {sl : Slot} {p : StopPc} (h : ctl.stopping = some (sl, p)) (q : StopPc) :
    ctl.parsing = none ∧ (ctl.stopAt q).parsing = none := by
  rcases ctl with _ | ⟨c, pc⟩ | pc | _ | _ <;> try cases h
  all_goals cases pc <;> cases h <;> exact ⟨rfl, rfl⟩

theorem parsing_afterStop {ctl : Ctl} {sl : Slot} {p : StopPc} (h : ctl.stopping = some (sl, p)) :
    ctl.afterStop.parsing = none := by
  generalize h' : ctl.afterStop = ctl'
  cases afterStop_exits h h' <;> rfl

theorem parsing_wakes {ctl : Ctl} {sl : Slot} (h : ctl.wakes = some sl) :
    ctl.parsing = none ∧ ctl.afterWake.parsing = none := by
  generalize h' : ctl.afterWake = ctl'
  cases afterWake_wakes h h' <;> exact ⟨rfl, rfl⟩

/-- A step of the control is a call of `sscanf` or leaves the settings alone. -/
theorem Acts.settings {s t : State} {ok : Bool} (h : Acts s ok t) :
    (s.ctl.parsing = none ∧ t.ctl.parsing = none ∧ SettingsKept s.mod t.mod) ∨
    (∃ c d, s.ctl = .cmd c (.parse d) ∧ c.nums.length = 5 ∧
      t = ({ s with mod := sscanfCmd s.mod d c.nums }.setPort d).goto (.cmd c (if d = 0 then .parse 1 else .stop 0 .test))) ∨
    ∃ c d, s.ctl = .cmd c (.parse d) ∧ c.nums.length ≠ 5 ∧
      t = { s with mod := sscanfCmd s.mod d c.nums }.goto (.cmd c (.out 1)) := by
  cases h with
  | parses c d hctl hlen => exact Or.inr (Or.inl ⟨c, d, hctl, hlen, rfl⟩)
  | rejects c d hctl hlen => exact Or.inr (Or.inr ⟨c, d, hctl, hlen, rfl⟩)
  | leaves sl hstop => exact Or.inl ⟨(parsing_stopAt hstop .test).1, parsing_afterStop hstop, .of_eq rfl rfl⟩
  | stays sl hstop => exact Or.inl ⟨(parsing_stopAt hstop .call).1, (parsing_stopAt hstop .call).2, .of_eq rfl rfl⟩
  | tells sl tid hstop =>
    exact Or.inl ⟨(parsing_stopAt hstop .test).1, (parsing_stopAt hstop (.wait tid)).2, .of_eq rfl rfl⟩
  | faults sl hstop => exact Or.inl ⟨(parsing_stopAt hstop .test).1, rfl, .of_eq rfl rfl⟩
  | waited sl tid hstop => exact Or.inl ⟨(parsing_stopAt hstop .test).1, (parsing_stopAt hstop .test).2, .of_eq rfl rfl⟩
  | wakes sl tid hwakes => exact Or.inl ⟨(parsing_wakes hwakes).1, (parsing_wakes hwakes).2, .of_eq rfl rfl⟩
  | wakesNone sl hwakes => exact Or.inl ⟨(parsing_wakes hwakes).1, rfl, .of_eq rfl rfl⟩
  | clears c d hctl => exact Or.inl ⟨by rw [hctl]; rfl, rfl, .setStatus _ _ _⟩
  | creates c d hctl =>
    refine Or.inl ⟨by rw [hctl]; rfl, ?_, .setTask _ _ _⟩
    rcases dir_cases d with rfl | rfl <;> rfl
  | fails c d hctl => exact Or.inl ⟨by rw [hctl]; rfl, rfl, .setTask _ _ _⟩
  | skips c d hctl =>
    refine Or.inl ⟨by rw [hctl]; rfl, ?_, .of_eq rfl rfl⟩
    rcases dir_cases d with rfl | rfl
    · rfl
    · obtain ⟨nums, base, run⟩ := c
      cases run <;> rfl
  | installs c hctl | readies c hctl | createsComp c hctl | failsComp c hctl | returns c ret hctl =>
    exact Or.inl ⟨by rw [hctl]; rfl, rfl, .of_eq rfl rfl⟩
  | delTimer hctl | removeProc hctl | rxNull hctl | txNull hctl | fifoFree hctl =>
    exact Or.inl ⟨by rw [hctl]; rfl, rfl, .of_eq rfl rfl⟩

theorem Shows.update {m m' : Mod} {h : Settings} (hm : Shows m h) {d : Dir} {c : Cfg} {x : Setting}
    (hcfg : m'.stCfg = Function.update m.stCfg d c) (hc : c.SetAs x) :
    Shows m' { cfg := Function.update h.cfg d x, loopTimerEnable := m'.stLoopTimerEnable } := by
  refine ⟨fun e => ?_, rfl⟩
  dsimp only
  rw [hcfg, Function.update_apply, Function.update_apply]
  split
  · exact hc
  · exact hm.cfg e

/-- Five numbers and the port of a direction are stored. -/
theorem Shows.parse {s : State} {h : Settings} (hm : Shows s.mod h) (d : Dir) (e t v n l : BitVec 32) :
    Shows ({ s with mod := sscanfCmd s.mod d [e, t, v, n, l] }.setPort d).mod
      { cfg := Function.update h.cfg d ⟨e, t, v, n, getSpeedtestPortByIndex d⟩, loopTimerEnable := l } := by
  refine hm.update (d := d) (c := { s.mod.stCfg d with
    enable := e, durTime := t, speed := v, pktSize := n, port := getSpeedtestPortByIndex d }) ?_ ⟨Or.inl rfl, rfl, rfl, rfl, rfl⟩
  simp [State.setPort, sscanfCmd, Mod.setCfg]

theorem Settings.command_of_few {h : Settings} {nums : List (BitVec 32)} (hfew : nums.length < 5) : h.command nums =
    { h with
      cfg := Function.update h.cfg 0
        { h.cfg 0 with
          enable := nums.getD 0 (h.cfg 0).enable
          durTime := nums.getD 1 (h.cfg 0).durTime
          speed := nums.getD 2 (h.cfg 0).speed
          pktSize := nums.getD 3 (h.cfg 0).pktSize } } := by
  match nums, hfew with
  | [], _ | [_], _ | [_, _], _ | [_, _, _], _ | [_, _, _, _], _ => rfl

/-- Fewer than five numbers are stored into the first direction. -/
theorem Shows.reject {m : Mod} {h : Settings} (hm : Shows m h) {nums : List (BitVec 32)} (hfew : nums.length < 5) :
    Shows (sscanfCmd m 0 nums) (h.command nums) := by
  have hloop : (sscanfCmd m 0 nums).stLoopTimerEnable = h.loopTimerEnable :=
    (List.getD_eq_default _ _ (Nat.le_of_lt_succ hfew)).trans hm.loopTimerEnable
  rw [Settings.command_of_few hfew, ← hloop]
  have hfirst := hm.cfg 0
  refine hm.update (d := 0) rfl ⟨?_, congrArg (nums.getD 1) hfirst.durTime, congrArg (nums.getD 2) hfirst.speed,
    congrArg (nums.getD 3) hfirst.pktSize, hfirst.port⟩
  cases nums with
  | nil => exact hfirst.enable
  | cons e nums => exact Or.inl rfl

/-! ### The settings in every state -/

/-- While the control is at a call of `sscanf`, its numbers are still to be set; at the second one they have been set
    in the first direction. -/
structure Follows (s : State) (h : Settings) : Prop where
  pending : ∀ c d, s.ctl = .cmd c (.parse d) → c.nums.length ≤ 5 ∧ ∃ h', Shows s.mod h' ∧ h = h'.command c.nums ∧
    (d = 1 → c.nums.length = 5 ∧ h'.cfg 0 = h.cfg 0)
  shown : s.ctl.parsing = none → Shows s.mod h

namespace Follows
variable {K : Kernel} {s t : State} {h : Settings}

theorem keep (hf : Follows s h) (hctl : t.ctl = s.ctl) (hk : SettingsKept s.mod t.mod) : Follows t h where
  pending c d hpc := by
    obtain ⟨hlen, h', hm, hcmd⟩ := hf.pending c d (hctl ▸ hpc)
    exact ⟨hlen, h', hm.keep hk, hcmd⟩
  shown hnone := (hf.shown (hctl ▸ hnone)).keep hk

/-- Behind the calls of `sscanf` the settings are those of the history. -/
theorem of_shows (hm : Shows t.mod h) (hnone : t.ctl.parsing = none) : Follows t h where
  pending c d hpc := by
    rw [hpc] at hnone
    cases hnone
  shown _ := hm

theorem start (j : Nat) : Follows (start K j) .initial :=
  .of_shows ⟨fun _ => ⟨Or.inl rfl, rfl, rfl, rfl, rfl⟩, rfl⟩ rfl

theorem acts {ok : Bool} (hf : Follows s h) (ha : Acts s ok t) : Follows t h := by
  rcases ha.settings with ⟨hs, ht, hk⟩ | ⟨c, d, hctl, hlen, rfl⟩ | ⟨c, d, hctl, hlen, rfl⟩
  · exact .of_shows ((hf.shown hs).keep hk) ht
  · obtain ⟨-, h', hm, rfl, hfirst⟩ := hf.pending c d hctl
    obtain ⟨nums, base, run⟩ := c
    match nums, hlen with
    | [e, t, v, n, l], _ =>
      have hstored := hm.parse d e t v n l
      rcases dir_cases d with rfl | rfl
      · refine ⟨fun c d hpc => ?_, fun hnone => by cases hnone⟩
        cases hpc
        exact ⟨le_refl _, _, hstored, rfl, fun _ => ⟨rfl, rfl⟩⟩
      · refine .of_shows ?_ rfl
        have hcfg : Function.update h'.cfg 1 ⟨e, t, v, n, getSpeedtestPortByIndex 1⟩ =
            fun d => ⟨e, t, v, n, getSpeedtestPortByIndex d⟩ := by
          funext d
          rcases dir_cases d with rfl | rfl
          · exact (hfirst rfl).2
          · rfl
        rw [hcfg] at hstored
        exact hstored
  · obtain ⟨hle, h', hm, rfl, hfirst⟩ := hf.pending c d hctl
    rcases dir_cases d with rfl | rfl
    · exact .of_shows (hm.reject (lt_of_le_of_ne hle hlen)) rfl
    · exact absurd (hfirst rfl).1 hlen

theorem step (hf : Follows s h) {e : Event} (hs : step K s e = some t) : Follows t (Settings.observe s e h) := by
  cases step_steps hs with
  | runs hr =>
    obtain ⟨-, -, hb, rfl⟩ := hr
    exact hf.keep rfl (bodyStep_settings hb)
  | acts ha => exact hf.acts ha
  | begins hidle hlen =>
    refine ⟨fun c d hpc => ?_, fun hnone => by cases hnone⟩
    cases hpc
    exact ⟨hlen, h, hf.shown (by rw [hidle]; rfl), rfl, fun hd => by cases hd⟩
  | unloads hidle => exact .of_shows (hf.shown (by rw [hidle]; rfl)) rfl
  | calls => exact hf.keep rfl (.callRxHook _ _ _)
  | transmits data dev =>
    have hk := SettingsKept.xmitSpeedtestPkt { s.mod with nextSkb := s.mod.nextSkb + 1 } (s.mod.newSkb data) dev
    exact hf.keep rfl ⟨hk.cfg, hk.loopTimerEnable⟩
  | expires =>
    have hk := SettingsKept.speedtestLoopDetectCb K { s.mod with loopDetectTimer := none }
    exact hf.keep rfl ⟨hk.cfg, hk.loopTimerEnable⟩
  | receives | passes | ticks => exact hf.keep rfl (.of_eq rfl rfl)

end Follows

theorem follows {K : Kernel} {ok : State × Settings → Event → Prop} {s : State} {h : Settings}
    (hr : ((lts K).track Settings.observe .initial).Reach ok (s, h)) : Follows s h := by
  refine hr.track_invariant (I := Follows) ?_ fun s h e t hf _ hs => hf.step hs
  rintro _ ⟨j, -, rfl⟩
  exact .start j

/-- While the commands come one at a time, the module is set as they say so far, except while one is between its two
    calls of `sscanf`, whatever the threads, the timer and the hooks have done since; only `enable` may have been
    cleared. -/
theorem settings_follow {n : Nat} {K : Kernel} {s : Writers n} {h : Settings}
    (hr : ((writersLts n K).track (fun s e => Settings.observe s.whole e.2) .initial).Reach
      (fun x e => x.1.OneAtATime e) (s, h)) (hctl : ∀ p, (s.ctls p).parsing = none) : Shows s.mod h := by
  obtain ⟨-, hr⟩ := Writers.reach_whole_track (fun _ _ => True) (hr.mono fun _ _ hok => ⟨hok, trivial⟩)
  refine (follows hr).shown ?_
  rcases s.busy_mem with hidle | ⟨p, hp⟩
  · rw [show s.whole.ctl = .idle from hidle]
    rfl
  · rw [show s.whole.ctl = s.ctls p from hp, hctl p]

/-- The command `1 0 100 42 1` and the whole run of the sender of the first direction, which has cleared its `enable`. -/
theorem settings_follow_cleared : ∃ (s : Writers 2) (h : Settings),
    ((writersLts 2 kernel32).track (fun s e => Settings.observe s.whole e.2) .initial).Reach
      (fun x e => x.1.OneAtATime e) (s, h) ∧
    Shows s.mod h ∧ (h.cfg 0).enable = 1 ∧ (s.mod.stCfg 0).enable = 0 ∧ (s.mod.stCfg 1).speed = 100 := by
  have hrun : (((writersLts 2 kernel32).track (fun s e => Settings.observe s.whole e.2) .initial).runIf
      (fun x e => x.1.OneAtATime e) (.start 2 kernel32 1000, .initial)
      ((commandRun ++ senderRun 0).map ((1, ·)))).any
      (fun x => x.1.ctls 0 == .idle && x.1.ctls 1 == .idle && (x.2.cfg 0).enable == 1 &&
        (x.1.mod.stCfg 0).enable == 0 && (x.2.cfg 1).speed == 100) = true := by decide +kernel
  obtain ⟨⟨s, h⟩, hr, hp⟩ := Lts.exists_reach_of_runIf hrun ⟨⟨1000, by decide, rfl⟩, rfl⟩
  simp only [Bool.and_eq_true, beq_iff_eq] at hp
  obtain ⟨⟨⟨⟨hctl, hctl'⟩, hset⟩, hcleared⟩, hspeed⟩ := hp
  have hshows := settings_follow hr fun
    | 0 => by rw [hctl]; rfl
    | 1 => by rw [hctl']; rfl
  exact ⟨s, h, hr, hshows, hset, hcleared, (hshows.cfg 1).speed.trans hspeed⟩

end QuickStart.Speedtest
