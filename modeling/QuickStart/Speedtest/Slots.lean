import Mathlib.Logic.Function.Basic
import QuickStart.Speedtest.Step

/-! # Task pointers

The three task pointers of the module as slots, each of which names at most one thread that has not given it
up. What every step does to the pointers and to the threads is said once here. -/

namespace QuickStart.Speedtest
open State Checksum

/-! ### What leaves the threads and the configuration alone -/

/-- The configuration, the compute pointer and the receive hook are the same. -/
structure Mod.Same (m m' : Mod) : Prop where
  stCfg : m'.stCfg = m.stCfg
  computeTask : m'.computeTask = m.computeTask
  rxHook : m'.rxHook = m.rxHook

/-- A receive hook leaves the packet, puts it into the queue, or takes it as a probe. -/
theorem callRxHook_cases (m : Mod) (skb : Skb) (h : RxHook) : (callRxHook m skb h).1 = m ∨
    (callRxHook m skb h).1 = kfifoIn m skb ∨ ∃ bit, (callRxHook m skb h).1 = (freeProbeSkb m skb bit).1 := by
  cases h with
  | null => exact Or.inl rfl
  | fastRcvSpeedtestPkt => exact Or.inr (Or.inl rfl)
  | rcvSpeedtestProbePkt =>
    rw [callRxHook, rcvSpeedtestProbePkt]
    split
    · exact Or.inl rfl
    · split
      · exact Or.inr (Or.inr ⟨1, rfl⟩)
      · split
        · exact Or.inr (Or.inr ⟨2, rfl⟩)
        · exact Or.inl rfl

theorem callRxHook_same (m : Mod) (skb : Skb) (h : RxHook) : m.Same (callRxHook m skb h).1 := by
  rcases callRxHook_cases m skb h with he | he | ⟨bit, he⟩ <;> rw [he]
  · exact ⟨rfl, rfl, rfl⟩
  · rw [kfifoIn]
    split <;> exact ⟨rfl, rfl, rfl⟩
  · simp only [freeProbeSkb]
    split <;> exact ⟨rfl, rfl, rfl⟩

/-- `xmit_speedtest_pkt` frees the packet and returns 0, or leaves it and returns 1. -/
theorem xmitSpeedtestPkt_skbs (m : Mod) (skb : Skb) (dev : Option String) :
    ((xmitSpeedtestPkt m skb dev).2 = 0 ∧ (xmitSpeedtestPkt m skb dev).1 = devKfreeSkb m skb) ∨
      ((xmitSpeedtestPkt m skb dev).2 = 1 ∧ (xmitSpeedtestPkt m skb dev).1 = m) := by
  simp only [xmitSpeedtestPkt]
  split
  · exact Or.inl ⟨rfl, rfl⟩
  · split
    · cases dev with
      | none => exact Or.inr ⟨rfl, rfl⟩
      | some name =>
        dsimp only
        split
        · exact Or.inr ⟨rfl, rfl⟩
        · exact Or.inl ⟨rfl, rfl⟩
    · exact Or.inr ⟨rfl, rfl⟩

theorem xmitSpeedtestPkt_same (m : Mod) (skb : Skb) (dev : Option String) : m.Same (xmitSpeedtestPkt m skb dev).1 := by
  rcases xmitSpeedtestPkt_skbs m skb dev with ⟨-, he⟩ | ⟨-, he⟩ <;> rw [he] <;> exact ⟨rfl, rfl, rfl⟩

theorem speedtestLoopDetectCb_same (K : Kernel) (m : Mod) : m.Same (speedtestLoopDetectCb K m) := by
  simp only [speedtestLoopDetectCb, armLoopDetectTimer]
  split
  · exact ⟨rfl, rfl, rfl⟩
  · split <;> split <;> exact ⟨rfl, rfl, rfl⟩

/-! ### What a thread's statement does -/

/-- Counting and freeing a packet writes the status of its direction and the freed memory. -/
theorem computePkt_eq (m : Mod) (skb : Skb) :
    computePkt m skb = { m with stCfg := (computePkt m skb).stCfg, freed := m.freed ++ [skb] } := by
  simp only [computePkt, devKfreeSkb]
  split
  · rfl
  · split <;> rfl

inductive Sends (K : Kernel) (jiffies : Nat) (stop : Bool) (x : Input) (cfg : Cfg) : SenderPc → Cfg → SenderPc → Prop
  | enters : Sends K jiffies stop x cfg .entry cfg (if stop then .done else .make)
  | makes : Sends K jiffies stop x cfg .make cfg (x.made.elim .done .setState)
  | setsState (stSkb : List Byte) :
      Sends K jiffies stop x cfg (.setState stSkb) { cfg with status := { cfg.status with state := .stRunning } }
        (.setCsum stSkb)
  | setsCsum (stSkb : List Byte) :
      Sends K jiffies stop x cfg (.setCsum stSkb)
        { cfg with status := { cfg.status with pktCsum := ipComputeCsum (stSkb.drop 14) } } .setBegin
  | setsBegin :
      Sends K jiffies stop x cfg .setBegin
        { cfg with status := { cfg.status with beginTime := BitVec.ofNat 32 (jiffies / K.hz) } } .setEnd
  | setsEnd :
      Sends K jiffies stop x cfg .setEnd cfg (.setSend (K.add jiffies (cfg.durTime * BitVec.ofNat 32 K.hz).toNat))
  | divides (endTime : Nat) (rate : pktRate cfg = 0) : Sends K jiffies stop x cfg (.setSend endTime) cfg .killed
  | slow (endTime : Nat) (rate : pktRate cfg ≠ 0) (speed : cfg.speed < 100) :
      Sends K jiffies stop x cfg (.setSend endTime) cfg
        (.pace ⟨endTime, ((1000000000 : BitVec 32) / pktRate cfg).toNat,
          K.add ((1000000000 : BitVec 32) / pktRate cfg).toNat x.clk, true⟩)
  | fast (endTime : Nat) (rate : pktRate cfg ≠ 0) (speed : ¬ cfg.speed < 100) :
      Sends K jiffies stop x cfg (.setSend endTime) cfg
        (.send ⟨endTime, ((1000000000 : BitVec 32) / pktRate cfg).toNat,
          K.add ((1000000000 : BitVec 32) / pktRate cfg).toNat x.clk, false⟩)
  | paces (l : SendLoop) (time : l.speedTime ≥ x.clk) : Sends K jiffies stop x cfg (.pace l) cfg (.pace l)
  | paced (l : SendLoop) (time : ¬ l.speedTime ≥ x.clk) :
      Sends K jiffies stop x cfg (.pace l) cfg (.send { l with speedTime := K.add l.sendTime x.clk })
  | sends (l : SendLoop) : Sends K jiffies stop x cfg (.send l) cfg (if x.sent then .count l else .test l)
  | counts (l : SendLoop) :
      Sends K jiffies stop x cfg (.count l)
        { cfg with status := { cfg.status with pktsendCount := (cfg.status.pktsendCount + 1) % 2 ^ 64 } } (.test l)
  | tests (l : SendLoop) :
      Sends K jiffies stop x cfg (.test l) cfg
        (if stop ∨ l.endTime < jiffies then .clearTask else if l.paced then .pace l else .send l)
  | clearsTask : Sends K jiffies stop x cfg .clearTask { cfg with task := .null } .clearEnable
  | clearsEnable : Sends K jiffies stop x cfg .clearEnable { cfg with enable := 0 } .setEndTime
  | setsEndTime :
      Sends K jiffies stop x cfg .setEndTime
        { cfg with status := { cfg.status with endTime := BitVec.ofNat 32 (jiffies / K.hz) } } .done

theorem senderStep_sends {K : Kernel} {j : Nat} {stop : Bool} {x : Input} {cfg cfg' : Cfg} {pc pc' : SenderPc}
    (hs : senderStep K j stop x cfg pc = some (cfg', pc')) : Sends K j stop x cfg pc cfg' pc' := by
  cases pc with
  | setSend endTime =>
    simp only [senderStep] at hs
    split at hs
    · rename_i hrate
      obtain ⟨rfl, rfl⟩ := Prod.mk.inj (Option.some.inj hs)
      exact .divides endTime hrate
    · rename_i hrate
      split at hs <;> rename_i hspeed <;> obtain ⟨rfl, rfl⟩ := Prod.mk.inj (Option.some.inj hs)
      · exact .slow endTime hrate hspeed
      · exact .fast endTime hrate hspeed
  | pace l =>
    simp only [senderStep] at hs
    split at hs <;> rename_i htime <;> obtain ⟨rfl, rfl⟩ := Prod.mk.inj (Option.some.inj hs)
    · exact .paces l htime
    · exact .paced l htime
  | done | killed => cases hs
  | _ =>
    obtain ⟨rfl, rfl⟩ := Prod.mk.inj (Option.some.inj hs)
    constructor

inductive Computes (K : Kernel) (stop : Bool) (m : Mod) : ComputePc → Mod → ComputePc → Prop
  | enters : Computes K stop m .entry m (if stop then .done else .drain 0)
  | drained (endTime : Nat) (queue : m.compSkbqueue = []) : Computes K stop m (.drain endTime) m (.look 0 endTime)
  | counts (endTime : Nat) (skb : Skb) (rest : List Skb) (queue : m.compSkbqueue = skb :: rest) :
      Computes K stop m (.drain endTime) (computePkt { m with compSkbqueue := rest } skb) (.drain endTime)
  | sees (d : Dir) (endTime : Nat) (task : (m.stCfg d).task ≠ .null) :
      Computes K stop m (.look d endTime) m (.test true 0)
  | passes (d : Dir) (endTime : Nat) (task : (m.stCfg d).task = .null) :
      Computes K stop m (.look d endTime) m (if d = 0 then .look 1 endTime else .arm endTime)
  | arms (endTime : Nat) :
      Computes K stop m (.arm endTime) m (.test false (if endTime = 0 then K.add m.jiffies (5 * K.hz) else endTime))
  | tests (isStRunning : Bool) (endTime : Nat) :
      Computes K stop m (.test isStRunning endTime) m
        (if stop ∨ (isStRunning = false ∧ endTime < m.jiffies) then .flush else .drain endTime)
  | flushed (queue : m.compSkbqueue = []) : Computes K stop m .flush m .clearPtr
  | frees (skb : Skb) (rest : List Skb) (queue : m.compSkbqueue = skb :: rest) :
      Computes K stop m .flush (devKfreeSkb { m with compSkbqueue := rest } skb) .flush
  | clearsPtr : Computes K stop m .clearPtr { m with computeTask := .null } .setHook
  | setsHook : Computes K stop m .setHook { m with rxHook := .rcvSpeedtestProbePkt } .timerTest
  | testsTimer : Computes K stop m .timerTest m (if m.stLoopTimerEnable ≠ 0 then .clearReady else .lose 0)
  | clearsReady : Computes K stop m .clearReady { m with stReady := 0 } .timerInit
  | initsTimer : Computes K stop m .timerInit (armLoopDetectTimer K m) (.lose 0)
  | loses (d : Dir) :
      Computes K stop m (.lose d)
        (m.setStatus d { (m.stCfg d).status with pktloseCount := lostPkts (m.stCfg d).status }) (.finish d)
  | finishes (d : Dir) :
      Computes K stop m (.finish d) (m.setStatus d { (m.stCfg d).status with state := .stFinished })
        (if d = 0 then .lose 1 else .done)

theorem computeStep_computes {K : Kernel} {stop : Bool} {m m' : Mod} {pc pc' : ComputePc}
    (hs : computeStep K stop m pc = some (m', pc')) : Computes K stop m pc m' pc' := by
  cases pc with
  | drain endTime =>
    simp only [computeStep] at hs
    split at hs <;> rename_i hq <;> obtain ⟨rfl, rfl⟩ := Prod.mk.inj (Option.some.inj hs)
    · exact .drained endTime hq
    · exact .counts endTime _ _ hq
  | look d endTime =>
    simp only [computeStep] at hs
    split at hs <;> rename_i htask <;> obtain ⟨rfl, rfl⟩ := Prod.mk.inj (Option.some.inj hs)
    · exact .sees d endTime htask
    · exact .passes d endTime (not_ne_iff.mp htask)
  | flush =>
    simp only [computeStep] at hs
    split at hs <;> rename_i hq <;> obtain ⟨rfl, rfl⟩ := Prod.mk.inj (Option.some.inj hs)
    · exact .flushed hq
    · exact .frees _ _ hq
  | done => cases hs
  | _ =>
    obtain ⟨rfl, rfl⟩ := Prod.mk.inj (Option.some.inj hs)
    constructor

/-- A step of a thread is one of a sender on its own configuration, or one of the compute function. -/
inductive Executes (K : Kernel) (stop : Bool) (x : Input) (m : Mod) : Body → Mod → Body → Prop
  | sends (d : Dir) {cfg : Cfg} {pc pc' : SenderPc} (step : Sends K m.jiffies stop x (m.stCfg d) pc cfg pc') :
      Executes K stop x m (.sender d pc) (m.setCfg d cfg) (.sender d pc')
  | computes {m' : Mod} {pc pc' : ComputePc} (step : Computes K stop m pc m' pc') :
      Executes K stop x m (.compute pc) m' (.compute pc')

theorem bodyStep_executes {K : Kernel} {stop : Bool} {x : Input} {m m' : Mod} {b b' : Body}
    (hs : bodyStep K stop x m b = some (m', b')) : Executes K stop x m b m' b' := by
  cases b with
  | sender d pc =>
    obtain ⟨⟨cfg, pc'⟩, hr, he⟩ := Option.map_eq_some_iff.mp hs
    obtain ⟨rfl, rfl⟩ := Prod.mk.inj he
    exact .sends d (senderStep_sends hr)
  | compute pc =>
    obtain ⟨⟨m₁, pc'⟩, hr, he⟩ := Option.map_eq_some_iff.mp hs
    obtain ⟨rfl, rfl⟩ := Prod.mk.inj he
    exact .computes (computeStep_computes hr)

/-- A step of the surroundings: packets, the timer, the clock, or the beginning of a command or of the unloading. -/
structure Outside (s t : State) : Prop where
  mod : s.mod.Same t.mod
  threads : t.threads = s.threads
  ctl : t.ctl = s.ctl ∨ (s.ctl = .idle ∧ t.ctl = .unload .delTimer) ∨
    (s.ctl = .idle ∧ ∃ nums, nums.length ≤ 5 ∧ t.ctl = .cmd ⟨nums, s.threads.length, false⟩ (.parse 0))

structure Ran (K : Kernel) (s t : State) (tid : Nat) (x : Input) (th : Thread) (m : Mod) (b : Body) : Prop where
  thread : s.threads[tid]? = some th
  woken : th.woken = true
  body : bodyStep K th.stop x s.mod th.body = some (m, b)
  eq : t = { s with mod := m, threads := s.threads.set tid { th with body := b } }

theorem threadStep_ran {K : Kernel} {s t : State} {tid : Nat} {x : Input} (hs : threadStep K s tid x = some t) :
    ∃ th m b, Ran K s t tid x th m b := by
  simp only [threadStep, Option.bind_eq_bind, Option.bind_eq_some_iff] at hs
  obtain ⟨th, hth, hs⟩ := hs
  split at hs
  · rename_i hw
    obtain ⟨⟨m, b⟩, hb, hs⟩ := Option.bind_eq_some_iff.mp hs
    exact ⟨th, m, b, hth, hw, hb, (Option.some.inj hs).symm⟩
  · cases hs

/-! ### Slots -/

inductive Slot
  | sender (d : Dir)
  | compute
  deriving DecidableEq, Repr

def Mod.ptr (m : Mod) : Slot → Ptr
  | .sender d => (m.stCfg d).task
  | .compute => m.computeTask

def Body.slot : Body → Slot
  | .sender d _ => .sender d
  | .compute _ => .compute

/-- A thread for the slot, before its first statement. -/
def Body.fresh : Slot → Body
  | .sender d => .sender d .entry
  | .compute => .compute .entry

def SenderPc.holds : SenderPc → Bool
  | .clearEnable | .setEndTime | .done | .killed => false
  | _ => true

def ComputePc.holds : ComputePc → Bool
  | .setHook | .timerTest | .clearReady | .timerInit | .lose _ | .finish _ | .done => false
  | _ => true

/-- The thread has neither cleared its pointer nor ended. -/
def Body.holds : Body → Bool
  | .sender _ pc => pc.holds
  | .compute pc => pc.holds

/-- The next step of the thread ends it with its pointer as it is. -/
def Body.quits (stop : Bool) (x : Input) (m : Mod) : Body → Bool
  | .sender _ .entry | .compute .entry => stop
  | .sender _ .make => x.made.isNone
  | .sender d (.setSend _) => pktRate (m.stCfg d) == 0
  | _ => false

@[simp] theorem slot_fresh (sl : Slot) : (Body.fresh sl).slot = sl := by
  cases sl <;> rfl

@[simp] theorem holds_fresh (sl : Slot) : (Body.fresh sl).holds = true := by
  cases sl <;> rfl

theorem Body.ended_of_not_holds {b : Body} (h : b.ended = true) : b.holds = false := by
  rcases b with ⟨d, pc⟩ | pc <;> cases pc <;> first | rfl | cases h

theorem Mod.Same.ptr {m m' : Mod} (h : m.Same m') : m'.ptr = m.ptr := by
  funext sl
  cases sl with
  | sender d => rw [Mod.ptr, Mod.ptr, h.stCfg]
  | compute => rw [Mod.ptr, Mod.ptr, h.computeTask]

theorem ptr_setCfg (m : Mod) (d : Dir) (c : Cfg) : (m.setCfg d c).ptr = Function.update m.ptr (.sender d) c.task := by
  funext sl
  cases sl with
  | sender e =>
    by_cases he : e = d
    · subst he
      simp [Mod.ptr]
    · simp [Mod.ptr, he]
  | compute => simp [Mod.ptr]

theorem ptr_setCfg_of_task {m : Mod} {d : Dir} {c : Cfg} (h : c.task = (m.stCfg d).task) : (m.setCfg d c).ptr = m.ptr := by
  rw [ptr_setCfg, h]
  exact Function.update_eq_self _ _

/-! ### Threads and their pointers -/

/-- A sender keeps its pointer while it holds it, and gives it up by clearing it, unless it quits. -/
theorem Sends.task {K : Kernel} {j : Nat} {stop : Bool} {x : Input} {m : Mod} {d : Dir} {cfg : Cfg} {pc pc' : SenderPc}
    (h : Sends K j stop x (m.stCfg d) pc cfg pc') :
    (cfg.task = (m.stCfg d).task ∧
      (pc'.holds = pc.holds ∨ (Body.quits stop x m (.sender d pc) = true ∧ pc'.holds = false))) ∨
    (pc.holds = true ∧ pc'.holds = false ∧ cfg.task = .null) := by
  cases h with
  | enters =>
    cases stop
    · exact Or.inl ⟨rfl, Or.inl rfl⟩
    · exact Or.inl ⟨rfl, Or.inr ⟨rfl, rfl⟩⟩
  | makes =>
    cases hmade : x.made
    · exact Or.inl ⟨rfl, Or.inr ⟨by rw [Body.quits, hmade]; rfl, rfl⟩⟩
    · exact Or.inl ⟨rfl, Or.inl rfl⟩
  | divides endTime hrate => exact Or.inl ⟨rfl, Or.inr ⟨by rw [Body.quits, hrate]; rfl, rfl⟩⟩
  | clearsTask => exact Or.inr ⟨rfl, rfl, rfl⟩
  | sends l => exact Or.inl ⟨rfl, Or.inl (by split <;> rfl)⟩
  | tests l => exact Or.inl ⟨rfl, Or.inl (by split <;> [rfl; (split <;> rfl)])⟩
  | _ => exact Or.inl ⟨rfl, Or.inl rfl⟩

theorem ptr_setStatus (m : Mod) (d : Dir) (st : Status) : (m.setStatus d st).ptr = m.ptr := ptr_setCfg_of_task rfl

theorem ptr_devKfreeSkb (m : Mod) (skb : Skb) : (devKfreeSkb m skb).ptr = m.ptr := by
  funext sl
  cases sl <;> rfl

theorem ptr_computePkt (m : Mod) (skb : Skb) : (computePkt m skb).ptr = m.ptr := by
  rw [computePkt, ptr_devKfreeSkb]
  split
  · exact ptr_setStatus _ _ _
  · split
    · exact ptr_setStatus _ _ _
    · rfl

/-- The compute thread keeps its pointer while it holds it, and gives it up by clearing it, unless it quits. -/
theorem Computes.task {K : Kernel} {stop : Bool} (x : Input) {m m' : Mod} {pc pc' : ComputePc}
    (h : Computes K stop m pc m' pc') :
    (m'.ptr = m.ptr ∧ (pc'.holds = pc.holds ∨ (Body.quits stop x m (.compute pc) = true ∧ pc'.holds = false))) ∨
    (pc.holds = true ∧ pc'.holds = false ∧ m'.ptr = Function.update m.ptr .compute .null) := by
  have hqueue (rest : List Skb) : ({ m with compSkbqueue := rest } : Mod).ptr = m.ptr := by
    funext sl
    cases sl <;> rfl
  cases h with
  | enters =>
    cases stop
    · exact Or.inl ⟨rfl, Or.inl rfl⟩
    · exact Or.inl ⟨rfl, Or.inr ⟨rfl, rfl⟩⟩
  | counts => exact Or.inl ⟨(ptr_computePkt _ _).trans (hqueue _), Or.inl rfl⟩
  | frees => exact Or.inl ⟨(ptr_devKfreeSkb _ _).trans (hqueue _), Or.inl rfl⟩
  | clearsPtr =>
    refine Or.inr ⟨rfl, rfl, ?_⟩
    funext sl
    cases sl <;> simp [Mod.ptr]
  | passes d endTime => exact Or.inl ⟨rfl, Or.inl (by split <;> rfl)⟩
  | tests => exact Or.inl ⟨rfl, Or.inl (by split <;> rfl)⟩
  | testsTimer => exact Or.inl ⟨rfl, Or.inl (by split <;> rfl)⟩
  | loses d => exact Or.inl ⟨ptr_setStatus _ _ _, Or.inl rfl⟩
  | finishes d => exact Or.inl ⟨ptr_setStatus _ _ _, Or.inl (by split <;> rfl)⟩
  | setsHook | clearsReady | initsTimer =>
    refine Or.inl ⟨?_, Or.inl rfl⟩
    funext sl
    cases sl <;> rfl
  | _ => exact Or.inl ⟨rfl, Or.inl rfl⟩

theorem bodyStep_ptr {K : Kernel} {stop : Bool} {x : Input} {m m' : Mod} {b b' : Body}
    (hs : bodyStep K stop x m b = some (m', b')) :
    b'.slot = b.slot ∧
      ((m'.ptr = m.ptr ∧ (b'.holds = b.holds ∨ (b.quits stop x m = true ∧ b'.holds = false))) ∨
        (b.holds = true ∧ b'.holds = false ∧ m'.ptr = Function.update m.ptr b.slot .null)) := by
  cases bodyStep_executes hs with
  | sends d h =>
    refine ⟨rfl, h.task.imp (fun h => ⟨ptr_setCfg_of_task h.1, h.2⟩) fun h => ⟨h.1, h.2.1, ?_⟩⟩
    rw [ptr_setCfg, h.2.2]
    rfl
  | computes h => exact ⟨rfl, h.task x⟩

/-- A thread that has taken a step has begun. -/
theorem bodyStep_begun {K : Kernel} {stop : Bool} {x : Input} {m m' : Mod} {b b' : Body}
    (hs : bodyStep K stop x m b = some (m', b')) : b'.begun = true := by
  cases bodyStep_executes hs with
  | sends d h =>
    cases h with
    | makes => cases x.made <;> rfl
    | tests l => split <;> [rfl; (split <;> rfl)]
    | enters | sends => split <;> rfl
    | _ => rfl
  | computes h =>
    cases h with
    | enters | passes | tests | testsTimer | finishes => split <;> rfl
    | _ => rfl

/-! ### The control and the slots -/

/-- The loop `while(ptr) kthread_stop(ptr)` that the control is in. -/
def Ctl.stopping : Ctl → Option (Slot × StopPc)
  | .cmd _ (.stop d p) | .cmd _ (.abort d p) | .unload (.stop d p) => some (.sender d, p)
  | .cmd _ (.stopComp p) | .unload (.stopComp p) => some (.compute, p)
  | _ => none

/-- The control at another position in the same loop. -/
def Ctl.stopAt : Ctl → StopPc → Ctl
  | .cmd c (.stop d _), p => .cmd c (.stop d p)
  | .cmd c (.abort d _), p => .cmd c (.abort d p)
  | .cmd c (.stopComp _), p => .cmd c (.stopComp p)
  | .unload (.stop d _), p => .unload (.stop d p)
  | .unload (.stopComp _), p => .unload (.stopComp p)
  | ctl, _ => ctl

/-- The control behind the loop. -/
def Ctl.afterStop : Ctl → Ctl
  | .cmd c (.stop d _) => .cmd c (if d = 0 then .stop 1 .test else .clear 0)
  | .cmd c (.abort d _) => .cmd c (if d = 0 then .abort 1 .test else .out 0)
  | .cmd c (.stopComp _) => .cmd c .createComp
  | .unload (.stop d _) => .unload (if d = 0 then .stop 1 .test else .stopComp .test)
  | .unload (.stopComp _) => .unload .removeProc
  | ctl => ctl

/-- The next statement is a `kthread_create` for the slot. -/
def Ctl.creates : Ctl → Option Slot
  | .cmd _ (.create d) => some (.sender d)
  | .cmd _ .createComp => some .compute
  | _ => none

/-- The next statement is a `wake_up_process` of the thread in the slot. -/
def Ctl.wakes : Ctl → Option Slot
  | .cmd _ (.start d) => some (.sender d)
  | .cmd _ .wakeComp => some .compute
  | _ => none

/-- The control has found the slot empty and has not filled it since. -/
def Ctl.vacant : Ctl → Slot → Bool
  | .cmd _ (.stop d _), .sender e | .unload (.stop d _), .sender e => e < d
  | .cmd _ (.clear d), .sender e | .cmd _ (.create d), .sender e => d ≤ e
  | .cmd _ .createComp, .compute => true
  | .unload (.stopComp _), .sender _ => true
  | .unload .removeProc, _ | .unload .rxNull, _ | .unload .txNull, _ | .unload .fifoFree, _ | .gone, _ => true
  | _, _ => false

/-- The control behind a `wake_up_process`. -/
def Ctl.afterWake : Ctl → Ctl
  | .cmd c .wakeComp => .cmd c (.start 0)
  | .cmd c (.start d) => .cmd c (if d = 0 then .start 1 else .out 0)
  | ctl => ctl

inductive Acts (s : State) (ok : Bool) : State → Prop
  | leaves (sl : Slot) (hstop : s.ctl.stopping = some (sl, .test)) (hnull : s.mod.ptr sl = .null) :
      Acts s ok (s.goto s.ctl.afterStop)
  | stays (sl : Slot) (hstop : s.ctl.stopping = some (sl, .test)) (hset : s.mod.ptr sl ≠ .null) :
      Acts s ok (s.goto (s.ctl.stopAt .call))
  | tells (sl : Slot) (tid : Nat) (hstop : s.ctl.stopping = some (sl, .call)) (hptr : s.mod.ptr sl = .task tid) :
      Acts s ok ((s.tellStop tid).goto (s.ctl.stopAt (.wait tid)))
  | faults (sl : Slot) (hstop : s.ctl.stopping = some (sl, .call)) (hnone : ∀ tid, s.mod.ptr sl ≠ .task tid) :
      Acts s ok (s.goto (.oops .kthreadStop))
  | waited (sl : Slot) (tid : Nat) (hstop : s.ctl.stopping = some (sl, .wait tid))
      (hended : (s.threads[tid]?.any fun th => th.body.ended) = true) : Acts s ok (s.goto (s.ctl.stopAt .test))
  | parses (c : Command) (d : Dir) (hctl : s.ctl = .cmd c (.parse d)) (hlen : c.nums.length = 5) :
      Acts s ok (({ s with mod := sscanfCmd s.mod d c.nums }.setPort d).goto
        (.cmd c (if d = 0 then .parse 1 else .stop 0 .test)))
  | rejects (c : Command) (d : Dir) (hctl : s.ctl = .cmd c (.parse d)) (hlen : c.nums.length ≠ 5) :
      Acts s ok ({ s with mod := sscanfCmd s.mod d c.nums }.goto (.cmd c (.out 1)))
  | clears (c : Command) (d : Dir) (hctl : s.ctl = .cmd c (.clear d)) (hen : (s.mod.stCfg d).enable ≠ 0) :
      Acts s ok ({ s with mod := s.mod.setStatus d .zero }.goto (.cmd c (.create d)))
  | skips (c : Command) (d : Dir) (hctl : s.ctl = .cmd c (.clear d)) (hen : (s.mod.stCfg d).enable = 0) :
      Acts s ok (s.goto (.cmd c (if d = 0 then .clear 1 else if c.taskRunFlag then .hook else .out 0)))
  | creates (c : Command) (d : Dir) (hctl : s.ctl = .cmd c (.create d)) (hok : ok = true) :
      Acts s ok (({ s with mod := s.mod.setTask d (.task s.threads.length) }.create (.sender d .entry)).goto
        (.cmd { c with taskRunFlag := true } (if d = 0 then .clear 1 else .hook)))
  | fails (c : Command) (d : Dir) (hctl : s.ctl = .cmd c (.create d)) (hok : ok = false) :
      Acts s ok ({ s with mod := s.mod.setTask d .err }.goto (.cmd c (.out 0)))
  | installs (c : Command) (hctl : s.ctl = .cmd c .hook) :
      Acts s ok ({ s with mod := { s.mod with rxHook := .fastRcvSpeedtestPkt } }.goto (.cmd c .ready))
  | readies (c : Command) (hctl : s.ctl = .cmd c .ready) :
      Acts s ok ({ s with mod := { s.mod with stReady := 0 } }.goto (.cmd c (.stopComp .test)))
  | createsComp (c : Command) (hctl : s.ctl = .cmd c .createComp) (hok : ok = true) :
      Acts s ok (({ s with mod := { s.mod with computeTask := .task s.threads.length } }.create (.compute .entry)).goto
        (.cmd c .wakeComp))
  | failsComp (c : Command) (hctl : s.ctl = .cmd c .createComp) (hok : ok = false) :
      Acts s ok ({ s with mod := { s.mod with computeTask := .err } }.goto (.cmd c (.abort 0 .test)))
  | wakes (sl : Slot) (tid : Nat) (hwakes : s.ctl.wakes = some sl) (hptr : s.mod.ptr sl = .task tid) :
      Acts s ok ((s.wake tid).goto s.ctl.afterWake)
  | wakesNone (sl : Slot) (hwakes : s.ctl.wakes = some sl) (hnone : ∀ tid, s.mod.ptr sl ≠ .task tid) :
      Acts s ok (s.goto (.oops .startTask))
  | returns (c : Command) (ret : Int) (hctl : s.ctl = .cmd c (.out ret)) : Acts s ok (s.goto .idle)
  | delTimer (hctl : s.ctl = .unload .delTimer) :
      Acts s ok ({ s with mod := { s.mod with loopDetectTimer := none } }.goto (.unload (.stop 0 .test)))
  | removeProc (hctl : s.ctl = .unload .removeProc) : Acts s ok (s.goto (.unload .rxNull))
  | rxNull (hctl : s.ctl = .unload .rxNull) :
      Acts s ok ({ s with mod := { s.mod with rxHook := .null } }.goto (.unload .txNull))
  | txNull (hctl : s.ctl = .unload .txNull) :
      Acts s ok ({ s with mod := { s.mod with txHook := false } }.goto (.unload .fifoFree))
  | fifoFree (hctl : s.ctl = .unload .fifoFree) :
      Acts s ok ({ s with mod := { s.mod with compSkbqueue := [], fifoSize := 0 } }.goto .gone)

section Acts
variable {s t : State} {ok : Bool} {sl : Slot}

theorem stopStep_acts {p : StopPc} (hstop : s.ctl.stopping = some (sl, p))
    (hs : stopStep s (s.mod.ptr sl) s.ctl.stopAt s.ctl.afterStop p = some t) : Acts s ok t := by
  cases p with
  | test =>
    obtain rfl := Option.some.inj hs
    by_cases hp : s.mod.ptr sl = .null
    · rw [if_pos hp]
      exact .leaves sl hstop hp
    · rw [if_neg hp]
      exact .stays sl hstop hp
  | call =>
    simp only [stopStep] at hs
    cases hp : s.mod.ptr sl <;> simp only [hp, Option.some.injEq] at hs <;> subst hs
    case task tid => exact .tells sl tid hstop hp
    all_goals exact .faults sl hstop fun tid h => by rw [hp] at h; cases h
  | wait tid =>
    simp only [stopStep] at hs
    split at hs
    · rename_i hended
      obtain rfl := Option.some.inj hs
      exact .waited sl tid hstop hended
    · cases hs

theorem cmdStep_acts {c : Command} {pc : CmdPc} (hctl : s.ctl = .cmd c pc) (hs : cmdStep s ok c pc = some t) :
    Acts s ok t := by
  cases pc with
  | stop d p | abort d p =>
    have hstop : s.ctl.stopping = some (.sender d, p) := by rw [hctl]; rfl
    exact stopStep_acts hstop (by rw [hctl]; exact hs)
  | stopComp p =>
    have hstop : s.ctl.stopping = some (.compute, p) := by rw [hctl]; rfl
    exact stopStep_acts hstop (by rw [hctl]; exact hs)
  | parse d =>
    simp only [cmdStep] at hs
    split at hs <;> rename_i hlen <;> obtain rfl := Option.some.inj hs
    · exact .parses c d hctl hlen
    · exact .rejects c d hctl hlen
  | clear d =>
    simp only [cmdStep] at hs
    split at hs <;> rename_i hen <;> obtain rfl := Option.some.inj hs
    · exact .clears c d hctl hen
    · exact .skips c d hctl (by simpa using hen)
  | create d =>
    simp only [cmdStep] at hs
    split at hs <;> rename_i hok <;> obtain rfl := Option.some.inj hs
    · exact .creates c d hctl hok
    · exact .fails c d hctl (by simpa using hok)
  | hook =>
    obtain rfl := Option.some.inj hs
    exact .installs c hctl
  | ready =>
    obtain rfl := Option.some.inj hs
    exact .readies c hctl
  | createComp =>
    simp only [cmdStep] at hs
    split at hs <;> rename_i hok <;> obtain rfl := Option.some.inj hs
    · exact .createsComp c hctl hok
    · exact .failsComp c hctl (by simpa using hok)
  | wakeComp =>
    simp only [cmdStep] at hs
    have hwakes : s.ctl.wakes = some .compute := by rw [hctl]; rfl
    cases hp : s.mod.computeTask <;> simp only [hp, Option.some.injEq] at hs <;> subst hs
    case task tid =>
      have : Acts s ok ((s.wake tid).goto s.ctl.afterWake) := .wakes .compute tid hwakes hp
      rwa [hctl] at this
    all_goals exact .wakesNone .compute hwakes fun tid h => by rw [Mod.ptr, hp] at h; cases h
  | start d =>
    simp only [cmdStep] at hs
    have hwakes : s.ctl.wakes = some (.sender d) := by rw [hctl]; rfl
    cases hp : (s.mod.stCfg d).task <;> simp only [hp, Option.some.injEq] at hs <;> subst hs
    case task tid =>
      have : Acts s ok ((s.wake tid).goto s.ctl.afterWake) := .wakes (.sender d) tid hwakes hp
      rwa [hctl] at this
    all_goals exact .wakesNone (.sender d) hwakes fun tid h => by rw [Mod.ptr, hp] at h; cases h
  | out ret =>
    obtain rfl := Option.some.inj hs
    exact .returns c ret hctl

theorem unloadStep_acts {pc : UnloadPc} (hctl : s.ctl = .unload pc) (hs : unloadStep s pc = some t) : Acts s ok t := by
  cases pc with
  | stop d p =>
    have hstop : s.ctl.stopping = some (.sender d, p) := by rw [hctl]; rfl
    exact stopStep_acts hstop (by rw [hctl]; exact hs)
  | stopComp p =>
    have hstop : s.ctl.stopping = some (.compute, p) := by rw [hctl]; rfl
    exact stopStep_acts hstop (by rw [hctl]; exact hs)
  | delTimer =>
    obtain rfl := Option.some.inj hs
    exact .delTimer hctl
  | removeProc =>
    obtain rfl := Option.some.inj hs
    exact .removeProc hctl
  | rxNull =>
    obtain rfl := Option.some.inj hs
    exact .rxNull hctl
  | txNull =>
    obtain rfl := Option.some.inj hs
    exact .txNull hctl
  | fifoFree =>
    obtain rfl := Option.some.inj hs
    exact .fifoFree hctl

theorem ctlStep_acts (hs : ctlStep s ok = some t) : Acts s ok t := by
  cases hctl : s.ctl with
  | idle | gone | oops f =>
    simp only [ctlStep, hctl] at hs
    cases hs
  | cmd c pc =>
    simp only [ctlStep, hctl] at hs
    exact cmdStep_acts hctl hs
  | unload pc =>
    simp only [ctlStep, hctl] at hs
    exact unloadStep_acts hctl hs

end Acts

/-- What a step of the system does. -/
inductive Steps (K : Kernel) (s : State) : Event → State → Prop
  | runs {tid : Nat} {x : Input} {t : State} {th : Thread} {m : Mod} {b : Body} (ran : Ran K s t tid x th m b) :
      Steps K s (.thread tid x) t
  | acts {ok : Bool} {t : State} (acts : Acts s ok t) : Steps K s (.ctl ok) t
  | begins {nums : List (BitVec 32)} (idle : s.ctl = .idle) (length : nums.length ≤ 5) :
      Steps K s (.command nums) (s.goto (.cmd ⟨nums, s.threads.length, false⟩ (.parse 0)))
  | unloads (idle : s.ctl = .idle) : Steps K s .unload (s.goto (.unload .delTimer))
  | receives (data : List Byte) : Steps K s (.receive data) { s with
      mod := { s.mod with nextSkb := s.mod.nextSkb + 1 }
      rxCalls := s.rxCalls ++ [(s.mod.rxHook, s.mod.newSkb data)] }
  | calls {i : Nat} {r : RxHook × Skb} (call : s.rxCalls[i]? = some r) :
      Steps K s (.rxHook i) { s with mod := (callRxHook s.mod r.2 r.1).1, rxCalls := s.rxCalls.eraseIdx i }
  | transmits (data : List Byte) (dev : Option String) (hook : s.mod.txHook = true) :
      Steps K s (.transmit data dev)
        { s with mod := (xmitSpeedtestPkt { s.mod with nextSkb := s.mod.nextSkb + 1 } (s.mod.newSkb data) dev).1 }
  | passes (data : List Byte) (dev : Option String) (hook : s.mod.txHook = false) :
      Steps K s (.transmit data dev) { s with mod := { s.mod with nextSkb := s.mod.nextSkb + 1 } }
  | expires (due : s.mod.loopDetectTimer.any (K.timeAfterEq s.mod.jiffies) = true) :
      Steps K s .timer { s with mod := speedtestLoopDetectCb K { s.mod with loopDetectTimer := none } }
  | ticks : Steps K s .tick { s with mod := { s.mod with jiffies := K.add s.mod.jiffies 1 } }

theorem step_steps {K : Kernel} {s t : State} {e : Event} (hs : step K s e = some t) : Steps K s e t := by
  cases e with
  | thread tid x =>
    obtain ⟨th, m, b, hr⟩ := threadStep_ran hs
    exact .runs hr
  | ctl ok => exact .acts (ctlStep_acts hs)
  | command nums =>
    obtain ⟨⟨hidle, hlen⟩, he⟩ := Option.ite_none_right_eq_some.mp hs
    obtain rfl := Option.some.inj he
    exact .begins hidle hlen
  | unload =>
    obtain ⟨hidle, he⟩ := Option.ite_none_right_eq_some.mp hs
    obtain rfl := Option.some.inj he
    exact .unloads hidle
  | receive data =>
    obtain rfl := Option.some.inj hs
    exact .receives data
  | rxHook i =>
    obtain ⟨r, hr, rfl⟩ := Option.map_eq_some_iff.mp hs
    exact .calls hr
  | transmit data dev =>
    obtain rfl := Option.some.inj hs
    dsimp only
    split
    · rename_i hhook
      exact .transmits data dev hhook
    · rename_i hhook
      exact .passes data dev (Bool.eq_false_iff.mpr hhook)
  | timer =>
    obtain ⟨hdue, he⟩ := Option.ite_none_right_eq_some.mp hs
    obtain rfl := Option.some.inj he
    exact .expires hdue
  | tick =>
    obtain rfl := Option.some.inj hs
    exact .ticks

/-- A step is one of a thread, of the command or the unloading, or of the surroundings. -/
theorem step_cases {K : Kernel} {s t : State} {e : Event} (hs : step K s e = some t) :
    (∃ tid x th m b, e = .thread tid x ∧ Ran K s t tid x th m b) ∨ (∃ ok, e = .ctl ok ∧ Acts s ok t) ∨ Outside s t := by
  cases step_steps hs with
  | runs hr => exact Or.inl ⟨_, _, _, _, _, rfl, hr⟩
  | acts ha => exact Or.inr (Or.inl ⟨_, rfl, ha⟩)
  | begins hidle hlen => exact Or.inr (Or.inr ⟨⟨rfl, rfl, rfl⟩, rfl, Or.inr (Or.inr ⟨hidle, _, hlen, rfl⟩)⟩)
  | unloads hidle => exact Or.inr (Or.inr ⟨⟨rfl, rfl, rfl⟩, rfl, Or.inr (Or.inl ⟨hidle, rfl⟩)⟩)
  | calls => exact Or.inr (Or.inr ⟨callRxHook_same _ _ _, rfl, Or.inl rfl⟩)
  | transmits data dev =>
    obtain ⟨h₁, h₂, h₃⟩ := xmitSpeedtestPkt_same { s.mod with nextSkb := s.mod.nextSkb + 1 } (s.mod.newSkb data) dev
    exact Or.inr (Or.inr ⟨⟨h₁, h₂, h₃⟩, rfl, Or.inl rfl⟩)
  | expires =>
    obtain ⟨h₁, h₂, h₃⟩ := speedtestLoopDetectCb_same K { s.mod with loopDetectTimer := none }
    exact Or.inr (Or.inr ⟨⟨h₁, h₂, h₃⟩, rfl, Or.inl rfl⟩)
  | receives | passes | ticks => exact Or.inr (Or.inr ⟨⟨rfl, rfl, rfl⟩, rfl, Or.inl rfl⟩)

theorem ptr_sscanfCmd (m : Mod) (d : Dir) (nums : List (BitVec 32)) : (sscanfCmd m d nums).ptr = m.ptr := by
  have hset := ptr_setCfg_of_task (m := m) (d := d) (c := { m.stCfg d with
    enable := nums.getD 0 (m.stCfg d).enable
    durTime := nums.getD 1 (m.stCfg d).durTime
    speed := nums.getD 2 (m.stCfg d).speed
    pktSize := nums.getD 3 (m.stCfg d).pktSize }) rfl
  rw [← hset]
  funext sl
  cases sl <;> rfl

theorem ptr_setPort (s : State) (d : Dir) : (s.setPort d).mod.ptr = s.mod.ptr := ptr_setCfg_of_task rfl

theorem ptr_computeTask (m : Mod) (p : Ptr) : ({ m with computeTask := p } : Mod).ptr = Function.update m.ptr .compute p := by
  funext sl
  cases sl <;> simp [Mod.ptr]

/-- What a step of the control does to the threads and to the pointers. -/
inductive Managed (s : State) (ok : Bool) (t : State) : Prop
  | quiet (threads : t.threads = s.threads) (ptr : t.mod.ptr = s.mod.ptr)
  | tells (sl : Slot) (tid : Nat) (at_ : s.ctl.stopping = some (sl, .call)) (names : s.mod.ptr sl = .task tid)
      (threads : t.threads = (s.tellStop tid).threads) (ptr : t.mod.ptr = s.mod.ptr)
  | wakes (sl : Slot) (tid : Nat) (at_ : s.ctl.wakes = some sl) (names : s.mod.ptr sl = .task tid)
      (threads : t.threads = (s.wake tid).threads) (ptr : t.mod.ptr = s.mod.ptr)
  | creates (sl : Slot) (at_ : s.ctl.creates = some sl) (ok : ok = true)
      (threads : t.threads = s.threads ++ [⟨.fresh sl, false, false⟩])
      (ptr : t.mod.ptr = Function.update s.mod.ptr sl (.task s.threads.length))
  | fails (sl : Slot) (at_ : s.ctl.creates = some sl) (ok : ok = false) (threads : t.threads = s.threads)
      (ptr : t.mod.ptr = Function.update s.mod.ptr sl .err)

theorem Acts.managed {s t : State} {ok : Bool} (h : Acts s ok t) : Managed s ok t := by
  cases h with
  | tells sl tid hstop hptr => exact .tells sl tid hstop hptr rfl rfl
  | wakes sl tid hwakes hptr => exact .wakes sl tid hwakes hptr rfl rfl
  | creates c d hctl hok => exact .creates (.sender d) (by rw [hctl]; rfl) hok rfl (ptr_setCfg _ _ _)
  | fails c d hctl hok => exact .fails (.sender d) (by rw [hctl]; rfl) hok rfl (ptr_setCfg _ _ _)
  | createsComp c hctl hok => exact .creates .compute (by rw [hctl]; rfl) hok rfl (ptr_computeTask _ _)
  | failsComp c hctl hok => exact .fails .compute (by rw [hctl]; rfl) hok rfl (ptr_computeTask _ _)
  | parses c d => exact .quiet rfl ((ptr_setPort _ d).trans (ptr_sscanfCmd _ _ _))
  | rejects c d => exact .quiet rfl (ptr_sscanfCmd _ _ _)
  | clears c d => exact .quiet rfl (ptr_setStatus _ _ _)
  | leaves | stays | faults | waited | skips | wakesNone | returns | removeProc => exact .quiet rfl rfl
  | installs | readies | delTimer | rxNull | txNull | fifoFree => exact .quiet rfl (by funext sl; cases sl <;> rfl)

theorem vacant_stopAt {ctl : Ctl} {p : StopPc} {sl : Slot} : (ctl.stopAt p).vacant sl = ctl.vacant sl := by
  rcases ctl with _ | ⟨c, pc⟩ | pc | _ | _ <;> try rfl
  all_goals cases pc <;> cases sl <;> rfl

theorem dir_cases : ∀ d : Dir, d = 0 ∨ d = 1
  | 0 => Or.inl rfl
  | 1 => Or.inr rfl

/-- The exits of the loops `while(ptr) kthread_stop(ptr)`: the control in the loop, its slot, and the control behind
    the loop. -/
inductive Ctl.Exits : Ctl → Slot → Ctl → Prop
  | cmdNext (c : Command) (p : StopPc) : Exits (.cmd c (.stop 0 p)) (.sender 0) (.cmd c (.stop 1 .test))
  | cmdClears (c : Command) (p : StopPc) : Exits (.cmd c (.stop 1 p)) (.sender 1) (.cmd c (.clear 0))
  | cmdCreates (c : Command) (p : StopPc) : Exits (.cmd c (.stopComp p)) .compute (.cmd c .createComp)
  | abortNext (c : Command) (p : StopPc) : Exits (.cmd c (.abort 0 p)) (.sender 0) (.cmd c (.abort 1 .test))
  | aborts (c : Command) (p : StopPc) : Exits (.cmd c (.abort 1 p)) (.sender 1) (.cmd c (.out 0))
  | unloadNext (p : StopPc) : Exits (.unload (.stop 0 p)) (.sender 0) (.unload (.stop 1 .test))
  | unloadComp (p : StopPc) : Exits (.unload (.stop 1 p)) (.sender 1) (.unload (.stopComp .test))
  | unloads (p : StopPc) : Exits (.unload (.stopComp p)) .compute (.unload .removeProc)

theorem afterStop_exits {ctl ctl' : Ctl} {sl : Slot} {p : StopPc} (h : ctl.stopping = some (sl, p))
    (h' : ctl.afterStop = ctl') : ctl.Exits sl ctl' := by
  subst h'
  rcases ctl with _ | ⟨c, pc⟩ | pc | _ | _ <;> try cases h
  · cases pc <;> cases h
    case stop.refl d => rcases dir_cases d with rfl | rfl <;> constructor
    case stopComp.refl => constructor
    case abort.refl d => rcases dir_cases d with rfl | rfl <;> constructor
  · cases pc <;> cases h
    case stop.refl d => rcases dir_cases d with rfl | rfl <;> constructor
    case stopComp.refl => constructor

/-- Behind its loop a slot is vacant, next to those that were. -/
theorem vacant_afterStop {ctl : Ctl} {sl sl' : Slot} {p : StopPc} (h : ctl.stopping = some (sl, p))
    (hv : ctl.afterStop.vacant sl' = true) : sl' = sl ∨ ctl.vacant sl' = true := by
  generalize h' : ctl.afterStop = ctl' at hv
  cases afterStop_exits h h' <;> rcases sl' with e | _ <;> (try rcases dir_cases e with rfl | rfl) <;>
    first | exact Or.inl rfl | exact Or.inr rfl | cases hv

/-- The wake-ups of a command: the control before one, the slot of the thread, and the control behind it. -/
inductive Ctl.Wakes : Ctl → Slot → Ctl → Prop
  | comp (c : Command) : Wakes (.cmd c .wakeComp) .compute (.cmd c (.start 0))
  | next (c : Command) : Wakes (.cmd c (.start 0)) (.sender 0) (.cmd c (.start 1))
  | last (c : Command) : Wakes (.cmd c (.start 1)) (.sender 1) (.cmd c (.out 0))

theorem afterWake_wakes {ctl ctl' : Ctl} {sl : Slot} (h : ctl.wakes = some sl) (h' : ctl.afterWake = ctl') :
    ctl.Wakes sl ctl' := by
  subst h'
  rcases ctl with _ | ⟨c, pc⟩ | pc | _ | _ <;> try cases h
  cases pc <;> cases h
  case wakeComp.refl => constructor
  case start.refl d => rcases dir_cases d with rfl | rfl <;> constructor

theorem stopping_of_wakes {ctl : Ctl} {sl : Slot} (h : ctl.wakes = some sl) : ctl.stopping = none := by
  generalize h' : ctl.afterWake = ctl'
  cases afterWake_wakes h h' <;> rfl

theorem vacant_afterWake {ctl : Ctl} {sl sl' : Slot} (h : ctl.wakes = some sl) : ctl.afterWake.vacant sl' = false := by
  generalize h' : ctl.afterWake = ctl'
  cases afterWake_wakes h h' <;> cases sl' <;> rfl

/-- A slot that is vacant behind a step of the control is empty. -/
theorem Acts.vacant {s t : State} {ok : Bool} (h : Acts s ok t) (hv : ∀ sl, s.ctl.vacant sl = true → s.mod.ptr sl = .null)
    {sl : Slot} (ht : t.ctl.vacant sl = true) : t.mod.ptr sl = .null := by
  cases h with
  | leaves sl' hstop hnull =>
    rcases vacant_afterStop hstop ht with rfl | h
    · exact hnull
    · exact hv sl h
  | stays | tells | waited => exact hv sl (vacant_stopAt ▸ ht)
  | parses c d => rcases dir_cases d with rfl | rfl <;> cases sl <;> simp [State.goto, Ctl.vacant] at ht
  | clears c d hctl =>
    rw [hctl] at hv
    exact (congrFun (ptr_setStatus _ _ _) sl).trans (hv sl (by cases sl <;> exact ht))
  | skips c d hctl =>
    rw [hctl] at hv
    rcases dir_cases d with rfl | rfl
    · cases sl with
      | sender e => exact hv (.sender e) (by simp [Ctl.vacant])
      | compute => cases ht
    · cases hrun : c.taskRunFlag <;> cases sl <;> simp [State.goto, Ctl.vacant, hrun] at ht
  | creates c d hctl =>
    rw [hctl] at hv
    rcases dir_cases d with rfl | rfl <;> rcases sl with e | _
    case inl.sender =>
      -- Only the second slot is still vacant, and the first has been filled.
      rcases dir_cases e with rfl | rfl
      · cases ht
      · exact hv (.sender 1) rfl
    all_goals cases ht
  | wakes sl' tid hwakes =>
    rw [show ((s.wake tid).goto s.ctl.afterWake).ctl = s.ctl.afterWake from rfl, vacant_afterWake hwakes] at ht
    cases ht
  | removeProc hctl | rxNull hctl | txNull hctl | fifoFree hctl =>
    have hnull := hv sl (by rw [hctl]; cases sl <;> rfl)
    cases sl <;> exact hnull
  | delTimer =>
    rcases sl with e | _
    · rcases dir_cases e with rfl | rfl <;> cases ht
    · cases ht
  | faults | rejects | fails | installs | readies | createsComp | failsComp | wakesNone | returns =>
    cases sl <;> cases ht

/-! ### Each slot names the thread that holds it -/

/-- Every thread of `t` is one of `s`, at the same statement. -/
def SameBodies (s t : State) : Prop :=
  ∀ (tid : Nat) (th : Thread), t.threads[tid]? = some th → ∃ th', s.threads[tid]? = some th' ∧ th'.body = th.body

theorem SameBodies.of_eq {s t : State} (h : t.threads = s.threads) : SameBodies s t := fun _ th hi => ⟨th, h ▸ hi, rfl⟩

theorem SameBodies.of_modify {s t : State} {f : Thread → Thread} {tid : Nat} (h : t.threads = s.threads.modify tid f)
    (hf : ∀ th, (f th).body = th.body) : SameBodies s t := by
  intro i th hi
  rw [h, List.getElem?_modify] at hi
  obtain ⟨th', hth', rfl⟩ := Option.map_eq_some_iff.mp hi
  refine ⟨th', hth', ?_⟩
  split
  · exact (hf th').symm
  · rfl

/-- Every thread of `s` is still there, for the same slot. -/
def SlotsKept (s t : State) : Prop :=
  ∀ (tid : Nat) (th : Thread), s.threads[tid]? = some th → ∃ th', t.threads[tid]? = some th' ∧
    th'.body.slot = th.body.slot

theorem SlotsKept.of_eq {s t : State} (h : t.threads = s.threads) : SlotsKept s t := fun _ th hi =>
  ⟨th, h ▸ hi, rfl⟩

theorem SlotsKept.of_modify {s t : State} {f : Thread → Thread} {tid : Nat} (h : t.threads = s.threads.modify tid f)
    (hf : ∀ th, (f th).body = th.body) : SlotsKept s t := by
  intro i th hi
  refine ⟨if tid = i then f th else th, by rw [h, List.getElem?_modify, hi]; rfl, ?_⟩
  split
  · rw [hf]
  · rfl

theorem SlotsKept.of_concat {s t : State} {a : Thread} (h : t.threads = s.threads ++ [a]) : SlotsKept s t :=
  fun i th hi => ⟨th, by rw [h, List.getElem?_append_left (List.getElem?_eq_some_iff.mp hi).1, hi], rfl⟩

theorem SlotsKept.of_ran {K : Kernel} {s t : State} {tid : Nat} {x : Input} {th : Thread} {m : Mod} {b : Body}
    (hr : Ran K s t tid x th m b) : SlotsKept s t := by
  obtain ⟨hth, -, hb, rfl⟩ := hr
  intro i th' hi
  by_cases hit : i = tid
  · subst hit
    rw [hth] at hi
    obtain rfl := Option.some.inj hi
    exact ⟨{ th with body := b }, List.getElem?_set_self (List.getElem?_eq_some_iff.mp hth).1, (bodyStep_ptr hb).1⟩
  · exact ⟨th', by rw [List.getElem?_set_ne (Ne.symm hit)]; exact hi, rfl⟩

/-- A thread that holds a slot is the one that the slot names, a slot names only threads of its own, and a vacant
    slot is empty. -/
structure Held (s : State) : Prop where
  names : ∀ tid th, s.threads[tid]? = some th → th.body.holds = true → s.mod.ptr th.body.slot = .task tid
  owner : ∀ sl tid, s.mod.ptr sl = .task tid → ∃ th, s.threads[tid]? = some th ∧ th.body.slot = sl
  vacant : ∀ sl, s.ctl.vacant sl = true → s.mod.ptr sl = .null

namespace Held
variable {K : Kernel} {s t : State}

theorem of_bodies (h : Held s) (hbody : SameBodies s t) (hptr : t.mod.ptr = s.mod.ptr) (tid : Nat) (th : Thread)
    (hth : t.threads[tid]? = some th) (hholds : th.body.holds = true) : t.mod.ptr th.body.slot = .task tid := by
  obtain ⟨th', hth', hb⟩ := hbody tid th hth
  rw [hptr, ← hb]
  exact h.names tid th' hth' (hb ▸ hholds)

theorem not_holds (h : Held s) {tid : Nat} {th : Thread} (hth : s.threads[tid]? = some th)
    (hnull : s.mod.ptr th.body.slot = .null) : th.body.holds = false := by
  by_contra hholds
  have := h.names tid th hth (by simpa using hholds)
  rw [hnull] at this
  cases this

theorem start (K : Kernel) (j : Nat) : Held (start K j) where
  names tid th hth := by simp [Speedtest.start] at hth
  owner sl tid hp := by cases sl <;> cases hp
  vacant sl := by
    intro hv
    cases sl <;> cases hv

/-- A pointer that still names a thread names one of its slot. -/
theorem owner_of_kept (h : Held s) (hkept : SlotsKept s t) {sl : Slot} {tid : Nat} (hp : s.mod.ptr sl = .task tid) :
    ∃ th, t.threads[tid]? = some th ∧ th.body.slot = sl := by
  obtain ⟨th, hth, hsl⟩ := h.owner sl tid hp
  obtain ⟨th', hth', hsl'⟩ := hkept tid th hth
  exact ⟨th', hth', hsl'.trans hsl⟩

theorem ran (h : Held s) {tid : Nat} {x : Input} {th : Thread} {m : Mod} {b : Body} (hr : Ran K s t tid x th m b) :
    Held t := by
  have hkept := SlotsKept.of_ran hr
  obtain ⟨hth, -, hb, rfl⟩ := hr
  obtain ⟨hslot, hcase⟩ := bodyStep_ptr hb
  constructor
  · intro i th' hi hholds
    rcases Calls.getElem?_set_cases hi with ⟨rfl, rfl⟩ | ⟨hne, hi⟩
    · rw [hslot]
      rcases hcase with ⟨hptr, hsame | ⟨-, hno⟩⟩ | ⟨-, hno, -⟩
      · rw [hptr]
        exact h.names i th hth (hsame ▸ hholds)
      · rw [hno] at hholds
        cases hholds
      · rw [hno] at hholds
        cases hholds
    · have hold := h.names i th' hi hholds
      rcases hcase with ⟨hptr, -⟩ | ⟨hhad, -, hptr⟩
      · rw [hptr]
        exact hold
      · rw [hptr, Function.update_of_ne]
        · exact hold
        · intro hsl
          have := h.names tid th hth hhad
          rw [← hsl, hold] at this
          exact hne (Ptr.task.inj this)
  · intro sl i hp
    refine h.owner_of_kept hkept ?_
    rcases hcase with ⟨hptr, -⟩ | ⟨-, -, hptr⟩
    · exact hptr ▸ hp
    · rw [hptr, Function.update_apply] at hp
      split at hp
      · cases hp
      · exact hp
  · intro sl hv
    have hnull := h.vacant sl hv
    rcases hcase with ⟨hptr, -⟩ | ⟨-, -, hptr⟩
    · rw [hptr]
      exact hnull
    · rw [hptr, Function.update_apply]
      split
      · rfl
      · exact hnull

theorem acts (h : Held s) {ok : Bool} (ha : Acts s ok t) : Held t := by
  refine ⟨?_, ?_, fun sl hv => ha.vacant h.vacant hv⟩
  case refine_2 =>
    intro sl i hp
    cases ha.managed with
    | quiet hth hptr => exact h.owner_of_kept (.of_eq hth) (hptr ▸ hp)
    | tells _ _ _ _ hth hptr | wakes _ _ _ _ hth hptr =>
      exact h.owner_of_kept (.of_modify hth fun _ => rfl) (hptr ▸ hp)
    | fails sl' _ _ hth hptr =>
      rw [hptr, Function.update_apply] at hp
      split at hp
      · cases hp
      · exact h.owner_of_kept (.of_eq hth) hp
    | creates sl' _ _ hth hptr =>
      rw [hptr, Function.update_apply] at hp
      split at hp
      · rename_i hsl
        obtain rfl := Ptr.task.inj hp
        exact ⟨⟨.fresh sl', false, false⟩, by rw [hth, List.getElem?_concat_length], (slot_fresh sl').trans hsl.symm⟩
      · exact h.owner_of_kept (.of_concat hth) hp
  have vacant_creates {sl : Slot} (hc : s.ctl.creates = some sl) : s.mod.ptr sl = .null := by
    refine h.vacant sl ?_
    rcases hctl : s.ctl with _ | ⟨c, pc⟩ | pc | _ | _ <;> rw [hctl] at hc
    case cmd =>
      cases pc <;> cases hc
      · simp [Ctl.vacant]
      · rfl
    all_goals cases hc
  cases ha.managed with
  | quiet hth hptr => exact h.of_bodies (.of_eq hth) hptr
  | tells sl tid _ _ hth hptr => exact h.of_bodies (.of_modify hth fun _ => rfl) hptr
  | wakes sl tid _ _ hth hptr => exact h.of_bodies (.of_modify hth fun _ => rfl) hptr
  | fails sl hc _ hth hptr =>
    intro i th hi hholds
    rw [hth] at hi
    rw [hptr, Function.update_apply]
    split
    · rename_i hsl
      have := h.not_holds hi (hsl ▸ vacant_creates hc)
      rw [this] at hholds
      cases hholds
    · exact h.names i th hi hholds
  | creates sl hc _ hth hptr =>
    intro i th hi hholds
    rw [hth] at hi
    rw [hptr]
    rcases Calls.getElem?_concat_cases hi with hi | ⟨rfl, rfl⟩
    · rw [Function.update_of_ne]
      · exact h.names i th hi hholds
      · intro hsl
        have := h.not_holds hi (hsl ▸ vacant_creates hc)
        rw [this] at hholds
        cases hholds
    · rw [slot_fresh, Function.update_self]

theorem outside (h : Held s) (ho : Outside s t) : Held t := by
  refine ⟨h.of_bodies (.of_eq ho.threads) ho.mod.ptr, fun sl i hp => ?_, fun sl hv => ?_⟩
  · exact h.owner_of_kept (.of_eq ho.threads) (ho.mod.ptr ▸ hp)
  rw [ho.mod.ptr]
  rcases ho.ctl with hc | ⟨-, hc⟩ | ⟨-, nums, -, hc⟩
  · exact h.vacant sl (hc ▸ hv)
  · rw [hc] at hv
    cases sl <;> cases hv
  · rw [hc] at hv
    cases sl <;> cases hv

theorem step (h : Held s) {e : Event} (hs : step K s e = some t) : Held t := by
  rcases step_cases hs with ⟨tid, x, th, m, b, -, hr⟩ | ⟨ok, -, ha⟩ | ho
  · exact h.ran hr
  · exact h.acts ha
  · exact h.outside ho

end Held

theorem held {K : Kernel} {ok : State → Event → Prop} {s : State} (h : (lts K).Reach ok s) : Held s :=
  h.invariant (fun _ ⟨j, _, he⟩ => he ▸ Held.start K j) fun _ _ _ hi _ hs => hi.step hs

end QuickStart.Speedtest
