import QuickStart.Calls
import QuickStart.Speedtest.State

/-! # What the speed test module does

One statement of a sender, of a compute thread, of a command or of the unloading at a time, with one process that writes
the commands and unloads the module; the packet hooks and the timer callback run as one step. -/

namespace QuickStart.Speedtest
open Checksum

def isSpeedtestTaskRunning (m : Mod) : Bool :=
  m.computeTask != .null || (m.stCfg 0).task != .null || (m.stCfg 1).task != .null

/-! ### The hooks -/

def devKfreeSkb (m : Mod) (skb : Skb) : Mod := { m with freed := m.freed ++ [skb] }

/-- `kfifo_in(&comp_skbqueue, &skb, sizeof(void *))`: nothing is copied when there is no room. -/
def kfifoIn (m : Mod) (skb : Skb) : Mod :=
  if m.compSkbqueue.length < m.fifoSize then { m with compSkbqueue := m.compSkbqueue ++ [skb] } else m

/-- `xmit_speedtest_pkt`; `dev` is the name of the packet's device, if it has one. -/
def xmitSpeedtestPkt (m : Mod) (skb : Skb) (dev : Option String) : Mod × Int :=
  if m.stReady = 3 ∨ isSpeedtestTaskRunning m then (devKfreeSkb m skb, 0)
  else if m.stLoopTimerEnable = 0 then
    match dev with
    | some name =>
      if name = "vif_lan1" ∨ name = "br0" ∨ name = "eth0.1" then (m, 1) else (devKfreeSkb m skb, 0)
    | none => (m, 1)
  else (m, 1)

def fastRcvSpeedtestPkt (m : Mod) (skb : Skb) : Mod × Int := (kfifoIn m skb, 1)

/-- `st_ready |= bit` and the statements at `free_probe_skb`. -/
def freeProbeSkb (m : Mod) (skb : Skb) (bit : Nat) : Mod × Int :=
  let m := { m with stReady := m.stReady ||| bit }
  let m := if m.stReady = 3 then { m with loopDetectTimer := none } else m
  (devKfreeSkb m skb, 1)

def rcvSpeedtestProbePkt (m : Mod) (skb : Skb) : Mod × Int :=
  if isSpeedtestTaskRunning m then (m, 1)
  else if skb.hSource = st0Mac then freeProbeSkb m skb 1
  else if skb.hSource = st1Mac then freeProbeSkb m skb 2
  else (m, 0)

/-- A call of the receive hook with the pointer it has loaded. -/
def callRxHook (m : Mod) (skb : Skb) : RxHook → Mod × Int
  | .null => (m, 0)
  | .rcvSpeedtestProbePkt => rcvSpeedtestProbePkt m skb
  | .fastRcvSpeedtestPkt => fastRcvSpeedtestPkt m skb

/-! ### The timer -/

/-- `SPEEDTEST_LOOPDETECT_TIMER_CIRCLE`. -/
def loopdetectTimerCircle : Nat := 2

def armLoopDetectTimer (K : Kernel) (m : Mod) : Mod :=
  { m with loopDetectTimer := some (K.add m.jiffies (K.hz * loopdetectTimerCircle)) }

/-- `speedtest_loop_detect_cb`, without the packets it sends. -/
def speedtestLoopDetectCb (K : Kernel) (m : Mod) : Mod :=
  if isSpeedtestTaskRunning m then m
  else
    let m := if m.stReady ≠ 0 ∧ m.readyEndtime = 0 then { m with readyEndtime := K.add m.jiffies (5 * K.hz) } else m
    let m := if m.readyEndtime = 0 ∧ m.readyEndtime < m.jiffies then { m with readyEndtime := 0, stReady := 0 } else m
    armLoopDetectTimer K m

/-! ### The threads -/

/-- What a step of a sender takes from outside the module: the frame that `make_speedtest_pkt` builds, the
    result of `send_speedtest_pkt`, and the nanoseconds of `__getnstimeofday64` as an `unsigned long`. -/
structure Input where
  made : Option (List Byte)
  sent : Bool
  clk : Nat
  deriving DecidableEq, Repr

/-- The packets for each second, `cfg->speed * 1024 * 1024 / 8 / cfg->pkt_size` in 32 bits. -/
def pktRate (cfg : Cfg) : BitVec 32 := cfg.speed * 1024 * 1024 / 8 / cfg.pktSize

/-- One statement of `speedtest_thread_func`, on its own configuration. -/
def senderStep (K : Kernel) (jiffies : Nat) (stop : Bool) (x : Input) (cfg : Cfg) : SenderPc → Option (Cfg × SenderPc)
  | .entry => some (cfg, if stop then .done else .make)
  | .make => some (cfg, x.made.elim .done .setState)
  | .setState stSkb => some ({ cfg with status := { cfg.status with state := .stRunning } }, .setCsum stSkb)
  | .setCsum stSkb =>
    some ({ cfg with status := { cfg.status with pktCsum := ipComputeCsum (stSkb.drop 14) } }, .setBegin)
  | .setBegin =>
    some ({ cfg with status := { cfg.status with beginTime := BitVec.ofNat 32 (jiffies / K.hz) } }, .setEnd)
  | .setEnd => some (cfg, .setSend (K.add jiffies (cfg.durTime * BitVec.ofNat 32 K.hz).toNat))
  | .setSend endTime =>
    if pktRate cfg = 0 then some (cfg, .killed)
    else
      let sendTime := ((1000000000 : BitVec 32) / pktRate cfg).toNat
      if cfg.speed < 100 then some (cfg, .pace ⟨endTime, sendTime, K.add sendTime x.clk, true⟩)
      else some (cfg, .send ⟨endTime, sendTime, K.add sendTime x.clk, false⟩)
  | .pace l =>
    if l.speedTime ≥ x.clk then some (cfg, .pace l)
    else some (cfg, .send { l with speedTime := K.add l.sendTime x.clk })
  | .send l => some (cfg, if x.sent then .count l else .test l)
  | .count l =>
    some ({ cfg with status := { cfg.status with pktsendCount := (cfg.status.pktsendCount + 1) % 2 ^ 64 } }, .test l)
  | .test l =>
    some (cfg, if stop ∨ l.endTime < jiffies then .clearTask else if l.paced then .pace l else .send l)
  | .clearTask => some ({ cfg with task := .null }, .clearEnable)
  | .clearEnable => some ({ cfg with enable := 0 }, .setEndTime)
  | .setEndTime =>
    some ({ cfg with status := { cfg.status with endTime := BitVec.ofNat 32 (jiffies / K.hz) } }, .done)
  | .done | .killed => none

/-- A packet of the direction whose status is `st`: it counts as received, and as an error when its checksum
    behind the VLAN tag differs. -/
def countPkt (st : Status) (skb : Skb) : Status where
  state := st.state
  beginTime := st.beginTime
  endTime := st.endTime
  pktrcvCount := (st.pktrcvCount + 1) % 2 ^ 64
  pktsendCount := st.pktsendCount
  pkterrCount := if st.pktCsum ≠ ipComputeCsum (skb.data.drop 18) then (st.pkterrCount + 1) % 2 ^ 64 else st.pkterrCount
  pktloseCount := st.pktloseCount
  pktCsum := st.pktCsum

/-- The packet `skb`, taken from the queue, is counted and freed. -/
def computePkt (m : Mod) (skb : Skb) : Mod :=
  let m :=
    if skb.hSource = st0Mac then m.setStatus 0 (countPkt (m.stCfg 0).status skb)
    else if skb.hSource = st1Mac then m.setStatus 1 (countPkt (m.stCfg 1).status skb)
    else m
  devKfreeSkb m skb

/-- `cfgs[i].status.pktlose_count = ..`, in 64 bits. -/
def lostPkts (st : Status) : Nat :=
  (((st.pktsendCount : Int) - st.pktrcvCount - st.pkterrCount) % 2 ^ 64).toNat

/-- One statement of `speedtest_compute_func`; taking a packet from the queue, counting and freeing it is one, which
    `pktStep` takes apart. -/
def computeStep (K : Kernel) (stop : Bool) (m : Mod) : ComputePc → Option (Mod × ComputePc)
  | .entry => some (m, if stop then .done else .drain 0)
  | .drain endTime =>
    match m.compSkbqueue with
    | [] => some (m, .look 0 endTime)
    | skb :: rest => some (computePkt { m with compSkbqueue := rest } skb, .drain endTime)
  | .look d endTime =>
    if (m.stCfg d).task ≠ .null then some (m, .test true 0)
    else some (m, if d = 0 then .look 1 endTime else .arm endTime)
  | .arm endTime => some (m, .test false (if endTime = 0 then K.add m.jiffies (5 * K.hz) else endTime))
  | .test isStRunning endTime =>
    some (m, if stop ∨ (isStRunning = false ∧ endTime < m.jiffies) then .flush else .drain endTime)
  | .flush =>
    match m.compSkbqueue with
    | [] => some (m, .clearPtr)
    | skb :: rest => some (devKfreeSkb { m with compSkbqueue := rest } skb, .flush)
  | .clearPtr => some ({ m with computeTask := .null }, .setHook)
  | .setHook => some ({ m with rxHook := .rcvSpeedtestProbePkt }, .timerTest)
  | .timerTest => some (m, if m.stLoopTimerEnable ≠ 0 then .clearReady else .lose 0)
  | .clearReady => some ({ m with stReady := 0 }, .timerInit)
  | .timerInit => some (armLoopDetectTimer K m, .lose 0)
  | .lose d =>
    some (m.setStatus d { (m.stCfg d).status with pktloseCount := lostPkts (m.stCfg d).status }, .finish d)
  | .finish d =>
    some (m.setStatus d { (m.stCfg d).status with state := .stFinished }, if d = 0 then .lose 1 else .done)
  | .done => none

def bodyStep (K : Kernel) (stop : Bool) (x : Input) (m : Mod) : Body → Option (Mod × Body)
  | .sender d pc => (senderStep K m.jiffies stop x (m.stCfg d) pc).map fun r => (m.setCfg d r.1, .sender d r.2)
  | .compute pc => (computeStep K stop m pc).map fun r => (r.1, .compute r.2)

/-- A thread that has not been woken since its creation does not run. -/
def threadStep (K : Kernel) (s : State) (tid : Nat) (x : Input) : Option State := do
  let th ← s.threads[tid]?
  if th.woken then
    let r ← bodyStep K th.stop x s.mod th.body
    some { s with mod := r.1, threads := s.threads.set tid { th with body := r.2 } }
  else none

/-! ### Commands -/

def State.goto (s : State) (ctl : Ctl) : State := { s with ctl := ctl }

/-- `wake_up_process` of the thread `tid`. -/
def State.wake (s : State) (tid : Nat) : State :=
  { s with threads := s.threads.modify tid fun th => { th with woken := true } }

/-- `kthread_stop` up to its waiting: the flag is set and the thread is woken. -/
def State.tellStop (s : State) (tid : Nat) : State :=
  { s with threads := s.threads.modify tid fun th => { th with woken := true, stop := true } }

/-- One statement of `while(ptr) kthread_stop(ptr)` at the position `p`; `at_` is the control at a position in
    the loop and `next` the control behind it. -/
def stopStep (s : State) (ptr : Ptr) (at_ : StopPc → Ctl) (next : Ctl) : StopPc → Option State
  | .test => some (s.goto (if ptr = .null then next else at_ .call))
  | .call =>
    match ptr with
    | .task tid => some ((s.tellStop tid).goto (at_ (.wait tid)))
    | .null | .err => some (s.goto (.oops .kthreadStop))
  | .wait tid => if s.threads[tid]?.any (·.body.ended) then some (s.goto (at_ .test)) else none

/-- `sscanf(cmd, "%d %d %d %d %d", ..)` into the configuration `d`; it stores as many numbers as it reads. -/
def sscanfCmd (m : Mod) (d : Dir) (nums : List (BitVec 32)) : Mod :=
  let cfg := m.stCfg d
  { m.setCfg d { cfg with
      enable := nums.getD 0 cfg.enable
      durTime := nums.getD 1 cfg.durTime
      speed := nums.getD 2 cfg.speed
      pktSize := nums.getD 3 cfg.pktSize } with
    stLoopTimerEnable := nums.getD 4 m.stLoopTimerEnable }

def getSpeedtestPortByIndex (d : Dir) : BitVec 8 := if d = 0 then 1 else 4

def State.setPort (s : State) (d : Dir) : State :=
  { s with mod := s.mod.setCfg d { s.mod.stCfg d with port := getSpeedtestPortByIndex d } }

/-- `kthread_create`: the new thread waits to be woken. -/
def State.create (s : State) (body : Body) : State :=
  { s with threads := s.threads ++ [{ body := body, woken := false, stop := false }] }

/-- One statement of `run_speedtest_by_cmd`; `ok` is the outcome of a `kthread_create` in it. -/
def cmdStep (s : State) (ok : Bool) (c : Command) : CmdPc → Option State
  | .parse d =>
    let s := { s with mod := sscanfCmd s.mod d c.nums }
    if c.nums.length = 5 then
      some ((s.setPort d).goto (.cmd c (if d = 0 then .parse 1 else .stop 0 .test)))
    else some (s.goto (.cmd c (.out 1)))
  | .stop d p =>
    stopStep s (s.mod.stCfg d).task (fun p => .cmd c (.stop d p)) (.cmd c (if d = 0 then .stop 1 .test else .clear 0)) p
  | .clear d =>
    if (s.mod.stCfg d).enable ≠ 0 then
      some ({ s with mod := s.mod.setStatus d .zero }.goto (.cmd c (.create d)))
    else some (s.goto (.cmd c (if d = 0 then .clear 1 else if c.taskRunFlag then .hook else .out 0)))
  | .create d =>
    if ok then
      let c := { c with taskRunFlag := true }
      some (({ s with mod := s.mod.setTask d (.task s.threads.length) }.create (.sender d .entry)).goto
        (.cmd c (if d = 0 then .clear 1 else .hook)))
    else some ({ s with mod := s.mod.setTask d .err }.goto (.cmd c (.out 0)))
  | .hook => some ({ s with mod := { s.mod with rxHook := .fastRcvSpeedtestPkt } }.goto (.cmd c .ready))
  | .ready => some ({ s with mod := { s.mod with stReady := 0 } }.goto (.cmd c (.stopComp .test)))
  | .stopComp p => stopStep s s.mod.computeTask (fun p => .cmd c (.stopComp p)) (.cmd c .createComp) p
  | .createComp =>
    if ok then
      some (({ s with mod := { s.mod with computeTask := .task s.threads.length } }.create (.compute .entry)).goto
        (.cmd c .wakeComp))
    else some ({ s with mod := { s.mod with computeTask := .err } }.goto (.cmd c (.abort 0 .test)))
  | .wakeComp =>
    match s.mod.computeTask with
    | .task tid => some ((s.wake tid).goto (.cmd c (.start 0)))
    | .null | .err => some (s.goto (.oops .startTask))
  | .abort d p =>
    stopStep s (s.mod.stCfg d).task (fun p => .cmd c (.abort d p))
      (.cmd c (if d = 0 then .abort 1 .test else .out 0)) p
  | .start d =>
    match (s.mod.stCfg d).task with
    | .task tid => some ((s.wake tid).goto (.cmd c (if d = 0 then .start 1 else .out 0)))
    | .null | .err => some (s.goto (.oops .startTask))
  | .out _ => some (s.goto .idle)

def unloadStep (s : State) : UnloadPc → Option State
  | .delTimer => some ({ s with mod := { s.mod with loopDetectTimer := none } }.goto (.unload (.stop 0 .test)))
  | .stop d p =>
    stopStep s (s.mod.stCfg d).task (fun p => .unload (.stop d p))
      (.unload (if d = 0 then .stop 1 .test else .stopComp .test)) p
  | .stopComp p => stopStep s s.mod.computeTask (fun p => .unload (.stopComp p)) (.unload .removeProc) p
  | .removeProc => some (s.goto (.unload .rxNull))
  | .rxNull => some ({ s with mod := { s.mod with rxHook := .null } }.goto (.unload .txNull))
  | .txNull => some ({ s with mod := { s.mod with txHook := false } }.goto (.unload .fifoFree))
  | .fifoFree => some ({ s with mod := { s.mod with compSkbqueue := [], fifoSize := 0 } }.goto .gone)

/-- One statement of the process, which waits while it is idle. -/
def ctlStep (s : State) (ok : Bool) : Option State :=
  match s.ctl with
  | .cmd c pc => cmdStep s ok c pc
  | .unload pc => unloadStep s pc
  | .idle | .gone | .oops _ => none

/-! ### The system -/

inductive Event
  | thread (tid : Nat) (x : Input)
  -- a write of a command, from which `sscanf` reads the numbers `nums`
  | command (nums : List (BitVec 32))
  | unload
  -- a statement of the command or of the unloading
  | ctl (ok : Bool)
  -- a packet arrives and the receive hook is loaded
  | receive (data : List Byte)
  -- the `i`-th call of the receive hook runs
  | rxHook (i : Nat)
  -- a packet is handed to the transmit hook
  | transmit (data : List Byte) (dev : Option String)
  | timer
  | tick
  deriving DecidableEq, Repr

/-- A new packet with the bytes `data`. -/
def Mod.newSkb (m : Mod) (data : List Byte) : Skb := { id := m.nextSkb, data := data }

def step (K : Kernel) (s : State) : Event → Option State
  | .thread tid x => threadStep K s tid x
  | .command nums =>
    if s.ctl = .idle ∧ nums.length ≤ 5 then
      some (s.goto (.cmd { nums := nums, base := s.threads.length, taskRunFlag := false } (.parse 0)))
    else none
  | .unload => if s.ctl = .idle then some (s.goto (.unload .delTimer)) else none
  | .ctl ok => ctlStep s ok
  | .receive data =>
    some { s with
      mod := { s.mod with nextSkb := s.mod.nextSkb + 1 }
      rxCalls := s.rxCalls ++ [(s.mod.rxHook, s.mod.newSkb data)] }
  | .rxHook i => s.rxCalls[i]?.map fun r => { s with mod := (callRxHook s.mod r.2 r.1).1, rxCalls := s.rxCalls.eraseIdx i }
  | .transmit data dev =>
    let m := { s.mod with nextSkb := s.mod.nextSkb + 1 }
    some { s with mod := if m.txHook then (xmitSpeedtestPkt m (s.mod.newSkb data) dev).1 else m }
  | .timer =>
    if s.mod.loopDetectTimer.any (K.timeAfterEq s.mod.jiffies) then
      some { s with mod := speedtestLoopDetectCb K { s.mod with loopDetectTimer := none } }
    else none
  | .tick => some { s with mod := { s.mod with jiffies := K.add s.mod.jiffies 1 } }

/-- After `speedtest_init_module`, when the clock shows `jiffies`. -/
def start (K : Kernel) (jiffies : Nat) : State where
  mod := armLoopDetectTimer K
    { stCfg := fun _ =>
        { enable := 0, durTime := 0, speed := 0, pktSize := 0, port := 0, status := .zero, task := .null }
      computeTask := .null
      compSkbqueue := []
      fifoSize := speedtestSkbqueueSize / (K.bitsPerLong / 8)
      rxHook := .rcvSpeedtestProbePkt
      txHook := true
      stReady := 0
      stLoopTimerEnable := 1
      loopDetectTimer := none
      readyEndtime := 0
      jiffies := jiffies
      freed := []
      nextSkb := 0 }
  threads := []
  ctl := .idle
  rxCalls := []

/-- The module from its initialisation on. -/
def lts (K : Kernel) : Lts State Event where
  init s := ∃ jiffies < 2 ^ K.bitsPerLong, s = start K jiffies
  step := step K

/-! ### A short test -/

/-- A 32-bit kernel with 100 ticks a second. -/
def kernel32 : Kernel := ⟨100, 32, by decide, Or.inl rfl⟩

/-- The frame that `make_speedtest_pkt` builds for the port 1 and 42 bytes. -/
def pkt42 : List Byte :=
  [0x80, 0x80, 0x80, 0x80, 0x80, 0x80, 0x10, 0x10, 0x10, 0x10, 0x10, 0x10, 0x08, 0x00,
    0x45, 0x00, 0x00, 0x1c, 0x11, 0x11, 0x00, 0x00, 0x40, 0x11, 0x3e, 0x6c, 0xc0, 0xa8, 0x55, 0x01, 0xc0, 0xa8,
    0x55, 0x02, 0x22, 0xb8, 0x27, 0x0f, 0x00, 0x08, 0x8a, 0xc2]

/-- The command `1 0 100 42 1` and its statements when no thread was there before. -/
def commandRun : List Event := Event.command [1, 0, 100, 42, 1] :: List.replicate 16 (Event.ctl true)

/-- A sender that sends one packet and finds its time over a tick later. -/
def senderRun (tid : Nat) : List Event :=
  List.replicate 9 (Event.thread tid ⟨some pkt42, true, 0⟩) ++ [Event.tick] ++
    List.replicate 4 (Event.thread tid ⟨none, true, 0⟩)

/-- The first test up to the return of its compute thread, which has waited for five seconds. -/
def firstTest : List Event :=
  commandRun ++ senderRun 0 ++ senderRun 1 ++ List.replicate 5 (Event.thread 2 ⟨none, true, 0⟩) ++
    List.replicate 501 Event.tick ++ List.replicate 11 (Event.thread 2 ⟨none, true, 0⟩)

end QuickStart.Speedtest
