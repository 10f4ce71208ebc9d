import Mathlib.Tactic.Simps.Basic
import QuickStart.Checksum
import QuickStart.Lts

/-! # The state of the speed test module

The static data of `speedtest.c`, the threads it has created, the process that runs its commands, and the calls
of the receive hook that have not returned. -/

namespace QuickStart.Speedtest

/-- `HZ`, and the width of `unsigned long` and of pointers in bits. -/
structure Kernel where
  hz : Nat
  bitsPerLong : Nat
  hz_pos : 0 < hz
  bits : bitsPerLong = 32 ∨ bitsPerLong = 64

def Kernel.add (K : Kernel) (a b : Nat) : Nat := (a + b) % 2 ^ K.bitsPerLong

def Kernel.timeAfterEq (K : Kernel) (a b : Nat) : Bool :=
  (a + 2 ^ K.bitsPerLong - b) % 2 ^ K.bitsPerLong < 2 ^ (K.bitsPerLong - 1)

abbrev Dir := Fin 2

-- The directions are numerals in every module.
instance dirNeZero : NeZero 2 := ⟨two_ne_zero⟩

abbrev Mac := List Byte

def st0Mac : Mac := List.replicate 6 0x10
def st1Mac : Mac := List.replicate 6 0x40

/-- `SPEEDTEST_SKBQUEUE_SIZE`, in bytes. -/
def speedtestSkbqueueSize : Nat := 2 * 1024 * 1024

/-- A received or sent packet; `id` tells it from the others. -/
structure Skb where
  id : Nat
  data : List Byte
  deriving DecidableEq, Repr

def Skb.hSource (skb : Skb) : Mac := (skb.data.drop 6).take 6

/-- The direction of a test packet or a probe packet. -/
def Skb.dir (skb : Skb) : Option Dir :=
  if skb.hSource = st0Mac then some 0 else if skb.hSource = st1Mac then some 1 else none

/-- A `struct task_struct *`; threads are numbered in the order of their creation. -/
inductive Ptr
  | null
  | err
  | task (tid : Nat)
  deriving DecidableEq, Repr

inductive RunningState
  | stIdle
  | stRunning
  | stFinished
  deriving DecidableEq, Repr

/-- `struct speedtest_status`. -/
structure Status where
  state : RunningState
  beginTime : BitVec 32
  endTime : BitVec 32
  pktrcvCount : Nat
  pktsendCount : Nat
  pkterrCount : Nat
  pktloseCount : Nat
  pktCsum : BitVec 16
  deriving DecidableEq, Repr

/-- `memset(&status, 0, sizeof(status))`. -/
def Status.zero : Status where
  state := .stIdle
  beginTime := 0
  endTime := 0
  pktrcvCount := 0
  pktsendCount := 0
  pkterrCount := 0
  pktloseCount := 0
  pktCsum := 0

/-- `struct speedtest_cfg`. -/
structure Cfg where
  enable : BitVec 32
  durTime : BitVec 32
  speed : BitVec 32
  pktSize : BitVec 32
  port : BitVec 8
  status : Status
  task : Ptr
  deriving DecidableEq, Repr

inductive RxHook
  | null
  | rcvSpeedtestProbePkt
  | fastRcvSpeedtestPkt
  deriving DecidableEq, Repr

/-- The static data of the module, the two hook pointers, and the clock. -/
structure Mod where
  stCfg : Dir → Cfg
  computeTask : Ptr
  compSkbqueue : List Skb
  /-- The pointers that `comp_skbqueue` has room for. -/
  fifoSize : Nat
  rxHook : RxHook
  /-- `hs_speedtest_tx_hook` is `xmit_speedtest_pkt`, not `NULL`. -/
  txHook : Bool
  stReady : Nat
  stLoopTimerEnable : BitVec 32
  /-- When `loop_detect_timer` expires, if it is pending. -/
  loopDetectTimer : Option Nat
  readyEndtime : Nat
  jiffies : Nat
  /-- The packets that have been freed. -/
  freed : List Skb
  nextSkb : Nat

/-- The locals of the send loop of `speedtest_thread_func`; `paced` is the branch taken at `speed < 100`. -/
structure SendLoop where
  endTime : Nat
  sendTime : Nat
  speedTime : Nat
  paced : Bool
  deriving DecidableEq, Repr

/-- The next statement of `speedtest_thread_func`. -/
inductive SenderPc
  | entry
  | make
  | setState (stSkb : List Byte)
  | setCsum (stSkb : List Byte)
  | setBegin
  | setEnd
  | setSend (endTime : Nat)
  | pace (l : SendLoop)
  | send (l : SendLoop)
  | count (l : SendLoop)
  | test (l : SendLoop)
  | clearTask
  | clearEnable
  | setEndTime
  | done
  -- the division by zero
  | killed
  deriving DecidableEq, Repr

/-- The next statement of `speedtest_compute_func`. -/
inductive ComputePc
  | entry
  | drain (endTime : Nat)
  -- `if(cfgs[i].task)`
  | look (d : Dir) (endTime : Nat)
  -- `if(!is_st_running && !end_time)`
  | arm (endTime : Nat)
  | test (isStRunning : Bool) (endTime : Nat)
  | flush
  | clearPtr
  | setHook
  | timerTest
  | clearReady
  | timerInit
  | lose (d : Dir)
  | finish (d : Dir)
  | done
  deriving DecidableEq, Repr

inductive Body
  | sender (d : Dir) (pc : SenderPc)
  | compute (pc : ComputePc)
  deriving DecidableEq, Repr

/-- A kernel thread; `stop` is `kthread_should_stop()`. -/
structure Thread where
  body : Body
  woken : Bool
  stop : Bool
  deriving DecidableEq, Repr

/-- The position in `while(task) kthread_stop(task)`. -/
inductive StopPc
  | test
  | call
  | wait (tid : Nat)
  deriving DecidableEq, Repr

/-- A call of `run_speedtest_by_cmd`: the numbers that `sscanf` reads, the number of threads created before, and
    `task_run_flag`. -/
structure Command where
  nums : List (BitVec 32)
  base : Nat
  taskRunFlag : Bool
  deriving DecidableEq, Repr

/-- The next statement of `run_speedtest_by_cmd`. -/
inductive CmdPc
  | parse (d : Dir)
  | stop (d : Dir) (p : StopPc)
  -- `if(st_cfg[i].enable)` and the `memset` under it
  | clear (d : Dir)
  | create (d : Dir)
  | hook
  | ready
  | stopComp (p : StopPc)
  | createComp
  | wakeComp
  -- `stop_allspeedtest_task` after a failed creation of the compute thread
  | abort (d : Dir) (p : StopPc)
  | start (d : Dir)
  | out (ret : Int)
  deriving DecidableEq, Repr

/-- The next statement of `speedtest_exit_module`. -/
inductive UnloadPc
  | delTimer
  | stop (d : Dir) (p : StopPc)
  | stopComp (p : StopPc)
  | removeProc
  | rxNull
  | txNull
  | fifoFree
  deriving DecidableEq, Repr

/-- Where a `task_struct` pointer is dereferenced that points to none. -/
inductive Fault
  | kthreadStop
  | startTask
  deriving DecidableEq, Repr

/-- The process that writes the commands and unloads the module. -/
inductive Ctl
  | idle
  | cmd (c : Command) (pc : CmdPc)
  | unload (pc : UnloadPc)
  | gone
  | oops (f : Fault)
  deriving DecidableEq, Repr

structure State where
  mod : Mod
  threads : List Thread
  ctl : Ctl
  /-- The calls of the receive hook that have loaded the pointer. -/
  rxCalls : List (RxHook × Skb)

/-! ### Access -/

namespace Mod

@[simps] def setCfg (m : Mod) (d : Dir) (c : Cfg) : Mod := { m with stCfg := Function.update m.stCfg d c }

def setTask (m : Mod) (d : Dir) (p : Ptr) : Mod := m.setCfg d { m.stCfg d with task := p }

def setStatus (m : Mod) (d : Dir) (st : Status) : Mod := m.setCfg d { m.stCfg d with status := st }

end Mod

/-- The thread has returned, or an exception has ended it. -/
def Body.ended : Body → Bool
  | .sender _ .done | .sender _ .killed | .compute .done => true
  | _ => false

/-- The function of the thread has begun. -/
def Body.begun : Body → Bool
  | .sender _ .entry | .compute .entry => false
  | _ => true

end QuickStart.Speedtest
