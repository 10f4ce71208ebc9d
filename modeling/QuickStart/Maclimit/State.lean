import Mathlib.Data.BitVec
import Mathlib.Tactic.Simps.Basic
import QuickStart.Lts

/-! # The state of `maclimit.ko`

The module's static data, the position of the kernel thread `limit_check_func`, and the hook invocations
that have not returned yet. -/

namespace QuickStart.Maclimit

/-- Six bytes, compared as a whole by `memcmp(.., ETH_ALEN)`. -/
abbrev Mac := BitVec 48

abbrev Ip := BitVec 32

structure NetDevice where
  name : String
  devAddr : Mac
  deriving DecidableEq, Repr

/-- `maclimit_node_t`, without its links: the list holds the nodes in order. -/
structure MaclimitNode where
  dev : Option NetDevice
  mac : Mac
  srcip : Ip
  dstip : Ip
  deriving DecidableEq, Repr

structure MaclimitCfg where
  enable : Int
  limitNum : Int
  deriving DecidableEq, Repr

/-- The initialiser of `maclimit_cfg`. -/
def maclimitCfg : MaclimitCfg := { enable := 0, limitNum := 1 }

inductive AddMode
  | noAddTask
  | addImmediate
  | addCheck
  | arpReplayCheck
  | arpReplayOk
  deriving DecidableEq, Repr

/-- `new_terminal_t`: the one request slot between the hooks and the thread. -/
structure NewTerminal where
  node : MaclimitNode
  arpCmpMac : Mac
  flag : AddMode
  deriving DecidableEq, Repr

/-- `task->state` of `limit_check_task`. -/
inductive TaskState
  | running
  | uninterruptible
  deriving DecidableEq, Repr

inductive Verdict
  | accept
  | drop
  deriving DecidableEq, Repr

/-- What `net_hook_func` reads of an `sk_buff` and of `state->in`. -/
structure Packet where
  protocol : BitVec 8
  hSource : Mac
  hDest : Mac
  saddr : Ip
  daddr : Ip
  dev : NetDevice
  deriving DecidableEq, Repr

structure ArpInfo where
  src : Mac
  srcip : Ip
  dst : Mac
  dstip : Ip
  deriving DecidableEq, Repr

/-- The arguments of an `arp_send(ARPOP_REQUEST, ETH_P_ARP, ..)` that depend on the entry. -/
structure ArpRequest where
  destIp : Ip
  dev : Option NetDevice
  srcIp : Ip
  srcHw : Option Mac
  targetHw : Mac
  deriving DecidableEq, Repr

/-- The next statement of `limit_check_func`; `i` is the position of `pos` in the list and `k` the loop
    counter of the probes. -/
inductive Pc
  /-- `while(!kthread_should_stop())` -/
  | test
  /-- `switch(atomic_read(&new_terminal.flag))` -/
  | read
  /-- `node = create_new_node(new_terminal.node)` of `ADD_IMMEDIATE` -/
  | alloc
  | lockAdd (node : MaclimitNode)
  | add (node : MaclimitNode)
  | unlockAdd
  /-- the head of `list_for_each_entry_safe` -/
  | entry (i : Nat)
  | flagProbe (i : Nat)
  | copyMac (i : Nat)
  /-- the test of the probe loop -/
  | probe (i k : Nat)
  | arpSend (i k : Nat)
  | doze (i k : Nat)
  | timeout (i k : Nat)
  /-- `if(atomic_read(&new_terminal.flag) == ARP_REPLAY_CHECK)` after the probes -/
  | decide (i : Nat)
  | allocReplace (i : Nat)
  | lockReplace (i : Nat) (node : MaclimitNode)
  /-- the `create_new_node` under the write lock, whose result is not used -/
  | allocAgain (i : Nat) (node : MaclimitNode)
  | replace (i : Nat) (node : MaclimitNode)
  | free
  | unlockReplace
  /-- `atomic_set(&new_terminal.flag, NO_ADD_TASK)` -/
  | clear
  | setState
  | schedule
  /-- inside `schedule()`, waiting to be woken -/
  | asleep
  | done
  deriving DecidableEq, Repr

/-- The next statement of an invocation of `net_hook_func`; `mode` is the request it makes. -/
inductive NetPc
  | start
  | scan
  | compare (connectNum : Nat)
  /-- `if(atomic_read(&terminal->flag) == NO_ADD_TASK)` -/
  | readFlag (mode : AddMode)
  | setSrcip (mode : AddMode)
  | setDstip (mode : AddMode)
  | setDev (mode : AddMode)
  | setMac (mode : AddMode)
  | publish (mode : AddMode)
  | wake
  deriving DecidableEq, Repr

/-- The next statement of an invocation of `arpin_hook_func`. -/
inductive ArpPc
  | readFlag
  | compare
  | setOk
  | wake
  deriving DecidableEq, Repr

/-- A hook invocation that has not returned. -/
inductive Hook
  | net (p : Packet) (pc : NetPc)
  | arp (a : ArpInfo) (pc : ArpPc)
  deriving DecidableEq, Repr

structure State where
  cfg : MaclimitCfg
  maclimitList : List MaclimitNode
  newTerminal : NewTerminal
  /-- `maclimit_rwlock` is held for writing. -/
  wlocked : Bool
  /-- The nodes that `create_new_node` has allocated and nobody has freed. -/
  live : Nat
  task : TaskState
  shouldStop : Bool
  pc : Pc
  hooks : List Hook
  arpSent : List ArpRequest
  deriving DecidableEq, Repr

namespace State

/-- The loaded module with the configuration `cfg`; the thread has been woken for the first time. -/
def start (cfg : MaclimitCfg) : State where
  cfg := cfg
  maclimitList := []
  newTerminal := { node := { dev := none, mac := 0, srcip := 0, dstip := 0 }, arpCmpMac := 0, flag := .noAddTask }
  wlocked := false
  live := 0
  task := .running
  shouldStop := false
  pc := .test
  hooks := []
  arpSent := []

@[simp] abbrev flag (s : State) : AddMode := s.newTerminal.flag

/-- The MACs of the entries, in list order. -/
def macs (s : State) : List Mac := s.maclimitList.map (·.mac)

@[simps] def setFlag (s : State) (f : AddMode) : State := { s with newTerminal := { s.newTerminal with flag := f } }

@[simps] def setNode (s : State) (node : MaclimitNode) : State :=
  { s with newTerminal := { s.newTerminal with node := node } }

@[simps] def goto (s : State) (pc : Pc) : State := { s with pc := pc }

/-- `wake_up_process(limit_check_task)`: no effect on a running thread. -/
@[simps] def wakeUpProcess (s : State) : State := { s with task := .running }

end State

end QuickStart.Maclimit
