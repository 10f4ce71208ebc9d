import QuickStart.Calls
import QuickStart.Maclimit.State

/-! # What `maclimit.ko` does

`netHookFunc` and `arpinHookFunc` are the hooks run to completion, `netHookStep` and `arpinHookStep` the
same statements one by one; `limitCheckStep` is one statement of `limit_check_func`. -/

namespace QuickStart.Maclimit
open State

def ipprotoUdp : BitVec 8 := 17

def checkArpPacketNum : Nat := 5

def boardcastAddress : Mac := 0xffffffffffff

/-! ### The packet hook -/

/-- The loop over the list: `none` when an entry has the MAC, otherwise the number of entries counted. -/
def searchList (srcmac : Mac) : List MaclimitNode → Nat → Option Nat
  | [], connectNum => some connectNum
  | pos :: rest, connectNum => if pos.mac = srcmac then none else searchList srcmac rest (connectNum + 1)

def sendAddOptToThread (s : State) (srcip dstip : Ip) (srcmac : Mac) (dev : NetDevice) (flag : AddMode) : State :=
  if s.flag = .noAddTask then
    ((s.setNode { dev := some dev, mac := srcmac, srcip := srcip, dstip := dstip }).setFlag flag).wakeUpProcess
  else s

/-- The packets that the limit applies to: not UDP, and received on `br0`. -/
def limited (p : Packet) : Bool := p.protocol != ipprotoUdp && p.dev.name == "br0"

/-- `net_hook_func`, from its call to its return. -/
def netHookFunc (s : State) : Option Packet → State × Verdict
  | none => (s, .accept)
  | some p =>
    if s.cfg.enable ≠ 0 then
      if limited p then
        if s.wlocked then (s, .accept)
        else match searchList p.hSource s.maclimitList 0 with
          | none => (s, .accept)
          | some connectNum =>
            if (connectNum : Int) < s.cfg.limitNum then
              (sendAddOptToThread s p.saddr p.daddr p.hSource p.dev .addImmediate, .accept)
            else (sendAddOptToThread s p.saddr p.daddr p.hSource p.dev .addCheck, .drop)
      else (s, .accept)
    else (s, .accept)

/-- One statement of an invocation of `net_hook_func` for the packet `p`; no position when it returns. -/
def netHookStep (s : State) (p : Packet) : NetPc → State × Option NetPc
  | .start => (s, if s.cfg.enable ≠ 0 ∧ limited p then some .scan else none)
  | .scan => (s, if s.wlocked then none else (searchList p.hSource s.maclimitList 0).map .compare)
  | .compare connectNum =>
    (s, some (.readFlag (if (connectNum : Int) < s.cfg.limitNum then .addImmediate else .addCheck)))
  | .readFlag mode => (s, if s.flag = .noAddTask then some (.setSrcip mode) else none)
  | .setSrcip mode => (s.setNode { s.newTerminal.node with srcip := p.saddr }, some (.setDstip mode))
  | .setDstip mode => (s.setNode { s.newTerminal.node with dstip := p.daddr }, some (.setDev mode))
  | .setDev mode => (s.setNode { s.newTerminal.node with dev := some p.dev }, some (.setMac mode))
  | .setMac mode => (s.setNode { s.newTerminal.node with mac := p.hSource }, some (.publish mode))
  | .publish mode => (s.setFlag mode, some .wake)
  | .wake => (s.wakeUpProcess, none)

/-! ### The ARP hook -/

/-- `arpin_hook_func`, from its call to its return; `none` is a missing packet or ARP header. -/
def arpinHookFunc (s : State) : Option ArpInfo → State × Verdict
  | none => (s, .accept)
  | some a =>
    if s.flag = .arpReplayCheck ∧ a.src = s.newTerminal.arpCmpMac then
      ((s.setFlag .arpReplayOk).wakeUpProcess, .accept)
    else (s, .accept)

/-- One statement of an invocation of `arpin_hook_func`; no position when it returns. -/
def arpinHookStep (s : State) (a : ArpInfo) : ArpPc → State × Option ArpPc
  | .readFlag => (s, if s.flag = .arpReplayCheck then some .compare else none)
  | .compare => (s, if a.src = s.newTerminal.arpCmpMac then some .setOk else none)
  | .setOk => (s.setFlag .arpReplayOk, some .wake)
  | .wake => (s.wakeUpProcess, none)

def hookStep (s : State) : Hook → State × Option Hook
  | .net p pc => ((netHookStep s p pc).1, (netHookStep s p pc).2.map (.net p))
  | .arp a pc => ((arpinHookStep s a pc).1, (arpinHookStep s a pc).2.map (.arp a))

/-! ### The thread -/

/-- `create_new_node`; `ok` says whether `kmalloc` succeeds. -/
def createNewNode (new : MaclimitNode) (ok : Bool) : Option MaclimitNode :=
  if ok then some { dev := new.dev, mac := new.mac, srcip := new.srcip, dstip := new.dstip } else none

/-- The request sent to find out whether the terminal of the entry `pos` is still there. -/
def arpProbe (pos : MaclimitNode) : ArpRequest where
  destIp := pos.srcip
  dev := pos.dev
  srcIp := pos.dstip
  srcHw := pos.dev.map (·.devAddr)
  targetHw := boardcastAddress

/-- One statement of `limit_check_func`; `ok` is the outcome of a `kmalloc` in it. The thread cannot step
    while it is asleep or after it has returned. -/
def limitCheckStep (s : State) (ok : Bool) : Option State :=
  match s.pc with
  | .test => some (s.goto (if s.shouldStop then .done else .read))
  | .read =>
    match s.flag with
    | .addImmediate => some (s.goto .alloc)
    | .addCheck => some (s.goto (.entry 0))
    | .noAddTask | .arpReplayCheck | .arpReplayOk => some (s.goto .clear)
  | .alloc =>
    match createNewNode s.newTerminal.node ok with
    | none => some (s.goto .clear)
    | some node => some ({ s with live := s.live + 1 }.goto (.lockAdd node))
  | .lockAdd node => some ({ s with wlocked := true }.goto (.add node))
  | .add node => some ({ s with maclimitList := node :: s.maclimitList }.goto .unlockAdd)
  | .unlockAdd => some ({ s with wlocked := false }.goto .clear)
  | .entry i => some (s.goto (if i < s.maclimitList.length then .flagProbe i else .clear))
  | .flagProbe i => some ((s.setFlag .arpReplayCheck).goto (.copyMac i))
  | .copyMac i =>
    s.maclimitList[i]?.map fun pos =>
      { s with newTerminal := { s.newTerminal with arpCmpMac := pos.mac } }.goto (.probe i 0)
  | .probe i k =>
    some (s.goto (if k < checkArpPacketNum ∧ s.flag = .arpReplayCheck then .arpSend i k else .decide i))
  | .arpSend i k =>
    s.maclimitList[i]?.map fun pos => { s with arpSent := s.arpSent ++ [arpProbe pos] }.goto (.doze i k)
  | .doze i k => some ({ s with task := .uninterruptible }.goto (.timeout i k))
  -- `schedule_timeout` returns when the timer or a hook has made the thread runnable.
  | .timeout i k => some ({ s with task := .running }.goto (.probe i (k + 1)))
  | .decide i => some (s.goto (if s.flag = .arpReplayCheck then .allocReplace i else .entry (i + 1)))
  | .allocReplace i =>
    match createNewNode s.newTerminal.node ok with
    | none => some (s.goto .clear)
    | some node => some ({ s with live := s.live + 1 }.goto (.lockReplace i node))
  | .lockReplace i node => some ({ s with wlocked := true }.goto (.allocAgain i node))
  | .allocAgain i node =>
    match createNewNode s.newTerminal.node ok with
    | none => some (s.goto (.replace i node))
    | some _ => some ({ s with live := s.live + 1 }.goto (.replace i node))
  | .replace i node => some ({ s with maclimitList := s.maclimitList.set i node }.goto .free)
  | .free => some ({ s with live := s.live - 1 }.goto .unlockReplace)
  | .unlockReplace => some ({ s with wlocked := false }.goto .clear)
  | .clear => some ((s.setFlag .noAddTask).goto .setState)
  | .setState => some ({ s with task := .uninterruptible }.goto .schedule)
  | .schedule => some (s.goto (if s.task = .running then .test else .asleep))
  | .asleep => if s.task = .running then some (s.goto .test) else none
  | .done => none

/-! ### The system -/

inductive Event
  /-- a statement of `limit_check_func` -/
  | thread (ok : Bool)
  /-- `net_hook_func` from its call to its return -/
  | packet (skb : Option Packet)
  /-- `arpin_hook_func` from its call to its return -/
  | arp (a : Option ArpInfo)
  /-- a call of `net_hook_func` that other steps may interrupt -/
  | netEnter (p : Packet)
  /-- a call of `arpin_hook_func` that other steps may interrupt -/
  | arpEnter (a : ArpInfo)
  /-- a statement of the `i`-th hook invocation that has not returned -/
  | hook (i : Nat)
  /-- a write to the proc file stores `limit_num` -/
  | setLimitNum (n : Int)
  /-- a write to the proc file stores `enable` -/
  | setEnable (n : Int)
  deriving DecidableEq, Repr

def step (s : State) : Event → Option State
  | .thread ok => limitCheckStep s ok
  | .packet skb => some (netHookFunc s skb).1
  | .arp a => some (arpinHookFunc s a).1
  | .netEnter p => some { s with hooks := s.hooks ++ [.net p .start] }
  | .arpEnter a => some { s with hooks := s.hooks ++ [.arp a .readFlag] }
  | .hook i => s.hooks[i]?.map fun h => { (hookStep s h).1 with hooks := Calls.put s.hooks i (hookStep s h).2 }
  | .setLimitNum n => some { s with cfg := { s.cfg with limitNum := n } }
  | .setEnable n => some { s with cfg := { s.cfg with enable := n } }

/-- The module from its load with the configuration `cfg` on. -/
def lts (cfg : MaclimitCfg) : Lts State Event where
  init s := s = start cfg
  step := step

end QuickStart.Maclimit
