import QuickStart.Maclimit.Linked
import QuickStart.Maclimit.Wake

/-! # Unloading `maclimit.ko`

The statements of `nf_cleanup` between the steps of the thread and of the hooks. It stops the thread first
and unregisters the hooks afterwards, so that a packet in between can find a reason to wake a thread that has
returned. -/

namespace QuickStart.Maclimit
open State

inductive CleanupPc
  /-- `kthread_stop` asks the thread to stop -/
  | setStop
  /-- `kthread_stop` wakes it -/
  | wake
  /-- `kthread_stop` waits until it has returned -/
  | join
  /-- `limit_check_task = NULL` -/
  | setNull
  | removeProcEntry
  | unregister
  /-- the end of `nf_unregister_hooks`: it waits for the hooks in progress -/
  | synchronize
  /-- the loop over the list; the first `i` entries are freed -/
  | walk (i : Nat)
  | gone
  deriving DecidableEq, Repr

/-- The module with what `nf_cleanup` takes down. -/
structure Module extends State where
  limitCheckTask : Bool
  /-- The proc entry is there. -/
  proc : Bool
  /-- The hooks are registered. -/
  registered : Bool
  cleanup : CleanupPc
  deriving DecidableEq, Repr

/-- A hook is called. -/
def Event.arrival : Event → Bool
  | .packet _ | .arp _ | .netEnter _ | .arpEnter _ => true
  | _ => false

/-- The proc file is written. -/
def Event.config : Event → Bool
  | .setLimitNum _ | .setEnable _ => true
  | _ => false

inductive ModuleEvent
  /-- a step of the running module; its hooks run statement by statement -/
  | run (e : Event)
  /-- the next statement of `nf_cleanup` -/
  | cleanup
  deriving DecidableEq, Repr

namespace Module

/-- The module after its load; nobody has called `nf_cleanup`. -/
def loaded (cfg : MaclimitCfg) : Module where
  toState := start cfg
  limitCheckTask := true
  proc := true
  registered := true
  cleanup := .setStop

def nfCleanup (m : Module) : Option Module :=
  match m.cleanup with
  | .setStop => some { m with shouldStop := true, cleanup := .wake }
  | .wake => some { m with task := .running, cleanup := .join }
  | .join => if m.pc = .done then some { m with cleanup := .setNull } else none
  | .setNull => some { m with limitCheckTask := false, cleanup := .removeProcEntry }
  | .removeProcEntry => some { m with proc := false, cleanup := .unregister }
  | .unregister => some { m with registered := false, cleanup := .synchronize }
  | .synchronize => if m.hooks = [] then some { m with cleanup := .walk 0 } else none
  | .walk i =>
    if i < m.maclimitList.length then some { m with live := m.live - 1, cleanup := .walk (i + 1) }
    else some { m with cleanup := .gone }
  | .gone => none

def step (m : Module) : ModuleEvent → Option Module
  | .run e =>
    if e.stepwise ∧ (e.arrival → m.registered) ∧ (e.config → m.proc) then
      (Maclimit.step m.toState e).map fun s => { m with toState := s }
    else none
  | .cleanup => nfCleanup m

end Module

/-- The module from its load to the end of its unloading. -/
def moduleLts (cfg : MaclimitCfg) : Lts Module ModuleEvent where
  init m := m = Module.loaded cfg
  step := Module.step

/-! ### The hooks after the thread -/

/-- The next statement of the invocation finds a reason to wake the thread: an empty slot for its request, or
    the probed MAC in its ARP packet. -/
def Hook.decides (s : State) : Hook → Bool
  | .net _ (.readFlag _) => s.flag == .noAddTask
  | .arp a .compare => a.src == s.newTerminal.arpCmpMac
  | _ => false

/-- No invocation has still to wake the thread when it returns, and none finds a reason to do so later. -/
def Harmless (m : Module) : ModuleEvent → Prop
  | .run (.thread _) => m.pc = .test → m.shouldStop = true → m.wakers = 0
  | .run (.hook i) => m.pc = .done → ∀ h ∈ m.hooks[i]?, h.decides m.toState = false
  | _ => True

instance (m : Module) : ∀ e : ModuleEvent, Decidable (Harmless m e)
  | .run (.thread _) => inferInstanceAs (Decidable (_ → _ → _))
  | .run (.hook i) => inferInstanceAs (Decidable (_ → ∀ h ∈ m.hooks[i]?, _))
  | .run (.packet _) | .run (.arp _) | .run (.netEnter _) | .run (.arpEnter _) | .run (.setLimitNum _)
  | .run (.setEnable _) | .cleanup => inferInstanceAs (Decidable True)

/-- An invocation that has not decided to wake the thread decides so in one of two places. -/
theorem hookStep_decides {s : State} {h : Hook} (hw : h.toWake = false) (hd : h.decides s = false) :
    (hookStep s h).2.any Hook.toWake = false := by
  cases h with
  | net p pc =>
    cases pc with
    | start =>
      simp only [hookStep, netHookStep]
      split <;> rfl
    | scan =>
      simp only [hookStep, netHookStep]
      split
      · rfl
      · cases searchList p.hSource s.maclimitList 0 <;> rfl
    | compare n => rfl
    | readFlag mode =>
      have hf : s.flag ≠ .noAddTask := by simpa [Hook.decides] using hd
      rw [hookStep, netHookStep, if_neg hf]
      rfl
    | setSrcip mode | setDstip mode | setDev mode | setMac mode | publish mode | wake => cases hw
  | arp a pc =>
    cases pc with
    | readFlag =>
      simp only [hookStep, arpinHookStep]
      split <;> rfl
    | compare =>
      have hmac : a.src ≠ s.newTerminal.arpCmpMac := by simpa [Hook.decides] using hd
      rw [hookStep, arpinHookStep, if_neg hmac]
      rfl
    | setOk | wake => cases hw

/-- The thread returns from the test of its loop, once it has been asked to. -/
theorem limitCheckStep_done {s t : State} {ok : Bool} (hs : limitCheckStep s ok = some t) (hd : t.pc = .done) :
    s.pc = .test ∧ s.shouldStop = true := by
  cases limitCheckStep_checks hs with
  | tests hpc =>
    refine ⟨hpc, ?_⟩
    by_contra hstop
    rw [if_neg hstop] at hd
    cases hd
  | enters | probes | decides | schedules =>
    exfalso
    dsimp only [State.goto] at hd
    split at hd <;> cases hd
  | _ => cases hd

/-! ### The invariant -/

/-- `kthread_stop` has returned. -/
def CleanupPc.joined : CleanupPc → Bool
  | .setStop | .wake | .join => false
  | _ => true

/-- What the unloading and the hooks know about the thread. -/
structure Parted (m : Module) : Prop where
  calm : m.pc = .done → m.wakers = 0
  joined : m.cleanup.joined = true → m.pc = .done
  task : m.limitCheckTask = false → m.cleanup.joined = true

namespace Parted
variable {m n : Module}

theorem loaded (cfg : MaclimitCfg) : Parted (Module.loaded cfg) where
  calm h := by cases h
  joined h := by cases h
  task h := by cases h

theorem thread (h : Parted m) {ok : Bool} {t : State} (hok : Harmless m (.run (.thread ok)))
    (hs : limitCheckStep m.toState ok = some t) : Parted { m with toState := t } where
  calm hd := by
    obtain ⟨hpc, hstop⟩ := limitCheckStep_done hs hd
    show t.wakers = 0
    rw [State.wakers, (limitCheckStep_resting hs).1]
    exact hok hpc hstop
  joined hj := by
    rw [limitCheckStep, h.joined hj] at hs
    cases hs
  task := h.task

theorem aside (h : Parted m) {t : State} (hpc : t.pc = m.pc) (hw : m.pc = .done → t.wakers = 0) :
    Parted { m with toState := t } where
  calm hd := hw (hpc.symm.trans hd)
  joined hj := hpc.trans (h.joined hj)
  task := h.task

theorem hook (h : Parted m) {i : Nat} {x : Hook} (hx : m.hooks[i]? = some x) (hok : Harmless m (.run (.hook i))) :
    Parted { m with toState :=
      { (hookStep m.toState x).1 with hooks := Calls.put m.hooks i (hookStep m.toState x).2 } } := by
  refine h.aside (hookStep_kept m.toState x).1 fun hd => ?_
  have hzero : m.hooks.countP Hook.toWake = 0 := h.calm hd
  have hnot : x.toWake = false := by simpa using List.countP_eq_zero.mp hzero x (List.mem_of_getElem? hx)
  have hcount := Calls.countP_put hx Hook.toWake (hookStep m.toState x).2
  rw [hnot, hookStep_decides hnot (hok hd x hx), hzero] at hcount
  exact hcount

theorem nfCleanup (h : Parted m) (hs : m.nfCleanup = some n) : Parted n := by
  cases hc : m.cleanup <;> simp only [Module.nfCleanup, hc] at hs
  case join =>
    split at hs <;> rename_i hd
    · obtain rfl := Option.some.inj hs
      exact ⟨h.calm, fun _ => hd, fun _ => rfl⟩
    · cases hs
  case synchronize =>
    split at hs
    · obtain rfl := Option.some.inj hs
      exact ⟨h.calm, fun _ => h.joined (by rw [hc]; rfl), fun _ => rfl⟩
    · cases hs
  case walk i =>
    split at hs <;> obtain rfl := Option.some.inj hs <;>
      exact ⟨h.calm, fun _ => h.joined (by rw [hc]; rfl), fun _ => rfl⟩
  case gone => cases hs
  case setStop | wake =>
    obtain rfl := Option.some.inj hs
    exact ⟨h.calm, (fun hj => by cases hj), fun ht => absurd (h.task ht) (by rw [hc]; simp [CleanupPc.joined])⟩
  case setNull | removeProcEntry | unregister =>
    obtain rfl := Option.some.inj hs
    exact ⟨h.calm, fun _ => h.joined (by rw [hc]; rfl), fun _ => rfl⟩

theorem step (h : Parted m) {e : ModuleEvent} (hok : Harmless m e) (hs : m.step e = some n) : Parted n := by
  cases e with
  | cleanup => exact h.nfCleanup hs
  | run e =>
    simp only [Module.step] at hs
    split at hs <;> rename_i hallowed
    · obtain ⟨t, ht, rfl⟩ := Option.map_eq_some_iff.mp hs
      cases e with
      | thread ok => exact h.thread hok ht
      | packet _ | arp _ => cases hallowed.1
      | hook i =>
        obtain ⟨x, hx, rfl⟩ := Option.map_eq_some_iff.mp ht
        exact h.hook hx hok
      | netEnter _ | arpEnter _ =>
        obtain rfl := Option.some.inj ht
        refine h.aside rfl fun hd => ?_
        rw [State.wakers, List.countP_append]
        exact h.calm hd
      | setLimitNum _ | setEnable _ =>
        obtain rfl := Option.some.inj ht
        exact h.aside rfl h.calm
    · cases hs

end Parted

/-- A hook that is about to call `wake_up_process` finds `limit_check_task` set and the thread not returned. -/
theorem wake_before_return {m : Module} (h : (moduleLts maclimitCfg).Reach Harmless m) :
    ∀ x ∈ m.hooks, x.atWake = true → m.limitCheckTask = true ∧ m.pc ≠ .done := by
  have hp : Parted m := by
    refine h.invariant ?_ fun m e n hp hok hs => hp.step hok hs
    rintro m rfl
    exact Parted.loaded maclimitCfg
  intro x hx hat
  have hwakes : x.toWake = true := by
    cases x with
    | net p pc => cases pc <;> first | rfl | cases hat
    | arp a pc => cases pc <;> first | rfl | cases hat
  have hrun : m.pc ≠ .done := fun hd =>
    absurd (List.countP_eq_zero.mp (hp.calm hd) x hx) (by simp [hwakes])
  refine ⟨?_, hrun⟩
  by_contra ht
  exact hrun (hp.joined (hp.task (by simpa using ht)))

/-- A packet on its way through `net_hook_func` while `kthread_stop` waits for the thread. -/
def wakeStopping : List ModuleEvent :=
  [ModuleEvent.run (.setEnable 1), .run (.netEnter packetA)] ++ List.replicate 9 (ModuleEvent.run (.hook 0)) ++
    List.replicate 2 ModuleEvent.cleanup

theorem wake_before_return_stopping : ∃ m, (moduleLts maclimitCfg).Reach Harmless m ∧
    m.cleanup = .join ∧ m.hooks = [.net packetA .wake] ∧ m.limitCheckTask = true ∧ m.pc ≠ .done := by
  have hrun : ((moduleLts maclimitCfg).runIf Harmless (Module.loaded maclimitCfg) wakeStopping).any
      (fun m => m.cleanup == .join && m.hooks == [.net packetA .wake]) = true := by decide
  obtain ⟨m, hr, hp⟩ := Lts.exists_reach_of_runIf hrun rfl
  simp only [Bool.and_eq_true, beq_iff_eq] at hp
  exact ⟨m, hr, hp.1, hp.2, wake_before_return hr (.net packetA .wake) (by rw [hp.2]; exact List.mem_singleton_self _) rfl⟩

/-- A packet enters `net_hook_func` when `nf_cleanup` has stopped the thread and cleared its pointer. -/
theorem wake_after_return : ∃ m, (moduleLts maclimitCfg).Reachable m ∧
    m.hooks = [.net packetA .wake] ∧ m.pc = .done ∧ m.limitCheckTask = false := by
  have hrun : ((moduleLts maclimitCfg).runIf (fun _ _ => True) (Module.loaded maclimitCfg)
      ([ModuleEvent.run (.setEnable 1), .cleanup, .cleanup, .run (.thread true), .cleanup, .cleanup,
        .run (.netEnter packetA)] ++ List.replicate 9 (ModuleEvent.run (.hook 0)))).any
      (fun m => m.hooks == [.net packetA .wake] && m.pc == .done && m.limitCheckTask == false) = true := by decide
  obtain ⟨m, hr, hp⟩ := Lts.exists_reach_of_runIf hrun rfl
  simp only [Bool.and_eq_true, beq_iff_eq] at hp
  exact ⟨m, hr, hp.1.1, hp.1.2, hp.2⟩

end QuickStart.Maclimit
