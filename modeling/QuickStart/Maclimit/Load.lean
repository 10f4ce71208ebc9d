import QuickStart.Kmod
import QuickStart.Maclimit.Cleanup

/-! # Loading `maclimit.ko`

`nf_init` with every way in which its calls can fail. When only the thread cannot be created, it takes back what it
has registered and returns 0, so that the module stays without doing anything. The hooks are registered before the
thread and the lock are there, and the proc entry before the hooks. -/

namespace QuickStart.Maclimit

namespace Load

inductive Resource
  | procEntry
  | nfHooks
  | limitCheckTask
  /-- `maclimit_rwlock`, which nobody has to give back -/
  | maclimitRwlock
  deriving DecidableEq, Repr

/-- What the calls of `nf_init` return: whether there is a proc entry and a thread, and the status of
    `nf_register_hooks`. -/
structure Outcomes where
  procCreate : Bool
  nfRegisterHooks : Int
  kthreadCreate : Bool
  deriving DecidableEq, Repr

def cleanupProc : List (Move Resource) := [.give .procEntry]

def cleanupNfHook : List (Move Resource) := .give .nfHooks :: cleanupProc

/-- `nf_init`: what it takes and gives back and, when it does not return a negative status, whether there is a
    thread. -/
def nfInit (o : Outcomes) : List (Move Resource) × Option Bool :=
  if o.procCreate then
    if o.nfRegisterHooks < 0 then (.take .procEntry :: cleanupNfHook, none)
    else if o.kthreadCreate then
      ([.take .procEntry, .take .nfHooks, .take .limitCheckTask, .prepare .maclimitRwlock], some true)
    -- `status` is still that of `nf_register_hooks`.
    else ([.take .procEntry, .take .nfHooks] ++ cleanupNfHook, some false)
  else (cleanupProc, none)

/-- `nf_cleanup` up to the walk over the list; `IS_ERR(limit_check_task)` when there is no thread. -/
def nfCleanup (thread : Bool) : List (Move Resource) :=
  (if thread then [.give .limitCheckTask] else []) ++ [.give .procEntry, .give .nfHooks]

def kmod : Kmod Resource Outcomes Bool where
  init := nfInit
  exit := nfCleanup
  node := .procEntry

/-- What a module with a thread holds. -/
def holdings : List Resource := [.procEntry, .nfHooks, .limitCheckTask]

def full (thread : Bool) : Multiset Resource := if thread then holdings else 0

def initStray (o : Outcomes) : Multiset Resource :=
  if o.procCreate then if o.nfRegisterHooks < 0 then {.nfHooks} else 0 else {.procEntry}

def exitStray (thread : Bool) : Multiset Resource := if thread then 0 else {.procEntry, .nfHooks}

theorem init_refused (o : Outcomes) (n : Multiset Resource) (h : (nfInit o).2 = none) :
    Ledger.moves ⟨0, n⟩ (nfInit o).1 = ⟨0, initStray o + n⟩ := by
  unfold nfInit initStray at *
  by_cases hproc : o.procCreate = true
  · by_cases hstatus : o.nfRegisterHooks < 0
    · -- The hooks go astray, the proc entry does not.
      simp [hproc, hstatus, cleanupNfHook, cleanupProc, Ledger.moves, Ledger.move]
    · by_cases hthread : o.kthreadCreate = true <;> simp [hproc, hstatus, hthread] at h
  · rw [if_neg hproc, if_neg hproc]
    exact Ledger.moves_give_stray ⟨0, n⟩ [.procEntry] (by simp)

theorem init_kept (o : Outcomes) (n : Multiset Resource) (x : Bool) (h : (nfInit o).2 = some x) :
    Ledger.moves ⟨0, n⟩ (nfInit o).1 = ⟨full x, initStray o + n⟩ := by
  unfold nfInit initStray at *
  by_cases hproc : o.procCreate = true
  · by_cases hstatus : o.nfRegisterHooks < 0
    · simp [hproc, hstatus] at h
    · by_cases hthread : o.kthreadCreate = true
      · simp only [hproc, hstatus, hthread, if_true, if_false, Option.some.injEq] at h ⊢
        subst h
        rw [show [Move.take Resource.procEntry, .take .nfHooks, .take .limitCheckTask, .prepare .maclimitRwlock] =
          holdings.map .take ++ [.prepare .maclimitRwlock] from rfl, Ledger.moves_append, Ledger.moves_take, zero_add]
        exact congrArg (Ledger.mk · n) (add_zero _)
      · simp only [hproc, hstatus, hthread, if_true, if_false, Bool.false_eq_true, Option.some.injEq] at h ⊢
        subst h
        rw [zero_add]
        exact Ledger.moves_take_give (⟨0, n⟩ : Ledger Resource)
          (by decide : [Resource.procEntry, .nfHooks].Perm [.nfHooks, .procEntry])
  · simp [hproc] at h

theorem cleanup_removed (x : Bool) (n : Multiset Resource) :
    Ledger.moves ⟨full x, n⟩ (nfCleanup x) = ⟨0, exitStray x + n⟩ := by
  cases x with
  | true =>
    have hperm : holdings.Perm [.limitCheckTask, .procEntry, .nfHooks] := by decide
    have hheld : full true = ↑[Resource.limitCheckTask, .procEntry, .nfHooks] + 0 :=
      (Multiset.coe_eq_coe.mpr hperm).trans (add_zero _).symm
    rw [exitStray, if_pos rfl, zero_add]
    exact Ledger.moves_give ⟨full true, n⟩ hheld
  | false => exact Ledger.moves_give_stray ⟨0, n⟩ [.procEntry, .nfHooks] (by simp)

def account : kmod.Account where
  full := full
  initStray := initStray
  exitStray := exitStray
  refused := init_refused
  kept := init_kept
  removed := cleanup_removed

/-- How often so far a load failed for want of a proc entry or of the hooks, and a module without a thread was
    unloaded. -/
structure Failures where
  proc : Nat
  hooks : Nat
  threadless : Nat
  deriving DecidableEq, Repr

def Failures.none : Failures where
  proc := 0
  hooks := 0
  threadless := 0

def failures (s : Kmod.State Resource Bool) : Kmod.Event Outcomes → Failures → Failures
  | .load o, f =>
    if o.procCreate then if o.nfRegisterHooks < 0 then { f with hooks := f.hooks + 1 } else f
    else { f with proc := f.proc + 1 }
  | .unload, f => if s.phase = .loaded false then { f with threadless := f.threadless + 1 } else f
  | _, f => f

/-- What has been given back without being held after such failures. -/
def Failures.stray (f : Failures) : Multiset Resource :=
  .replicate (f.proc + f.threadless) .procEntry + .replicate (f.hooks + f.threadless) .nfHooks

namespace Failures
variable (f : Failures)

theorem stray_proc : ({ f with proc := f.proc + 1 } : Failures).stray = {.procEntry} + f.stray := by
  rw [stray, Nat.add_right_comm, Multiset.replicate_succ, ← Multiset.singleton_add, add_assoc]
  rfl

theorem stray_hooks : ({ f with hooks := f.hooks + 1 } : Failures).stray = {.nfHooks} + f.stray := by
  rw [stray, Nat.add_right_comm, Multiset.replicate_succ, ← Multiset.singleton_add, add_left_comm]
  rfl

theorem stray_threadless : ({ f with threadless := f.threadless + 1 } : Failures).stray =
    {.procEntry, .nfHooks} + f.stray := by
  rw [stray, ← Nat.add_assoc, ← Nat.add_assoc, Multiset.replicate_succ, Multiset.replicate_succ,
    ← Multiset.singleton_add, ← Multiset.singleton_add, add_add_add_comm]
  rfl

end Failures

abbrev loadLts : Lts (Kmod.State Resource Bool × Failures) (Kmod.Event Outcomes) := kmod.lts.track failures .none

theorem strays_eq (s : Kmod.State Resource Bool) (e : Kmod.Event Outcomes) (f : Failures) :
    account.strays s e f.stray = (failures s e f).stray := by
  cases e with
  | load o =>
    simp only [Kmod.Account.strays, account, initStray, failures]
    split
    · split
      · exact f.stray_hooks.symm
      · exact zero_add _
    · exact f.stray_proc.symm
  | unload =>
    rcases hp : s.phase with _ | x | (_ | _) | _ <;> simp only [Kmod.Account.strays, account, failures, hp]
    · rfl
    · rfl
    · exact f.stray_threadless.symm
    · exact zero_add _
    · rfl
  | move | enter | leave => rfl

/-- However the calls of `nf_init` fail, over any number of loads and unloads: a module that is not loaded holds
    nothing, one with a thread holds everything, and one whose thread could not be created stays and holds nothing.
    What is given back without being held is what could not be had, and both the proc entry and the hooks at the
    unloading of a module without a thread. -/
theorem limit_loads_balanced {s : Kmod.State Resource Bool} {f : Failures} (h : loadLts.Reachable (s, f)) :
    (s.phase = .unloaded → s.ledger = ⟨0, f.stray⟩) ∧ (s.phase = .loaded true → s.ledger = ⟨holdings, f.stray⟩) ∧
      (s.phase = .loaded false → s.ledger = ⟨0, f.stray⟩) := by
  have hsettles : account.Settles s f.stray := by
    refine h.track_invariant (I := fun s f => account.Settles s f.stray) ?_ fun s f e t hf _ hs => ?_
    · rintro _ rfl
      exact .start
    · exact strays_eq s e f ▸ hf.step hs
  exact ⟨fun hp => (hsettles.unloaded hp).2, fun hp => (hsettles.loaded true hp).2,
    fun hp => (hsettles.loaded false hp).2⟩

/-- A load without hooks, one without a thread that is unloaded again, and one in which nothing fails. -/
def threeLoads : List (Kmod.Event Outcomes) :=
  Kmod.Event.load ⟨true, -16, true⟩ :: List.replicate 4 .move ++
    Kmod.Event.load ⟨true, 0, false⟩ :: List.replicate 5 .move ++ .unload :: List.replicate 3 .move ++
    Kmod.Event.load ⟨true, 0, true⟩ :: List.replicate 5 .move

theorem limit_loads_balanced_thrice : ∃ s, loadLts.Reachable (s, ⟨0, 1, 1⟩) ∧
    s.ledger = ⟨holdings, {.procEntry} + {.nfHooks, .nfHooks}⟩ := by
  have hrun : (loadLts.runIf (fun _ _ => True) (Kmod.start, .none) threeLoads).any
      (fun x => x.1.phase == .loaded true && x.2 == ⟨0, 1, 1⟩) = true := by decide
  obtain ⟨⟨s, f⟩, hr, hp⟩ := Lts.exists_reach_of_runIf hrun ⟨rfl, rfl⟩
  simp only [Bool.and_eq_true, beq_iff_eq] at hp
  obtain ⟨hphase, rfl⟩ := hp
  exact ⟨s, hr, (limit_loads_balanced hr).2.1 hphase⟩

end Load

/-! ### Traffic during the load -/

/-- `limit_check_task`. -/
inductive TaskPtr
  | null
  | err
  | task
  deriving DecidableEq, Repr

/-- The next statement of `nf_init`. -/
inductive LoadPc
  | procCreate
  /-- in `nf_register_hooks`, which registers the hooks one after the other -/
  | registerHooks
  | createThread
  | rwlockInit
  | wakeUpProcess
  | unregisterHooks
  /-- the end of `nf_unregister_hooks`: it waits for the hooks in progress -/
  | synchronize
  | removeProcEntry
  | done
  deriving DecidableEq, Repr

/-- The module with what `nf_init` sets up. -/
structure Loading extends State where
  limitCheckTask : TaskPtr
  /-- The thread has been woken. -/
  started : Bool
  /-- `maclimit_rwlock` is initialised. -/
  lockReady : Bool
  /-- The proc entry is there. -/
  proc : Bool
  /-- The number of the hooks that are registered. -/
  registered : Nat
  load : LoadPc
  deriving DecidableEq, Repr

inductive LoadEvent
  /-- a step of the module; its hooks run statement by statement -/
  | run (e : Event)
  /-- the next statement of `nf_init`; `ok` says whether a call in it succeeds -/
  | load (ok : Bool)
  deriving DecidableEq, Repr

/-- The event is the `wake_up_process` of a hook. -/
def Loading.wakes (m : Loading) : Event → Bool
  | .hook i => m.hooks[i]?.any Hook.atWake
  | _ => false

/-- Whether what the event needs is registered: the first hook for a packet, both for an ARP packet, the proc
    entry for a write to it, and a started thread for its statements. -/
def Loading.allows (m : Loading) : Event → Prop
  | .packet _ | .arp _ => False
  | .netEnter _ => 1 ≤ m.registered
  | .arpEnter _ => 2 ≤ m.registered
  | .setLimitNum _ | .setEnable _ => m.proc = true
  | .thread _ => m.started = true
  -- Without a thread the `wake_up_process` of a hook does not return.
  | .hook i => m.wakes (.hook i) = true → m.limitCheckTask = .task

instance (m : Loading) : ∀ e : Event, Decidable (m.allows e)
  | .packet _ | .arp _ => inferInstanceAs (Decidable False)
  | .netEnter _ | .arpEnter _ => inferInstanceAs (Decidable (_ ≤ _))
  | .setLimitNum _ | .setEnable _ | .thread _ => inferInstanceAs (Decidable (_ = _))
  | .hook _ => inferInstanceAs (Decidable (_ → _))

namespace Loading

/-- The static data of a module that `insmod` has just put into memory. -/
def fresh : Loading where
  toState := State.start maclimitCfg
  limitCheckTask := .null
  started := false
  lockReady := false
  proc := false
  registered := 0
  load := .procCreate

def nfInit (m : Loading) (ok : Bool) : Option Loading :=
  match m.load with
  | .procCreate => some { m with proc := ok, load := if ok then .registerHooks else .removeProcEntry }
  | .registerHooks =>
    if ok then some { m with
      registered := m.registered + 1
      load := if m.registered + 1 = 2 then .createThread else .registerHooks }
    else some { m with registered := 0, load := .unregisterHooks }
  | .createThread =>
    some { m with limitCheckTask := if ok then .task else .err, load := if ok then .rwlockInit else .unregisterHooks }
  | .rwlockInit => some { m with lockReady := true, load := .wakeUpProcess }
  | .wakeUpProcess => some { m with started := true, load := .done }
  | .unregisterHooks => some { m with registered := 0, load := .synchronize }
  | .synchronize => if m.hooks = [] then some { m with load := .removeProcEntry } else none
  | .removeProcEntry => some { m with proc := false, load := .done }
  | .done => none

def step (m : Loading) : LoadEvent → Option Loading
  | .run e =>
    if m.allows e then
      (Maclimit.step m.toState e).map fun s =>
        { m with toState := s, started := m.started || m.wakes e }
    else none
  | .load ok => m.nfInit ok

end Loading

/-- The module from `insmod` on. -/
def loadingLts : Lts Loading LoadEvent where
  init m := m = Loading.fresh
  step := Loading.step

/-- Nobody enables the limit before `nf_init` has returned. -/
def EnabledLate (m : Loading) : LoadEvent → Prop
  | .run (.setEnable n) => n ≠ 0 → m.load = .done
  | _ => True

instance (m : Loading) : ∀ e : LoadEvent, Decidable (EnabledLate m e)
  | .run (.setEnable n) => inferInstanceAs (Decidable (n ≠ 0 → _))
  | .run (.thread _) | .run (.packet _) | .run (.arp _) | .run (.netEnter _) | .run (.arpEnter _) | .run (.hook _)
  | .run (.setLimitNum _) | .load _ => inferInstanceAs (Decidable True)

/-- The invocation has executed no statement yet. -/
def Hook.entered : Hook → Bool
  | .net _ .start | .arp _ .readFlag => true
  | _ => false

/-- While the limit is off, the hooks return at their first statement. -/
structure Off (m : Loading) : Prop where
  enable : m.cfg.enable = 0
  flag : m.flag = .noAddTask
  started : m.started = false
  hooks : ∀ h ∈ m.hooks, h.entered = true
  gone : m.load = .done → m.proc = false
  task : m.load = .rwlockInit ∨ m.load = .wakeUpProcess → m.limitCheckTask = .task
  lock : m.load = .wakeUpProcess → m.lockReady = true

/-- `nf_init` has returned with everything there. -/
structure Ready (m : Loading) : Prop where
  load : m.load = .done
  task : m.limitCheckTask = .task
  lock : m.lockReady = true

namespace Off
variable {m n : Loading}

theorem fresh : Off .fresh where
  enable := rfl
  flag := rfl
  started := rfl
  hooks h hh := by cases hh
  gone h := by cases h
  task h := by rcases h with h | h <;> cases h
  lock h := by cases h

theorem nfInit (h : Off m) {ok : Bool} (hs : m.nfInit ok = some n) : Off n ∨ Ready n := by
  cases hl : m.load <;> simp only [Loading.nfInit, hl] at hs
  case wakeUpProcess =>
    obtain rfl := Option.some.inj hs
    exact Or.inr ⟨rfl, h.task (Or.inr hl), h.lock hl⟩
  case registerHooks =>
    left
    split at hs <;> obtain rfl := Option.some.inj hs
    · split <;> exact ⟨h.enable, h.flag, h.started, h.hooks, by simp, by simp, by simp⟩
    · exact ⟨h.enable, h.flag, h.started, h.hooks, by simp, by simp, by simp⟩
  case synchronize =>
    left
    split at hs <;> cases hs
    exact ⟨h.enable, h.flag, h.started, h.hooks, by simp, by simp, by simp⟩
  case done => cases hs
  case procCreate | createThread =>
    left
    obtain rfl := Option.some.inj hs
    cases ok <;> exact ⟨h.enable, h.flag, h.started, h.hooks, by simp, by simp, by simp⟩
  case rwlockInit =>
    obtain rfl := Option.some.inj hs
    exact Or.inl ⟨h.enable, h.flag, h.started, h.hooks, by simp, fun _ => h.task (Or.inl hl), fun _ => rfl⟩
  case unregisterHooks | removeProcEntry =>
    obtain rfl := Option.some.inj hs
    exact Or.inl ⟨h.enable, h.flag, h.started, h.hooks, by simp, by simp, by simp⟩

/-- A hook that has just been called returns. -/
theorem hook (h : Off m) {x : Hook} (hx : x ∈ m.hooks) : hookStep m.toState x = (m.toState, none) := by
  have hent := h.hooks x hx
  cases x with
  | net p pc =>
    cases pc with
    | start => simp [hookStep, netHookStep, h.enable]
    | _ => cases hent
  | arp a pc =>
    cases pc with
    | readFlag => simp [hookStep, arpinHookStep, show m.newTerminal.flag = .noAddTask from h.flag]
    | _ => cases hent

theorem run (h : Off m) {e : Event} (hok : EnabledLate m (.run e)) (hs : m.step (.run e) = some n) : Off n := by
  simp only [Loading.step] at hs
  split at hs <;> rename_i hallows
  · obtain ⟨t, ht, rfl⟩ := Option.map_eq_some_iff.mp hs
    cases e with
    | thread ok => exact absurd (h.started.symm.trans hallows) (by simp)
    | packet _ | arp _ => cases hallows
    | netEnter p | arpEnter p =>
      obtain rfl := Option.some.inj ht
      refine ⟨h.enable, h.flag, by simp [Loading.wakes, h.started], fun x hx => ?_, h.gone, h.task, h.lock⟩
      rcases List.mem_append.mp hx with hx | hx
      · exact h.hooks x hx
      · obtain rfl := List.mem_singleton.mp hx
        rfl
    | hook i =>
      obtain ⟨x, hx, rfl⟩ := Option.map_eq_some_iff.mp ht
      have hmem := List.mem_of_getElem? hx
      have hwake : x.atWake = false := by
        have hent := h.hooks x hmem
        cases x with
        | net p pc => cases pc <;> first | rfl | cases hent
        | arp a pc => cases pc <;> first | rfl | cases hent
      rw [h.hook hmem]
      refine ⟨h.enable, h.flag, by simp [Loading.wakes, h.started, hx, hwake], fun y hy => ?_, h.gone, h.task, h.lock⟩
      exact h.hooks y (List.mem_of_mem_eraseIdx hy)
    | setLimitNum k =>
      obtain rfl := Option.some.inj ht
      exact ⟨h.enable, h.flag, by simp [Loading.wakes, h.started], h.hooks, h.gone, h.task, h.lock⟩
    | setEnable k =>
      obtain rfl := Option.some.inj ht
      -- A write that would enable the limit finds the proc entry only while `nf_init` runs.
      have hk : k = 0 := by
        by_contra hne
        exact absurd ((h.gone (hok hne)).symm.trans hallows) (by simp)
      exact ⟨hk, h.flag, by simp [Loading.wakes, h.started], h.hooks, h.gone, h.task, h.lock⟩
  · cases hs

end Off

theorem Ready.step {m n : Loading} (h : Ready m) {e : LoadEvent} (hs : m.step e = some n) : Ready n := by
  cases e with
  | load ok =>
    simp only [Loading.step, Loading.nfInit, h.load] at hs
    cases hs
  | run e =>
    simp only [Loading.step] at hs
    split at hs
    · obtain ⟨t, -, rfl⟩ := Option.map_eq_some_iff.mp hs
      exact ⟨h.load, h.task, h.lock⟩
    · cases hs

/-- As long as nobody enables the limit before `nf_init` has returned, a hook that gets behind its first statement
    finds the thread created and the lock initialised, however the calls of `nf_init` end and whatever packets
    come in between. -/
theorem load_safe {m : Loading} (h : loadingLts.Reach EnabledLate m) :
    ∀ x ∈ m.hooks, x.entered = false → m.limitCheckTask = .task ∧ m.lockReady = true := by
  have hor : Off m ∨ Ready m := by
    refine h.invariant (I := fun m => Off m ∨ Ready m) ?_ fun m e n hm hok hs => ?_
    · rintro _ rfl
      exact Or.inl .fresh
    · rcases hm with hoff | hready
      · cases e with
        | load ok => exact hoff.nfInit hs
        | run e => exact Or.inl (hoff.run hok hs)
      · exact Or.inr (hready.step hs)
  intro x hx hent
  rcases hor with hoff | hready
  · exact absurd ((hoff.hooks x hx).symm.trans hent) (by simp)
  · exact ⟨hready.task, hready.lock⟩

/-- A load with a packet in the middle of it and one after it. -/
def loadAmongPackets : List LoadEvent :=
  [LoadEvent.load true, .load true, .run (.netEnter packetA), .run (.hook 0)] ++ List.replicate 4 (LoadEvent.load true) ++
    [LoadEvent.run (.setEnable 1), .run (.netEnter packetA)] ++ List.replicate 9 (LoadEvent.run (.hook 0))

theorem load_safe_among : ∃ m, loadingLts.Reach EnabledLate m ∧ m.hooks = [.net packetA .wake] ∧
    m.limitCheckTask = .task ∧ m.lockReady = true := by
  have hrun : (loadingLts.runIf EnabledLate .fresh loadAmongPackets).any
      (fun m => m.hooks == [.net packetA .wake]) = true := by decide
  obtain ⟨m, hr, hp⟩ := Lts.exists_reach_of_runIf hrun rfl
  have hhooks : m.hooks = [.net packetA .wake] := by simpa using hp
  exact ⟨m, hr, hhooks, load_safe hr (.net packetA .wake) (by rw [hhooks]; exact List.mem_singleton_self _) rfl⟩

/-- The proc entry is there before the thread: with the limit enabled in between, a packet comes to wake a thread
    that does not exist. -/
theorem enabled_early : ∃ m, loadingLts.Reachable m ∧ m.hooks = [.net packetA .wake] ∧ m.limitCheckTask = .null := by
  have hrun : (loadingLts.runIf (fun _ _ => True) .fresh
      ([LoadEvent.load true, .run (.setEnable 1), .load true, .run (.netEnter packetA)] ++
        List.replicate 9 (LoadEvent.run (.hook 0)))).any
      (fun m => m.hooks == [.net packetA .wake] && m.limitCheckTask == .null) = true := by decide
  obtain ⟨m, hr, hp⟩ := Lts.exists_reach_of_runIf hrun rfl
  simp only [Bool.and_eq_true, beq_iff_eq] at hp
  exact ⟨m, hr, hp⟩

end QuickStart.Maclimit
