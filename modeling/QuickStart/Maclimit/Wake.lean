import QuickStart.Maclimit.Listed
import QuickStart.Park

/-! # Wake-ups of the thread

A request is published before the thread is woken, and the thread clears the flag before it sets its state.
A wake-up between these two statements of the thread has no effect, so the request can be lost; any other
order follows `Park`. -/

namespace QuickStart.Maclimit
open State

/-- The invocation has decided to call `wake_up_process` and has not done so. -/
def Hook.toWake : Hook → Bool
  | .net _ (.setSrcip _) | .net _ (.setDstip _) | .net _ (.setDev _) | .net _ (.setMac _) | .net _ (.publish _)
  | .net _ .wake | .arp _ .setOk | .arp _ .wake => true
  | _ => false

/-- The next statement of the invocation is `wake_up_process`. -/
def Hook.atWake : Hook → Bool
  | .net _ .wake | .arp _ .wake => true
  | _ => false

/-- The invocations that still have a `wake_up_process` to run. -/
def State.wakers (s : State) : Nat := s.hooks.countP Hook.toWake

/-- The thread will sleep in the `schedule()` at the end of its loop unless it is woken. -/
def State.resting (s : State) : Bool :=
  match s.pc with
  | .setState => true
  | .schedule | .asleep => s.task == .uninterruptible
  | _ => false

/-- The thread is asleep at the end of its loop, no hook is going to wake it, and the slot is taken: every
    later request is refused. -/
structure State.Stuck (s : State) : Prop where
  asleep : s.pc = .asleep
  task : s.task = .uninterruptible
  wakers : ∀ h ∈ s.hooks, h.toWake = false
  taken : s.flag ≠ .noAddTask

def Event.stepwise : Event → Bool
  | .packet _ | .arp _ => false
  | _ => true

/-- No `wake_up_process` runs between the clearing of the flag and `set_current_state`, unless the slot is
    empty again or another hook is still going to wake the thread. -/
def Reaches (s : State) : Event → Prop
  | .packet _ | .arp _ => False
  | .hook i => (s.hooks[i]?.any Hook.atWake) = true → s.pc = .setState → s.flag = .noAddTask ∨ 1 < s.wakers
  | _ => True

instance (s : State) : ∀ e : Event, Decidable (Reaches s e)
  | .packet _ | .arp _ => inferInstanceAs (Decidable False)
  | .hook _ => inferInstanceAs (Decidable (_ → _ → _))
  | .thread _ | .netEnter _ | .arpEnter _ | .setLimitNum _ | .setEnable _ => inferInstanceAs (Decidable True)

/-- A statement of a hook moves towards the wake-up or ends the invocation, stores the flag on the way to the
    wake-up, or is the wake-up. -/
theorem hookStep_cases (s : State) (h : Hook) :
    ((hookStep s h).1.flag = s.flag ∧ (hookStep s h).1.resting = s.resting ∧ h.atWake = false ∧
      (h.toWake = true → ((hookStep s h).2.any Hook.toWake) = true)) ∨
    (∃ mode, hookStep s h = (s.setFlag mode, (hookStep s h).2) ∧ h.toWake = true ∧
      ((hookStep s h).2.any Hook.toWake) = true) ∨
    (h.atWake = true ∧ h.toWake = true ∧ hookStep s h = (s.wakeUpProcess, none)) := by
  cases h with
  | net p pc =>
    cases pc with
    | publish mode => exact Or.inr (Or.inl ⟨mode, rfl, rfl, rfl⟩)
    | wake => exact Or.inr (Or.inr ⟨rfl, rfl, rfl⟩)
    | start => exact Or.inl ⟨rfl, rfl, rfl, fun ht => by cases ht⟩
    | scan => exact Or.inl ⟨rfl, rfl, rfl, fun ht => by cases ht⟩
    | compare n => exact Or.inl ⟨rfl, rfl, rfl, fun ht => by cases ht⟩
    | readFlag mode => exact Or.inl ⟨rfl, rfl, rfl, fun ht => by cases ht⟩
    | setSrcip mode | setDstip mode | setDev mode | setMac mode => exact Or.inl ⟨rfl, rfl, rfl, fun _ => rfl⟩
  | arp a pc =>
    cases pc with
    | setOk => exact Or.inr (Or.inl ⟨.arpReplayOk, rfl, rfl, rfl⟩)
    | wake => exact Or.inr (Or.inr ⟨rfl, rfl, rfl⟩)
    | readFlag => exact Or.inl ⟨rfl, rfl, rfl, fun ht => by cases ht⟩
    | compare => exact Or.inl ⟨rfl, rfl, rfl, fun ht => by cases ht⟩

/-- Only the clearing of the flag sends the thread to rest, and only a probe stores another flag. -/
theorem limitCheckStep_resting {s t : State} {ok : Bool} (hs : limitCheckStep s ok = some t) :
    t.hooks = s.hooks ∧
      ((t.resting = s.resting ∧ (t.flag = s.flag ∨ (s.resting = false ∧ t.flag ≠ .noAddTask))) ∨
        (t.resting = true ∧ t.flag = .noAddTask)) := by
  cases limitCheckStep_checks hs with
  | flags i hpc => exact ⟨rfl, Or.inl ⟨by simp [State.resting, hpc], Or.inr ⟨by simp [State.resting, hpc], by simp⟩⟩⟩
  | clears hpc => exact ⟨rfl, Or.inr ⟨rfl, rfl⟩⟩
  | fails hpc =>
    refine ⟨rfl, Or.inl ⟨?_, Or.inl rfl⟩⟩
    rcases hpc with hpc | ⟨i, hpc⟩ <;> simp [State.resting, hpc]
  | unlocks hpc =>
    refine ⟨rfl, Or.inl ⟨?_, Or.inl rfl⟩⟩
    rcases hpc with hpc | hpc <;> simp [State.resting, hpc]
  | tests hpc | enters i hpc | probes i k hpc | decides i hpc | schedules hpc =>
    refine ⟨rfl, Or.inl ⟨?_, Or.inl rfl⟩⟩
    split <;> cases htask : s.task <;> simp_all [State.resting]
  | adds hpc hc | checks hpc hc | ignores hpc hc | allocs hpc hc | allocsReplace i hpc hc | allocsAgain i node hpc hc
  | failsAgain i node hpc hc | copies i pos hpc hc | sends i k pos hpc hc | wakes hpc hc =>
    exact ⟨rfl, Or.inl ⟨by simp [State.resting, hpc, hc], Or.inl rfl⟩⟩
  | locksAdd node hpc | links node hpc | dozes i k hpc | expires i k hpc | locksReplace i node hpc | replaces i node hpc
  | frees hpc | setsState hpc => exact ⟨rfl, Or.inl ⟨by simp [State.resting, hpc], Or.inl rfl⟩⟩

/-- The slot, the thread and the wakers as a sleeper with its wakers. -/
structure Park.Of (s : State) (p : Park) : Prop where
  work : p.work = (s.flag != .noAddTask)
  resting : p.resting = s.resting
  calls : p.calls = s.wakers

namespace Park.Of
variable {s t : State} {p : Park}

theorem same (hp : Park.Of s p) (hf : t.flag = s.flag) (hr : t.resting = s.resting) (hw : t.wakers = s.wakers) :
    Park.Of t p :=
  ⟨by rw [hp.work, hf], hp.resting.trans hr.symm, hp.calls.trans hw.symm⟩

theorem thread (hp : Park.Of s p) {ok : Bool} (hs : limitCheckStep s ok = some t) :
    Park.Of t p ∨ ∃ d q, Park.lts.step p d = some q ∧ Park.Of t q := by
  obtain ⟨hhooks, ⟨hr, hf⟩ | ⟨hr, hf⟩⟩ := limitCheckStep_resting hs
  · have hw : t.wakers = s.wakers := by rw [State.wakers, hhooks, State.wakers]
    rcases hf with hf | ⟨hup, hf⟩
    · exact Or.inl (hp.same hf hr hw)
    · have hup' : p.resting = true → 0 < p.calls := fun h => by
        rw [hp.resting, hup] at h
        cases h
      exact Or.inr ⟨.publish, _, dif_pos hup', by simpa using hf, hp.resting.trans hr.symm, hp.calls.trans hw.symm⟩
  · refine Or.inr ⟨.settle, _, rfl, by rw [hf]; rfl, hr.symm, ?_⟩
    rw [State.wakers, hhooks]
    exact hp.calls

theorem hook (hp : Park.Of s p) {i : Nat} {h : Hook} (hi : s.hooks[i]? = some h) (hok : Reaches s (.hook i))
    (ht : t = { (hookStep s h).1 with hooks := Calls.put s.hooks i (hookStep s h).2 }) :
    Park.Of t p ∨ ∃ d q, Park.lts.step p d = some q ∧ Park.Of t q := by
  have hcount := Calls.countP_put hi Hook.toWake (hookStep s h).2
  have hwakers : t.wakers = (Calls.put s.hooks i (hookStep s h).2).countP Hook.toWake := by
    rw [ht]
    rfl
  rcases hookStep_cases s h with ⟨hf, hr, -, hto⟩ | ⟨mode, he, hto, hto'⟩ | ⟨hat, hto, he⟩
  · have hf' : t.flag = s.flag := by rw [ht]; exact hf
    have hr' : t.resting = s.resting := by rw [ht]; exact hr
    by_cases hsame : (hookStep s h).2.any Hook.toWake = h.toWake
    · left
      rw [hsame] at hcount
      refine hp.same hf' hr' ?_
      rw [hwakers, State.wakers]
      omega
    · -- The invocation has just found that it will wake the thread.
      have hfrom : h.toWake = false := by
        by_contra hn
        exact hsame (by rw [hto (by simpa using hn)]; simpa using hn)
      have hnow : (hookStep s h).2.any Hook.toWake = true := by
        rw [hfrom] at hsame
        simpa using hsame
      rw [hfrom, hnow] at hcount
      refine Or.inr ⟨.announce, _, rfl, by rw [hf']; exact hp.work, hp.resting.trans hr'.symm, ?_⟩
      show p.calls + 1 = t.wakers
      rw [hwakers, hp.calls, State.wakers]
      simpa using hcount.symm
  · rw [hto, hto'] at hcount
    have hw : t.wakers = s.wakers := by
      rw [hwakers, State.wakers]
      omega
    have hpos : 0 < s.wakers := List.countP_pos_iff.mpr ⟨h, List.mem_of_getElem? hi, hto⟩
    have hr : t.resting = s.resting := by
      rw [ht, he]
      rfl
    have hf : t.flag = mode := by
      rw [ht, he]
      rfl
    by_cases hm : mode = .noAddTask
    · exact Or.inr ⟨.take, _, rfl, by rw [hf, hm]; rfl, hp.resting.trans hr.symm, hp.calls.trans hw.symm⟩
    · have hcalls : p.resting = true → 0 < p.calls := fun _ => by rw [hp.calls]; exact hpos
      exact Or.inr ⟨.publish, _, dif_pos hcalls, by rw [hf]; simpa using hm, hp.resting.trans hr.symm,
        hp.calls.trans hw.symm⟩
  · have hw : t.wakers = s.wakers - 1 := by
      have hcount' : (Calls.put s.hooks i none).countP Hook.toWake + 1 = s.wakers := by
        simpa [hto, State.wakers] using Calls.countP_put hi Hook.toWake none
      rw [hwakers, he]
      exact Nat.eq_sub_of_add_eq hcount'
    have hf : t.flag = s.flag := by
      rw [ht, he]
      rfl
    by_cases hpc : s.pc = .setState
    · -- The thread has not set its state yet: the wake-up has no effect.
      have hr : t.resting = s.resting := by
        rw [ht, he]
        simp [State.resting, hpc]
      have hmiss : p.resting = true → p.work = true → 1 < p.calls := fun _ hwork => by
        rw [hp.work] at hwork
        rw [hp.calls]
        refine (hok (by rw [hi]; exact hat) hpc).resolve_left fun hempty => ?_
        rw [hempty] at hwork
        cases hwork
      exact Or.inr ⟨.miss, _, dif_pos hmiss, by rw [hf]; exact hp.work, hp.resting.trans hr.symm, by rw [hw, ← hp.calls]⟩
    · have hr : t.resting = false := by
        rw [ht, he]
        cases hpc' : s.pc <;> simp_all [State.resting]
      exact Or.inr ⟨.call, _, rfl, by rw [hf]; exact hp.work, hr.symm, by rw [hw, ← hp.calls]⟩

end Park.Of

/-- In the runs of `Reaches` the module is a sleeper with its wakers. -/
theorem park_simulation (cfg : MaclimitCfg) : Lts.Simulation (lts cfg) Park.lts Reaches Park.Of where
  init := by
    rintro s rfl
    exact ⟨Park.idle, ⟨rfl, rfl, rfl⟩, rfl, rfl, rfl⟩
  step := by
    intro s p e t hp hok hs
    cases e with
    | thread ok => exact hp.thread hs
    | packet skb => exact hok.elim
    | arp a => exact hok.elim
    | hook i =>
      obtain ⟨h, hi, ht⟩ := Option.map_eq_some_iff.mp hs
      exact hp.hook hi hok ht.symm
    | netEnter _ | arpEnter _ =>
      obtain rfl := Option.some.inj hs
      refine Or.inl (hp.same rfl rfl ?_)
      simp [State.wakers, Hook.toWake]
    | setLimitNum _ | setEnable _ =>
      obtain rfl := Option.some.inj hs
      exact Or.inl (hp.same rfl rfl rfl)

/-- In the runs of `Reaches` the thread never sleeps on a taken slot with nobody to wake it. -/
theorem not_stuck {s : State} (h : (lts maclimitCfg).Reach Reaches s) : ¬s.Stuck := by
  rintro ⟨hpc, htask, hwakers, htaken⟩
  obtain ⟨p, -, hp⟩ := (park_simulation maclimitCfg).reach h
  refine p.not_lost ⟨?_, ?_, ?_⟩
  · rw [hp.resting]
    simp [State.resting, hpc, htask]
  · rw [hp.work]
    simpa using htaken
  · rw [hp.calls]
    exact List.countP_eq_zero.mpr fun h hm => by rw [hwakers h hm]; simp

/-- `net_hook_func` for `packetA`, statement by statement. -/
def hookA : List Event := Event.netEnter packetA :: List.replicate 10 (Event.hook 0)

/-- `packetA` and `packetB` find the slot empty. The first wake-up comes before the thread has set its state, and the
    second one when it is asleep. -/
def lateWakes : List Event :=
  Event.setEnable 1 :: List.replicate 3 (Event.thread true) ++ [.netEnter packetA, .netEnter packetB] ++
    List.replicate 4 (Event.hook 0) ++ List.replicate 9 (Event.hook 1) ++ List.replicate 6 (Event.hook 0) ++
    List.replicate 2 (Event.thread true) ++ [.hook 0]

theorem not_stuck_lateWakes : ∃ s, (lts maclimitCfg).Reach Reaches s ∧ s.pc = .asleep ∧ s.flag = .addImmediate ∧
    s.hooks = [] ∧ ¬s.Stuck := by
  have hrun : ((lts maclimitCfg).runIf Reaches (start maclimitCfg) lateWakes).any
      (fun s => s.pc == .asleep && s.flag == .addImmediate && s.hooks == []) = true := by decide
  obtain ⟨s, hr, hp⟩ := Lts.exists_reach_of_runIf hrun rfl
  simp only [Bool.and_eq_true, beq_iff_eq] at hp
  exact ⟨s, hr, hp.1.1, hp.1.2, hp.2, not_stuck hr⟩

/-- The thread clears the flag, `packetA` posts its request and wakes the running thread, and the thread
    falls asleep. -/
theorem thread_stuck : ∃ s, (lts maclimitCfg).Reach (fun _ e => e.stepwise = true) s ∧ s.Stuck ∧ s.hooks = [] := by
  have hrun : ((lts maclimitCfg).runIf (fun _ e => e.stepwise = true) (start maclimitCfg)
      (Event.setEnable 1 :: List.replicate 3 (Event.thread true) ++ hookA ++ List.replicate 2 (Event.thread true))).any
      (fun s => s.pc == .asleep && s.task == .uninterruptible && s.hooks == [] && s.flag == .addImmediate) = true := by
    decide
  obtain ⟨s, hr, hp⟩ := Lts.exists_reach_of_runIf hrun rfl
  simp only [Bool.and_eq_true, beq_iff_eq] at hp
  obtain ⟨⟨⟨hpc, htask⟩, hhooks⟩, hflag⟩ := hp
  exact ⟨s, hr, ⟨hpc, htask, by simp [hhooks], by simp [hflag]⟩, hhooks⟩

end QuickStart.Maclimit
