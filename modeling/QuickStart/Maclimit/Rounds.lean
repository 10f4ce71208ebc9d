import QuickStart.Maclimit.Check
import QuickStart.Maclimit.Cleanup

/-! # Rounds of the thread

From one test of `kthread_should_stop` to the next, `limit_check_func` executes a number of statements that the
entries of the list bound, whatever the hooks do in between; only at the end of a round does it sleep. It does not
test again between the setting of its state and `schedule`, so that `kthread_stop` can come too early for it. -/

namespace QuickStart.Maclimit
open State

/-- The statements of the thread since it has last tested whether to stop, and the ARP requests among them. -/
structure Round where
  statements : Nat
  requests : Nat
  deriving DecidableEq, Repr

namespace Round

def start : Round := { statements := 0, requests := 0 }

def after (s : State) (e : Event) (h : Round) : Round :=
  match e with
  | .thread _ =>
    match s.pc with
    | .test => { statements := 1, requests := 0 }
    | .arpSend _ _ => { statements := h.statements + 1, requests := h.requests + 1 }
    | _ => { h with statements := h.statements + 1 }
  | _ => h

end Round

abbrev roundLts (cfg : MaclimitCfg) : Lts (State × Round) Event := (lts cfg).track Round.after Round.start

/-- The position of the entry that the thread works on. -/
def Pc.place? : Pc → Option Nat
  | .flagProbe i | .copyMac i | .probe i _ | .arpSend i _ | .doze i _ | .timeout i _ | .decide i | .allocReplace i
  | .lockReplace i _ | .allocAgain i _ | .replace i _ => some i
  | _ => none

/-- An upper bound for the statements to the end of the round, with `n` entries in the list. -/
def Pc.rest (n : Nat) : Pc → Nat
  | .test | .done => 0
  | .asleep => 1
  | .schedule => 2
  | .setState => 3
  | .clear => 4
  | .unlockAdd => 5
  | .add _ => 6
  | .lockAdd _ => 7
  | .alloc => 8
  | pc => pc.left n + 4

/-- An upper bound for the ARP requests to the end of the round. -/
def Pc.unsent (n : Nat) : Pc → Nat
  | .read => checkArpPacketNum * n
  | .entry i => checkArpPacketNum * (n - i)
  | .flagProbe i | .copyMac i => checkArpPacketNum * (n - (i + 1)) + checkArpPacketNum
  | .probe i k => checkArpPacketNum * (n - (i + 1)) + (checkArpPacketNum - k)
  | .arpSend i k => checkArpPacketNum * (n - (i + 1)) + (checkArpPacketNum - (k + 1)) + 1
  | .doze i k | .timeout i k => checkArpPacketNum * (n - (i + 1)) + (checkArpPacketNum - (k + 1))
  | .decide i => checkArpPacketNum * (n - (i + 1))
  | _ => 0

def Pc.sends : Pc → Nat
  | .arpSend _ _ => 1
  | _ => 0

section Step
variable {s t : State} {ok : Bool}

/-- The thread goes on to an entry only when there is one. -/
theorem place_step (hs : limitCheckStep s ok = some t) (hp : ∀ i, s.pc.place? = some i → i < s.maclimitList.length) :
    ∀ i, t.pc.place? = some i → i < t.maclimitList.length := by
  intro i hi
  cases limitCheckStep_checks hs with
  | enters j hpc =>
    dsimp only [State.goto] at hi ⊢
    split at hi
    · obtain rfl : j = i := Option.some.inj hi
      assumption
    · cases hi
  | probes j k hpc =>
    have hj : j < s.maclimitList.length := hp j (by rw [hpc]; rfl)
    dsimp only [State.goto] at hi ⊢
    split at hi <;> obtain rfl : j = i := Option.some.inj hi <;> exact hj
  | decides j hpc =>
    dsimp only [State.goto] at hi ⊢
    split at hi
    · obtain rfl : j = i := Option.some.inj hi
      exact hp j (by rw [hpc]; rfl)
    · cases hi
  | flags j hpc | copies j pos hpc | sends j k pos hpc | dozes j k hpc | expires j k hpc | allocsReplace j hpc
  | locksReplace j node hpc | allocsAgain j node hpc | failsAgain j node hpc =>
    obtain rfl : j = i := Option.some.inj hi
    exact hp j (by rw [hpc]; rfl)
  | tests hpc | schedules hpc =>
    dsimp only [State.goto] at hi
    split at hi <;> cases hi
  | _ => cases hi

/-- Every statement but the test takes one from the rest of the round. -/
theorem rest_lt (hs : limitCheckStep s ok = some t) (htest : s.pc ≠ .test) :
    t.pc.rest t.maclimitList.length < s.pc.rest s.maclimitList.length := by
  cases limitCheckStep_checks hs with
  | tests hpc => exact absurd hpc htest
  | fails hpc => rcases hpc with hpc | ⟨i, hpc⟩ <;> rw [hpc] <;> simp [Pc.rest, Pc.left]
  | unlocks hpc => rcases hpc with hpc | hpc <;> rw [hpc] <;> simp [Pc.rest, Pc.left]
  | enters i hpc | decides i hpc =>
    rw [hpc]
    dsimp only [State.goto]
    split <;> simp only [Pc.rest, Pc.left] <;> omega
  | schedules hpc =>
    rw [hpc]
    dsimp only [State.goto]
    split <;> simp [Pc.rest]
  | probes i k hpc =>
    rw [hpc]
    dsimp only [State.goto]
    split <;> simp only [Pc.rest, Pc.left, checkArpPacketNum] at * <;> omega
  | adds hpc | checks hpc | ignores hpc | allocs hpc | copies i pos hpc | sends i k pos hpc | wakes hpc
  | locksAdd node hpc | links node hpc | flags i hpc | dozes i k hpc | expires i k hpc | allocsReplace i hpc
  | locksReplace i node hpc | allocsAgain i node hpc | failsAgain i node hpc | replaces i node hpc | frees hpc
  | clears hpc | setsState hpc =>
    rw [hpc]
    simp only [State.goto, State.setFlag, Pc.rest, Pc.left, checkArpPacketNum]
    omega

/-- A statement that sends takes one from the requests to come. -/
theorem unsent_le (hs : limitCheckStep s ok = some t) (htest : s.pc ≠ .test) :
    t.pc.unsent t.maclimitList.length + s.pc.sends ≤ s.pc.unsent s.maclimitList.length := by
  cases limitCheckStep_checks hs with
  | tests hpc => exact absurd hpc htest
  | fails hpc => rcases hpc with hpc | ⟨i, hpc⟩ <;> rw [hpc] <;> simp [Pc.unsent, Pc.sends]
  | unlocks hpc => rcases hpc with hpc | hpc <;> rw [hpc] <;> simp [Pc.unsent, Pc.sends]
  | enters i hpc | decides i hpc | probes i k hpc =>
    rw [hpc]
    dsimp only [State.goto]
    split <;> simp only [Pc.unsent, Pc.sends, checkArpPacketNum] at * <;> omega
  | schedules hpc =>
    rw [hpc]
    dsimp only [State.goto]
    split <;> simp [Pc.unsent, Pc.sends]
  | adds hpc | checks hpc | ignores hpc | allocs hpc | copies i pos hpc | sends i k pos hpc | wakes hpc
  | locksAdd node hpc | links node hpc | flags i hpc | dozes i k hpc | expires i k hpc | allocsReplace i hpc
  | locksReplace i node hpc | allocsAgain i node hpc | failsAgain i node hpc | replaces i node hpc | frees hpc
  | clears hpc | setsState hpc =>
    rw [hpc]
    simp only [State.goto, State.setFlag, Pc.unsent, Pc.sends, checkArpPacketNum]
    omega

/-- A thread that works on an entry of the list can execute its next statement. -/
theorem limitCheckStep_goes (hp : ∀ i, s.pc.place? = some i → i < s.maclimitList.length) (hasleep : s.pc ≠ .asleep)
    (hdone : s.pc ≠ .done) (ok : Bool) : (limitCheckStep s ok).isSome = true := by
  unfold limitCheckStep
  cases hpc : s.pc
  case asleep => exact absurd hpc hasleep
  case done => exact absurd hpc hdone
  case read => cases hf : s.flag <;> rfl
  case alloc | allocReplace i | allocAgain i node => cases ok <;> rfl
  case copyMac i | arpSend i k =>
    have hi : i < s.maclimitList.length := hp i (by rw [hpc]; rfl)
    simp [List.getElem?_eq_getElem hi]
  all_goals rfl

end Step

/-- The statements and the requests of the round so far, with those to come. -/
structure Bounded (s : State) (h : Round) : Prop where
  place : ∀ i, s.pc.place? = some i → i < s.maclimitList.length
  statements : h.statements + s.pc.rest s.maclimitList.length ≤ 25 * s.maclimitList.length + 13
  requests : h.requests + s.pc.unsent s.maclimitList.length ≤ checkArpPacketNum * s.maclimitList.length

namespace Bounded
variable {s t : State} {h : Round}

theorem start (cfg : MaclimitCfg) : Bounded (start cfg) .start where
  place i hi := by cases hi
  statements := by simp [Round.start, State.start, Pc.rest]
  requests := by simp [Round.start, State.start, Pc.unsent]

theorem of_frame (hb : Bounded s h) (hpc : t.pc = s.pc) (hlist : t.maclimitList = s.maclimitList) : Bounded t h where
  place := by rw [hpc, hlist]; exact hb.place
  statements := by rw [hpc, hlist]; exact hb.statements
  requests := by rw [hpc, hlist]; exact hb.requests

/-- The list gets shorter in no step. -/
theorem length_le {e : Event} (hs : step s e = some t) : s.maclimitList.length ≤ t.maclimitList.length := by
  rcases step_list hs with hl | ⟨ok, node, -, -, hl⟩ | ⟨ok, i, node, -, -, hl⟩ <;> rw [hl]
  · exact Nat.le_succ _
  · rw [List.length_set]

theorem thread (hb : Bounded s h) {ok : Bool} (hs : limitCheckStep s ok = some t) :
    Bounded t (Round.after s (.thread ok) h) := by
  have hplace := place_step hs hb.place
  by_cases htest : s.pc = .test
  · -- The next round begins.
    refine ⟨hplace, ?_, ?_⟩ <;> simp only [limitCheckStep, htest] at hs <;> obtain rfl := Option.some.inj hs <;>
      simp only [Round.after, htest] <;> dsimp only [State.goto] <;> split <;>
      simp only [Pc.rest, Pc.left, Pc.unsent] <;> omega
  · have hlen := length_le (e := .thread ok) hs
    have hrest := rest_lt hs htest
    have hunsent := unsent_le hs htest
    have hstatements := hb.statements
    have hrequests := hb.requests
    have hafter : (Round.after s (.thread ok) h).statements = h.statements + 1 ∧
        (Round.after s (.thread ok) h).requests = h.requests + s.pc.sends := by
      cases hpc : s.pc
      case test => exact absurd hpc htest
      all_goals simp only [Round.after, hpc, Pc.sends, Nat.add_zero, and_self]
    refine ⟨hplace, ?_, ?_⟩
    · rw [hafter.1]
      omega
    · have := Nat.mul_le_mul_left checkArpPacketNum hlen
      rw [hafter.2]
      omega

theorem step (hb : Bounded s h) {e : Event} (hs : step s e = some t) : Bounded t (Round.after s e h) := by
  cases e with
  | thread ok => exact hb.thread hs
  | packet skb =>
    obtain rfl := Option.some.inj hs
    rcases netHookFunc_cases s skb with he | ⟨p, -, -, he⟩ <;> rw [he] <;> exact hb.of_frame rfl rfl
  | arp a =>
    obtain rfl := Option.some.inj hs
    rcases arpinHookFunc_cases s a with he | ⟨-, he⟩ <;> rw [he] <;> exact hb.of_frame rfl rfl
  | hook i =>
    obtain ⟨x, -, rfl⟩ := Option.map_eq_some_iff.mp hs
    obtain ⟨hpc, hlist, -⟩ := hookStep_kept s x
    exact hb.of_frame hpc hlist
  | netEnter _ | arpEnter _ | setLimitNum _ | setEnable _ =>
    obtain rfl := Option.some.inj hs
    exact hb.of_frame rfl rfl

end Bounded

/-- In every run, whatever the hooks do between its statements: unless it sleeps at the end of a round or has
    returned, the thread can go on; a round has at most 25 statements for each entry of the list and 13 more, and
    sends at most five ARP requests for each entry. -/
theorem rounds_bounded {cfg : MaclimitCfg} {s : State} {h : Round} (hr : (roundLts cfg).Reachable (s, h)) :
    (s.pc ≠ .asleep → s.pc ≠ .done → ∀ ok, (limitCheckStep s ok).isSome = true) ∧
      h.statements ≤ 25 * s.maclimitList.length + 13 ∧ h.requests ≤ 5 * s.maclimitList.length := by
  have hb : Bounded s h := by
    refine hr.track_invariant (I := Bounded) ?_ fun s h e t hb _ hs => hb.step hs
    rintro _ rfl
    exact .start cfg
  exact ⟨limitCheckStep_goes hb.place, (Nat.le_add_right _ _).trans hb.statements,
    (Nat.le_add_right _ _).trans hb.requests⟩

/-- A terminal is linked, and the next one is refused: a round with five requests. -/
def probeA : List Event :=
  linkA ++ List.replicate 2 (Event.thread true) ++ [Event.packet (some packetB)] ++ List.replicate 26 (Event.thread true)

theorem rounds_bounded_probeA : ∃ s, (roundLts maclimitCfg).Reachable (s, ⟨25, 5⟩) ∧ s.macs = [packetA.hSource] ∧
    25 ≤ 25 * s.maclimitList.length + 13 := by
  have hrun : ((roundLts maclimitCfg).runIf (fun _ _ => True) (start maclimitCfg, .start) probeA).any
      (fun x => x.1.macs == [packetA.hSource] && x.2 == ⟨25, 5⟩) = true := by decide
  obtain ⟨⟨s, h⟩, hr, hp⟩ := Lts.exists_reach_of_runIf hrun ⟨rfl, rfl⟩
  simp only [Bool.and_eq_true, beq_iff_eq] at hp
  obtain ⟨hmacs, rfl⟩ := hp
  exact ⟨s, hr, hmacs, (rounds_bounded hr).2.1⟩

/-! ### The end of the thread -/

/-- `kthread_stop` wakes the thread when it has set its state or is about to test whether to stop. -/
def WokenOutside (m : Module) : ModuleEvent → Prop
  | .cleanup => m.cleanup = .wake → m.pc = .test ∨ m.pc = .schedule ∨ m.pc = .asleep ∨ m.pc = .done
  | .run _ => True

instance (m : Module) : ∀ e : ModuleEvent, Decidable (WokenOutside m e)
  | .cleanup => inferInstanceAs (Decidable (_ → _))
  | .run _ => inferInstanceAs (Decidable True)

/-- The statements of the thread while `kthread_stop` waits for it. -/
def waited (m : Module) : ModuleEvent → Nat → Nat
  | .run (.thread _), n => if m.cleanup = .join then n + 1 else n
  | _, n => n

abbrev waitLts (cfg : MaclimitCfg) : Lts (Module × Nat) ModuleEvent := (moduleLts cfg).track waited 0

/-- The statements from the waking of the thread to its return. -/
def Pc.toReturn : Pc → Nat
  | .asleep | .schedule => 2
  | .test => 1
  | _ => 0

/-- No statement of a hook puts the thread to sleep or asks it to stop. -/
theorem hookStep_awake (s : State) (h : Hook) : (hookStep s h).1.shouldStop = s.shouldStop ∧
    (s.task = .running → (hookStep s h).1.task = .running) := by
  have hfill := hookStep_fill s h
  generalize (hookStep s h).1 = t at hfill ⊢
  generalize (hookStep s h).2 = o at hfill
  cases hfill with
  | aside _ _ ht =>
    rcases ht with rfl | rfl
    · exact ⟨rfl, id⟩
    · exact ⟨rfl, fun _ => rfl⟩
  | enter | write | publish | answer => exact ⟨rfl, id⟩

/-- The thread that `kthread_stop` waits for is on its way out. -/
structure Leaving (m : Module) (n : Nat) : Prop where
  stopped : m.cleanup ≠ .setStop → m.shouldStop = true
  early : m.cleanup = .setStop ∨ m.cleanup = .wake → n = 0
  bound : n ≤ 2
  join : m.cleanup = .join → n + m.pc.toReturn ≤ 2 ∧
    (m.pc = .done ∨ m.pc = .test ∨ ((m.pc = .schedule ∨ m.pc = .asleep) ∧ m.task = .running))

namespace Leaving
variable {m m' : Module} {n : Nat}

theorem loaded (cfg : MaclimitCfg) : Leaving (Module.loaded cfg) 0 where
  stopped h := absurd rfl h
  early _ := rfl
  bound := Nat.zero_le _
  join h := by cases h

theorem of_frame (h : Leaving m n) {t : State} (hstop : t.shouldStop = m.shouldStop) (hpc : t.pc = m.pc)
    (htask : m.task = .running → t.task = .running) : Leaving { m with toState := t } n where
  stopped hne := hstop.trans (h.stopped hne)
  early := h.early
  bound := h.bound
  join hj := by
    obtain ⟨hn, hor⟩ := h.join hj
    refine ⟨?_, ?_⟩
    · show n + t.pc.toReturn ≤ 2
      rw [hpc]
      exact hn
    · show t.pc = .done ∨ t.pc = .test ∨ ((t.pc = .schedule ∨ t.pc = .asleep) ∧ t.task = .running)
      rw [hpc]
      exact hor.imp_right (Or.imp_right fun h => ⟨h.1, htask h.2⟩)

/-- The statement that the waiting `kthread_stop` sees. -/
theorem thread_join (h : Leaving m n) (hj : m.cleanup = .join) {ok : Bool} {t : State}
    (hs : limitCheckStep m.toState ok = some t) :
    n + 1 + t.pc.toReturn ≤ 2 ∧ (t.pc = .done ∨ t.pc = .test ∨ ((t.pc = .schedule ∨ t.pc = .asleep) ∧ t.task = .running)) := by
  have hstop : m.shouldStop = true := h.stopped (by rw [hj]; simp)
  obtain ⟨hn, hpc | hpc | ⟨hpc | hpc, htask⟩⟩ := h.join hj
  · rw [limitCheckStep, hpc] at hs
    cases hs
  · rw [limitCheckStep, hpc] at hs
    obtain rfl := Option.some.inj hs
    rw [hpc] at hn
    rw [hstop]
    exact ⟨hn, Or.inl rfl⟩
  · rw [limitCheckStep, hpc] at hs
    obtain rfl := Option.some.inj hs
    rw [hpc] at hn
    rw [htask]
    exact ⟨by simpa [Pc.toReturn] using hn, Or.inr (Or.inl rfl)⟩
  · rw [limitCheckStep, hpc] at hs
    dsimp only at hs
    rw [if_pos htask] at hs
    obtain rfl := Option.some.inj hs
    rw [hpc] at hn
    exact ⟨by simpa [Pc.toReturn] using hn, Or.inr (Or.inl rfl)⟩

theorem thread (h : Leaving m n) {ok : Bool} {t : State} (hs : limitCheckStep m.toState ok = some t) :
    Leaving { m with toState := t } (QuickStart.Maclimit.waited m (.run (.thread ok)) n) := by
  have hstop : t.shouldStop = m.shouldStop := by
    cases limitCheckStep_checks hs <;> rfl
  by_cases hj : m.cleanup = .join
  · obtain ⟨hn, hor⟩ := h.thread_join hj hs
    rw [QuickStart.Maclimit.waited, if_pos hj]
    exact
      { stopped := fun hne => hstop.trans (h.stopped hne)
        early := fun he => by rcases he with he | he <;> rw [hj] at he <;> cases he
        bound := (Nat.le_add_right _ _).trans hn
        join := fun _ => ⟨hn, hor⟩ }
  · rw [QuickStart.Maclimit.waited, if_neg hj]
    exact ⟨fun hne => hstop.trans (h.stopped hne), h.early, h.bound, fun hj' => absurd hj' hj⟩

theorem nfCleanup (h : Leaving m n) (hok : WokenOutside m .cleanup) (hs : m.nfCleanup = some m') : Leaving m' n := by
  unfold Module.nfCleanup at hs
  generalize hc : m.cleanup = c at hs
  cases c with
  | setStop =>
    obtain rfl := Option.some.inj hs
    exact ⟨fun _ => rfl, fun _ => h.early (Or.inl hc), h.bound, fun hj => by cases hj⟩
  | wake =>
    obtain rfl := Option.some.inj hs
    obtain rfl : n = 0 := h.early (Or.inr hc)
    refine ⟨fun _ => h.stopped (by rw [hc]; simp), fun _ => rfl, h.bound, fun _ => ?_⟩
    show 0 + m.pc.toReturn ≤ 2 ∧
      (m.pc = .done ∨ m.pc = .test ∨ ((m.pc = .schedule ∨ m.pc = .asleep) ∧ TaskState.running = .running))
    rcases hok hc with hpc | hpc | hpc | hpc <;> simp [hpc, Pc.toReturn]
  | join =>
    dsimp only at hs
    split at hs <;> cases hs
    exact ⟨fun _ => h.stopped (by rw [hc]; simp), fun he => by (rcases he with he | he <;> cases he), h.bound,
      fun hj => by cases hj⟩
  | synchronize | walk i =>
    dsimp only at hs
    split at hs <;> cases hs <;>
      exact ⟨fun _ => h.stopped (by rw [hc]; simp), fun he => by (rcases he with he | he <;> cases he), h.bound,
        fun hj => by cases hj⟩
  | setNull | removeProcEntry | unregister =>
    obtain rfl := Option.some.inj hs
    exact ⟨fun _ => h.stopped (by rw [hc]; simp), fun he => by (rcases he with he | he <;> cases he), h.bound,
      fun hj => by cases hj⟩
  | gone => cases hs

theorem step (h : Leaving m n) {e : ModuleEvent} (hok : WokenOutside m e) (hs : m.step e = some m') :
    Leaving m' (QuickStart.Maclimit.waited m e n) := by
  cases e with
  | cleanup => exact h.nfCleanup hok hs
  | run e =>
    simp only [Module.step] at hs
    split at hs <;> rename_i hallowed
    · obtain ⟨t, ht, rfl⟩ := Option.map_eq_some_iff.mp hs
      cases e with
      | thread ok => exact h.thread ht
      | packet _ | arp _ => cases hallowed.1
      | hook i =>
        obtain ⟨x, -, rfl⟩ := Option.map_eq_some_iff.mp ht
        obtain ⟨hstop, htask⟩ := hookStep_awake m.toState x
        exact h.of_frame hstop (hookStep_kept m.toState x).1 htask
      | netEnter _ | arpEnter _ | setLimitNum _ | setEnable _ =>
        obtain rfl := Option.some.inj ht
        exact h.of_frame rfl rfl id
    · cases hs

end Leaving

/-- Unless `kthread_stop` wakes the thread too early, `nf_cleanup` never gets stuck: it can execute its next statement,
    or it waits for the thread, which returns after at most two statements, or for hooks that can go on. -/
theorem unload_goes_on {cfg : MaclimitCfg} {m : Module} {n : Nat}
    (h : (waitLts cfg).Reach (fun x e => WokenOutside x.1 e) (m, n)) :
    n ≤ 2 ∧ (m.cleanup ≠ .gone → (m.step .cleanup).isSome = true ∨
      (m.cleanup = .join ∧ ∀ ok, (m.step (.run (.thread ok))).isSome = true) ∨
      (m.cleanup = .synchronize ∧ ∃ i, (m.step (.run (.hook i))).isSome = true)) := by
  have hl : Leaving m n := by
    refine h.track_invariant (I := Leaving) ?_ fun m n e m' hl hok hs => hl.step hok hs
    rintro _ rfl
    exact .loaded cfg
  refine ⟨hl.bound, fun hgone => ?_⟩
  cases hc : m.cleanup with
  | join =>
    by_cases hdone : m.pc = .done
    · left
      simp [Module.step, Module.nfCleanup, hc, hdone]
    · refine Or.inr (Or.inl ⟨rfl, fun ok => ?_⟩)
      have hgoes : (limitCheckStep m.toState ok).isSome = true := by
        obtain ⟨-, hpc | hpc | ⟨hpc | hpc, htask⟩⟩ := hl.join hc
        · exact absurd hpc hdone
        · simp [limitCheckStep, hpc]
        · simp [limitCheckStep, hpc]
        · simp [limitCheckStep, hpc, htask]
      simpa [Module.step, Event.stepwise, Event.arrival, Event.config, Maclimit.step] using hgoes
  | synchronize =>
    by_cases hhooks : m.hooks = []
    · left
      simp [Module.step, Module.nfCleanup, hc, hhooks]
    · refine Or.inr (Or.inr ⟨rfl, 0, ?_⟩)
      obtain ⟨x, xs, hx⟩ := List.exists_cons_of_ne_nil hhooks
      simp [Module.step, Event.stepwise, Event.arrival, Event.config, Maclimit.step, hx]
  | walk i =>
    left
    simp only [Module.step, Module.nfCleanup, hc]
    split <;> rfl
  | gone => exact absurd hc hgone
  | setStop | wake | setNull | removeProcEntry | unregister =>
    left
    simp [Module.step, Module.nfCleanup, hc]

/-- `kthread_stop` wakes a thread that sleeps at the end of its first round. -/
def stopAsleep : List ModuleEvent :=
  List.replicate 5 (ModuleEvent.run (.thread true)) ++ [.cleanup, .cleanup] ++
    List.replicate 2 (ModuleEvent.run (.thread true))

theorem unload_goes_on_asleep : ∃ m, (waitLts maclimitCfg).Reach (fun x e => WokenOutside x.1 e) (m, 2) ∧
    m.cleanup = .join ∧ (m.step .cleanup).isSome = true := by
  have hrun : ((waitLts maclimitCfg).runIf (fun x e => WokenOutside x.1 e) (Module.loaded maclimitCfg, 0) stopAsleep).any
      (fun x => x.1.cleanup == .join && x.1.pc == .done && x.2 == 2) = true := by decide
  obtain ⟨⟨m, n⟩, hr, hp⟩ := Lts.exists_reach_of_runIf hrun ⟨rfl, rfl⟩
  simp only [Bool.and_eq_true, beq_iff_eq] at hp
  obtain ⟨⟨hjoin, hpc⟩, rfl⟩ := hp
  refine ⟨m, hr, hjoin, ?_⟩
  rcases (unload_goes_on hr).2 (by rw [hjoin]; simp) with hc | ⟨-, ht⟩ | ⟨hc, -⟩
  · exact hc
  · have := ht true
    simp [Module.step, Event.stepwise, Event.arrival, Event.config, Maclimit.step, limitCheckStep, hpc] at this
  · rw [hjoin] at hc
    cases hc

/-- `kthread_stop` comes when the thread has tested whether to stop and not yet set its state: the thread goes to
    sleep, and without a further packet it and `nf_cleanup` wait for each other. -/
theorem unload_hangs : ∃ m, (moduleLts maclimitCfg).Reachable m ∧ m.cleanup = .join ∧ m.hooks = [] ∧
    m.step .cleanup = none ∧ ∀ ok, m.step (.run (.thread ok)) = none := by
  have hrun : ((moduleLts maclimitCfg).runIf (fun _ _ => True) (Module.loaded maclimitCfg)
      (List.replicate 2 (ModuleEvent.run (.thread true)) ++ [.cleanup, .cleanup] ++
        List.replicate 3 (ModuleEvent.run (.thread true)))).any
      (fun m => m.cleanup == .join && m.hooks == [] && m.pc == .asleep && m.task == .uninterruptible) = true := by decide
  obtain ⟨m, hr, hp⟩ := Lts.exists_reach_of_runIf hrun rfl
  simp only [Bool.and_eq_true, beq_iff_eq] at hp
  obtain ⟨⟨⟨hjoin, hhooks⟩, hpc⟩, htask⟩ := hp
  refine ⟨m, hr, hjoin, hhooks, ?_, fun ok => ?_⟩
  · simp [Module.step, Module.nfCleanup, hjoin, hpc]
  · simp [Module.step, Maclimit.step, limitCheckStep, hpc, htask]

end QuickStart.Maclimit
