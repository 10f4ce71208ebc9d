import QuickStart.Speedtest.Settings
import QuickStart.Speedtest.Unload
import QuickStart.Speedtest.Window

/-! # When the loop timer is initialised

`speedtest_loopdetect_timer_init` calls `init_timer` on a static timer. A compute thread that ends by itself has
waited for five seconds with a task running, in which the timer of two seconds has expired and has not been
started again; one that `kthread_stop` ends may have been stopped at any time. -/

namespace QuickStart.Speedtest
open State

/-- The compute thread has left its counting loop and is not past the timer yet. -/
def Body.closing : Body → Bool
  | .compute .flush | .compute .clearPtr | .compute .setHook | .compute .timerTest | .compute .clearReady
  | .compute .timerInit => true
  | _ => false

/-- The compute thread has found `st_loop_timer_enable` set. -/
def Body.primed : Body → Bool
  | .compute .clearReady | .compute .timerInit => true
  | _ => false

/-- The end of the waiting of a compute thread that has found no sender task. -/
def Body.waits : Body → Option Nat
  | .compute (.test false endTime) => some endTime
  | .compute (.drain endTime) | .compute (.look _ endTime) | .compute (.arm endTime) | .compute (.test true endTime) =>
    if endTime = 0 then none else some endTime
  | _ => none

/-- The compute thread is behind its counting loop and not past the timer, or it will leave the loop because it has been
    told to stop. -/
def Body.leaves (stop : Bool) (b : Body) : Bool := b.closing || (stop && b.begun && b.counting)

def Thread.leaving (th : Thread) : Bool := th.body.leaves th.stop

/-- The threads besides `tid`. -/
def State.others (s : State) (tid : Nat) : List Thread := s.threads.eraseIdx tid

section Spaced
variable (K : Kernel) (s : State)

/-- The clock and the end of the waiting do not wrap, and the timer expires in time. `kthread_stop` is called for a
    compute thread that has begun only when the timer is not pending or `st_loop_timer_enable` is not set; and a compute
    thread that starts the timer finds no other one that is leaving, or less than two seconds before the end of its
    waiting. -/
def Spaced : Event → Prop
  | .thread tid _ => ∀ th ∈ s.threads[tid]?,
      (th.body = .compute (.arm 0) → s.mod.jiffies + 5 * K.hz < 2 ^ K.bitsPerLong) ∧
      (th.body.arms = true → ∀ th' ∈ s.others tid,
        th'.leaving = false ∧ ∀ endTime ∈ th'.body.waits, s.mod.jiffies + K.hz * 2 ≤ endTime)
  | .ctl _ => s.ctl.stopping = some (.compute, .call) → s.begunIn .compute = true →
      s.mod.loopDetectTimer = none ∨ s.mod.stLoopTimerEnable = 0
  | .tick => s.mod.jiffies + 1 < 2 ^ K.bitsPerLong ∧ s.mod.loopDetectTimer.any (K.timeAfterEq s.mod.jiffies) = false
  | _ => True

instance : ∀ e : Event, Decidable (Spaced K s e)
  | .thread tid _ => inferInstanceAs (Decidable (∀ th ∈ s.threads[tid]?, _ ∧ _))
  | .ctl _ => inferInstanceAs (Decidable (_ → _ → _ ∨ _))
  | .tick => inferInstanceAs (Decidable (_ ∧ _))
  | .command _ | .unload | .receive _ | .rxHook _ | .transmit _ _ | .timer => inferInstanceAs (Decidable True)

end Spaced

/-! ### What a step does to the clock, the timer and the waiting -/

theorem Body.primed_of_not_closing {b : Body} (h : b.closing = false) : b.primed = false := by
  rcases b with ⟨d, pc⟩ | pc
  · rfl
  · cases pc <;> first | rfl | cases h

/-- A thread at its entry neither waits nor is behind its loop. -/
theorem Body.of_not_begun {b : Body} (h : b.begun = false) : b.waits = none ∧ b.closing = false := by
  rcases b with ⟨d, pc⟩ | pc
  · exact ⟨rfl, rfl⟩
  · cases pc <;> cases h
    exact ⟨rfl, rfl⟩

/-- What a statement of a thread means for the timer. -/
structure Waiting (K : Kernel) (stop : Bool) (m m' : Mod) (b b' : Body) : Prop where
  jiffies : m'.jiffies = m.jiffies
  timer : m'.loopDetectTimer = m.loopDetectTimer ∨ b.arms = true ∧
    m'.loopDetectTimer = some (K.add m.jiffies (K.hz * 2)) ∧ b'.leaves stop = false ∧ b'.waits = none
  waits : ∀ endTime ∈ b'.waits, endTime ∈ b.waits ∨ b = .compute (.arm 0) ∧ endTime = K.add m.jiffies (5 * K.hz)
  leaves : b'.leaves stop = true → b.leaves stop = true ∨ ∃ endTime ∈ b.waits, endTime < m.jiffies
  primed : b'.primed = true → b.primed = true ∨ b = .compute .timerTest ∧ m.stLoopTimerEnable ≠ 0

theorem Computes.waiting {K : Kernel} {stop : Bool} {m m' : Mod} {pc pc' : ComputePc} (h : Computes K stop m pc m' pc') :
    Waiting K stop m m' (.compute pc) (.compute pc') := by
  have quiet {m' : Mod} {pc pc' : ComputePc} (hj : m'.jiffies = m.jiffies) (ht : m'.loopDetectTimer = m.loopDetectTimer)
      (hw : ∀ endTime ∈ (Body.compute pc').waits, endTime ∈ (Body.compute pc).waits)
      (hc : (Body.compute pc').leaves stop = true → (Body.compute pc).leaves stop = true)
      (hp : (Body.compute pc').primed = true → (Body.compute pc).primed = true) :
      Waiting K stop m m' (.compute pc) (.compute pc') :=
    ⟨hj, Or.inl ht, fun e he => Or.inl (hw e he), fun h => Or.inl (hc h), fun h => Or.inl (hp h)⟩
  cases h with
  | enters =>
    cases stop
    · exact quiet rfl rfl (fun _ he => he) (fun h => by cases h) id
    · exact quiet rfl rfl (fun _ he => he) (fun h => by cases h) id
  | drained endTime => exact quiet rfl rfl (fun _ he => he) id id
  | counts endTime skb rest =>
    rw [computePkt_eq]
    exact quiet rfl rfl (fun _ he => he) id id
  | sees d endTime => exact quiet rfl rfl (fun e he => by simp [Body.waits] at he) id (fun h => by cases h)
  | passes d endTime => split <;> exact quiet rfl rfl (fun _ he => he) id id
  | arms endTime =>
    refine ⟨rfl, Or.inl rfl, fun e he => ?_, Or.inl, fun h => (by cases h)⟩
    obtain rfl := Option.mem_some_iff.mp he
    by_cases h0 : endTime = 0
    · subst h0
      exact Or.inr ⟨rfl, rfl⟩
    · left
      simp [Body.waits, h0]
  | tests isStRunning endTime =>
    split
    · rename_i hleave
      refine ⟨rfl, Or.inl rfl, fun e he => (by cases he), fun _ => ?_, fun h => (by cases h)⟩
      rcases hleave with rfl | ⟨rfl, hlt⟩
      · exact Or.inl rfl
      · exact Or.inr ⟨endTime, rfl, hlt⟩
    · refine quiet rfl rfl (fun e he => ?_) id (fun h => by cases h)
      cases isStRunning with
      | true => exact he
      | false =>
        simp only [Body.waits, Option.mem_def, Option.ite_none_left_eq_some] at he ⊢
        exact he.2
  | testsTimer =>
    split
    · rename_i hen
      exact ⟨rfl, Or.inl rfl, fun e he => (by cases he), fun _ => Or.inl rfl, fun _ => Or.inr ⟨rfl, hen⟩⟩
    · exact quiet rfl rfl (fun _ he => he) (fun _ => rfl) (fun h => by cases h)
  | initsTimer =>
    exact ⟨rfl, Or.inr ⟨rfl, rfl, by simp [Body.leaves, Body.closing, Body.counting, ComputePc.counting], rfl⟩,
      fun e he => (by cases he), fun _ => Or.inl rfl, fun h => (by cases h)⟩
  | finishes d => split <;> exact quiet rfl rfl (fun _ he => he) id id
  | clearsReady => exact quiet rfl rfl (fun _ he => he) id id
  | flushed | frees | clearsPtr => exact quiet rfl rfl (fun _ he => he) (fun _ => rfl) (fun h => by cases h)
  | setsHook => exact quiet rfl rfl (fun _ he => he) (fun _ => rfl) (fun h => by cases h)
  | loses => exact quiet rfl rfl (fun _ he => he) id id

theorem bodyStep_waiting {K : Kernel} {stop : Bool} {x : Input} {m m' : Mod} {b b' : Body}
    (hs : bodyStep K stop x m b = some (m', b')) : Waiting K stop m m' b b' := by
  cases bodyStep_executes hs with
  | sends d h =>
    exact ⟨rfl, Or.inl rfl, fun e (he : e ∈ none) => (by cases he), 
      fun hl => (by simp [Body.leaves, Body.closing, Body.counting] at hl),
      fun (hp : false = true) => (by cases hp)⟩
  | computes h => exact h.waiting

/-- The command writes neither the clock nor the timer, which the unloading deletes. -/
theorem Acts.timer {s t : State} {ok : Bool} (h : Acts s ok t) : t.mod.jiffies = s.mod.jiffies ∧
    (t.mod.loopDetectTimer = s.mod.loopDetectTimer ∨ t.mod.loopDetectTimer = none) := by
  cases h with
  | delTimer => exact ⟨rfl, Or.inr rfl⟩
  | _ => exact ⟨rfl, Or.inl rfl⟩

theorem xmitSpeedtestPkt_jiffies (m : Mod) (skb : Skb) (dev : Option String) :
    (xmitSpeedtestPkt m skb dev).1.jiffies = m.jiffies := by
  rcases xmitSpeedtestPkt_skbs m skb dev with ⟨-, he⟩ | ⟨-, he⟩ <;> rw [he]
  rfl

theorem speedtestLoopDetectCb_timer {m : Mod} (K : Kernel) (hrun : isSpeedtestTaskRunning m = false) :
    (speedtestLoopDetectCb K m).jiffies = m.jiffies ∧
      (speedtestLoopDetectCb K m).loopDetectTimer = some (K.add m.jiffies (K.hz * 2)) := by
  simp only [speedtestLoopDetectCb, hrun, Bool.false_eq_true, if_false, armLoopDetectTimer, loopdetectTimerCircle]
  split <;> split <;> exact ⟨rfl, rfl⟩

theorem Kernel.timeAfterEq_self (K : Kernel) (a : Nat) : K.timeAfterEq a a = true := by
  rw [Kernel.timeAfterEq, Nat.add_sub_cancel_left, Nat.mod_self, decide_eq_true_eq]
  exact Nat.two_pow_pos _

theorem Body.holds_of_waits {b : Body} {endTime : Nat} (h : endTime ∈ b.waits) : b.holds = true ∧ b.slot = .compute := by
  rcases b with ⟨d, pc⟩ | pc
  · cases h
  · cases pc <;> first | exact ⟨rfl, rfl⟩ | cases h

/-- A thread that is leaving is a compute thread that has begun and has not ended. -/
theorem Body.of_leaves {stop : Bool} {b : Body} (h : b.leaves stop = true) :
    b.slot = .compute ∧ b.begun = true ∧ b.ended = false := by
  rcases b with ⟨d, pc⟩ | pc
  · simp [Body.leaves, Body.closing, Body.counting] at h
  · cases pc <;> first
      | exact ⟨rfl, rfl, rfl⟩
      | simp [Body.leaves, Body.closing, Body.begun, Body.counting, ComputePc.counting] at h

theorem Body.primed_of_not_leaves {stop : Bool} {b : Body} (h : b.leaves stop = false) : b.primed = false :=
  Body.primed_of_not_closing (Bool.or_eq_false_iff.mp h).1

/-- While the control waits for a thread, it goes on only when the thread has ended. -/
theorem Acts.waited_ended {s t : State} {ok : Bool} (h : Acts s ok t) {sl : Slot} {tid : Nat}
    (hw : s.ctl.stopping = some (sl, .wait tid)) : (s.threads[tid]?.any fun th => th.body.ended) = true := by
  have not_at {ctl : Ctl} (hctl : s.ctl = ctl) (hno : ctl.stopping = none) : False := by
    rw [hctl, hno] at hw
    cases hw
  cases h with
  | waited sl' tid' hstop hended =>
    cases hstop.symm.trans hw
    exact hended
  | leaves _ hstop | stays _ hstop | tells _ _ hstop | faults _ hstop => cases hstop.symm.trans hw
  | wakes _ _ hwakes | wakesNone _ hwakes => cases (stopping_of_wakes hwakes).symm.trans hw
  | parses _ _ hctl | rejects _ _ hctl | clears _ _ hctl | skips _ _ hctl | creates _ _ hctl | fails _ _ hctl
  | installs _ hctl | readies _ hctl | createsComp _ hctl | failsComp _ hctl | returns _ _ hctl | delTimer hctl
  | removeProc hctl | rxNull hctl | txNull hctl | fifoFree hctl => exact (not_at hctl rfl).elim

/-- What a statement of the control does to a thread: nothing that concerns the timer, unless it tells a compute thread
    to stop. -/
theorem Acts.leaving {s t : State} {ok : Bool} (h : Acts s ok t) (hheld : Held s) {i : Nat} {th : Thread}
    (hi : t.threads[i]? = some th) :
    th.body.begun = false ∨ ∃ th', s.threads[i]? = some th' ∧ th'.body = th.body ∧
      (th.leaving = true → th'.leaving = true ∨
        (s.ctl.stopping = some (.compute, .call) ∧ s.mod.ptr .compute = .task i ∧ t.mod = s.mod ∧
          t.ctl.stopping = some (.compute, .wait i))) := by
  cases h with
  | tells sl tid hstop hptr =>
    obtain ⟨th', hi', rfl⟩ := Option.map_eq_some_iff.mp ((List.getElem?_modify _ _ _ _).symm.trans hi)
    refine Or.inr ⟨th', hi', by split <;> rfl, fun hl => ?_⟩
    by_cases htid : tid = i
    · subst htid
      rw [if_pos rfl] at hl
      obtain ⟨th'', hi'', hsl⟩ := hheld.owner sl tid hptr
      obtain rfl := Option.some.inj (hi'.symm.trans hi'')
      obtain rfl : sl = .compute := hsl.symm.trans (Body.of_leaves hl).1
      exact Or.inr ⟨hstop, hptr, rfl, stopping_stopAt hstop⟩
    · rw [if_neg htid] at hl
      exact Or.inl hl
  | wakes sl tid =>
    obtain ⟨th', hi', rfl⟩ := Option.map_eq_some_iff.mp ((List.getElem?_modify _ _ _ _).symm.trans hi)
    refine Or.inr ⟨th', hi', by split <;> rfl, fun hl => Or.inl ?_⟩
    rw [← hl]
    split <;> rfl
  | creates | createsComp =>
    rcases Calls.getElem?_concat_cases hi with hi | ⟨-, rfl⟩
    · exact Or.inr ⟨th, hi, rfl, Or.inl⟩
    · exact Or.inl rfl
  | _ => exact Or.inr ⟨th, hi, rfl, Or.inl⟩

/-! ### The invariant -/

/-- While the timer is pending, it expires before any compute thread that waits has waited long enough. No compute
    thread is leaving then, unless it has been told to stop with `st_loop_timer_enable` not set, and the control still
    waits for it. -/
structure Timed (K : Kernel) (s : State) : Prop where
  clock : s.mod.jiffies < 2 ^ K.bitsPerLong
  pending : ∀ expires ∈ s.mod.loopDetectTimer, ∃ t, expires = K.add t (K.hz * 2) ∧ t ≤ s.mod.jiffies ∧
    s.mod.jiffies ≤ t + K.hz * 2 ∧ ∀ (i : Nat) (th : Thread), s.threads[i]? = some th →
      (∀ endTime ∈ th.body.waits, t + K.hz * 2 ≤ endTime) ∧ th.body.primed = false ∧
      (th.leaving = true → s.mod.stLoopTimerEnable = 0 ∧ s.ctl.stopping = some (.compute, .wait i))

namespace Timed
variable {K : Kernel} {s t : State}

theorem start (K : Kernel) {j : Nat} (hj : j < 2 ^ K.bitsPerLong) : Timed K (start K j) where
  clock := hj
  pending e he := by
    obtain rfl := Option.mem_some_iff.mp he
    exact ⟨j, rfl, le_refl _, Nat.le_add_right _ _, fun i th hi => by simp [Speedtest.start] at hi⟩

/-- A step that leaves the clock alone and does not start the timer keeps the invariant when it does so for every
    thread. -/
theorem of_frame (h : Timed K s) (hj : t.mod.jiffies = s.mod.jiffies)
    (htimer : t.mod.loopDetectTimer = s.mod.loopDetectTimer ∨ t.mod.loopDetectTimer = none)
    (hthreads : s.mod.loopDetectTimer ≠ none → ∀ (i : Nat) (th : Thread), t.threads[i]? = some th →
      th.body.begun = false ∨ ∃ th', s.threads[i]? = some th' ∧ th'.body = th.body ∧
        ((th'.leaving = true → s.mod.stLoopTimerEnable = 0 ∧ s.ctl.stopping = some (.compute, .wait i)) →
          th.leaving = true → t.mod.stLoopTimerEnable = 0 ∧ t.ctl.stopping = some (.compute, .wait i))) : Timed K t where
  clock := hj ▸ h.clock
  pending e he := by
    rcases htimer with ht | ht
    · rw [ht] at he
      obtain ⟨u, hu, hle, hge, hall⟩ := h.pending e he
      refine ⟨u, hu, hj ▸ hle, hj ▸ hge, fun i th hi => ?_⟩
      rcases hthreads (by rw [Option.mem_def.mp he]; simp) i th hi with hbegun | ⟨th', hi', hb, hl⟩
      · obtain ⟨hw, hc⟩ := Body.of_not_begun hbegun
        refine ⟨fun e he => (by rw [hw] at he; cases he), Body.primed_of_not_closing hc, fun hl => ?_⟩
        rw [(Body.of_leaves hl).2.1] at hbegun
        cases hbegun
      · obtain ⟨hw, hp, hleave⟩ := hall i th' hi'
        exact ⟨hb ▸ hw, hb ▸ hp, hl hleave⟩
    · rw [ht] at he
      cases he

/-- A step of something else than the threads and the control. -/
theorem of_env (h : Timed K s) (hj : t.mod.jiffies = s.mod.jiffies)
    (htimer : t.mod.loopDetectTimer = s.mod.loopDetectTimer ∨ t.mod.loopDetectTimer = none)
    (hen : t.mod.stLoopTimerEnable = s.mod.stLoopTimerEnable) (hth : t.threads = s.threads) (hctl : t.ctl = s.ctl) :
    Timed K t := by
  refine h.of_frame hj htimer fun _ i th hi => Or.inr ⟨th, hth ▸ hi, rfl, fun hl hleave => ?_⟩
  rw [hen, hctl]
  exact hl hleave

/-- The beginning of a command or of the unloading: the control was idle, and no thread was leaving. -/
theorem begins (h : Timed K s) (hidle : s.ctl = .idle) (ctl : Ctl) : Timed K (s.goto ctl) := by
  refine h.of_frame rfl (Or.inl rfl) fun _ i th hi => Or.inr ⟨th, hi, rfl, fun hl hleave => ?_⟩
  have := (hl hleave).2
  rw [hidle] at this
  cases this

/-- A compute thread that leaves its loop by itself finds the timer not pending. -/
theorem ran (h : Timed K s) {tid : Nat} {x : Input} {th : Thread} {m : Mod} {b : Body}
    (hok : Spaced K s (.thread tid x)) (hr : Ran K s t tid x th m b) : Timed K t := by
  obtain ⟨hth, -, hb, rfl⟩ := hr
  obtain ⟨harm, hinit⟩ := hok th hth
  have hwait := bodyStep_waiting hb
  have hen : m.stLoopTimerEnable = s.mod.stLoopTimerEnable := (bodyStep_settings hb).loopTimerEnable
  refine ⟨hwait.jiffies ▸ h.clock, fun e he => ?_⟩
  rcases hwait.timer with htimer | ⟨harms, htimer, hleaves, hwaits⟩
  · obtain ⟨u, hu, hle, hge, hall⟩ := h.pending e (htimer ▸ he)
    refine ⟨u, hu, hwait.jiffies.symm ▸ hle, hwait.jiffies.symm ▸ hge, fun i th' hi => ?_⟩
    dsimp only
    rw [hen]
    rcases Calls.getElem?_set_cases hi with ⟨rfl, rfl⟩ | ⟨-, hi⟩
    · obtain ⟨hw, hp, hleave⟩ := hall _ th hth
      refine ⟨fun endTime hend => ?_, ?_, fun hl => ?_⟩
      · rcases hwait.waits endTime hend with hend | ⟨hpc, rfl⟩
        · exact hw endTime hend
        · have hwrap := harm hpc
          rw [Kernel.add, Nat.mod_eq_of_lt hwrap]
          omega
      · by_contra hprimed
        rcases hwait.primed (by simpa using hprimed) with hprimed | ⟨hpc, hset⟩
        · rw [hp] at hprimed
          cases hprimed
        · exact hset (hleave (by rw [Thread.leaving, hpc]; rfl)).1
      · rcases hwait.leaves hl with hl | ⟨endTime, hend, hlt⟩
        · exact hleave hl
        · -- The timer would have expired before the end of the waiting.
          have := hw endTime hend
          omega
    · exact hall i th' hi
  · rw [htimer] at he
    obtain rfl := Option.mem_some_iff.mp he
    refine ⟨s.mod.jiffies, rfl, hwait.jiffies.ge, hwait.jiffies ▸ Nat.le_add_right _ _, fun i th' hi => ?_⟩
    rcases Calls.getElem?_set_cases hi with ⟨rfl, rfl⟩ | ⟨hne, hi⟩
    · refine ⟨fun e he => (by rw [hwaits] at he; cases he), Body.primed_of_not_leaves hleaves, fun hl => ?_⟩
      rw [Thread.leaving, hleaves] at hl
      cases hl
    · obtain ⟨hl, hw⟩ := hinit harms th' (List.mem_eraseIdx_iff_getElem?.mpr ⟨i, hne, hi⟩)
      refine ⟨hw, Body.primed_of_not_leaves hl, fun hleave => ?_⟩
      rw [hl] at hleave
      cases hleave

theorem acts (h : Timed K s) (hheld : Held s) {ok : Bool} (hok : Spaced K s (.ctl ok)) (ha : Acts s ok t) : Timed K t := by
  refine h.of_frame ha.timer.1 ha.timer.2 fun hpending i th hi => ?_
  rcases ha.leaving hheld hi with hbegun | ⟨th', hi', hb, hl⟩
  · exact Or.inl hbegun
  refine Or.inr ⟨th', hi', hb, fun hwaited hleave => ?_⟩
  rcases hl hleave with hl' | ⟨hcall, hptr, hmod, hwait⟩
  · -- The control does not leave a thread behind that has not ended.
    have hended := ha.waited_ended (hwaited hl').2
    rw [hi', Option.any_some, (Body.of_leaves hl').2.2] at hended
    cases hended
  · refine ⟨?_, hwait⟩
    have hbegun : s.begunIn .compute = true := by
      rw [State.begunIn, hptr]
      simp only [hi', Option.any_some, hb]
      exact (Body.of_leaves hleave).2.1
    rw [hmod]
    exact (hok hcall hbegun).resolve_left hpending

/-- The callback starts the timer again only when no task is running, so that no compute thread waits. -/
theorem timer (h : Timed K s) (hheld : Held s) (hdue : s.mod.loopDetectTimer.any (K.timeAfterEq s.mod.jiffies) = true) :
    Timed K { s with mod := speedtestLoopDetectCb K { s.mod with loopDetectTimer := none } } := by
  obtain ⟨e, he, -⟩ := (Option.any_eq_true _ _).mp hdue
  obtain ⟨u, -, -, -, hall⟩ := h.pending e he
  have hen : (speedtestLoopDetectCb K { s.mod with loopDetectTimer := none }).stLoopTimerEnable = s.mod.stLoopTimerEnable :=
    (SettingsKept.speedtestLoopDetectCb K _).loopTimerEnable
  cases hrun : isSpeedtestTaskRunning s.mod with
  | true =>
    have hcb : speedtestLoopDetectCb K { s.mod with loopDetectTimer := none } = { s.mod with loopDetectTimer := none } := by
      rw [speedtestLoopDetectCb, show isSpeedtestTaskRunning { s.mod with loopDetectTimer := none } = true from hrun]
      rfl
    rw [hcb]
    exact h.of_env rfl (Or.inr rfl) rfl rfl rfl
  | false =>
    obtain ⟨hjiffies, htimer⟩ := speedtestLoopDetectCb_timer (m := { s.mod with loopDetectTimer := none }) K hrun
    refine ⟨by rw [hjiffies]; exact h.clock, fun e he => ?_⟩
    rw [htimer] at he
    obtain rfl := Option.mem_some_iff.mp he
    refine ⟨s.mod.jiffies, rfl, hjiffies.ge, by rw [hjiffies]; exact Nat.le_add_right _ _, fun i th hi => ?_⟩
    obtain ⟨-, hp, hleave⟩ := hall i th hi
    refine ⟨fun endTime hend => ?_, hp, fun hl => ?_⟩
    · -- A thread that waits holds `compute_task`.
      obtain ⟨hholds, hslot⟩ := Body.holds_of_waits hend
      have hname := hheld.names i th hi hholds
      rw [hslot, Mod.ptr] at hname
      simp [isSpeedtestTaskRunning, hname] at hrun
    · rw [hen]
      exact hleave hl

theorem step (h : Timed K s) (hheld : Held s) {e : Event} (hok : Spaced K s e) (hs : Speedtest.step K s e = some t) :
    Timed K t := by
  cases step_steps hs with
  | runs hr => exact h.ran hok hr
  | acts ha => exact h.acts hheld hok ha
  | begins hidle | unloads hidle => exact h.begins hidle _
  | receives | passes => exact h.of_env rfl (Or.inl rfl) rfl rfl rfl
  | calls =>
    exact h.of_env (callRxHook_jiffies _ _ _) (callRxHook_timer _ _ _).2 (SettingsKept.callRxHook _ _ _).loopTimerEnable
      rfl rfl
  | transmits data dev =>
    exact h.of_env (xmitSpeedtestPkt_jiffies _ _ dev) (Or.inl (xmitSpeedtestPkt_timer _ _ dev).2)
      (SettingsKept.xmitSpeedtestPkt _ _ dev).loopTimerEnable rfl rfl
  | expires hdue => exact h.timer hheld hdue
  | ticks =>
    obtain ⟨hwrap, hdue⟩ := hok
    have hj : K.add s.mod.jiffies 1 = s.mod.jiffies + 1 := Nat.mod_eq_of_lt hwrap
    refine ⟨hj.trans_lt hwrap, fun e he => ?_⟩
    obtain ⟨u, rfl, hle, hge, hall⟩ := h.pending e he
    refine ⟨u, rfl, ?_, ?_, hall⟩
    · show u ≤ K.add s.mod.jiffies 1
      omega
    · show K.add s.mod.jiffies 1 ≤ u + K.hz * 2
      -- At the end of its two seconds the timer expires before the next tick.
      have hne : s.mod.jiffies ≠ u + K.hz * 2 := by
        intro heq
        have hdue' := hdue
        rw [Option.mem_def.mp he, Option.any_some, Kernel.add, ← heq, Nat.mod_eq_of_lt h.clock,
          Kernel.timeAfterEq_self] at hdue'
        cases hdue'
      omega

end Timed

end QuickStart.Speedtest
