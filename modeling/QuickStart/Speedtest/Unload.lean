import QuickStart.Speedtest.RxHook
import QuickStart.Speedtest.Truth

/-! # What the unloading leaves behind

`speedtest_exit_module` removes the timer before it stops the threads, and a compute thread that it stops starts
the timer again. A thread clears its pointer before its last statements, and a stop loop that finds the pointer
`NULL` does not wait for them. -/

namespace QuickStart.Speedtest
open State

/-- The unloading has executed `del_timer_sync`. -/
def Ctl.deleted : Ctl → Bool
  | .unload .delTimer => false
  | .unload _ | .gone => true
  | _ => false

/-- The unloading is behind the stop loop of the slot. -/
def Ctl.left (ctl : Ctl) (sl : Slot) : Bool := ctl.deleted && ctl.vacant sl

/-- The unloading has written `NULL` to the receive hook. -/
def Ctl.rxCleared : Ctl → Bool
  | .unload .txNull | .unload .fifoFree | .gone => true
  | _ => false

/-- The unloading has written `NULL` to the transmit hook. -/
def Ctl.txCleared : Ctl → Bool
  | .unload .fifoFree | .gone => true
  | _ => false

/-- The next statement of the thread is `speedtest_loopdetect_timer_init()`. -/
def Body.arms : Body → Bool
  | .compute .timerInit => true
  | _ => false

/-- All threads for the slot have ended. -/
def State.slotEnded (s : State) (sl : Slot) : Bool := s.threads.all fun th => th.body.slot != sl || th.body.ended

/-- When a stop loop is about to find its pointer `NULL`, all threads for it have ended. -/
def State.leavesEnded (s : State) : Bool :=
  match s.ctl.stopping with
  | some (sl, .test) => s.mod.ptr sl != .null || s.slotEnded sl
  | _ => true

/-- From `del_timer_sync` on no thread starts the timer, and a stop loop that is left leaves no thread behind. -/
def Tidy (s : State) : Event → Prop
  | .thread tid _ => s.ctl.deleted = true → s.threads[tid]?.any (·.body.arms) = false
  | .ctl _ => s.ctl.deleted = true → s.leavesEnded = true
  | _ => True

instance (s : State) : ∀ e : Event, Decidable (Tidy s e)
  | .thread _ _ | .ctl _ => inferInstanceAs (Decidable (_ → _))
  | .command _ | .unload | .receive _ | .rxHook _ | .transmit _ _ | .timer | .tick => inferInstanceAs (Decidable True)

/-! ### The timer and the transmit hook -/

theorem bodyStep_timer {K : Kernel} {stop : Bool} {x : Input} {m m' : Mod} {b b' : Body}
    (hs : bodyStep K stop x m b = some (m', b')) :
    m'.txHook = m.txHook ∧ (m'.loopDetectTimer = m.loopDetectTimer ∨ b.arms = true) := by
  cases bodyStep_executes hs with
  | sends d h => exact ⟨rfl, Or.inl rfl⟩
  | computes h =>
    cases h with
    | initsTimer => exact ⟨rfl, Or.inr rfl⟩
    | counts =>
      rw [computePkt_eq]
      exact ⟨rfl, Or.inl rfl⟩
    | _ => exact ⟨rfl, Or.inl rfl⟩

theorem callRxHook_timer (m : Mod) (skb : Skb) (h : RxHook) : (callRxHook m skb h).1.txHook = m.txHook ∧
    ((callRxHook m skb h).1.loopDetectTimer = m.loopDetectTimer ∨ (callRxHook m skb h).1.loopDetectTimer = none) := by
  rcases callRxHook_cases m skb h with he | he | ⟨bit, he⟩ <;> rw [he]
  · exact ⟨rfl, Or.inl rfl⟩
  · rw [kfifoIn]
    split <;> exact ⟨rfl, Or.inl rfl⟩
  · simp only [freeProbeSkb]
    split
    · exact ⟨rfl, Or.inr rfl⟩
    · exact ⟨rfl, Or.inl rfl⟩

theorem xmitSpeedtestPkt_timer (m : Mod) (skb : Skb) (dev : Option String) :
    (xmitSpeedtestPkt m skb dev).1.txHook = m.txHook ∧
      (xmitSpeedtestPkt m skb dev).1.loopDetectTimer = m.loopDetectTimer := by
  rcases xmitSpeedtestPkt_skbs m skb dev with ⟨-, he⟩ | ⟨-, he⟩ <;> rw [he] <;> exact ⟨rfl, rfl⟩

/-- A thread that has ended takes no step. -/
theorem bodyStep_live {K : Kernel} {stop : Bool} {x : Input} {m m' : Mod} {b b' : Body}
    (hs : bodyStep K stop x m b = some (m', b')) : b.ended = false := by
  rcases b with ⟨d, pc⟩ | pc <;> cases pc <;> first | rfl | cases hs

theorem Body.ended_of_willProbe {b : Body} (h : b.willProbe = true) : b.ended = false ∧ b.slot = .compute := by
  rcases b with ⟨d, pc⟩ | pc
  · cases h
  · cases pc <;> first | exact ⟨rfl, rfl⟩ | cases h

/-! ### The control of the unloading -/

theorem deleted_stopAt {ctl : Ctl} {p : StopPc} : (ctl.stopAt p).deleted = ctl.deleted := by
  rcases ctl with _ | ⟨c, pc⟩ | pc | _ | _ <;> try rfl
  all_goals cases pc <;> rfl

theorem deleted_afterStop {ctl : Ctl} {sl : Slot} {p : StopPc} (h : ctl.stopping = some (sl, p)) :
    ctl.afterStop.deleted = ctl.deleted := by
  generalize h' : ctl.afterStop = ctl'
  cases afterStop_exits h h' <;> rfl

theorem deleted_afterWake {ctl : Ctl} {sl : Slot} (h : ctl.wakes = some sl) : ctl.afterWake.deleted = false := by
  generalize h' : ctl.afterWake = ctl'
  cases afterWake_wakes h h' <;> rfl

theorem left_of_rxCleared {ctl : Ctl} (h : ctl.rxCleared = true) (sl : Slot) : ctl.left sl = true := by
  rcases ctl with _ | ⟨c, pc⟩ | pc | _ | _ <;> try cases h
  · cases pc <;> first | rfl | cases h
  · rfl

theorem rxCleared_of_txCleared {ctl : Ctl} (h : ctl.txCleared = true) : ctl.rxCleared = true := by
  rcases ctl with _ | ⟨c, pc⟩ | pc | _ | _ <;> try cases h
  · cases pc <;> first | rfl | cases h
  · rfl

theorem deleted_of_left {ctl : Ctl} {sl : Slot} (h : ctl.left sl = true) : ctl.deleted = true :=
  (Bool.and_eq_true_iff.mp h).1

theorem left_stopAt {ctl : Ctl} {p : StopPc} {sl : Slot} : (ctl.stopAt p).left sl = ctl.left sl := by
  rw [Ctl.left, deleted_stopAt, vacant_stopAt, Ctl.left]

theorem rxCleared_of_stopping {ctl : Ctl} {sl : Slot} {p : StopPc} (h : ctl.stopping = some (sl, p)) :
    ctl.rxCleared = false := by
  rcases ctl with _ | ⟨c, pc⟩ | pc | _ | _ <;> try cases h
  · rfl
  · cases pc <;> cases h <;> rfl

theorem rxCleared_afterStop {ctl : Ctl} {sl : Slot} {p : StopPc} (h : ctl.stopping = some (sl, p)) :
    ctl.afterStop.rxCleared = false := by
  generalize h' : ctl.afterStop = ctl'
  cases afterStop_exits h h' <;> rfl

/-- The unloading leaves no thread behind, and what it has undone stays undone. -/
structure Leaving (s : State) : Prop where
  ended : ∀ sl, s.ctl.left sl = true → ∀ th ∈ s.threads, th.body.slot = sl → th.body.ended = true
  timer : s.ctl.deleted = true → s.mod.loopDetectTimer = none
  rxHook : s.ctl.rxCleared = true → s.mod.rxHook = .null
  txHook : s.ctl.txCleared = true → s.mod.txHook = false

namespace Leaving
variable {K : Kernel} {s t : State}

theorem of_not_deleted (h : s.ctl.deleted = false) : Leaving s := by
  have not_rx (hrx : s.ctl.rxCleared = true) : False := by
    rw [deleted_of_left (left_of_rxCleared hrx .compute)] at h
    cases h
  refine ⟨fun sl hl => ?_, fun hd => ?_, fun hrx => (not_rx hrx).elim,
    fun htx => (not_rx (rxCleared_of_txCleared htx)).elim⟩
  · rw [deleted_of_left hl] at h
    cases h
  · rw [hd] at h
    cases h

theorem start (K : Kernel) (j : Nat) : Leaving (start K j) := of_not_deleted rfl

/-- No thread that had ended is taken up again. -/
theorem ended_of_same (h : Leaving s) (hbodies : SameBodies s t) {sl : Slot} (hl : s.ctl.left sl = true) :
    ∀ th ∈ t.threads, th.body.slot = sl → th.body.ended = true := by
  intro th hm hsl
  obtain ⟨i, hi⟩ := List.mem_iff_getElem?.mp hm
  obtain ⟨th', hi', hb⟩ := hbodies i th hi
  rw [← hb] at hsl ⊢
  exact h.ended sl hl th' (List.mem_of_getElem? hi') hsl

theorem ran (h : Leaving s) {tid : Nat} {x : Input} {th : Thread} {m : Mod} {b : Body} (hok : Tidy s (.thread tid x))
    (hr : Ran K s t tid x th m b) : Leaving t := by
  obtain ⟨hth, -, hb, rfl⟩ := hr
  have hlive := bodyStep_live hb
  obtain ⟨htx, htimer⟩ := bodyStep_timer hb
  -- The thread is not one that the unloading has waited for.
  have not_left (hl : s.ctl.left th.body.slot = true) : False := by
    rw [h.ended _ hl th (List.mem_of_getElem? hth) rfl] at hlive
    cases hlive
  refine ⟨fun sl hl th' hm hsl => ?_, fun hd => ?_, fun hrx => ?_, fun hc => htx.trans (h.txHook hc)⟩
  · rcases List.mem_or_eq_of_mem_set hm with hm | rfl
    · exact h.ended sl hl th' hm hsl
    · rw [(bodyStep_ptr hb).1] at hsl
      exact (not_left (hsl ▸ hl)).elim
  · rcases htimer with he | harms
    · exact he.trans (h.timer hd)
    · have := hok hd
      rw [hth, Option.any_some, harms] at this
      cases this
  · rcases (bodyStep_rxHook hb).2.2 with he | ⟨hp, -⟩
    · exact he.trans (h.rxHook hrx)
    · exact (not_left ((Body.ended_of_willProbe hp).2 ▸ left_of_rxCleared hrx .compute)).elim

theorem of_stopAt (h : Leaving s) {sl : Slot} {p q : StopPc} (hstop : s.ctl.stopping = some (sl, p))
    (hbodies : SameBodies s t) (hmod : t.mod = s.mod) (hctl : t.ctl = s.ctl.stopAt q) : Leaving t := by
  have hrx : t.ctl.rxCleared = false := by
    rw [hctl]
    exact rxCleared_of_stopping (stopping_stopAt hstop)
  refine ⟨fun sl' hl => ?_, fun hd => ?_, fun hc => ?_, fun hc => ?_⟩
  · rw [hctl, left_stopAt] at hl
    exact h.ended_of_same hbodies hl
  · rw [hctl, deleted_stopAt] at hd
    rw [hmod]
    exact h.timer hd
  · rw [hrx] at hc
    cases hc
  · rw [rxCleared_of_txCleared hc] at hrx
    cases hrx

theorem acts (h : Leaving s) {ok : Bool} (hok : Tidy s (.ctl ok)) (ha : Acts s ok t) : Leaving t := by
  cases ha with
  | leaves sl hstop hnull =>
    cases hd : s.ctl.deleted with
    | false => exact of_not_deleted ((deleted_afterStop hstop).trans hd)
    | true =>
      have hended : s.slotEnded sl = true := by
        have := hok hd
        rw [State.leavesEnded, hstop] at this
        simpa [hnull] using this
      have hrx := rxCleared_afterStop hstop
      refine ⟨fun sl' hl th hm hsl => ?_, fun _ => h.timer hd, fun hc => ?_, fun hc => ?_⟩
      · rcases vacant_afterStop hstop (Bool.and_eq_true_iff.mp hl).2 with rfl | hv
        · simpa [hsl] using List.all_eq_true.mp hended th hm
        · exact h.ended sl' (Bool.and_eq_true_iff.mpr ⟨hd, hv⟩) th hm hsl
      · exact absurd hc (by rw [State.goto, hrx]; decide)
      · exact absurd (rxCleared_of_txCleared hc) (by rw [State.goto, hrx]; decide)
  | stays sl hstop | waited sl tid hstop => exact h.of_stopAt hstop (.of_eq rfl) rfl rfl
  | tells sl tid hstop => exact h.of_stopAt hstop (.of_modify rfl fun _ => rfl) rfl rfl
  | wakes sl tid hwakes => exact of_not_deleted (deleted_afterWake hwakes)
  | delTimer hctl =>
    refine ⟨fun sl hl => ?_, fun _ => rfl, fun hc => (by cases hc), fun hc => (by cases hc)⟩
    rcases sl with d | _
    · rcases dir_cases d with rfl | rfl <;> cases hl
    · cases hl
  | removeProc hctl =>
    exact ⟨fun sl _ => h.ended sl (by rw [hctl]; rfl), fun _ => h.timer (by rw [hctl]; rfl), fun hc => (by cases hc),
      fun hc => (by cases hc)⟩
  | rxNull hctl =>
    exact ⟨fun sl _ => h.ended sl (by rw [hctl]; rfl), fun _ => h.timer (by rw [hctl]; rfl), fun _ => rfl,
      fun hc => (by cases hc)⟩
  | txNull hctl =>
    exact ⟨fun sl _ => h.ended sl (by rw [hctl]; rfl), fun _ => h.timer (by rw [hctl]; rfl),
      fun _ => h.rxHook (by rw [hctl]; rfl), fun _ => rfl⟩
  | fifoFree hctl =>
    exact ⟨fun sl _ => h.ended sl (by rw [hctl]; rfl), fun _ => h.timer (by rw [hctl]; rfl),
      fun _ => h.rxHook (by rw [hctl]; rfl), fun _ => h.txHook (by rw [hctl]; rfl)⟩
  | _ => exact of_not_deleted rfl

theorem outside (h : Leaving s) (hth : t.threads = s.threads) (hctl : t.ctl = s.ctl)
    (htimer : s.mod.loopDetectTimer = none → t.mod.loopDetectTimer = none) (hrx : t.mod.rxHook = s.mod.rxHook)
    (htx : t.mod.txHook = s.mod.txHook) : Leaving t where
  ended _ hl := h.ended_of_same (.of_eq hth) (hctl ▸ hl)
  timer hd := htimer (h.timer (hctl ▸ hd))
  rxHook hc := hrx.trans (h.rxHook (hctl ▸ hc))
  txHook hc := htx.trans (h.txHook (hctl ▸ hc))

theorem step (h : Leaving s) {e : Event} (hok : Tidy s e) (hs : step K s e = some t) : Leaving t := by
  cases step_steps hs with
  | runs hr => exact h.ran hok hr
  | acts ha => exact h.acts hok ha
  | begins | unloads => exact of_not_deleted rfl
  | receives | passes | ticks => exact h.outside rfl rfl id rfl rfl
  | @calls i r =>
    obtain ⟨htx, htimer⟩ := callRxHook_timer s.mod r.2 r.1
    refine h.outside rfl rfl (fun hn => ?_) (callRxHook_same s.mod r.2 r.1).rxHook htx
    rcases htimer with he | he
    · exact he.trans hn
    · exact he
  | transmits data dev =>
    obtain ⟨htx, htimer⟩ := xmitSpeedtestPkt_timer { s.mod with nextSkb := s.mod.nextSkb + 1 } (s.mod.newSkb data) dev
    exact h.outside rfl rfl htimer.trans (xmitSpeedtestPkt_same _ _ dev).rxHook htx
  | expires hdue =>
    -- The callback runs only when the timer is pending.
    cases hd : s.ctl.deleted with
    | false => exact of_not_deleted hd
    | true =>
      rw [h.timer hd] at hdue
      cases hdue

end Leaving

theorem leaving {K : Kernel} {s : State} (h : (lts K).Reach Tidy s) : Leaving s :=
  h.invariant (fun _ ⟨j, _, he⟩ => he ▸ Leaving.start K j) fun _ _ _ hi hok hs => hi.step hok hs

/-- In the runs of `Tidy` whose commands come one at a time, and none after the unloading has begun, nothing is left
    when the unloading has returned. -/
theorem unload_clean {n : Nat} {K : Kernel} {s : Writers n}
    (h : (writersLts n K).Reach (fun s e => s.OneAtATime e ∧ Tidy s.whole e.2) s) {i : Fin n} (hgone : s.ctls i = .gone) :
    (∀ th ∈ s.threads, th.body.ended = true) ∧ s.mod.rxHook = .null ∧ s.mod.txHook = false ∧
      s.mod.loopDetectTimer = none := by
  obtain ⟨halone, hr⟩ := Writers.reach_whole _ h
  have hctl : s.whole.ctl = .gone := (halone.busy_of_ne (by rw [hgone]; decide)).trans hgone
  have inv := leaving hr
  exact ⟨fun th hm => inv.ended _ (by rw [hctl]; rfl) th hm rfl, inv.rxHook (by rw [hctl]; rfl),
    inv.txHook (by rw [hctl]; rfl), inv.timer (by rw [hctl]; rfl)⟩

/-- One process unloads in the middle of the test of another, without a loop timer. -/
theorem unload_clean_testing : ∃ s : Writers 2,
    (writersLts 2 kernel32).Reach (fun s e => s.OneAtATime e ∧ Tidy s.whole e.2) s ∧ s.ctls 1 = .gone ∧
    s.threads.length = 3 ∧ (∀ th ∈ s.threads, th.body.ended = true) ∧ s.mod.loopDetectTimer = none := by
  have hrun : ((writersLts 2 kernel32).runIf (fun s e => s.OneAtATime e ∧ Tidy s.whole e.2) (.start 2 kernel32 1000)
      ((Event.command [1, 0, 100, 42, 0] :: List.replicate 16 (Event.ctl true) ++
        [Event.thread 2 ⟨none, true, 0⟩, .thread 0 ⟨none, true, 0⟩, .thread 1 ⟨none, true, 0⟩]).map ((0, ·)) ++
      (Event.unload :: List.replicate 3 (Event.ctl true) ++ List.replicate 12 (Event.thread 0 ⟨some pkt42, true, 0⟩) ++
        List.replicate 4 (Event.ctl true) ++ List.replicate 12 (Event.thread 1 ⟨some pkt42, true, 0⟩) ++
        List.replicate 4 (Event.ctl true) ++ List.replicate 13 (Event.thread 2 ⟨none, true, 0⟩) ++
        List.replicate 6 (Event.ctl true)).map ((1, ·)))).any
      (fun s => s.ctls 1 == .gone && s.threads.length == 3) = true := by decide +kernel
  obtain ⟨s, hr, hp⟩ := Lts.exists_reach_of_runIf hrun ⟨1000, by decide, rfl⟩
  simp only [Bool.and_eq_true, beq_iff_eq] at hp
  obtain ⟨hended, -, -, htimer⟩ := unload_clean hr hp.1
  exact ⟨s, hr, hp.1, hp.2, hended, htimer⟩

/-- The compute thread that the unloading stops starts the timer again. -/
theorem unload_timer : ∃ s : Writers 1, (writersLts 1 kernel32).Reachable s ∧ s.ctls 0 = .gone ∧
    (∀ th ∈ s.threads, th.body.ended = true) ∧ s.mod.loopDetectTimer ≠ none := by
  have hrun : ((writersLts 1 kernel32).runIf (fun _ _ => True) (.start 1 kernel32 1000)
      ((commandRun ++ [Event.thread 2 ⟨none, true, 0⟩] ++ senderRun 0 ++ senderRun 1 ++
        Event.unload :: List.replicate 5 (Event.ctl true) ++ List.replicate 15 (Event.thread 2 ⟨none, true, 0⟩) ++
        List.replicate 6 (Event.ctl true)).map ((0, ·)))).any
      (fun s => s.ctls 0 == .gone && s.threads.all (·.body.ended) && s.mod.loopDetectTimer != none) = true := by
    decide +kernel
  obtain ⟨s, hr, hp⟩ := Lts.exists_reach_of_runIf hrun ⟨1000, by decide, rfl⟩
  simp only [Bool.and_eq_true, beq_iff_eq, List.all_eq_true, bne_iff_ne, ne_eq] at hp
  exact ⟨s, hr, hp.1.1, hp.1.2, hp.2⟩

end QuickStart.Speedtest
