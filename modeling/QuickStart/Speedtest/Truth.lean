import QuickStart.Speedtest.Slots

/-! # Task pointers tell the truth

A pointer is cleared by its thread at the end of the thread's function. It stays set when the creation fails,
when the thread leaves its function early, and when the thread is stopped before the function has begun; in any
other run a pointer that is set names a thread that has still to clear it, and the stop loops end. -/

namespace QuickStart.Speedtest
open State

/-- `make_speedtest_pkt` fails in the next step of the thread, or the thread divides by zero. -/
def Body.fails (x : Input) (m : Mod) : Body → Bool
  | .sender _ .make => x.made.isNone
  | .sender d (.setSend _) => pktRate (m.stCfg d) == 0
  | _ => false

/-- The pointer names a thread whose function has begun. -/
def State.begunIn (s : State) (sl : Slot) : Bool :=
  match s.mod.ptr sl with
  | .task tid => s.threads[tid]?.any (·.body.begun)
  | .null | .err => false

/-- A `kthread_stop` that comes next is for a thread whose function has begun. -/
def State.callsBegun (s : State) : Bool :=
  match s.ctl.stopping with
  | some (sl, .call) => s.begunIn sl
  | _ => true

/-- Every creation succeeds, no sender fails, and `kthread_stop` is called for threads that have begun. -/
def Orderly (s : State) : Event → Prop
  | .thread tid x => s.threads[tid]?.any (·.body.fails x s.mod) = false
  | .ctl ok => (s.ctl.creates.isSome = true → ok = true) ∧ s.callsBegun = true
  | _ => True

instance (s : State) : ∀ e : Event, Decidable (Orderly s e)
  | .thread _ _ => inferInstanceAs (Decidable (_ = _))
  | .ctl _ => inferInstanceAs (Decidable (_ ∧ _))
  | .command _ | .unload | .receive _ | .rxHook _ | .transmit _ _ | .timer | .tick => inferInstanceAs (Decidable True)

theorem Body.quits_cases {stop : Bool} {x : Input} {m : Mod} {b : Body} (h : b.quits stop x m = true) :
    b.fails x m = true ∨ (stop = true ∧ b.begun = false) := by
  rcases b with ⟨d, pc⟩ | pc <;> cases pc <;> first | exact Or.inl h | exact Or.inr ⟨h, rfl⟩

theorem stopping_stopAt {ctl : Ctl} {sl : Slot} {p q : StopPc} (h : ctl.stopping = some (sl, p)) :
    (ctl.stopAt q).stopping = some (sl, q) := by
  rcases ctl with _ | ⟨c, pc⟩ | pc | _ | _ <;> try cases h
  all_goals cases pc <;> cases h <;> rfl

theorem stopping_afterStop {ctl : Ctl} {sl sl' : Slot} {p q : StopPc} (h : ctl.stopping = some (sl, p))
    (h' : ctl.afterStop.stopping = some (sl', q)) : q = .test := by
  generalize hctl : ctl.afterStop = ctl' at h'
  cases afterStop_exits h hctl <;> cases h' <;> rfl

theorem stopping_afterWake {ctl : Ctl} {sl : Slot} (h : ctl.wakes = some sl) : ctl.afterWake.stopping = none := by
  generalize h' : ctl.afterWake = ctl'
  cases afterWake_wakes h h' <;> rfl

/-- The control waits for a thread only behind a call of `kthread_stop` for it. -/
theorem Acts.waits {s t : State} {ok : Bool} (h : Acts s ok t) {sl : Slot} {tid : Nat}
    (hw : t.ctl.stopping = some (sl, .wait tid)) : t.mod.ptr sl = .task tid := by
  cases h with
  | leaves sl' hstop => cases stopping_afterStop hstop hw
  | stays sl' hstop | waited sl' tid' hstop => cases (stopping_stopAt hstop).symm.trans hw
  | tells sl' tid' hstop hptr =>
    cases (stopping_stopAt hstop).symm.trans hw
    exact hptr
  | wakes sl' tid' hwakes => cases (stopping_afterWake hwakes).symm.trans hw
  | parses c d | creates c d => rcases dir_cases d with rfl | rfl <;> cases hw
  | skips c d =>
    rcases dir_cases d with rfl | rfl
    · cases hw
    · cases hrun : c.taskRunFlag <;> simp [State.goto, Ctl.stopping, hrun] at hw
  | _ => cases hw

/-- `kthread_stop` faults on a pointer that names no thread. -/
theorem Acts.faulted {s t : State} {ok : Bool} (h : Acts s ok t) (he : t.ctl = .oops .kthreadStop) :
    ∃ sl, s.ctl.stopping = some (sl, .call) ∧ ∀ tid, s.mod.ptr sl ≠ .task tid := by
  have not_stopping {sl : Slot} {p : StopPc} (hstop : t.ctl.stopping = some (sl, p)) : False := by
    rw [he] at hstop
    cases hstop
  cases h with
  | faults sl hstop hnone => exact ⟨sl, hstop, hnone⟩
  | leaves sl hstop =>
    have hexits := afterStop_exits hstop he
    generalize s.ctl = ctl at hexits
    cases hexits
  | stays sl hstop | tells sl tid hstop | waited sl tid hstop => exact (not_stopping (stopping_stopAt hstop)).elim
  | wakes sl tid hwakes =>
    have hwoken := afterWake_wakes hwakes he
    generalize s.ctl = ctl at hwoken
    cases hwoken
  | _ => cases he

/-- A pointer that is set names a thread that has still to clear it, and the stop loops come to their end. -/
structure Truthful (s : State) : Prop where
  held : Held s
  named : ∀ sl, s.mod.ptr sl = .null ∨ ∃ tid th, s.mod.ptr sl = .task tid ∧ s.threads[tid]? = some th ∧
    th.body.slot = sl ∧ th.body.holds = true
  begun : ∀ th ∈ s.threads, th.stop = true → th.body.begun = true
  waits : ∀ sl tid, s.ctl.stopping = some (sl, .wait tid) → s.mod.ptr sl = .null ∨ s.mod.ptr sl = .task tid
  stops : s.ctl ≠ .oops .kthreadStop

namespace Truthful
variable {K : Kernel} {s t : State}

theorem start (K : Kernel) (j : Nat) : Truthful (start K j) where
  held := Held.start K j
  named sl := by cases sl <;> exact Or.inl rfl
  begun th hm := by simp [Speedtest.start] at hm
  waits sl tid h := by cases h
  stops h := by cases h

theorem ran (h : Truthful s) {tid : Nat} {x : Input} {th : Thread} {m : Mod} {b : Body}
    (hok : Orderly s (.thread tid x)) (hr : Ran K s t tid x th m b) : Truthful t := by
  have hheld := h.held.ran hr
  obtain ⟨hth, -, hb, rfl⟩ := hr
  have hquits : th.body.quits th.stop x s.mod = false := by
    by_contra hq
    rcases Body.quits_cases (by simpa using hq) with hf | ⟨hstop, hbegun⟩
    · simp [Orderly, hth, hf] at hok
    · rw [h.begun th (List.mem_of_getElem? hth) hstop] at hbegun
      cases hbegun
  obtain ⟨hslot, hcase⟩ := bodyStep_ptr hb
  -- The pointers are as before, or the thread has cleared its own.
  have hptr (sl : Slot) : (m.ptr sl = s.mod.ptr sl ∧ (sl = th.body.slot → b.holds = th.body.holds)) ∨ m.ptr sl = .null := by
    rcases hcase with ⟨hp, hsame | ⟨hq, -⟩⟩ | ⟨-, -, hp⟩
    · exact Or.inl ⟨congrFun hp sl, fun _ => hsame⟩
    · rw [hquits] at hq
      cases hq
    · by_cases hsl : sl = th.body.slot
      · exact Or.inr (by rw [hp, hsl, Function.update_self])
      · exact Or.inl ⟨by rw [hp, Function.update_of_ne hsl], fun he => absurd he hsl⟩
  refine ⟨hheld, fun sl => ?_, fun th' hm hstop => ?_, fun sl tid' hw => ?_, h.stops⟩
  · rcases hptr sl with ⟨hp, hsame⟩ | hp
    · rcases h.named sl with hnull | ⟨i, th', hi, hth', hsl, hholds⟩
      · exact Or.inl (hp.trans hnull)
      · right
        by_cases hit : i = tid
        · subst hit
          rw [hth] at hth'
          obtain rfl := Option.some.inj hth'
          refine ⟨i, { th with body := b }, hp.trans hi, ?_, hslot.trans hsl, (hsame hsl.symm).trans hholds⟩
          rw [List.getElem?_set_self (List.getElem?_eq_some_iff.mp hth).1]
        · exact ⟨i, th', hp.trans hi, by rw [List.getElem?_set_ne (Ne.symm hit)]; exact hth', hsl, hholds⟩
    · exact Or.inl hp
  · rcases List.mem_or_eq_of_mem_set hm with hm | rfl
    · exact h.begun th' hm hstop
    · exact bodyStep_begun hb
  · rcases hptr sl with ⟨hp, -⟩ | hp
    · rw [hp]
      exact h.waits sl tid' hw
    · exact Or.inl hp

/-- Nothing changes for the pointers, and a thread that is told to stop has begun. -/
theorem of_modify (h : Truthful s) (hheld : Held t) (hptr : t.mod.ptr = s.mod.ptr) {tid : Nat} {f : Thread → Thread}
    (hth : t.threads = s.threads.modify tid f) (hbody : ∀ th, (f th).body = th.body)
    (hbegun : ∀ th, s.threads[tid]? = some th → (f th).stop = true → th.body.begun = true)
    (hwaits : ∀ sl tid, t.ctl.stopping = some (sl, .wait tid) → t.mod.ptr sl = .task tid)
    (hstops : t.ctl ≠ .oops .kthreadStop) : Truthful t := by
  refine ⟨hheld, fun sl => ?_, fun th hm hstop => ?_, fun sl i hw => Or.inr (hwaits sl i hw), hstops⟩
  · rw [hptr]
    refine (h.named sl).imp_right ?_
    rintro ⟨i, th, hi, hth', hsl, hholds⟩
    refine ⟨i, if tid = i then f th else th, hi, ?_, ?_, ?_⟩
    · rw [hth, List.getElem?_modify, hth']
      rfl
    · split
      · rw [hbody, hsl]
      · exact hsl
    · split
      · rw [hbody, hholds]
      · exact hholds
  · obtain ⟨i, hi⟩ := List.mem_iff_getElem?.mp hm
    rw [hth, List.getElem?_modify] at hi
    obtain ⟨th', hth', rfl⟩ := Option.map_eq_some_iff.mp hi
    by_cases hit : tid = i
    · subst hit
      rw [if_pos rfl] at hstop ⊢
      rw [hbody]
      exact hbegun th' hth' hstop
    · rw [if_neg hit] at hstop ⊢
      exact h.begun th' (List.mem_of_getElem? hth') hstop

theorem of_frame (h : Truthful s) (hheld : Held t) (hptr : t.mod.ptr = s.mod.ptr) (hth : t.threads = s.threads)
    (hwaits : ∀ sl tid, t.ctl.stopping = some (sl, .wait tid) → s.mod.ptr sl = .null ∨ s.mod.ptr sl = .task tid)
    (hstops : t.ctl ≠ .oops .kthreadStop) : Truthful t where
  held := hheld
  named sl := by
    rw [hptr, hth]
    exact h.named sl
  begun th hm := h.begun th (hth ▸ hm)
  waits sl tid hw := by
    rw [hptr]
    exact hwaits sl tid hw
  stops := hstops

theorem acts (h : Truthful s) {ok : Bool} (hok : Orderly s (.ctl ok)) (ha : Acts s ok t) : Truthful t := by
  have hheld := h.held.acts ha
  have hwaits (sl : Slot) (tid : Nat) (hw : t.ctl.stopping = some (sl, .wait tid)) : t.mod.ptr sl = .task tid :=
    ha.waits hw
  have begunIn {sl : Slot} (hstop : s.ctl.stopping = some (sl, .call)) : s.begunIn sl = true := by
    have := hok.2
    rwa [State.callsBegun, hstop] at this
  have hstops : t.ctl ≠ .oops .kthreadStop := by
    intro he
    obtain ⟨sl, hstop, hnone⟩ := ha.faulted he
    have := begunIn hstop
    rw [State.begunIn] at this
    split at this
    · rename_i tid hp
      exact hnone tid hp
    · cases this
    · cases this
  cases ha.managed with
  | quiet hth hptr =>
    exact h.of_frame hheld hptr hth (fun sl tid hw => Or.inr (by rw [← hptr]; exact hwaits sl tid hw)) hstops
  | tells sl tid hstop hnames hth hptr =>
    refine h.of_modify hheld hptr hth (fun _ => rfl) (fun th hi _ => ?_) hwaits hstops
    have := begunIn hstop
    rw [State.begunIn, hnames] at this
    simpa [hi] using this
  | wakes sl tid _ _ hth hptr =>
    exact h.of_modify hheld hptr hth (fun _ => rfl) (fun th hi hstop => h.begun th (List.mem_of_getElem? hi) hstop)
      hwaits hstops
  | fails sl hc hno =>
    have := hok.1 (by rw [hc]; rfl)
    rw [hno] at this
    cases this
  | creates sl hc _ hth hptr =>
    refine ⟨hheld, fun sl' => ?_, fun th hm hstop => ?_, fun sl' tid hw => Or.inr (hwaits sl' tid hw), hstops⟩
    · by_cases hsl : sl' = sl
      · refine Or.inr ⟨s.threads.length, ⟨.fresh sl, false, false⟩, ?_, ?_, ?_, ?_⟩
        · rw [hptr, hsl, Function.update_self]
        · rw [hth, List.getElem?_concat_length]
        · rw [slot_fresh, hsl]
        · exact holds_fresh sl
      · rw [hptr, Function.update_of_ne hsl]
        refine (h.named sl').imp_right ?_
        rintro ⟨i, th, hi, hth', hslot, hholds⟩
        refine ⟨i, th, hi, ?_, hslot, hholds⟩
        rw [hth, List.getElem?_append_left (List.getElem?_eq_some_iff.mp hth').1]
        exact hth'
    · rw [hth, List.mem_append, List.mem_singleton] at hm
      rcases hm with hm | rfl
      · exact h.begun th hm hstop
      · cases hstop

theorem outside (h : Truthful s) (ho : Outside s t) : Truthful t := by
  refine h.of_frame (h.held.outside ho) ho.mod.ptr ho.threads (fun sl tid hw => ?_) ?_
  · rcases ho.ctl with hc | ⟨-, hc⟩ | ⟨-, nums, -, hc⟩
    · exact h.waits sl tid (hc ▸ hw)
    · rw [hc] at hw
      cases hw
    · rw [hc] at hw
      cases hw
  · rcases ho.ctl with hc | ⟨-, hc⟩ | ⟨-, nums, -, hc⟩ <;> rw [hc]
    · exact h.stops
    · intro he
      cases he
    · intro he
      cases he

theorem step (h : Truthful s) {e : Event} (hok : Orderly s e) (hs : step K s e = some t) : Truthful t := by
  rcases step_cases hs with ⟨tid, x, th, m, b, rfl, hr⟩ | ⟨ok, rfl, ha⟩ | ho
  · exact h.ran hok hr
  · exact h.acts hok ha
  · exact h.outside ho

end Truthful

/-- In the runs of `Orderly` a pointer that is set names a thread that has still to clear it: once all threads
    have returned no test is running, and a stop loop ends when the thread it has stopped has returned. -/
theorem pointers_truthful {K : Kernel} {s : State} (h : (lts K).Reach Orderly s) :
    (∀ sl, s.mod.ptr sl = .null ∨ ∃ tid th, s.mod.ptr sl = .task tid ∧ s.threads[tid]? = some th ∧
      th.body.ended = false) ∧
    ((∀ th ∈ s.threads, th.body.ended = true) →
      (∀ sl, s.mod.ptr sl = .null) ∧ isSpeedtestTaskRunning s.mod = false) ∧
    (∀ sl tid, s.ctl.stopping = some (sl, .wait tid) → (s.threads[tid]?.any fun th => th.body.ended) = true →
      s.mod.ptr sl = .null) ∧
    s.ctl ≠ .oops .kthreadStop := by
  have inv : Truthful s := h.invariant (fun _ ⟨j, _, he⟩ => he ▸ Truthful.start K j) fun _ _ _ hi hok hs => hi.step hok hs
  have alive (sl : Slot) : s.mod.ptr sl = .null ∨ ∃ tid th, s.mod.ptr sl = .task tid ∧ s.threads[tid]? = some th ∧
      th.body.ended = false := by
    refine (inv.named sl).imp_right ?_
    rintro ⟨tid, th, hp, hth, -, hholds⟩
    refine ⟨tid, th, hp, hth, ?_⟩
    by_contra he
    rw [Body.ended_of_not_holds (by simpa using he)] at hholds
    cases hholds
  refine ⟨alive, fun hall => ?_, fun sl tid hw hended => ?_, inv.stops⟩
  · have hnull (sl : Slot) : s.mod.ptr sl = .null := by
      refine (alive sl).resolve_right ?_
      rintro ⟨tid, th, -, hth, he⟩
      rw [hall th (List.mem_of_getElem? hth)] at he
      cases he
    refine ⟨hnull, ?_⟩
    have h₀ : (s.mod.stCfg 0).task = .null := hnull (.sender 0)
    have h₁ : (s.mod.stCfg 1).task = .null := hnull (.sender 1)
    have hc : s.mod.computeTask = .null := hnull .compute
    rw [isSpeedtestTaskRunning, h₀, h₁, hc]
    rfl
  · refine (inv.waits sl tid hw).resolve_right fun hp => ?_
    rcases alive sl with hnull | ⟨i, th, hi, hth, he⟩
    · rw [hp] at hnull
      cases hnull
    · obtain rfl := Ptr.task.inj (hp.symm.trans hi)
      simp [hth, he] at hended

/-- A test whose threads have all returned after the unloading has stopped the compute thread. -/
theorem pointers_truthful_unload : ∃ s, (lts kernel32).Reach Orderly s ∧ s.ctl = .gone ∧ s.threads.length = 3 ∧
    (∀ th ∈ s.threads, th.body.ended = true) ∧ isSpeedtestTaskRunning s.mod = false := by
  have hrun : ((lts kernel32).runIf Orderly (Speedtest.start kernel32 1000)
      (commandRun ++ [Event.thread 2 ⟨none, true, 0⟩] ++ senderRun 0 ++ senderRun 1 ++
        Event.unload :: List.replicate 5 (Event.ctl true) ++ List.replicate 15 (Event.thread 2 ⟨none, true, 0⟩) ++
        List.replicate 6 (Event.ctl true))).any
      (fun s => s.ctl == .gone && s.threads.length == 3 && s.threads.all (·.body.ended)) = true := by decide
  obtain ⟨s, hr, hp⟩ := Lts.exists_reach_of_runIf hrun ⟨1000, by decide, rfl⟩
  simp only [Bool.and_eq_true, beq_iff_eq, List.all_eq_true] at hp
  obtain ⟨⟨hctl, hlen⟩, hall⟩ := hp
  exact ⟨s, hr, hctl, hlen, hall, ((pointers_truthful hr).2.1 hall).2⟩

/-- `kthread_create` fails for the first sender: no thread exists, and the pointer is an error. -/
theorem pointer_error : ∃ s, (lts kernel32).Reachable s ∧ s.ctl = .idle ∧ (∀ th ∈ s.threads, th.body.ended = true) ∧
    s.mod.ptr (.sender 0) ≠ .null ∧ isSpeedtestTaskRunning s.mod = true := by
  have hrun : ((lts kernel32).runIf (fun _ _ => True) (Speedtest.start kernel32 1000)
      (Event.command [1, 0, 100, 42, 1] :: List.replicate 5 (Event.ctl true) ++ [Event.ctl false, .ctl true])).any
      (fun s => s.ctl == .idle && s.threads.all (·.body.ended) && s.mod.ptr (.sender 0) != .null &&
        isSpeedtestTaskRunning s.mod) = true := by decide
  obtain ⟨s, hr, hp⟩ := Lts.exists_reach_of_runIf hrun ⟨1000, by decide, rfl⟩
  simp only [Bool.and_eq_true, beq_iff_eq, List.all_eq_true, bne_iff_ne, ne_eq] at hp
  obtain ⟨⟨⟨hctl, hall⟩, hp⟩, hrunning⟩ := hp
  exact ⟨s, hr, hctl, hall, hp, hrunning⟩

end QuickStart.Speedtest
