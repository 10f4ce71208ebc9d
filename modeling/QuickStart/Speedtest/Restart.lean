import QuickStart.Speedtest.Progress
import QuickStart.Speedtest.Writers

/-! # Starting a test

A command writes the configuration before it has stopped the threads of the test before, and these still write
`enable` and the status at their end. When they have written them in time, the command returns with two new
senders that run with its numbers. -/

namespace QuickStart.Speedtest
open State

/-- The direction for which a command that starts a test stores its numbers next. -/
def Ctl.stores : Ctl → Option Dir
  | .cmd c (.parse d) => if c.full then some d else none
  | _ => none

/-- The direction for which a command that starts a test tests `enable` and clears the status next. -/
def Ctl.zeroes : Ctl → Option Dir
  | .cmd c (.clear d) => if c.full then some d else none
  | _ => none

/-- Every creation succeeds and no sender fails. When a command stores the numbers of a direction, no sender is left
    that still clears its `enable`; when it clears the status, no thread is left that still writes it. -/
def Restartable (s : State) : Event → Prop
  | .thread tid x => s.threads[tid]?.any (·.body.fails x s.mod) = false
  | .ctl ok => (s.ctl.creates.isSome = true → ok = true) ∧
    (∀ d ∈ s.ctl.stores, ∀ th ∈ s.threads, th.body.willDisable d = false) ∧
    ∀ d ∈ s.ctl.zeroes, ∀ th ∈ s.threads, th.body.willWrite d = false
  | _ => True

instance (s : State) : ∀ e : Event, Decidable (Restartable s e)
  | .thread _ _ => inferInstanceAs (Decidable (_ = _))
  | .ctl _ => inferInstanceAs (Decidable (_ ∧ _ ∧ _))
  | .command _ | .unload | .receive _ | .rxHook _ | .transmit _ _ | .timer | .tick => inferInstanceAs (Decidable True)

/-- What a command reaches that does not start a test. -/
structure Halting (s : State) (c : Command) (pc : CmdPc) : Prop where
  run : c.taskRunFlag = false
  at_ : (∃ r, pc = .out r) ∨ (∃ d, pc = .parse d) ∨
    (c.nums.length = 5 ∧ ((∃ d p, pc = .stop d p) ∨ ∃ d, pc = .clear d))
  off : c.nums.length = 5 → ∀ d, pc.parsed d = true → (s.mod.stCfg d).enable = 0

structure Underway (s : State) (c : Command) (pc : CmdPc) : Prop where
  base : c.base ≤ s.threads.length
  full : c.full → Progress s c pc
  halting : ¬c.full → Halting s c pc

/-- A command that is under way has reached what it should, and has not faulted on a pointer to no thread. -/
structure Restart (s : State) : Prop where
  held : Held s
  manned : Manned s
  cmd : ∀ c pc, s.ctl = .cmd c pc → Underway s c pc
  woken : s.ctl ≠ .oops .startTask

namespace Restart
variable {K : Kernel} {s t : State}

theorem start (K : Kernel) (j : Nat) : Restart (start K j) where
  held := Held.start K j
  manned := Manned.start K j
  cmd c pc h := by cases h
  woken h := by cases h

theorem ran (h : Restart s) {tid : Nat} {x : Input} {th : Thread} {m : Mod} {b : Body} (hr : Ran K s t tid x th m b)
    (hfails : th.body.fails x s.mod = false) : Restart t := by
  refine ⟨h.held.ran hr, h.manned.ran hr hfails, fun c pc hctl => ?_, ?_⟩
  · have hctl' : s.ctl = .cmd c pc := by
      rw [← hctl, hr.eq]
    obtain ⟨hbase, hfull, hhalt⟩ := h.cmd c pc hctl'
    refine ⟨?_, fun hf => (hfull hf).ran h.held hr, fun hf => ?_⟩
    · rw [hr.eq]
      simpa using hbase
    · obtain ⟨hrun, hpc, hoff⟩ := hhalt hf
      refine ⟨hrun, hpc, fun hlen d hd => ?_⟩
      rw [hr.eq]
      rcases (bodyStep_kept d hr.body).off with he | he
      · exact he.trans (hoff hlen d hd)
      · exact he
  · rw [hr.eq]
    exact h.woken

theorem outside (h : Restart s) (ho : Outside s t) : Restart t := by
  refine ⟨h.held.outside ho, h.manned.outside h.held ho, fun c pc hctl => ?_, ?_⟩
  · rcases ho.ctl with hc | ⟨-, hc⟩ | ⟨-, nums, -, hc⟩ <;> rw [hc] at hctl
    · obtain ⟨hbase, hfull, hhalt⟩ := h.cmd c pc hctl
      refine ⟨ho.threads ▸ hbase, fun hf => ?_, fun hf => ?_⟩
      · have hp := hfull hf
        have hptr := ho.mod.ptr
        constructor
        · rw [ho.mod.stCfg]
          exact hp.params
        · rw [ho.mod.stCfg, ho.threads]
          exact hp.enabled
        · rw [ho.threads]
          exact hp.clean
        · rw [ho.mod.stCfg, ho.threads]
          exact hp.zero
        · rw [hptr, ho.threads]
          exact hp.made
        · rw [ho.threads]
          exact hp.comp
        · rw [ho.threads]
          exact hp.senders
        · exact hp.straight
      · obtain ⟨hrun, hpc, hoff⟩ := hhalt hf
        exact ⟨hrun, hpc, by rw [ho.mod.stCfg]; exact hoff⟩
    · cases hctl
    · obtain ⟨rfl, rfl⟩ := Ctl.cmd.inj hctl
      refine ⟨by rw [ho.threads], fun _ => ?_, fun _ => ⟨rfl, Or.inr (Or.inl ⟨0, rfl⟩), fun _ d hd => by cases hd⟩⟩
      constructor
      · intro d hd
        cases hd
      · intro d hd
        cases hd
      · intro d hd
        cases hd
      · intro d hd
        cases hd
      · intro d hd
        cases hd
      · intro he
        cases he
      · intro _ i th hi hge
        rw [ho.threads] at hi
        exact absurd (List.getElem?_eq_some_iff.mp hi).1 (Nat.not_lt_of_ge hge)
      · rfl
  · rcases ho.ctl with hc | ⟨-, hc⟩ | ⟨-, nums, -, hc⟩ <;> rw [hc]
    · exact h.woken
    · intro he
      cases he
    · intro he
      cases he

theorem of_cmd {c : Command} {pc : CmdPc} (hheld : Held t) (hmanned : Manned t) (hctl : t.ctl = .cmd c pc)
    (hu : Underway t c pc) : Restart t := by
  refine ⟨hheld, hmanned, fun c' pc' hctl' => ?_, by rw [hctl]; intro he; cases he⟩
  obtain ⟨rfl, rfl⟩ := Ctl.cmd.inj (hctl.symm.trans hctl')
  exact hu

theorem of_other (hheld : Held t) (hmanned : Manned t) (hno : ∀ c pc, t.ctl ≠ .cmd c pc)
    (hw : t.ctl ≠ .oops .startTask) : Restart t :=
  ⟨hheld, hmanned, fun c pc hctl => absurd hctl (hno c pc), hw⟩

/-- A command that does not start a test goes on without one. -/
theorem halt {c : Command} {pc pc' : CmdPc} (h : Halting s c pc) (hcfg : t.mod.stCfg = s.mod.stCfg)
    (hpc : (∃ r, pc' = .out r) ∨ (c.nums.length = 5 ∧ ((∃ d p, pc' = .stop d p) ∨ ∃ d, pc' = .clear d)))
    (hparsed : ∀ d, pc'.parsed d = true → pc.parsed d = true) : Halting t c pc' :=
  ⟨h.run, hpc.imp_right Or.inr, fun hlen d hd => by rw [hcfg]; exact h.off hlen d (hparsed d hd)⟩

theorem halting_length {c : Command} {d : Dir} {p : StopPc} (h : Halting s c (.stop d p)) : c.nums.length = 5 := by
  rcases h.at_ with ⟨r, he⟩ | ⟨e, he⟩ | ⟨hlen, -⟩
  · cases he
  · cases he
  · exact hlen

/-- Only a command that starts a test comes behind the tests of `enable`. -/
theorem full_of {c : Command} {pc : CmdPc} (h : Underway s c pc) (hparse : ∀ d, pc ≠ .parse d)
    (hstop : ∀ d p, pc ≠ .stop d p) (hclear : ∀ d, pc ≠ .clear d) (hout : ∀ r, pc ≠ .out r) : c.full := by
  by_contra hf
  rcases (h.halting hf).at_ with ⟨r, he⟩ | ⟨d, he⟩ | ⟨-, ⟨d, p, he⟩ | ⟨d, he⟩⟩
  · exact hout r he
  · exact hparse d he
  · exact hstop d p he
  · exact hclear d he

/-- A command that starts a test finds the pointers of its stop loops empty. -/
theorem stop_null (h : Restart s) {c : Command} {pc : CmdPc} (hctl : s.ctl = .cmd c pc) (hf : c.full) {sl : Slot}
    {p : StopPc} (hstop : s.ctl.stopping = some (sl, p)) : p = .test ∧ s.mod.ptr sl = .null := by
  have hp := (h.cmd c pc hctl).full hf
  have hno : ¬ s.ctl.loops sl := by
    rintro ⟨-, hs⟩
    rw [hctl, Ctl.starts, decide_eq_false_iff_not] at hs
    exact hs hf
  rw [hctl] at hstop
  have hstraight := hp.straight
  cases pc <;> cases hstop
  case stop.refl d =>
    refine ⟨by simpa [CmdPc.straight] using hstraight, (h.manned.named _).resolve_right ?_⟩
    rintro ⟨tid, -, ⟨th, hth, hsl, hholds⟩ | hloop⟩
    · have := (hp.enabled d rfl rfl).2 th (List.mem_of_getElem? hth)
      rw [willDisable_of_holds hsl hholds] at this
      cases this
    · exact hno hloop
  case stopComp.refl =>
    refine ⟨by simpa [CmdPc.straight] using hstraight, (h.manned.named _).resolve_right ?_⟩
    rintro ⟨tid, -, ⟨th, hth, hsl, hholds⟩ | hloop⟩
    · by_cases hlt : tid < c.base
      · have := hp.clean 0 rfl tid th hth hlt
        rw [willWrite_of_holds 0 hsl hholds] at this
        cases this
      · exact hp.senders rfl tid th hth (Nat.le_of_not_lt hlt) hsl
    · exact hno hloop
  case abort.refl => cases hstraight

/-- A command that does not start a test goes on in its stop loops, or comes to the tests of `enable`. -/
theorem stop_halting {c : Command} {d : Dir} {p : StopPc} {pc : CmdPc} (hu : Underway s c (.stop d p)) (hf : ¬ c.full)
    (hpc : (∃ d p, pc = .stop d p) ∨ ∃ d, pc = .clear d) (hcfg : t.mod.stCfg = s.mod.stCfg)
    (hlen : c.base ≤ t.threads.length) : Underway t c pc := by
  have hh := hu.halting hf
  refine ⟨hlen, fun hf' => absurd hf' hf, fun _ => halt hh hcfg (Or.inr ⟨halting_length hh, hpc⟩) fun _ _ => rfl⟩

theorem leaves (h : Restart s) {sl : Slot} (hheld : Held (s.goto s.ctl.afterStop)) (hmanned : Manned (s.goto s.ctl.afterStop))
    (hstop : s.ctl.stopping = some (sl, .test)) : Restart (s.goto s.ctl.afterStop) := by
  rcases hs : s.ctl with _ | ⟨c, pc⟩ | pc | _ | _ <;> rw [hs] at hstop hheld hmanned <;> try cases hstop
  · have hu := h.cmd _ _ hs
    cases pc <;> cases hstop
    case cmd.stop.refl d =>
      refine of_cmd hheld hmanned rfl ?_
      by_cases hf : c.full
      · refine ⟨hu.base, fun _ => ?_, fun hf' => absurd hf hf'⟩
        rcases dir_cases d with rfl | rfl
        · exact (hu.full hf).of_phase rfl rfl (fun _ _ => rfl) (fun _ _ => rfl) (fun _ hd => by cases hd)
            (fun _ hd => by cases hd) (fun _ => rfl) rfl rfl rfl
        · exact (hu.full hf).of_phase rfl rfl (fun _ _ => rfl) (fun _ _ => rfl)
            (fun d hd => by simp [CmdPc.cleared] at hd) (fun d hd => by simp [CmdPc.created] at hd) (fun _ => rfl) rfl rfl rfl
      · refine stop_halting hu hf ?_ rfl hu.base
        rcases dir_cases d with rfl | rfl
        · exact Or.inl ⟨1, .test, rfl⟩
        · exact Or.inr ⟨0, rfl⟩
    case cmd.stopComp.refl =>
      have hf := full_of hu (by simp) (by simp) (by simp) (by simp)
      refine of_cmd hheld hmanned rfl ⟨hu.base, fun _ => ?_, fun hf' => absurd hf hf'⟩
      exact (hu.full hf).of_phase rfl rfl (fun _ _ => rfl) (fun _ hd => by cases hd) (fun _ _ => rfl) (fun _ _ => rfl)
        (fun _ => rfl) rfl rfl rfl
    case cmd.abort.refl =>
      have hf := full_of hu (by simp) (by simp) (by simp) (by simp)
      cases (hu.full hf).straight
  · refine of_other hheld hmanned (fun c pc' => ?_) ?_ <;> cases pc <;> cases hstop <;> simp [State.goto, Ctl.afterStop]

/-- The control turns in a stop loop, which no command does that starts a test. -/
theorem turns (h : Restart s) {sl : Slot} {p q : StopPc} (hheld : Held t) (hmanned : Manned t)
    (hstop : s.ctl.stopping = some (sl, p)) (hp : p ≠ .test ∨ s.mod.ptr sl ≠ .null) (hctl : t.ctl = s.ctl.stopAt q)
    (hcfg : t.mod.stCfg = s.mod.stCfg) (hlen : s.threads.length = t.threads.length) : Restart t := by
  have hno {c : Command} {pc : CmdPc} (hs : s.ctl = .cmd c pc) : ¬ c.full := by
    intro hf
    obtain ⟨rfl, hnull⟩ := h.stop_null hs hf hstop
    exact hp.elim (fun hp => hp rfl) fun hp => hp hnull
  rcases hs : s.ctl with _ | ⟨c, pc⟩ | pc | _ | _ <;> rw [hs] at hctl
  case cmd =>
    have hu := h.cmd _ _ hs
    rw [hs] at hstop
    cases pc <;> cases hstop
    case stop.refl d => exact of_cmd hheld hmanned hctl (stop_halting hu (hno hs) (Or.inl ⟨d, q, rfl⟩) hcfg (hlen ▸ hu.base))
    case stopComp.refl | abort.refl => exact absurd (full_of hu (by simp) (by simp) (by simp) (by simp)) (hno hs)
  case unload => refine of_other hheld hmanned (fun c pc' => ?_) ?_ <;> rw [hctl] <;> cases pc <;> simp [Ctl.stopAt]
  all_goals
    rw [hs] at hstop
    cases hstop

section Statements
variable {c : Command} {d : Dir}

theorem parses (hu : Underway s c (.parse d)) (hnone : c.full → ∀ th ∈ s.threads, th.body.willDisable d = false)
    (hlen : c.nums.length = 5) (hmod : t.mod = ({ s with mod := sscanfCmd s.mod d c.nums }.setPort d).mod)
    (hth : t.threads = s.threads) : Underway t c (if d = 0 then .parse 1 else .stop 0 .test) := by
  have hread (i : Nat) (h5 : i < 5) (x : BitVec 32) : c.nums.getD i x = c.nums.getD i 0 := by
    have hi : i < c.nums.length := h5.trans_eq hlen.symm
    simp [List.getD_eq_getElem?_getD, List.getElem?_eq_getElem hi]
  have hself : t.mod.stCfg d = { s.mod.stCfg d with
      enable := c.nums.getD 0 0, durTime := c.nums.getD 1 0, speed := c.nums.getD 2 0, pktSize := c.nums.getD 3 0
      port := getSpeedtestPortByIndex d } := by
    rw [hmod, State.setPort, setCfg_self, sscanfCmd]
    simp only [Mod.setCfg_stCfg, Function.update_self]
    rw [hread 0 (by decide), hread 1 (by decide), hread 2 (by decide), hread 3 (by decide)]
  have hold (e : Dir) (hne : e ≠ d) : t.mod.stCfg e = s.mod.stCfg e := by
    rw [hmod, State.setPort, setCfg_of_ne hne]
    exact setCfg_of_ne hne
  refine ⟨hth ▸ hu.base, fun hf => ?_, fun hf => ?_⟩
  · exact (hu.full hf).parses (hnone hf) (by rw [hself]) (by rw [hself]) (by rw [hself]) (by rw [hself]) hold hth
  · obtain ⟨hrun, -, hoff⟩ := hu.halting hf
    have hzero : c.nums.getD 0 0 = 0 := by
      by_contra hne
      exact hf ⟨hlen, hne⟩
    refine ⟨hrun, ?_, fun _ e he => ?_⟩
    · rcases dir_cases d with rfl | rfl
      · exact Or.inr (Or.inl ⟨1, rfl⟩)
      · exact Or.inr (Or.inr ⟨hlen, Or.inl ⟨0, .test, rfl⟩⟩)
    · by_cases hne : e = d
      · subst hne
        rw [hself]
        exact hzero
      · rw [hold e hne]
        refine hoff hlen e ?_
        rcases dir_cases d with rfl | rfl <;> rcases dir_cases e with rfl | rfl
        · exact absurd rfl hne
        · cases he
        · rfl
        · exact absurd rfl hne

theorem clears (hu : Underway s c (.clear d)) (hnone : c.full → ∀ th ∈ s.threads, th.body.willWrite d = false)
    (hen : (s.mod.stCfg d).enable ≠ 0) (hmod : t.mod = s.mod.setStatus d .zero) (hth : t.threads = s.threads) :
    Underway t c (.create d) := by
  refine ⟨hth ▸ hu.base, fun hf => ?_, fun hf => ?_⟩
  · refine (hu.full hf).clears (hnone hf) ?_ (fun e hne => ?_) hth
    · rw [hmod]
      exact setCfg_self _ _ _
    · rw [hmod]
      exact setCfg_of_ne hne
  · have hh := hu.halting hf
    rcases hh.at_ with ⟨r, he⟩ | ⟨e, he⟩ | ⟨hlen, -⟩
    · cases he
    · cases he
    · exact absurd (hh.off hlen d rfl) hen

theorem skips (hu : Underway s c (.clear d)) (hen : (s.mod.stCfg d).enable = 0) (hcfg : t.mod.stCfg = s.mod.stCfg)
    (hth : t.threads = s.threads) :
    Underway t c (if d = 0 then .clear 1 else if c.taskRunFlag then .hook else .out 0) := by
  refine ⟨hth ▸ hu.base, fun hf => ?_, fun hf => ?_⟩
  · have := ((hu.full hf).enabled d rfl (by simp [CmdPc.untested])).1
    exact absurd (this.symm.trans hen) hf.2
  · have hh := hu.halting hf
    have hlen : c.nums.length = 5 := by
      rcases hh.at_ with ⟨r, he⟩ | ⟨e, he⟩ | ⟨hlen, -⟩
      · cases he
      · cases he
      · exact hlen
    rw [hh.run]
    rcases dir_cases d with rfl | rfl
    · exact halt hh hcfg (Or.inr ⟨hlen, Or.inr ⟨1, rfl⟩⟩) fun _ _ => rfl
    · exact halt hh hcfg (Or.inl ⟨0, rfl⟩) fun _ _ => rfl

theorem creates (hu : Underway s c (.create d)) (hmod : t.mod = s.mod.setTask d (.task s.threads.length))
    (hth : t.threads = s.threads ++ [⟨.fresh (.sender d), false, false⟩]) :
    Underway t { c with taskRunFlag := true } (if d = 0 then .clear 1 else .hook) := by
  have hfull : c.full := full_of hu (by simp) (by simp) (by simp) (by simp)
  refine ⟨?_, fun _ => ?_, fun hf => absurd hfull hf⟩
  · rw [hth, List.length_append]
    exact Nat.le_add_right_of_le hu.base
  · refine (hu.full hfull).append rfl rfl hu.base hth (by rw [hmod]; exact ptr_setCfg _ _ _) (fun e => ?_) ?_ ?_ ?_ ?_ ?_ ?_
      rfl ?_ ?_
    · rw [hmod]
      by_cases hne : e = d
      · subst hne
        exact ⟨_, setCfg_self _ _ _⟩
      · exact ⟨(s.mod.stCfg e).task, setCfg_of_ne hne⟩
    all_goals rcases dir_cases d with rfl | rfl
    all_goals first | rfl | (intro e; rcases dir_cases e with rfl | rfl <;> decide) | simp

theorem createsComp (hu : Underway s c .createComp) (hmod : t.mod = { s.mod with computeTask := .task s.threads.length })
    (hth : t.threads = s.threads ++ [⟨.fresh .compute, false, false⟩]) : Underway t c .wakeComp := by
  have hfull : c.full := full_of hu (by simp) (by simp) (by simp) (by simp)
  refine ⟨?_, fun _ => ?_, fun hf => absurd hfull hf⟩
  · rw [hth, List.length_append]
    exact Nat.le_add_right_of_le hu.base
  · exact (hu.full hfull).append rfl rfl hu.base hth (by rw [hmod]; exact ptr_computeTask _ _)
      (fun d => ⟨(s.mod.stCfg d).task, by rw [hmod]⟩) (fun _ _ => rfl) (fun _ hd => by cases hd) (fun _ _ => rfl)
      (fun _ _ => Or.inr ⟨by simp, rfl⟩) (fun _ => ⟨rfl, rfl⟩) (fun _ => rfl) rfl (fun hc => by cases hc) rfl

theorem wakes {pc : CmdPc} {sl : Slot} {tid : Nat} (hheld : Held s) (hu : Underway s c pc)
    (hwakes : (Ctl.cmd c pc).wakes = some sl) (hptr : s.mod.ptr sl = .task tid) (hmod : t.mod = s.mod)
    (hth : t.threads = (s.wake tid).threads) : ∃ pc', (Ctl.cmd c pc).afterWake = .cmd c pc' ∧ Underway t c pc' := by
  have hbase : c.base ≤ t.threads.length := by
    rw [hth]
    simpa [State.wake] using hu.base
  have hslot := hheld.owner sl tid hptr
  cases pc <;> cases hwakes
  case wakeComp.refl =>
    have hfull : c.full := full_of hu (by simp) (by simp) (by simp) (by simp)
    refine ⟨.start 0, rfl, hbase, fun _ => ?_, fun hf => absurd hfull hf⟩
    exact (hu.full hfull).modify hmod hth (fun _ => rfl) hslot (fun _ _ => rfl) (fun _ he => by cases he) (fun _ _ => rfl)
      (fun e _ => ⟨rfl, Or.inl ⟨by simp, by simp [CmdPc.started]⟩⟩) (by simp) (fun hc => by cases hc) rfl
  case start.refl d =>
    have hfull : c.full := full_of hu (by simp) (by simp) (by simp) (by simp)
    refine ⟨if d = 0 then .start 1 else .out 0, rfl, hbase, fun _ => ?_, fun hf => absurd hfull hf⟩
    refine (hu.full hfull).modify hmod hth (fun _ => rfl) hslot (fun _ _ => rfl) ?_ (fun _ _ => rfl)
      (fun e _ => ⟨rfl, ?_⟩) ?_ ?_ ?_
    · intro e
      rcases dir_cases d with rfl | rfl <;> intro he <;> cases he
    · by_cases hne : e = d
      · subst hne
        exact Or.inr ⟨rfl, hptr, by simp [CmdPc.started], by rcases dir_cases e with rfl | rfl <;> rfl, fun _ => rfl⟩
      · refine Or.inl ⟨by simpa using Ne.symm hne, ?_⟩
        rcases dir_cases d with rfl | rfl <;> rcases dir_cases e with rfl | rfl <;> first | rfl | exact absurd rfl hne
    · rcases dir_cases d with rfl | rfl <;> simp
    · rcases dir_cases d with rfl | rfl <;> intro hc <;> cases hc
    · rcases dir_cases d with rfl | rfl <;> rfl

/-- The pointer of a thread that is to be woken names it. -/
theorem names {pc : CmdPc} {sl : Slot} (hheld : Held s) (hu : Underway s c pc)
    (hwakes : (Ctl.cmd c pc).wakes = some sl) : ∃ tid, s.mod.ptr sl = .task tid := by
  cases pc <;> cases hwakes
  case wakeComp.refl =>
    have hfull : c.full := full_of hu (by simp) (by simp) (by simp) (by simp)
    obtain ⟨i, hi⟩ := (hu.full hfull).comp rfl
    exact ⟨i, hheld.names i _ hi rfl⟩
  case start.refl d =>
    have hfull : c.full := full_of hu (by simp) (by simp) (by simp) (by simp)
    obtain ⟨i, th, hi, -, -, hp, hfresh, -⟩ := (hu.full hfull).made d rfl
    exact ⟨i, hp (by rw [hfresh (by simp [CmdPc.started])]; rfl)⟩

end Statements

theorem acts (h : Restart s) {ok : Bool} (hok : Restartable s (.ctl ok)) (ha : Acts s ok t) : Restart t := by
  obtain ⟨hcreate, hstores, hzeroes⟩ := hok
  have hheld := h.held.acts ha
  have hmanned : Manned t := by
    refine h.manned.acts h.held hcreate (fun sl hcall => ?_) ha
    rcases hs : s.ctl with _ | ⟨c, pc⟩ | pc | _ | _ <;> try rfl
    rw [Ctl.starts, decide_eq_false_iff_not]
    intro hf
    cases (h.stop_null hs hf hcall).1
  cases ha with
  | leaves sl hstop => exact h.leaves hheld hmanned hstop
  | stays sl hstop hset => exact h.turns hheld hmanned hstop (Or.inr hset) rfl rfl rfl
  | waited sl tid hstop => exact h.turns hheld hmanned hstop (Or.inl (by simp)) rfl rfl rfl
  | tells sl tid hstop hptr =>
    exact h.turns hheld hmanned hstop (Or.inl (by simp)) rfl rfl (by simp [State.goto, State.tellStop])
  | parses c d hctl hlen =>
    refine of_cmd hheld hmanned rfl (parses (h.cmd _ _ hctl) (fun hf => hstores d ?_) hlen rfl rfl)
    simp [hctl, Ctl.stores, hf]
  | rejects c d hctl hlen =>
    have hu := h.cmd _ _ hctl
    exact of_cmd hheld hmanned rfl ⟨hu.base, fun hf => absurd hf.1 hlen, fun hf =>
      ⟨(hu.halting hf).run, Or.inl ⟨1, rfl⟩, fun hl => absurd hl hlen⟩⟩
  | clears c d hctl hen =>
    refine of_cmd hheld hmanned rfl (clears (h.cmd _ _ hctl) (fun hf => hzeroes d ?_) hen rfl rfl)
    simp [hctl, Ctl.zeroes, hf]
  | skips c d hctl hen => exact of_cmd hheld hmanned rfl (skips (h.cmd _ _ hctl) hen rfl rfl)
  | creates c d hctl => exact of_cmd hheld hmanned rfl (creates (h.cmd _ _ hctl) rfl rfl)
  | createsComp c hctl => exact of_cmd hheld hmanned rfl (createsComp (h.cmd _ _ hctl) rfl rfl)
  | fails c d hctl hno | failsComp c hctl hno =>
    rw [hcreate (by rw [hctl]; rfl)] at hno
    cases hno
  | installs c hctl | readies c hctl =>
    have hu := h.cmd _ _ hctl
    have hfull : c.full := full_of hu (by simp) (by simp) (by simp) (by simp)
    refine of_cmd hheld hmanned rfl ⟨hu.base, fun _ => ?_, fun hf => absurd hfull hf⟩
    exact (hu.full hfull).of_phase rfl rfl (fun _ _ => rfl) (fun _ he => by cases he) (fun _ _ => rfl) (fun _ _ => rfl)
      (fun _ => rfl) rfl rfl rfl
  | wakes sl tid hwakes hptr =>
    rcases hs : s.ctl with _ | ⟨c, pc⟩ | pc | _ | _ <;> rw [hs] at hwakes hheld hmanned <;> try cases hwakes
    obtain ⟨pc', hpc, hu⟩ := wakes (t := (s.wake tid).goto (Ctl.cmd c pc).afterWake) h.held (h.cmd _ _ hs) hwakes hptr rfl rfl
    exact of_cmd hheld hmanned hpc hu
  | wakesNone sl hwakes hnone =>
    rcases hs : s.ctl with _ | ⟨c, pc⟩ | pc | _ | _ <;> rw [hs] at hwakes <;> try cases hwakes
    obtain ⟨tid, hp⟩ := names h.held (h.cmd _ _ hs) hwakes
    exact absurd hp (hnone tid)
  | faults | returns | delTimer | removeProc | rxNull | txNull | fifoFree =>
    exact of_other hheld hmanned (by simp [State.goto]) (by simp [State.goto])

theorem step (h : Restart s) {e : Event} (hok : Restartable s e) (hs : step K s e = some t) : Restart t := by
  rcases step_cases hs with ⟨tid, x, th, m, b, rfl, hr⟩ | ⟨ok, rfl, ha⟩ | ho
  · exact h.ran hr (by simpa [Restartable, hr.thread] using hok)
  · exact h.acts hok ha
  · exact h.outside ho

/-- The next statement of a command that starts a test can be executed, and brings it nearer to its return. -/
theorem advances (h : Restart s) {c : Command} {pc : CmdPc} (hctl : s.ctl = .cmd c pc) (hf : c.full)
    (hout : ∀ r, pc ≠ .out r) {ok : Bool} (hcreate : s.ctl.creates.isSome = true → ok = true) :
    ∃ t c' pc', Speedtest.step K s (.ctl ok) = some t ∧ t.ctl = .cmd c' pc' ∧ c'.nums = c.nums ∧ c'.base = c.base ∧
      pc'.left + 1 = pc.left := by
  have hu := h.cmd c pc hctl
  have hstep : Speedtest.step K s (.ctl ok) = cmdStep s ok c pc := by
    rw [Speedtest.step, ctlStep, hctl]
  rw [hstep]
  cases pc with
  | parse d =>
    rw [cmdStep, if_pos hf.1]
    refine ⟨_, _, _, rfl, rfl, rfl, rfl, ?_⟩
    rcases dir_cases d with rfl | rfl <;> rfl
  | stop d p =>
    have hstop : s.ctl.stopping = some (.sender d, p) := by rw [hctl]; rfl
    obtain ⟨rfl, hnull⟩ := h.stop_null hctl hf hstop
    rw [cmdStep, stopStep, if_pos (show (s.mod.stCfg d).task = .null from hnull)]
    refine ⟨_, _, _, rfl, rfl, rfl, rfl, ?_⟩
    rcases dir_cases d with rfl | rfl <;> rfl
  | clear d =>
    have hen : (s.mod.stCfg d).enable ≠ 0 := by
      rw [((hu.full hf).enabled d rfl (by simp [CmdPc.untested])).1]
      exact hf.2
    rw [cmdStep, if_pos hen]
    refine ⟨_, _, _, rfl, rfl, rfl, rfl, ?_⟩
    rcases dir_cases d with rfl | rfl <;> rfl
  | create d =>
    rw [cmdStep, if_pos (hcreate (by rw [hctl]; rfl))]
    refine ⟨_, _, _, rfl, rfl, rfl, rfl, ?_⟩
    rcases dir_cases d with rfl | rfl <;> rfl
  | hook | ready => exact ⟨_, _, _, rfl, rfl, rfl, rfl, rfl⟩
  | stopComp p =>
    have hstop : s.ctl.stopping = some (.compute, p) := by rw [hctl]; rfl
    obtain ⟨rfl, hnull⟩ := h.stop_null hctl hf hstop
    rw [cmdStep, stopStep, if_pos (show s.mod.computeTask = .null from hnull)]
    exact ⟨_, _, _, rfl, rfl, rfl, rfl, rfl⟩
  | createComp =>
    rw [cmdStep, if_pos (hcreate (by rw [hctl]; rfl))]
    exact ⟨_, _, _, rfl, rfl, rfl, rfl, rfl⟩
  | wakeComp =>
    obtain ⟨tid, hp⟩ := names h.held hu (by rfl)
    rw [cmdStep, show s.mod.computeTask = .task tid from hp]
    exact ⟨_, _, _, rfl, rfl, rfl, rfl, rfl⟩
  | start d =>
    obtain ⟨tid, hp⟩ := names h.held hu (by rfl)
    rw [cmdStep, show (s.mod.stCfg d).task = .task tid from hp]
    refine ⟨_, _, _, rfl, rfl, rfl, rfl, ?_⟩
    rcases dir_cases d with rfl | rfl <;> rfl
  | abort d p => cases (hu.full hf).straight
  | out ret => exact absurd rfl (hout ret)

end Restart

theorem restart {K : Kernel} {s : State} (h : (lts K).Reach Restartable s) : Restart s :=
  h.invariant (fun _ ⟨j, _, he⟩ => he ▸ Restart.start K j) fun _ _ _ hi hok hs => hi.step hok hs

/-- In the runs of `Restartable` whose commands come one at a time, a command that starts a test comes to its return
    with statements of its own only, each of which can be executed at once. It returns 0 then, with a new, woken sender
    for each direction, which its pointer names until the sender gives it up, with the numbers of the command, and with
    a status that is 0 until a thread of the test has begun to write it; no pointer to be woken is `NULL`. -/
theorem restarted {n : Nat} {K : Kernel} {s : Writers n}
    (h : (writersLts n K).Reach (fun s e => s.OneAtATime e ∧ Restartable s.whole e.2) s) (p : Fin n) :
    s.ctls p ≠ .oops .startTask ∧
    ∀ c pc, s.ctls p = .cmd c pc → c.full →
      (∀ ok, Restartable s.whole (.ctl ok) → (∀ r, pc ≠ .out r) → ∃ t c' pc', (writersLts n K).step s (p, .ctl ok) = some t ∧
        t.ctls p = .cmd c' pc' ∧ c'.nums = c.nums ∧ c'.base = c.base ∧ pc'.left + 1 = pc.left) ∧
      ∀ r, pc = .out r → r = 0 ∧ ∀ d, (s.mod.stCfg d).durTime = c.nums.getD 1 0 ∧
        (s.mod.stCfg d).speed = c.nums.getD 2 0 ∧ (s.mod.stCfg d).pktSize = c.nums.getD 3 0 ∧
        (∃ (i : Nat) (th : Thread), s.threads[i]? = some th ∧ c.base ≤ i ∧ th.body.slot = .sender d ∧ th.woken = true ∧
          (th.body.holds = true → (s.mod.stCfg d).task = .task i)) ∧
        ((∀ (i : Nat) (th : Thread), s.threads[i]? = some th → c.base ≤ i →
          th.body.slot = .sender d ∨ th.body.slot = .compute → th.body.begun = false) → (s.mod.stCfg d).status = .zero) := by
  obtain ⟨halone, hr⟩ := Writers.reach_whole _ h
  have inv := restart hr
  refine ⟨fun hoops => inv.woken ((halone.busy_of_ne (by rw [hoops]; simp)).trans hoops), fun c pc hctl hf => ?_⟩
  have hview : s.whole = s.view p := Writers.whole_eq_view (halone.others (by rw [hctl]; simp))
  rw [hview] at inv ⊢
  refine ⟨fun ok hok hout => ?_, ?_⟩
  · obtain ⟨t, c', pc', hs, ht, hrest⟩ := inv.advances (K := K) hctl hf hout hok.1
    refine ⟨s.put p t, c', pc', ?_, (Function.update_self _ _ _).trans ht, hrest⟩
    rw [show (writersLts n K).step s (p, .ctl ok) = _ from Writers.step_ctl (by rw [hctl]; simp), hs]
    rfl
  · rintro r rfl
    have hp := (inv.cmd c _ hctl).full hf
    refine ⟨by simpa [CmdPc.straight] using hp.straight, fun d => ?_⟩
    obtain ⟨hdur, hspeed, hsize⟩ := hp.params d rfl
    obtain ⟨i, th, hi, hge, hsl, -, -, hwoken⟩ := hp.made d rfl
    refine ⟨hdur, hspeed, hsize, ⟨i, th, hi, hge, hsl, hwoken rfl, fun hholds => ?_⟩, hp.zero d rfl⟩
    have := inv.held.names i th hi hholds
    rwa [hsl] at this

/-- A second command, written while the sender of the second direction still runs, at its return: the first test has
    come to its end between the statements of the command. -/
theorem restarted_running : ∃ (s : Writers 2) (c : Command),
    (writersLts 2 kernel32).Reach (fun s e => s.OneAtATime e ∧ Restartable s.whole e.2) s ∧
    s.ctls 1 = .cmd c (.out 0) ∧ c.base = 3 ∧ c.full ∧ ∀ d, (s.mod.stCfg d).speed = 200 ∧ (s.mod.stCfg d).pktSize = 60 := by
  have hrun : ((writersLts 2 kernel32).runIf (fun s e => s.OneAtATime e ∧ Restartable s.whole e.2)
      (.start 2 kernel32 1000)
      ((commandRun ++ [Event.thread 2 ⟨none, true, 0⟩] ++ senderRun 0 ++
        List.replicate 9 (Event.thread 1 ⟨some pkt42, true, 0⟩)).map ((0, ·)) ++
      ([Event.command [1, 0, 200, 60, 1], .ctl true, .tick] ++ List.replicate 4 (Event.thread 1 ⟨none, true, 0⟩) ++
        List.replicate 3 (Event.ctl true) ++ List.replicate 4 (Event.thread 2 ⟨none, true, 0⟩) ++
        List.replicate 501 Event.tick ++ List.replicate 11 (Event.thread 2 ⟨none, true, 0⟩) ++
        List.replicate 11 (Event.ctl true)).map ((1, ·)))).any
      (fun s => s.ctls 1 == .cmd ⟨[1, 0, 200, 60, 1], 3, true⟩ (.out 0)) = true := by decide +kernel
  obtain ⟨s, hr, hp⟩ := Lts.exists_reach_of_runIf hrun ⟨1000, by decide, rfl⟩
  have hctl := beq_iff_eq.mp hp
  refine ⟨s, _, hr, hctl, rfl, by decide, fun d => ?_⟩
  obtain ⟨-, hspeed, hsize, -⟩ := (((restarted hr 1).2 _ _ hctl (by decide)).2 0 rfl).2 d
  exact ⟨hspeed, hsize⟩

/-- The second command stores its numbers while the sender of the second direction still has to execute `enable = 0`:
    it creates a sender for the first direction alone, and is to wake the other one through a `NULL` pointer. -/
theorem restart_oops : ∃ (s : Writers 1) (c : Command), (writersLts 1 kernel32).Reach (fun _ e => e.2 ≠ .ctl false) s ∧
    s.ctls 0 = .cmd c (.start 1) ∧ c.full ∧ s.mod.ptr (.sender 1) = .null ∧
    ∃ t, (writersLts 1 kernel32).step s (0, .ctl true) = some t ∧ t.ctls 0 = .oops .startTask := by
  have hrun : ((writersLts 1 kernel32).runIf (fun _ e => e.2 ≠ .ctl false) (.start 1 kernel32 1000)
      ((commandRun ++ [Event.thread 2 ⟨none, true, 0⟩] ++ senderRun 0 ++
        List.replicate 9 (Event.thread 1 ⟨some pkt42, true, 0⟩) ++ Event.command [1, 0, 100, 42, 1] ::
        List.replicate 5 (Event.ctl true) ++ List.replicate 4 (Event.thread 1 ⟨none, true, 0⟩) ++
        List.replicate 9 (Event.ctl true) ++ List.replicate 13 (Event.thread 2 ⟨none, true, 0⟩) ++
        List.replicate 5 (Event.ctl true)).map ((0, ·)))).any
      (fun s => s.ctls 0 == .cmd ⟨[1, 0, 100, 42, 1], 3, true⟩ (.start 1) && s.mod.ptr (.sender 1) == .null) = true := by
    decide +kernel
  obtain ⟨s, hr, hp⟩ := Lts.exists_reach_of_runIf hrun ⟨1000, by decide, rfl⟩
  simp only [Bool.and_eq_true, beq_iff_eq] at hp
  obtain ⟨hctl, hnull⟩ := hp
  refine ⟨s, _, hr, hctl, by decide, hnull, s.put 0 ((s.view 0).goto (.oops .startTask)), ?_, rfl⟩
  have hstep : step kernel32 (s.view 0) (.ctl true) = some ((s.view 0).goto (.oops .startTask)) := by
    have hcmd : step kernel32 (s.view 0) (.ctl true) = cmdStep (s.view 0) true ⟨[1, 0, 100, 42, 1], 3, true⟩ (.start 1) := by
      rw [step, ctlStep, show (s.view 0).ctl = _ from hctl]
    rw [hcmd, cmdStep, show ((s.view 0).mod.stCfg 1).task = .null from hnull]
  rw [show (writersLts 1 kernel32).step s (0, .ctl true) = _ from Writers.step_ctl (by rw [hctl]; simp), hstep]
  rfl

end QuickStart.Speedtest
