import QuickStart.Speedtest.Pacing
import QuickStart.Speedtest.Timer

/-! # Deadlines and the wrap of the clock

The loops of the threads compare their deadline with `jiffies` by `<`, as plain numbers. The comparison is right if
and only if the deadline and the clock have both wrapped since the deadline was computed, or neither has. -/

namespace QuickStart.Speedtest

/-! ### Plain comparison on a clock that wraps -/

/-- Two points of a clock with `M` ticks, `span` and `ticks` behind `start`, compare like their distances if and only
    if both are behind the wrap or both are before it. -/
theorem lt_iff_of_wrap {M start span ticks : Nat} (hstart : start < M) (hspan : span < M) (hticks : ticks < M) :
    (((start + span) % M < (start + ticks) % M) ↔ span < ticks) ↔ (start + span < M ↔ start + ticks < M) := by
  have hmod {n : Nat} (hn : n < M) : (start + n) % M = if start + n < M then start + n else start + n - M := by
    split
    · rename_i hlt
      exact Nat.mod_eq_of_lt hlt
    · rename_i hge
      rw [Nat.mod_eq_sub_mod (Nat.not_lt.mp hge), Nat.mod_eq_of_lt (by omega)]
  rw [hmod hspan, hmod hticks]
  split <;> split <;> omega

/-! ### The deadline of a thread -/

/-- The deadline that the sender has computed, while it is in use. -/
def SenderPc.deadline : SenderPc → Option Nat
  | .setSend endTime => some endTime
  | .pace l | .send l | .count l | .test l => some l.endTime
  | _ => none

def Body.deadline : Body → Option Nat
  | .sender _ pc => pc.deadline
  | .compute pc => (Body.compute pc).waits

/-- The ticks up to the deadline that the next statement computes. -/
def Body.span (K : Kernel) (m : Mod) : Body → Option Nat
  | .sender d .setEnd => some ((m.stCfg d).durTime.toNat * K.hz)
  | .compute (.arm 0) => some (5 * K.hz)
  | _ => none

/-- The next statement is a test of the deadline. -/
def Body.tests : Body → Option Nat
  | .sender _ (.test l) => some l.endTime
  | .compute (.test false endTime) => some endTime
  | _ => none

def Body.left : Body → Bool
  | .sender _ .clearTask | .compute .flush => true
  | _ => false

/-- The clock when the deadline was computed, the ticks up to the deadline, and the ticks since. -/
structure Elapsed where
  start : Nat
  span : Nat
  ticks : Nat
  deriving DecidableEq, Repr

section History
variable (K : Kernel) (tid : Nat)

/-- The deadline of the thread `tid`. -/
def elapsed (s : State) (e : Event) (h : Elapsed) : Elapsed :=
  match e with
  | .thread i _ =>
    match s.threads[tid]?.bind fun th => th.body.span K s.mod with
    | some span => if i = tid then { start := s.mod.jiffies, span := span, ticks := 0 } else h
    | none => h
  | .tick => { h with ticks := h.ticks + 1 }
  | _ => h

abbrev deadlineLts : Lts (State × Elapsed) Event := (lts K).track (elapsed K tid) ⟨0, 0, 0⟩

end History

section Step
variable {K : Kernel} {m m' : Mod} {b b' : Body} {stop : Bool} {x : Input}

theorem toNat_mul_hz {dur : BitVec 32} {hz : Nat} (h : dur.toNat * hz < 2 ^ 31) :
    (dur * BitVec.ofNat 32 hz).toNat = dur.toNat * hz := by
  rw [BitVec.toNat_mul, BitVec.toNat_ofNat, Nat.mul_mod_mod, Nat.mod_eq_of_lt (by omega)]

/-- A deadline in use has been in use before, unless the statement has computed it. -/
theorem bodyStep_deadline (hs : bodyStep K stop x m b = some (m', b')) {endTime : Nat} (he : endTime ∈ b'.deadline) :
    (b.span K m = none ∧ endTime ∈ b.deadline) ∨
      ∃ span, b.span K m = some span ∧ (span < 2 ^ 31 → endTime = K.add m.jiffies span) := by
  cases bodyStep_executes hs with
  | sends d h =>
    cases h with
    | setsEnd =>
      obtain rfl := Option.mem_some_iff.mp he
      exact Or.inr ⟨_, rfl, fun hspan => by rw [toNat_mul_hz hspan]⟩
    | enters => split at he <;> cases he
    | makes => cases hmade : x.made <;> rw [hmade] at he <;> cases he
    | sends l => split at he <;> exact Or.inl ⟨rfl, he⟩
    | tests l =>
      split at he
      · cases he
      · split at he <;> exact Or.inl ⟨rfl, he⟩
    | slow | fast | paces | paced | counts => exact Or.inl ⟨rfl, he⟩
    | _ => cases he
  | computes h =>
    rcases h.waiting.waits endTime he with hold | ⟨harm, rfl⟩
    · refine Or.inl ⟨?_, hold⟩
      cases h with
      | arms endTime =>
        cases endTime with
        | zero => cases hold
        | succ n => rfl
      | _ => rfl
    · rw [harm]
      exact Or.inr ⟨_, rfl, fun _ => rfl⟩

theorem Body.deadline_of_not_begun (h : b.begun = false) : b.deadline = none := by
  rcases b with ⟨d, pc⟩ | pc <;> cases pc <;> first | rfl | cases h

theorem Body.deadline_of_tests {endTime : Nat} (h : endTime ∈ b.tests) : endTime ∈ b.deadline := by
  rcases b with ⟨d, pc⟩ | pc <;> cases pc
  case sender.test => exact h
  case compute.test isStRunning _ =>
    cases isStRunning
    · exact h
    · cases h
  all_goals cases h

/-- A thread that has not been told to stop leaves its loop when it finds its deadline less than the clock. -/
theorem left_iff {endTime : Nat} (htests : endTime ∈ b.tests) (hs : bodyStep K false x m b = some (m', b')) :
    b'.left = true ↔ endTime < m.jiffies := by
  cases bodyStep_executes hs with
  | sends d h =>
    cases h with
    | tests l =>
      obtain rfl := Option.mem_some_iff.mp htests
      by_cases hlt : l.endTime < m.jiffies
      · simp [hlt, Body.left]
      · simp only [hlt, Bool.false_eq_true, or_self, if_false, iff_false]
        split <;> exact Bool.false_ne_true
    | _ => cases htests
  | computes h =>
    cases h with
    | tests isStRunning end_ =>
      cases isStRunning with
      | true => cases htests
      | false =>
        obtain rfl := Option.mem_some_iff.mp htests
        by_cases hlt : end_ < m.jiffies <;> simp [hlt, Body.left]
    | _ => cases htests

theorem jiffies_step {s t : State} {e : Event} (hs : step K s e = some t) :
    t.mod.jiffies = if e = .tick then K.add s.mod.jiffies 1 else s.mod.jiffies := by
  cases step_steps hs with
  | runs hr =>
    rw [hr.eq]
    exact (bodyStep_waiting hr.body).jiffies
  | acts ha => exact ha.timer.1
  | calls => exact callRxHook_jiffies _ _ _
  | transmits data dev => exact xmitSpeedtestPkt_jiffies _ _ dev
  | expires =>
    simp only [speedtestLoopDetectCb, armLoopDetectTimer]
    split
    · rfl
    · split <;> split <;> rfl
  | begins | unloads | receives | passes | ticks => rfl

end Step

/-! ### The invariant -/

/-- The clock is `ticks` behind the start, and the deadline `span`. -/
structure Elapsed.Measures (K : Kernel) (h : Elapsed) (jiffies endTime : Nat) : Prop where
  start : h.start < 2 ^ K.bitsPerLong
  clock : jiffies = K.add h.start h.ticks
  deadline : h.span < 2 ^ 31 → endTime = K.add h.start h.span

/-- The deadline of the thread `tid` is as far off as its history says. -/
structure Measured (K : Kernel) (tid : Nat) (s : State) (h : Elapsed) : Prop where
  clock : s.mod.jiffies < 2 ^ K.bitsPerLong
  measures : ∀ th ∈ s.threads[tid]?, ∀ endTime ∈ th.body.deadline, h.Measures K s.mod.jiffies endTime

section Runs
variable {K : Kernel} {tid : Nat} {s t : State} {h : Elapsed}

theorem elapsed_other {e : Event} (he : ∀ x, e ≠ .thread tid x) (htick : e ≠ .tick) : elapsed K tid s e h = h := by
  cases e with
  | thread i x =>
    have hi : i ≠ tid := fun hi => he x (by rw [hi])
    simp only [elapsed, if_neg hi]
    split <;> rfl
  | tick => exact absurd rfl htick
  | _ => rfl

theorem Elapsed.Measures.tick {jiffies endTime : Nat} (hm : h.Measures K jiffies endTime) :
    ({ h with ticks := h.ticks + 1 } : Elapsed).Measures K (K.add jiffies 1) endTime where
  start := hm.start
  clock := by
    show K.add jiffies 1 = K.add h.start (h.ticks + 1)
    rw [hm.clock, Kernel.add, Kernel.add, Nat.mod_add_mod, Nat.add_assoc, Kernel.add]
  deadline := hm.deadline

theorem Measured.step (hm : Measured K tid s h) {e : Event} (hs : step K s e = some t) :
    Measured K tid t (elapsed K tid s e h) := by
  have hjiffies := jiffies_step hs
  have hclock : t.mod.jiffies < 2 ^ K.bitsPerLong := by
    rw [hjiffies]
    split
    · exact Nat.mod_lt _ (Nat.two_pow_pos _)
    · exact hm.clock
  refine ⟨hclock, fun th hth endTime hend => ?_⟩
  by_cases he : ∃ x, e = .thread tid x
  · obtain ⟨x, rfl⟩ := he
    obtain ⟨th', m, b, hth', -, hb, rfl⟩ := threadStep_ran hs
    rw [if_neg (by simp)] at hjiffies
    rw [Option.mem_def, List.getElem?_set_self (List.getElem?_eq_some_iff.mp hth').1] at hth
    obtain rfl := Option.some.inj hth
    rw [hjiffies, elapsed, hth', Option.bind_some]
    rcases bodyStep_deadline hb hend with ⟨hspan, hold⟩ | ⟨span, hspan, hnew⟩
    · rw [hspan]
      exact hm.measures th' hth' endTime hold
    · rw [hspan]
      dsimp only
      rw [if_pos rfl]
      exact ⟨hm.clock, (Nat.mod_eq_of_lt hm.clock).symm, hnew⟩
  · have hne : ∀ x, e ≠ .thread tid x := fun x hx => he ⟨x, hx⟩
    have hold : h.Measures K s.mod.jiffies endTime := by
      rcases step_other hs hne hth with ⟨th', hth', hbody⟩ | hbegun
      · exact hm.measures th' hth' endTime (hbody ▸ hend)
      · rw [Body.deadline_of_not_begun hbegun] at hend
        cases hend
    by_cases htick : e = .tick
    · subst htick
      rw [hjiffies, if_pos rfl]
      exact hold.tick
    · rw [hjiffies, if_neg htick, elapsed_other hne htick]
      exact hold

theorem measured (hr : (deadlineLts K tid).Reachable (s, h)) : Measured K tid s h := by
  refine hr.track_invariant ?_ fun _ _ _ _ hm _ hs => hm.step hs
  rintro _ ⟨j, hj, rfl⟩
  exact ⟨hj, fun th hth => by cases hth⟩

/-- A loop ends at the right time if and only if the deadline and the clock have both wrapped or neither has. -/
theorem deadline_over {x : Input} {th th' : Thread} (hr : (deadlineLts K tid).Reachable (s, h))
    (hspan : h.span < 2 ^ 31) (hticks : h.ticks < 2 ^ (K.bitsPerLong - 1)) (hth : s.threads[tid]? = some th)
    (htests : th.body.tests.isSome = true) (hstop : th.stop = false) (hs : step K s (.thread tid x) = some t)
    (hth' : t.threads[tid]? = some th') :
    (th'.body.left = true ↔ h.span < h.ticks) ↔
      (h.start + h.span < 2 ^ K.bitsPerLong ↔ h.start + h.ticks < 2 ^ K.bitsPerLong) := by
  obtain ⟨endTime, hend⟩ := Option.isSome_iff_exists.mp htests
  have hmeas := (measured hr).measures th hth endTime (Body.deadline_of_tests hend)
  obtain ⟨th₀, m, b, hth₀, -, hb, rfl⟩ := threadStep_ran hs
  obtain rfl := Option.some.inj (hth.symm.trans hth₀)
  rw [List.getElem?_set_self (List.getElem?_eq_some_iff.mp hth).1] at hth'
  obtain rfl := Option.some.inj hth'
  rw [hstop] at hb
  have hlong : 2 ^ 31 ≤ 2 ^ K.bitsPerLong ∧ 2 ^ (K.bitsPerLong - 1) ≤ 2 ^ K.bitsPerLong := by
    rcases K.bits with h | h <;> rw [h] <;> decide
  rw [left_iff hend hb, hmeas.clock, hmeas.deadline hspan, Kernel.add, Kernel.add]
  exact lt_iff_of_wrap hmeas.start (by omega) (by omega)

end Runs

/-- A sender for one second up to its first test. -/
def oneSecondRun : List Event :=
  Event.command [1, 1, 100, 42, 1] :: List.replicate 16 (Event.ctl true) ++
    List.replicate 9 (Event.thread 0 ⟨some pkt42, true, 0⟩)

/-- After a second and a tick the loop ends. -/
theorem deadline_over_oneSecond : ∃ s t th', (deadlineLts kernel32 0).Reachable (s, ⟨1000, 100, 101⟩) ∧
    step kernel32 s (.thread 0 ⟨none, true, 0⟩) = some t ∧ t.threads[0]? = some th' ∧ th'.body.left = true := by
  have hrun : ((deadlineLts kernel32 0).runIf (fun _ _ => True) (Speedtest.start kernel32 1000, ⟨0, 0, 0⟩)
      (oneSecondRun ++ List.replicate 101 Event.tick)).any (fun y => y.2 == ⟨1000, 100, 101⟩ &&
        y.1.threads[0]?.any (fun th => !th.stop && th.body.tests.isSome) &&
        (step kernel32 y.1 (.thread 0 ⟨none, true, 0⟩)).any (·.threads[0]?.isSome)) = true := by
    decide +kernel
  obtain ⟨⟨s, h⟩, hr, hp⟩ := Lts.exists_reach_of_runIf hrun ⟨⟨1000, by decide, rfl⟩, rfl⟩
  simp only [Bool.and_eq_true, beq_iff_eq, Option.any_eq_true, Bool.not_eq_true', Option.isSome_iff_exists] at hp
  obtain ⟨⟨rfl, th, hth, hstop, htests⟩, t, hs, th', hth'⟩ := hp
  have hover := (deadline_over hr (by decide) (by decide) hth (Option.isSome_iff_exists.mpr htests) hstop hs hth').mpr
    (by decide)
  exact ⟨s, t, th', hr, hs, hth', hover.mpr (by decide)⟩

/-- A tick before the wrap the loop ends at once. -/
theorem deadline_over_early : ∃ s t th th', (deadlineLts kernel32 0).Reachable (s, ⟨2 ^ 32 - 1, 100, 0⟩) ∧
    s.threads[0]? = some th ∧ th.body.tests.isSome = true ∧ th.stop = false ∧
    step kernel32 s (.thread 0 ⟨none, true, 0⟩) = some t ∧ t.threads[0]? = some th' ∧
    ¬ (th'.body.left = true ↔ 100 < 0) := by
  have hrun : ((deadlineLts kernel32 0).runIf (fun _ _ => True) (Speedtest.start kernel32 (2 ^ 32 - 1), ⟨0, 0, 0⟩)
      oneSecondRun).any (fun y => y.2 == ⟨2 ^ 32 - 1, 100, 0⟩ &&
        y.1.threads[0]?.any (fun th => !th.stop && th.body.tests.isSome) &&
        (step kernel32 y.1 (.thread 0 ⟨none, true, 0⟩)).any (·.threads[0]?.any (·.body.left))) = true := by
    decide +kernel
  obtain ⟨⟨s, h⟩, hr, hp⟩ := Lts.exists_reach_of_runIf hrun ⟨⟨2 ^ 32 - 1, by decide, rfl⟩, rfl⟩
  simp only [Bool.and_eq_true, beq_iff_eq, Option.any_eq_true, Bool.not_eq_true'] at hp
  obtain ⟨⟨rfl, th, hth, hstop, htests⟩, t, hs, th', hth', hleft⟩ := hp
  refine ⟨s, t, th, th', hr, hth, htests, hstop, hs, hth', ?_⟩
  rw [hleft]
  decide

end QuickStart.Speedtest
