import QuickStart.Keyevent.Step
import QuickStart.Park

/-! # Wake-ups of the consumer

A post wakes the queue before it sets `trigger_status`. A consumer that tests `trigger_status` between these
two statements goes to sleep for good; any other order follows `Park`. -/

namespace QuickStart.Keyevent
open State

def Call.isPost : Call → Bool
  | .post .. => true
  | .write .. => false

/-- A post that has accepted its event and has not woken the queue yet. -/
def Call.toWake : Call → Bool
  | .post _ _ .setLen | .post _ _ .copy | .post _ _ .wake => true
  | _ => false

/-- A post between `wake_up` and `trigger_status = 1`. -/
def Call.inWindow : Call → Bool
  | .post _ _ .trigger => true
  | _ => false

def State.wakers (s : State) : Nat := s.calls.countP Call.toWake

/-- The consumer will not test `trigger_status` again before it is woken. -/
def State.resting (s : State) : Bool := s.pc == .sleep && !s.woken

/-- All posts have returned, the consumer is asleep with no wake-up pending, and `trigger_status` is set. -/
structure State.Missed (s : State) : Prop where
  returned : ∀ c ∈ s.calls, c.isPost = false
  asleep : s.pc = .sleep
  unwoken : s.woken = false
  trigger : s.dev.triggerStatus = true

/-- When the consumer is about to fall asleep, no post is between its `wake_up` and its store, unless another
    post is still going to wake the queue. -/
def Aware (s : State) : Event → Prop
  | .consumer _ => s.pc = .test → s.dev.triggerStatus = false → s.woken = false →
      (∀ c ∈ s.calls, c.inWindow = false) ∨ 0 < s.wakers
  | _ => True

instance (s : State) : ∀ e : Event, Decidable (Aware s e)
  | .consumer _ => inferInstanceAs (Decidable (_ → _ → _ → _))
  | .postEnter _ _ | .writeEnter _ _ _ | .call _ => inferInstanceAs (Decidable True)

/-- A statement that neither touches what the consumer sees nor enters or leaves the window; a post on its way
    to `wake_up` stays on it. -/
structure Silent (s : State) (c : Call) : Prop where
  trigger : (callStep s c).1.dev.triggerStatus = s.dev.triggerStatus
  pc : (callStep s c).1.pc = s.pc
  waiting : (callStep s c).1.waiting = s.waiting
  woken : (callStep s c).1.woken = s.woken
  toWake : c.toWake = true → (callStep s c).2.any Call.toWake = true
  outside : (callStep s c).2.any Call.inWindow = false

theorem callStep_cases (s : State) (c : Call) :
    Silent s c ∨ (∃ data len, c = .post data len .wake) ∨ (∃ data len, c = .post data len .trigger) ∨
      ∃ buf count room, c = .write buf count room .wake := by
  cases c with
  | post data len pc =>
    cases pc with
    | wake => exact Or.inr (Or.inl ⟨data, len, rfl⟩)
    | trigger => exact Or.inr (Or.inr (Or.inl ⟨data, len, rfl⟩))
    | check =>
      left
      refine ⟨rfl, rfl, rfl, rfl, fun h => (by cases h), ?_⟩
      by_cases hlen : len > sendBufSize <;> simp [callStep, postStep, hlen, Call.inWindow]
    | setLen | copy => exact Or.inl ⟨rfl, rfl, rfl, rfl, fun _ => rfl, rfl⟩
  | write buf count room pc =>
    cases pc with
    | wake => exact Or.inr (Or.inr (Or.inr ⟨buf, count, room, rfl⟩))
    | setLen => exact Or.inl ⟨rfl, rfl, rfl, rfl, fun h => (by cases h), rfl⟩
    | check =>
      left
      refine ⟨rfl, rfl, rfl, rfl, fun h => (by cases h), ?_⟩
      by_cases hcount : count > recvBufSize <;> simp [callStep, writeStep, hcount, Call.inWindow]
    | copy =>
      left
      refine ⟨rfl, rfl, rfl, rfl, fun h => (by cases h), ?_⟩
      by_cases hroom : count ≤ room <;> simp [callStep, writeStep, hroom, Call.inWindow]

/-- `trigger_status`, the consumer and the posts as a sleeper with its wakers. -/
structure Park.Of (s : State) (p : Park) : Prop where
  work : p.work = s.dev.triggerStatus
  resting : p.resting = s.resting
  calls : p.calls = s.wakers
  waiting : s.pc = .sleep ∨ s.pc = .test → s.waiting = true
  window : s.resting = true → (∀ c ∈ s.calls, c.inWindow = false) ∨ 0 < s.wakers

namespace Park.Of
variable {s t : State} {p : Park}

theorem consumer (hp : Park.Of s p) {room : Nat} (hok : Aware s (.consumer room)) (hs : consumerStep s room = some t) :
    Park.Of t p ∨ ∃ d q, Park.lts.step p d = some q ∧ Park.Of t q := by
  have up (hpc : s.pc ≠ .sleep) : p.resting = false := by
    rw [hp.resting, State.resting]
    simp [hpc]
  cases consumerStep_consumes hs with
  | polls hpc => exact Or.inl ⟨hp.work, up (by simp [hpc]), hp.calls, fun _ => rfl, fun h => by cases h⟩
  | finds hpc htrig =>
    refine Or.inl ⟨hp.work, ?_, hp.calls, fun h => by simp at h, fun h => by cases h⟩
    rw [up (by simp [hpc])]
    rfl
  | misses hpc htrig =>
    have hwaiting := hp.waiting (Or.inr hpc)
    by_cases hwoken : s.woken = true
    · refine Or.inl ⟨hp.work, ?_, hp.calls, fun _ => hwaiting, fun h => ?_⟩
      · rw [up (by simp [hpc])]
        simp [State.resting, hwoken]
      · simp [State.resting, hwoken] at h
    · -- The consumer decides to sleep; the condition rules out a post inside its window.
      have hwoken' : s.woken = false := by simpa using hwoken
      refine Or.inr ⟨.settle, _, rfl, htrig.symm, ?_, hp.calls, fun _ => hwaiting, fun _ => hok hpc htrig hwoken'⟩
      simp [State.resting, hwoken']
  | clears hpc =>
    exact Or.inr ⟨.take, _, rfl, rfl, up (by simp [hpc]), hp.calls, fun h => by simp at h, fun h => by cases h⟩
  | wakes hpc hwoken =>
    refine Or.inl ⟨hp.work, ?_, hp.calls, fun _ => hp.waiting (Or.inl hpc), fun h => by cases h⟩
    rw [hp.resting]
    simp [State.resting, hwoken]
  | leaves hpc | reads r hpc | handles hpc =>
    exact Or.inl ⟨hp.work, up (by simp [hpc]), hp.calls, fun h => by simp at h, fun h => by cases h⟩

theorem call (hp : Park.Of s p) {i : Nat} {c : Call} (hi : s.calls[i]? = some c)
    (ht : t = { (callStep s c).1 with calls := Calls.put s.calls i (callStep s c).2 }) :
    Park.Of t p ∨ ∃ d q, Park.lts.step p d = some q ∧ Park.Of t q := by
  have hcount : t.wakers + (if c.toWake then 1 else 0) =
      s.wakers + (if (callStep s c).2.any Call.toWake then 1 else 0) := by
    rw [ht]
    exact Calls.countP_put hi Call.toWake _
  rcases callStep_cases s c with hq | ⟨data, len, rfl⟩ | ⟨data, len, rfl⟩ | ⟨buf, count, room, rfl⟩
  · have hpc : t.pc = s.pc := by rw [ht]; exact hq.pc
    have hwoken : t.woken = s.woken := by rw [ht]; exact hq.woken
    have hwaiting : t.waiting = s.waiting := by rw [ht]; exact hq.waiting
    have hwork : p.work = t.dev.triggerStatus := by rw [ht, hp.work]; exact hq.trigger.symm
    have hresting : t.resting = s.resting := by rw [State.resting, hpc, hwoken, State.resting]
    have hle : s.wakers ≤ t.wakers := by
      cases htw : c.toWake
      · rw [htw] at hcount
        simp only [Bool.false_eq_true, if_false] at hcount
        omega
      · rw [htw, hq.toWake htw] at hcount
        omega
    have window (h : t.resting = true) : (∀ c ∈ t.calls, c.inWindow = false) ∨ 0 < t.wakers := by
      rcases hp.window (hresting ▸ h) with hwin | hpos
      · left
        intro d hd
        rw [ht] at hd
        rcases Calls.mem_put hd with hd | hd
        · exact hwin d hd
        · have := hq.outside
          rwa [hd] at this
      · exact Or.inr (Nat.lt_of_lt_of_le hpos hle)
    have waiting (h : t.pc = .sleep ∨ t.pc = .test) : t.waiting = true := by
      rw [hpc] at h
      rw [hwaiting]
      exact hp.waiting h
    by_cases hsame : t.wakers = s.wakers
    · exact Or.inl ⟨hwork, hp.resting.trans hresting.symm, hp.calls.trans hsame.symm, waiting, window⟩
    · -- A post has accepted its event.
      refine Or.inr ⟨.announce, _, rfl, hwork, hp.resting.trans hresting.symm, ?_, waiting, window⟩
      show p.calls + 1 = t.wakers
      rw [hp.calls]
      split at hcount <;> split at hcount <;> omega
  · have hresting : t.resting = false := by
      rw [ht]
      by_cases hpc : s.pc = .sleep
      · simp [State.resting, callStep, postStep, State.wakeUp, hp.waiting (Or.inl hpc)]
      · simp [State.resting, callStep, postStep, State.wakeUp, hpc]
    refine Or.inr ⟨.call, _, rfl, ?_, hresting.symm, ?_, ?_, fun h => by rw [hresting] at h; cases h⟩
    · rw [ht]
      exact hp.work
    · show p.calls - 1 = t.wakers
      rw [hp.calls]
      exact Nat.sub_eq_of_eq_add (by simpa [callStep, postStep, Call.toWake] using hcount.symm)
    · rw [ht]
      exact hp.waiting
  · have hwakers : t.wakers = s.wakers := by simpa [callStep, postStep, Call.toWake] using hcount
    have hresting : t.resting = s.resting := by
      rw [ht]
      rfl
    have hpos (h : s.resting = true) : 0 < s.wakers :=
      (hp.window h).resolve_left fun hwin => by cases hwin _ (List.mem_of_getElem? hi)
    have hpub : p.resting = true → 0 < p.calls := fun h => by
      rw [hp.resting] at h
      rw [hp.calls]
      exact hpos h
    refine Or.inr ⟨.publish, _, dif_pos hpub, ?_, hp.resting.trans hresting.symm, hp.calls.trans hwakers.symm, ?_,
      fun h => Or.inr (hwakers ▸ hpos (hresting ▸ h))⟩
    · rw [ht]
      rfl
    · rw [ht]
      exact hp.waiting
  · have hwakers : t.wakers = s.wakers := by simpa [callStep, writeStep, Call.toWake] using hcount
    have hresting : t.resting = false := by
      rw [ht]
      by_cases hpc : s.pc = .sleep
      · simp [State.resting, callStep, writeStep, State.wakeUp, hp.waiting (Or.inl hpc)]
      · simp [State.resting, callStep, writeStep, State.wakeUp, hpc]
    refine Or.inr ⟨.alarm, _, rfl, ?_, hresting.symm, hp.calls.trans hwakers.symm, ?_,
      fun h => by rw [hresting] at h; cases h⟩
    · rw [ht]
      exact hp.work
    · rw [ht]
      exact hp.waiting

end Park.Of

variable {send recv buf : List Byte}

/-- In the runs of `Aware` the device is a sleeper with its wakers. -/
theorem park_simulation (send recv buf : List Byte) :
    Lts.Simulation (lts send recv buf) Park.lts Aware Park.Of where
  init := by
    rintro s rfl
    refine ⟨Park.idle, ⟨rfl, rfl, rfl⟩, rfl, rfl, rfl, ?_, fun h => by cases h⟩
    rintro (h | h) <;> cases h
  step := by
    intro s p e t hp hok hs
    cases e with
    | consumer room => exact hp.consumer hok hs
    | call i =>
      obtain ⟨c, hi, ht⟩ := Option.map_eq_some_iff.mp hs
      exact hp.call hi ht.symm
    | postEnter _ _ | writeEnter _ _ _ =>
      obtain rfl := Option.some.inj hs
      refine Or.inl ⟨hp.work, hp.resting, ?_, hp.waiting, fun h => ?_⟩
      · simpa [State.wakers, Call.toWake] using hp.calls
      · simpa [State.wakers, Call.toWake, Call.inWindow, or_imp, forall_and] using hp.window h

/-- In the runs of `Aware` no event is left that the sleeping consumer is not told about. -/
theorem not_missed {s : State} (h : (lts send recv buf).Reach Aware s) : ¬s.Missed := by
  rintro ⟨hreturned, hpc, hwoken, htrigger⟩
  obtain ⟨p, -, hp⟩ := (park_simulation send recv buf).reach h
  refine p.not_lost ⟨?_, ?_, ?_⟩
  · rw [hp.resting]
    simp [State.resting, hpc, hwoken]
  · rw [hp.work]
    exact htrigger
  · rw [hp.calls]
    refine List.countP_eq_zero.mpr fun c hm => ?_
    have := hreturned c hm
    cases c with
    | post => cases this
    | write => simp [Call.toWake]

/-- The device as it is loaded, with cleared buffers. -/
abbrev clearLts : Lts State Event :=
  lts (List.replicate sendBufSize 0) (List.replicate recvBufSize 0) (List.replicate recvMaxBufSize 0)

set_option maxRecDepth 4000 in
theorem not_missed_wifiOnoffKey : ∃ s, clearLts.Reach Aware s ∧ s.pc = .handle ∧ s.calls = [] ∧
    s.recvBuf.take 8 = wifiOnoffKey ∧ ¬s.Missed := by
  have hrun : (clearLts.runIf Aware (.start (List.replicate sendBufSize 0) (List.replicate recvBufSize 0)
      (List.replicate recvMaxBufSize 0)) ([Event.consumer 0, .consumer 0, .postEnter wifiOnoffKey 8] ++
        List.replicate 5 (Event.call 0) ++ List.replicate 5 (Event.consumer 255))).any
      (fun s => s.pc == .handle && s.calls == [] && s.recvBuf.take 8 == wifiOnoffKey) = true := by decide
  obtain ⟨s, hr, hp⟩ := Lts.exists_reach_of_runIf hrun rfl
  simp only [Bool.and_eq_true, beq_iff_eq] at hp
  exact ⟨s, hr, hp.1.1, hp.1.2, hp.2, not_missed hr⟩

/-- The consumer sleeps, a post wakes it, it finds `trigger_status` clear and sleeps again, and the post sets
    `trigger_status` and returns. -/
theorem event_missed : ∃ s, clearLts.Reachable s ∧ s.Missed ∧ s.calls = [] := by
  have hrun : (clearLts.runIf (fun _ _ => True) (.start (List.replicate sendBufSize 0) (List.replicate recvBufSize 0)
      (List.replicate recvMaxBufSize 0)) ([Event.consumer 0, .consumer 0, .postEnter wifiOnoffKey 8] ++
        List.replicate 4 (Event.call 0) ++ [Event.consumer 0, .consumer 0, .call 0])).any
      (fun s => s.pc == .sleep && s.woken == false && s.dev.triggerStatus && s.calls == []) = true := by decide
  obtain ⟨s, hr, hp⟩ := Lts.exists_reach_of_runIf hrun rfl
  simp only [Bool.and_eq_true, beq_iff_eq] at hp
  obtain ⟨⟨⟨hpc, hwoken⟩, htrigger⟩, hcalls⟩ := hp
  exact ⟨s, hr, ⟨by simp [hcalls], hpc, hwoken, htrigger⟩, hcalls⟩

end QuickStart.Keyevent
