import Mathlib.Data.List.OfFn
import QuickStart.Speedtest.Step

/-! # Several writers

`speedtest_proc_write` has no lock, and the proc entry accepts commands until `remove_proc_entry` has returned, behind
the stop loops of the unloading. While every writer waits for the ones before, the module runs as with one process. -/

namespace QuickStart.Speedtest

/-- The proc entry has been removed. -/
def Ctl.removed : Ctl → Bool
  | .unload .rxNull | .unload .txNull | .unload .fifoFree | .gone => true
  | _ => false

def Ctl.unloading : Ctl → Bool
  | .unload _ | .gone => true
  | _ => false

/-- The module and the `n` processes that write commands to it and unload it. -/
structure Writers (n : Nat) where
  mod : Mod
  threads : List Thread
  rxCalls : List (RxHook × Skb)
  ctls : Fin n → Ctl

namespace Writers
variable {n : Nat}

/-- The module and the process `i`. -/
def view (s : Writers n) (i : Fin n) : State := ⟨s.mod, s.threads, s.ctls i, s.rxCalls⟩

/-- The process `i` has brought the module from `s` to `t`. -/
def put (s : Writers n) (i : Fin n) (t : State) : Writers n :=
  ⟨t.mod, t.threads, t.rxCalls, Function.update s.ctls i t.ctl⟩

/-- A command needs the proc entry, and the module is unloaded once; `remove_proc_entry` waits for the writes that have
    begun. -/
def Admits (s : Writers n) (i : Fin n) : Event → Prop
  | .command _ => ∀ j, (s.ctls j).removed = false
  | .unload => ∀ j, (s.ctls j).unloading = false
  | .ctl _ => s.ctls i = .unload .removeProc → ∀ j, j ≠ i → s.ctls j = .idle
  | _ => True

instance (s : Writers n) (i : Fin n) : ∀ e : Event, Decidable (s.Admits i e)
  | .command _ | .unload => inferInstanceAs (Decidable (∀ _, _ = false))
  | .ctl _ => inferInstanceAs (Decidable (_ → ∀ j, j ≠ i → s.ctls j = .idle))
  | .thread _ _ | .receive _ | .rxHook _ | .transmit _ _ | .timer | .tick => inferInstanceAs (Decidable True)

/-- A statement of the process `e.1`, or a step of something else, for which the process is of no matter. -/
def step (K : Kernel) (s : Writers n) (e : Fin n × Event) : Option (Writers n) :=
  if s.Admits e.1 e.2 then (Speedtest.step K (s.view e.1) e.2).map (s.put e.1) else none

/-- After `speedtest_init_module`. -/
def start (n : Nat) (K : Kernel) (jiffies : Nat) : Writers n :=
  ⟨(Speedtest.start K jiffies).mod, [], [], fun _ => .idle⟩

/-- A command is written, or the unloading begins, only when every command before has returned and the unloading has
    not begun. -/
def OneAtATime (s : Writers n) (e : Fin n × Event) : Prop :=
  match e.2 with
  | .command _ | .unload => ∀ j, s.ctls j = .idle
  | _ => True

instance (s : Writers n) : ∀ e : Fin n × Event, Decidable (s.OneAtATime e)
  | (_, .command _) | (_, .unload) => inferInstanceAs (Decidable (∀ j, s.ctls j = .idle))
  | (_, .ctl _) | (_, .thread _ _) | (_, .receive _) | (_, .rxHook _) | (_, .transmit _ _) | (_, .timer) | (_, .tick) =>
    inferInstanceAs (Decidable True)

/-- The control of the process that is at work, if there is one. -/
def busy (s : Writers n) : Ctl := ((List.ofFn s.ctls).find? (· != .idle)).getD .idle

/-- The module and the process that is at work. -/
def whole (s : Writers n) : State := ⟨s.mod, s.threads, s.busy, s.rxCalls⟩

/-- At most one process is at work. -/
def Alone (s : Writers n) : Prop := ∀ i j, s.ctls i ≠ .idle → s.ctls j ≠ .idle → i = j

end Writers

/-- The module with `n` processes. -/
def writersLts (n : Nat) (K : Kernel) : Lts (Writers n) (Fin n × Event) where
  init s := ∃ jiffies < 2 ^ K.bitsPerLong, s = .start n K jiffies
  step := Writers.step K

/-! ### One at a time -/

/-- What is not a step of a process does not depend on it. -/
theorem step_goto (K : Kernel) (s : State) (ctl : Ctl) {e : Event} (hcommand : ∀ nums, e ≠ .command nums)
    (hunload : e ≠ .unload) (hctl : ∀ ok, e ≠ .ctl ok) :
    step K (s.goto ctl) e = (step K s e).map (·.goto ctl) ∧ ∀ t, step K s e = some t → t.ctl = s.ctl := by
  cases e with
  | command nums => exact absurd rfl (hcommand nums)
  | unload => exact absurd rfl hunload
  | ctl ok => exact absurd rfl (hctl ok)
  | thread tid x =>
    simp only [step, threadStep, State.goto, Option.bind_eq_bind]
    cases s.threads[tid]? with
    | none => exact ⟨rfl, fun t ht => by cases ht⟩
    | some th =>
      simp only [Option.bind_some]
      split
      · cases bodyStep K th.stop x s.mod th.body with
        | none => exact ⟨rfl, fun t ht => by cases ht⟩
        | some r => exact ⟨rfl, fun t ht => by rw [← Option.some.inj ht]⟩
      · exact ⟨rfl, fun t ht => by cases ht⟩
  | receive data | transmit data dev | tick => exact ⟨rfl, fun t ht => by rw [← Option.some.inj ht]⟩
  | rxHook i =>
    simp only [step, State.goto]
    cases s.rxCalls[i]? with
    | none => exact ⟨rfl, fun t ht => by cases ht⟩
    | some r => exact ⟨rfl, fun t ht => by rw [← Option.some.inj ht]⟩
  | timer =>
    simp only [step, State.goto]
    split <;> rename_i hdue
    · exact ⟨if_pos hdue, fun t ht => by rw [← Option.some.inj ht]⟩
    · exact ⟨if_neg hdue, fun t ht => by cases ht⟩

namespace Writers
variable {n : Nat} {K : Kernel} {s t : Writers n} {i : Fin n}

theorem busy_eq (h : ∀ j, j ≠ i → s.ctls j = .idle) : s.busy = s.ctls i := by
  cases hf : (List.ofFn s.ctls).find? (· != .idle) with
  | none =>
    have hidle := List.find?_eq_none.mp hf (s.ctls i) ((List.mem_ofFn' _ _).mpr ⟨i, rfl⟩)
    rw [busy, hf, Option.getD_none]
    exact (by simpa using hidle : s.ctls i = .idle).symm
  | some c =>
    have hbusy := List.find?_some hf
    obtain ⟨j, rfl⟩ := (List.mem_ofFn' _ _).mp (List.mem_of_find?_eq_some hf)
    rw [busy, hf, Option.getD_some]
    by_cases hji : j = i
    · rw [hji]
    · rw [h j hji] at hbusy
      cases hbusy

theorem busy_mem (s : Writers n) : s.busy = .idle ∨ ∃ i, s.busy = s.ctls i := by
  cases hf : (List.ofFn s.ctls).find? (· != .idle) with
  | none => exact Or.inl (by rw [busy, hf]; rfl)
  | some c =>
    obtain ⟨j, rfl⟩ := (List.mem_ofFn' _ _).mp (List.mem_of_find?_eq_some hf)
    exact Or.inr ⟨j, by rw [busy, hf]; rfl⟩

theorem whole_eq_view (h : ∀ j, j ≠ i → s.ctls j = .idle) : s.whole = s.view i := by
  rw [whole, busy_eq h, view]

theorem step_ctl {ok : Bool} (h : s.ctls i ≠ .unload .removeProc) :
    s.step K (i, .ctl ok) = (Speedtest.step K (s.view i) (.ctl ok)).map (s.put i) :=
  if_pos fun hremove => absurd hremove h

theorem others_put (h : ∀ j, j ≠ i → s.ctls j = .idle) (u : State) : ∀ j, j ≠ i → (s.put i u).ctls j = .idle := by
  intro j hj
  exact (Function.update_of_ne hj _ _).trans (h j hj)

theorem whole_put (h : ∀ j, j ≠ i → s.ctls j = .idle) (u : State) : (s.put i u).whole = u := by
  rw [whole_eq_view (others_put h u), view, show (s.put i u).ctls i = u.ctl from Function.update_self _ _ _]
  rfl

theorem alone_of_others (h : ∀ j, j ≠ i → s.ctls j = .idle) : s.Alone := by
  have only (j : Fin n) (hj : s.ctls j ≠ .idle) : j = i := by
    by_contra hji
    exact hj (h j hji)
  intro j k hj hk
  rw [only j hj, only k hk]

theorem Alone.others (ha : s.Alone) (hi : s.ctls i ≠ .idle) : ∀ j, j ≠ i → s.ctls j = .idle := by
  intro j hj
  by_contra hb
  exact hj (ha j i hb hi)

theorem Alone.busy_of_ne (ha : s.Alone) (hi : s.ctls i ≠ .idle) : s.busy = s.ctls i := busy_eq (ha.others hi)

/-- While the writers come one at a time, a step is one of the process at work. -/
theorem step_whole {e : Fin n × Event} (ha : s.Alone) (hok : s.OneAtATime e) (hs : s.step K e = some t) :
    t.Alone ∧ Speedtest.step K s.whole e.2 = some t.whole := by
  obtain ⟨i, e⟩ := e
  obtain ⟨-, hs⟩ := Option.ite_none_right_eq_some.mp hs
  obtain ⟨u, hu, rfl⟩ := Option.map_eq_some_iff.mp hs
  have of_others (h : ∀ j, j ≠ i → s.ctls j = .idle) :
      (s.put i u).Alone ∧ Speedtest.step K s.whole e = some (s.put i u).whole :=
    ⟨alone_of_others (others_put h u), by rw [whole_eq_view h, whole_put h, hu]⟩
  have of_env (h : Speedtest.step K ((s.view i).goto s.busy) e = (Speedtest.step K (s.view i) e).map (·.goto s.busy) ∧
      ∀ t, Speedtest.step K (s.view i) e = some t → t.ctl = (s.view i).ctl) :
      (s.put i u).Alone ∧ Speedtest.step K s.whole e = some (s.put i u).whole := by
    have hctls : (s.put i u).ctls = s.ctls := by
      rw [put, h.2 u hu]
      exact Function.update_eq_self _ _
    refine ⟨by rw [Alone, hctls]; exact ha, ?_⟩
    have hbusy : (s.put i u).busy = s.busy := by rw [busy, hctls, busy]
    rw [show s.whole = (s.view i).goto s.busy from rfl, h.1, hu, Option.map_some, whole, hbusy]
    rfl
  cases e with
  | command | unload => exact of_others fun j _ => hok j
  | ctl ok =>
    refine of_others (ha.others fun hidle => ?_)
    simp [Speedtest.step, ctlStep, view, hidle] at hu
  | _ => exact of_env (step_goto K _ _ (by simp) (by simp) (by simp))

theorem alone_start (K : Kernel) (j : Nat) : (start n K j).Alone := fun _ _ h => absurd rfl h

theorem whole_start (K : Kernel) (j : Nat) : (start n K j).whole = Speedtest.start K j := by
  have hbusy : (start n K j).busy = .idle := by
    rw [busy, show List.ofFn (start n K j).ctls = List.replicate n .idle from List.ofFn_const _ _, List.find?_replicate]
    split <;> rfl
  rw [whole, hbusy]
  rfl

variable {η : Type} {obs : State → Event → η → η} {h₀ h : η}

/-- A run of writers that come one at a time is a run of one process. -/
theorem reach_whole (ok : State → Event → Prop)
    (hr : (writersLts n K).Reach (fun s e => s.OneAtATime e ∧ ok s.whole e.2) s) : s.Alone ∧ (lts K).Reach ok s.whole := by
  refine hr.map (f := whole) (g := Prod.snd) ?_ fun s e t ha hok hs => ?_
  · rintro _ ⟨j, hj, rfl⟩
    exact ⟨alone_start K j, j, hj, whole_start K j⟩
  · obtain ⟨ha', hs'⟩ := step_whole ha hok.1 hs
    exact ⟨ha', hok.2, hs'⟩

/-- The same for a run with a history. -/
theorem reach_whole_track (ok : State × η → Event → Prop)
    (hr : ((writersLts n K).track (fun s e => obs s.whole e.2) h₀).Reach
      (fun x e => x.1.OneAtATime e ∧ ok (x.1.whole, x.2) e.2) (s, h)) :
    s.Alone ∧ ((lts K).track obs h₀).Reach ok (s.whole, h) := by
  refine hr.map (f := fun x => (x.1.whole, x.2)) (g := Prod.snd) (I := fun x => x.1.Alone) ?_ fun x e y ha hok hs => ?_
  · rintro ⟨_, _⟩ ⟨⟨j, hj, rfl⟩, rfl⟩
    exact ⟨alone_start K j, ⟨j, hj, whole_start K j⟩, rfl⟩
  · obtain ⟨hs, hobs⟩ := Lts.track_step.mp hs
    obtain ⟨ha', hs'⟩ := step_whole ha hok.1 hs
    exact ⟨ha', hok.2, Lts.track_step.mpr ⟨hs', hobs⟩⟩

end Writers

end QuickStart.Speedtest
