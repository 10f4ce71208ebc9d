import Mathlib.Logic.Relation
import Mathlib.Data.Option.Basic

/-! # Transition systems

Runs of a deterministic step function under an environment that picks the events. `Reach ok` holds of the
states of the runs whose steps all meet `ok`; `track` adds a history variable; a `Simulation` carries
reachability to an abstract system that may stay where it is. -/

namespace QuickStart

/-- A labelled transition system: `step s e` is the state after the event `e`, if `e` can happen in `s`. -/
structure Lts (σ ε : Type*) where
  init : σ → Prop
  step : σ → ε → Option σ

namespace Lts
variable {σ ε τ δ η : Type*}

/-- The states of the runs of `L` whose steps all meet `ok`. -/
inductive Reach (L : Lts σ ε) (ok : σ → ε → Prop) : σ → Prop
  | init {s : σ} : L.init s → Reach L ok s
  | step {s t : σ} (e : ε) : Reach L ok s → ok s e → L.step s e = some t → Reach L ok t

/-- The states of all runs. -/
abbrev Reachable (L : Lts σ ε) : σ → Prop := L.Reach fun _ _ => True

section Rules
variable {L : Lts σ ε} {ok : σ → ε → Prop} {s : σ}

/-- What holds initially and is kept by every step that meets `ok` holds in every state reached. -/
theorem Reach.invariant {I : σ → Prop} (h : L.Reach ok s) (init : ∀ s, L.init s → I s)
    (step : ∀ s e t, I s → ok s e → L.step s e = some t → I t) : I s := by
  induction h with
  | init h => exact init _ h
  | step e _ hok hs ih => exact step _ e _ ih hok hs

theorem Reach.mono {ok' : σ → ε → Prop} (h : L.Reach ok s) (hok : ∀ s e, ok s e → ok' s e) : L.Reach ok' s := by
  induction h with
  | init h => exact .init h
  | step e _ hs ht ih => exact ih.step e (hok _ e hs) ht

/-- A run is one of another system when every step is: `f` and `g` are the state and the event there, and `I` is an
    invariant of the runs that may be used for it. -/
theorem Reach.map {A : Lts τ δ} {ok' : τ → δ → Prop} {f : σ → τ} {g : ε → δ} {I : σ → Prop} (h : L.Reach ok s)
    (init : ∀ s, L.init s → I s ∧ A.init (f s))
    (step : ∀ s e t, I s → ok s e → L.step s e = some t → I t ∧ ok' (f s) (g e) ∧ A.step (f s) (g e) = some (f t)) :
    I s ∧ A.Reach ok' (f s) := by
  induction h with
  | init h => exact ⟨(init _ h).1, .init (init _ h).2⟩
  | step e _ hok hs ih =>
    obtain ⟨hi, hok', hs'⟩ := step _ e _ ih.1 hok hs
    exact ⟨hi, ih.2.step (g e) hok' hs'⟩

end Rules

/-! ### Runs of a list of events -/

section Runs
variable (L : Lts σ ε) (ok : σ → ε → Prop) [∀ s e, Decidable (ok s e)]

/-- The state after the events `es`, provided that each of them can happen and meets `ok`. -/
def runIf (s : σ) : List ε → Option σ
  | [] => some s
  | e :: es => if ok s e then (L.step s e).bind fun t => runIf t es else none

variable {L ok}

theorem Reach.runIf {s t : σ} {es : List ε} (h : L.Reach ok s) (hr : L.runIf ok s es = some t) : L.Reach ok t := by
  induction es generalizing s with
  | nil =>
    obtain rfl := Option.some.inj hr
    exact h
  | cons e es ih =>
    rw [Lts.runIf] at hr
    split at hr
    · rename_i hok
      obtain ⟨u, hu, hr⟩ := Option.bind_eq_some_iff.mp hr
      exact ih (h.step e hok hu) hr
    · cases hr

/-- A run that meets `ok` to a state with a property, from a check of the property at its end. -/
theorem exists_reach_of_runIf {s : σ} {es : List ε} {p : σ → Bool} (hr : (L.runIf ok s es).any p = true)
    (hi : L.init s) : ∃ t, L.Reach ok t ∧ p t = true := by
  cases ht : L.runIf ok s es with
  | none => rw [ht] at hr; cases hr
  | some t =>
    rw [ht] at hr
    exact ⟨t, (Reach.init hi).runIf ht, hr⟩

end Runs

/-! ### History variables -/

section History

/-- `L` with a history variable: `obs s e h` is its value after the event `e` in the state `s`. -/
def track (L : Lts σ ε) (obs : σ → ε → η → η) (h₀ : η) : Lts (σ × η) ε where
  init x := L.init x.1 ∧ x.2 = h₀
  step x e := (L.step x.1 e).map fun t => (t, obs x.1 e x.2)

variable {L : Lts σ ε} {obs : σ → ε → η → η} {h₀ : η}

theorem track_step {x y : σ × η} {e : ε} :
    (L.track obs h₀).step x e = some y ↔ L.step x.1 e = some y.1 ∧ y.2 = obs x.1 e x.2 := by
  obtain ⟨t, h⟩ := y
  simp only [track, Option.map_eq_some_iff, Prod.mk.injEq]
  constructor
  · rintro ⟨_, hs, rfl, rfl⟩
    exact ⟨hs, rfl⟩
  · rintro ⟨hs, rfl⟩
    exact ⟨t, hs, rfl, rfl⟩

/-- The rule of `Reach.invariant` for a state and its history. -/
theorem Reach.track_invariant {ok : σ × η → ε → Prop} {I : σ → η → Prop} {s : σ} {h : η}
    (hr : (L.track obs h₀).Reach ok (s, h)) (init : ∀ s, L.init s → I s h₀)
    (step : ∀ s h e t, I s h → ok (s, h) e → L.step s e = some t → I t (obs s e h)) : I s h := by
  refine hr.invariant (I := fun x => I x.1 x.2) ?_ ?_
  · rintro ⟨s, h⟩ ⟨hs, rfl⟩
    exact init s hs
  · rintro ⟨s, h⟩ e ⟨t, h'⟩ hi hok hs
    obtain ⟨hs, rfl⟩ := track_step.mp hs
    exact step s h e t hi hok hs

/-- A run with a history is a run. -/
theorem Reach.of_track {ok : σ → ε → Prop} {s : σ} {h : η}
    (hr : (L.track obs h₀).Reach (fun x e => ok x.1 e) (s, h)) : L.Reach ok s := by
  refine hr.invariant (I := fun x => L.Reach ok x.1) ?_ ?_
  · rintro x ⟨hx, -⟩
    exact .init hx
  · intro x e y hx hok hs
    exact hx.step e hok (track_step.mp hs).1

end History

/-! ### Simulation -/

/-- Each step of `C` from a state that `R` relates to one of `A` is a step of `A` or leaves it where it is. -/
structure Simulation (C : Lts σ ε) (A : Lts τ δ) (ok : σ → ε → Prop) (R : σ → τ → Prop) : Prop where
  init : ∀ s, C.init s → ∃ a, A.init a ∧ R s a
  step : ∀ s a e t, R s a → ok s e → C.step s e = some t → R t a ∨ ∃ d b, A.step a d = some b ∧ R t b

theorem Simulation.reach {C : Lts σ ε} {A : Lts τ δ} {ok : σ → ε → Prop} {R : σ → τ → Prop}
    (sim : Simulation C A ok R) {s : σ} (h : C.Reach ok s) : ∃ a, A.Reachable a ∧ R s a := by
  induction h with
  | init h =>
    obtain ⟨a, ha, hr⟩ := sim.init _ h
    exact ⟨a, .init ha, hr⟩
  | step e _ hok hs ih =>
    obtain ⟨a, ha, hr⟩ := ih
    rcases sim.step _ a e _ hr hok hs with hr' | ⟨d, b, hd, hr'⟩
    · exact ⟨a, ha, hr'⟩
    · exact ⟨b, ha.step d trivial hd, hr'⟩

end Lts

end QuickStart
