import Mathlib.Data.Multiset.AddSub
import Mathlib.Algebra.Order.Group.Multiset
import QuickStart.Lts

/-! # Loading and unloading a module

The init and the exit function of a module as the resources that they take and give back, one after the other, next
to processes that use the module through one of them. A `Ledger` keeps what is held and what has been given back
without being held; what it shows in every state follows from what it shows at the end of each function. -/

namespace QuickStart

/-- A statement that takes a resource or gives one back, or sets up static data. -/
inductive Move (ρ : Type*)
  | take (r : ρ)
  | give (r : ρ)
  | prepare (r : ρ)
  deriving DecidableEq, Repr

structure Ledger (ρ : Type*) where
  held : Multiset ρ
  /-- What has been given back without being held. -/
  stray : Multiset ρ
  deriving DecidableEq

namespace Ledger
variable {ρ : Type*} [DecidableEq ρ] {l : Ledger ρ} {r : ρ}

def move (l : Ledger ρ) : Move ρ → Ledger ρ
  | .take r => { l with held := r ::ₘ l.held }
  | .give r => if r ∈ l.held then { l with held := l.held.erase r } else { l with stray := r ::ₘ l.stray }
  | .prepare _ => l

def moves (l : Ledger ρ) (ms : List (Move ρ)) : Ledger ρ := ms.foldl move l

theorem moves_cons (l : Ledger ρ) (m : Move ρ) (ms : List (Move ρ)) : l.moves (m :: ms) = (l.move m).moves ms := rfl

theorem moves_append (l : Ledger ρ) (ms ns : List (Move ρ)) : l.moves (ms ++ ns) = (l.moves ms).moves ns :=
  List.foldl_append

theorem moves_take (l : Ledger ρ) (rs : List ρ) : l.moves (rs.map .take) = { l with held := (rs : Multiset ρ) + l.held } := by
  induction rs generalizing l with
  | nil => simp [moves]
  | cons r rs ih =>
    rw [List.map_cons, moves_cons, ih, move, ← Multiset.cons_coe, Multiset.add_cons, Multiset.cons_add]

/-- What is held can be given back in any order. -/
theorem moves_give {rs : List ρ} {h : Multiset ρ} (l : Ledger ρ) (hl : l.held = (rs : Multiset ρ) + h) :
    l.moves (rs.map .give) = { l with held := h } := by
  induction rs generalizing l with
  | nil =>
    rw [Multiset.coe_nil, zero_add] at hl
    rw [List.map_nil, ← hl]
    rfl
  | cons r rs ih =>
    rw [← Multiset.cons_coe, Multiset.cons_add] at hl
    have hmem : r ∈ l.held := by
      rw [hl]
      exact Multiset.mem_cons_self r _
    rw [List.map_cons, moves_cons, move, if_pos hmem]
    refine ih { l with held := l.held.erase r } ?_
    rw [hl]
    exact Multiset.erase_cons_head r _

/-- What has been taken is given back, in whatever order. -/
theorem moves_take_give (l : Ledger ρ) {ts gs : List ρ} (h : ts.Perm gs) :
    l.moves (ts.map .take ++ gs.map .give) = l := by
  rw [moves_append, moves_take]
  exact moves_give _ (by rw [Multiset.coe_eq_coe.mpr h])

/-- What is not held goes astray. -/
theorem moves_give_stray (l : Ledger ρ) (rs : List ρ) (hl : ∀ r ∈ rs, r ∉ l.held) :
    l.moves (rs.map .give) = { l with stray := (rs : Multiset ρ) + l.stray } := by
  induction rs generalizing l with
  | nil => simp [moves]
  | cons r rs ih =>
    rw [List.map_cons, moves_cons, move, if_neg (hl r List.mem_cons_self),
      ih { l with stray := r ::ₘ l.stray } fun x hx => hl x (List.mem_cons_of_mem r hx),
      ← Multiset.cons_coe,
      Multiset.add_cons, Multiset.cons_add]

end Ledger

/-- A module: the moves of its init function for the outcomes `o` of the calls in it, with what it leaves to the
    exit function when the module stays, and those of the exit function. -/
structure Kmod (ρ ο σ : Type*) where
  init : ο → List (Move ρ) × Option σ
  exit : σ → List (Move ρ)
  /-- The resource through which processes come to the module. -/
  node : ρ

namespace Kmod

inductive Phase (σ : Type*)
  | unloaded
  /-- in the init function, with what it is going to leave -/
  | loading (x : Option σ)
  | loaded (x : σ)
  | unloading
  deriving DecidableEq, Repr

structure State (ρ σ : Type*) where
  ledger : Ledger ρ
  phase : Phase σ
  /-- The moves of the function that is running. -/
  pending : List (Move ρ)
  /-- The processes that hold the module by its node. -/
  users : Nat
  deriving DecidableEq

inductive Event (ο : Type*)
  | load (o : ο)
  | unload
  /-- the next move of the function that is running, or its return -/
  | move
  | enter
  | leave
  deriving DecidableEq, Repr

section System
variable {ρ ο σ : Type*} [DecidableEq ρ]

/-- A module with users is not unloaded, and one that is being unloaded gets none. -/
def step (K : Kmod ρ ο σ) (s : State ρ σ) : Event ο → Option (State ρ σ)
  | .load o =>
    match s.phase with
    | .unloaded => some { s with phase := .loading (K.init o).2, pending := (K.init o).1 }
    | _ => none
  | .unload =>
    match s.phase with
    | .loaded x => if s.users = 0 then some { s with phase := .unloading, pending := K.exit x } else none
    | _ => none
  | .move =>
    match s.pending with
    | m :: ms => some { s with ledger := s.ledger.move m, pending := ms }
    | [] =>
      match s.phase with
      | .loading (some x) => some { s with phase := .loaded x }
      | .loading none | .unloading => some { s with phase := .unloaded }
      | .unloaded | .loaded _ => none
  | .enter =>
    match s.phase with
    | .loading _ | .loaded _ => if K.node ∈ s.ledger.held then some { s with users := s.users + 1 } else none
    | .unloaded | .unloading => none
  | .leave => if 0 < s.users then some { s with users := s.users - 1 } else none

/-- A module that nobody has loaded yet. -/
def start : State ρ σ where
  ledger := { held := 0, stray := 0 }
  phase := .unloaded
  pending := []
  users := 0

def lts (K : Kmod ρ ο σ) : Lts (State ρ σ) (Event ο) where
  init s := s = start
  step := K.step

inductive Steps (K : Kmod ρ ο σ) (s : State ρ σ) : Event ο → State ρ σ → Prop
  | loads (o : ο) (hp : s.phase = .unloaded) :
      Steps K s (.load o) { s with phase := .loading (K.init o).2, pending := (K.init o).1 }
  | unloads (x : σ) (hp : s.phase = .loaded x) (hu : s.users = 0) :
      Steps K s .unload { s with phase := .unloading, pending := K.exit x }
  | moves (m : Move ρ) (ms : List (Move ρ)) (hm : s.pending = m :: ms) :
      Steps K s .move { s with ledger := s.ledger.move m, pending := ms }
  | stays (x : σ) (hm : s.pending = []) (hp : s.phase = .loading (some x)) :
      Steps K s .move { s with phase := .loaded x }
  | goes (hm : s.pending = []) (hp : s.phase = .loading none ∨ s.phase = .unloading) :
      Steps K s .move { s with phase := .unloaded }
  | enters (hn : K.node ∈ s.ledger.held) (hp : s.phase ≠ .unloading) :
      Steps K s .enter { s with users := s.users + 1 }
  | leaves (hu : 0 < s.users) : Steps K s .leave { s with users := s.users - 1 }

theorem step_steps {K : Kmod ρ ο σ} {s t : State ρ σ} {e : Event ο} (hs : K.step s e = some t) : Steps K s e t := by
  unfold step at hs
  split at hs
  · split at hs
    · rename_i hp
      cases hs
      exact .loads _ hp
    · cases hs
  · split at hs
    · rename_i x hp
      split at hs
      · rename_i hu
        cases hs
        exact .unloads x hp hu
      · cases hs
    · cases hs
  · split at hs
    · rename_i m ms hm
      cases hs
      exact .moves m ms hm
    · rename_i hm
      split at hs
      · rename_i x hp
        cases hs
        exact .stays x hm hp
      · rename_i hp
        cases hs
        exact .goes hm (Or.inl hp)
      · rename_i hp
        cases hs
        exact .goes hm (Or.inr hp)
      all_goals cases hs
  · split at hs
    · rename_i hp
      split at hs <;> cases hs
      rename_i hn
      exact .enters hn (by simp [hp])
    · rename_i hp
      split at hs <;> cases hs
      rename_i hn
      exact .enters hn (by simp [hp])
    all_goals cases hs
  · split at hs <;> cases hs
    rename_i hu
    exact .leaves hu

/-- What the functions of a module do to a ledger: the resources held while it is loaded, and those that the
    functions give back without holding them. -/
structure Account (K : Kmod ρ ο σ) where
  full : σ → Multiset ρ
  initStray : ο → Multiset ρ
  exitStray : σ → Multiset ρ
  refused : ∀ o n, (K.init o).2 = none → Ledger.moves ⟨0, n⟩ (K.init o).1 = ⟨0, initStray o + n⟩
  kept : ∀ o n x, (K.init o).2 = some x → Ledger.moves ⟨0, n⟩ (K.init o).1 = ⟨full x, initStray o + n⟩
  removed : ∀ x n, Ledger.moves ⟨full x, n⟩ (K.exit x) = ⟨0, exitStray x + n⟩

namespace Account
variable {K : Kmod ρ ο σ} (A : K.Account)

/-- What has been given back without being held by the functions called so far. -/
def strays (s : State ρ σ) : Event ο → Multiset ρ → Multiset ρ
  | .load o, n => A.initStray o + n
  | .unload, n =>
    match s.phase with
    | .loaded x => A.exitStray x + n
    | _ => n
  | .move, n | .enter, n | .leave, n => n

/-- The ledger at the end of the function that is running. -/
structure Settles (s : State ρ σ) (n : Multiset ρ) : Prop where
  refused : s.phase = .loading none → s.ledger.moves s.pending = ⟨0, n⟩
  kept : ∀ x, s.phase = .loading (some x) → s.ledger.moves s.pending = ⟨A.full x, n⟩
  loaded : ∀ x, s.phase = .loaded x → s.pending = [] ∧ s.ledger = ⟨A.full x, n⟩
  unloading : s.phase = .unloading → s.ledger.moves s.pending = ⟨0, n⟩
  unloaded : s.phase = .unloaded → s.pending = [] ∧ s.ledger = ⟨0, n⟩

namespace Settles
variable {A} {s t : State ρ σ} {n : Multiset ρ}

theorem start : A.Settles start 0 where
  refused hp := by cases hp
  kept x hp := by cases hp
  loaded x hp := by cases hp
  unloading hp := by cases hp
  unloaded _ := ⟨rfl, rfl⟩

/-- The function that has executed its last move has left the ledger as its account says. -/
theorem ended (h : A.Settles s n) (hm : s.pending = []) :
    (s.phase = .loading none ∨ s.phase = .unloading → s.ledger = ⟨0, n⟩) ∧
      ∀ x, s.phase = .loading (some x) → s.ledger = ⟨A.full x, n⟩ := by
  constructor
  · rintro (hp | hp)
    · have hl := h.refused hp
      rwa [hm] at hl
    · have hl := h.unloading hp
      rwa [hm] at hl
  · intro x hp
    have hl := h.kept x hp
    rwa [hm] at hl

theorem step (h : A.Settles s n) {e : Event ο} (hs : K.step s e = some t) : A.Settles t (A.strays s e n) := by
  cases step_steps hs with
  | loads o hp =>
    obtain ⟨-, hl⟩ := h.unloaded hp
    refine ⟨fun hx => ?_, fun x hx => ?_, fun x hx => (by cases hx), fun hx => (by cases hx), fun hx => by cases hx⟩
    · rw [hl]
      exact A.refused o n (Phase.loading.inj hx)
    · rw [hl]
      exact A.kept o n x (Phase.loading.inj hx)
  | unloads x hp =>
    obtain ⟨-, hl⟩ := h.loaded x hp
    simp only [strays, hp]
    refine ⟨fun hx => (by cases hx), fun x hx => (by cases hx), fun x hx => (by cases hx), fun _ => ?_,
      fun hx => by cases hx⟩
    rw [hl]
    exact A.removed x n
  | moves m ms hm =>
    -- The function has come one move nearer to its end.
    have hmoves : (s.ledger.move m).moves ms = s.ledger.moves s.pending := by rw [hm, Ledger.moves_cons]
    have hne (hnil : s.pending = []) : False := List.cons_ne_nil m ms (hm.symm.trans hnil)
    exact
      { refused := fun hx => hmoves.trans (h.refused hx)
        kept := fun x hx => hmoves.trans (h.kept x hx)
        loaded := fun x hx => (hne (h.loaded x hx).1).elim
        unloading := fun hx => hmoves.trans (h.unloading hx)
        unloaded := fun hx => (hne (h.unloaded hx).1).elim }
  | stays x hm hp =>
    refine ⟨fun hx => (by cases hx), fun x hx => (by cases hx), fun y hy => ?_, fun hx => (by cases hx),
      fun hx => by cases hx⟩
    obtain rfl := Phase.loaded.inj hy
    exact ⟨hm, (h.ended hm).2 x hp⟩
  | goes hm hp =>
    exact ⟨fun hx => (by cases hx), fun x hx => (by cases hx), fun x hx => (by cases hx), fun hx => (by cases hx),
      fun _ => ⟨hm, (h.ended hm).1 hp⟩⟩
  | enters | leaves => exact ⟨h.refused, h.kept, h.loaded, h.unloading, h.unloaded⟩

end Settles

end Account

/-- A process enters only when the init function has returned. -/
def Late (s : State ρ σ) : Event ο → Prop
  | .enter => ∃ x, s.phase = .loaded x
  | .load _ | .unload | .move | .leave => True

/-- Users that enter late find the module loaded. -/
theorem users_loaded {K : Kmod ρ ο σ} {s : State ρ σ} (h : K.lts.Reach Late s) (hu : 0 < s.users) :
    ∃ x, s.phase = .loaded x := by
  revert hu
  refine h.invariant (I := fun s => 0 < s.users → ∃ x, s.phase = .loaded x) ?_ ?_
  · rintro _ rfl hu
    cases hu
  · intro s e t hi hok hs hu
    cases step_steps hs with
    | loads o hp =>
      obtain ⟨x, hx⟩ := hi hu
      rw [hp] at hx
      cases hx
    | unloads x hp h0 => exact absurd h0 hu.ne'
    | moves m ms hm => exact hi hu
    | stays x hm hp => exact ⟨x, rfl⟩
    | goes hm hp =>
      obtain ⟨x, hx⟩ := hi hu
      rcases hp with hp | hp <;> rw [hp] at hx <;> cases hx
    | enters => exact hok
    | leaves h0 => exact hi h0

end System

end Kmod

end QuickStart
