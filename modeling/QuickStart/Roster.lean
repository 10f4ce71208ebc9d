import Mathlib.Data.Int.Order.Basic
import Mathlib.Data.List.Nodup
import Mathlib.Tactic.Simps.Basic
import QuickStart.Lts

/-! # Rosters

A list without repetitions that never outgrows the largest bound it has been given. Entries come in at the
front while there is room, or take the place of another one. -/

namespace QuickStart

/-- A list of distinct entries, no longer than its bound. -/
structure Roster (α : Type*) where
  entries : List α
  bound : Int
  nodup : entries.Nodup
  length_le : (entries.length : Int) ≤ bound

namespace Roster
variable {α : Type*}

def empty (bound : Int) (h : 0 ≤ bound) : Roster α := ⟨[], bound, List.nodup_nil, h⟩

/-- A new entry at the front, while there is room. -/
@[simps] def enroll (r : Roster α) (a : α) (fresh : a ∉ r.entries) (room : (r.entries.length : Int) < r.bound) :
    Roster α where
  entries := a :: r.entries
  bound := r.bound
  nodup := List.nodup_cons.mpr ⟨fresh, r.nodup⟩
  length_le := by
    rw [List.length_cons]
    omega

/-- A new entry in the place of the `i`-th one. -/
@[simps] def replace (r : Roster α) (i : Nat) (a : α) (fresh : a ∉ r.entries) : Roster α where
  entries := r.entries.set i a
  bound := r.bound
  nodup := r.nodup.set fresh
  length_le := by
    rw [List.length_set]
    exact r.length_le

@[simps] def raise (r : Roster α) (bound : Int) : Roster α where
  entries := r.entries
  bound := max r.bound bound
  nodup := r.nodup
  length_le := Int.le_trans r.length_le (Int.le_max_left _ _)

inductive Event (α : Type*)
  | enroll (a : α)
  | replace (i : Nat) (a : α)
  | raise (bound : Int)

variable [DecidableEq α]

def step (r : Roster α) : Event α → Option (Roster α)
  | .enroll a =>
    if h : a ∉ r.entries ∧ (r.entries.length : Int) < r.bound then some (r.enroll a h.1 h.2) else none
  | .replace i a => if h : a ∉ r.entries then some (r.replace i a h) else none
  | .raise bound => some (r.raise bound)

/-- The rosters that grow from the empty one with the bound `bound`. -/
def lts (bound : Int) : Lts (Roster α) (Event α) where
  init r := r.entries = [] ∧ r.bound = bound
  step := step

theorem step_enroll {b : Int} {r : Roster α} {a : α} (fresh : a ∉ r.entries)
    (room : (r.entries.length : Int) < r.bound) :
    (lts b).step r (.enroll a) = some (r.enroll a fresh room) := by
  simp [lts, step, fresh, room]

theorem step_replace {b : Int} {r : Roster α} {a : α} (i : Nat) (fresh : a ∉ r.entries) :
    (lts b).step r (.replace i a) = some (r.replace i a fresh) := by
  simp [lts, step, fresh]

end Roster

end QuickStart
