import QuickStart.Lts

/-! # Parking without a lost wake-up

Someone who sleeps when there is nothing to do, and wakers who say that there is. `resting` means that the
sleeper will not look again before it is called. A waker owes a call from the moment it decides to make it. -/

namespace QuickStart

/-- A sleeper and its wakers; work that a resting sleeper does not know of is owed a call. -/
structure Park where
  work : Bool
  resting : Bool
  calls : Nat
  told : resting = true → work = true → 0 < calls

namespace Park

/-- Someone sleeps, there is work, and nobody is going to say so. -/
def Lost (p : Park) : Prop := p.resting = true ∧ p.work = true ∧ p.calls = 0

theorem not_lost (p : Park) : ¬p.Lost := fun ⟨hr, hw, hc⟩ => absurd (p.told hr hw) (by omega)

inductive Event
  | announce
  /-- there is work, and the sleeper is up or owed a call -/
  | publish
  | take
  /-- the sleeper has nothing left to do and goes to rest -/
  | settle
  /-- a call that reaches the sleeper -/
  | call
  /-- a call that does not reach the sleeper, which has nothing to do, is up, or is owed another call -/
  | miss
  /-- a call of somebody who owes none -/
  | alarm
  deriving DecidableEq

def step (p : Park) : Event → Option Park
  | .announce => some { p with calls := p.calls + 1, told := fun _ _ => Nat.succ_pos _ }
  | .publish =>
    if h : p.resting = true → 0 < p.calls then some { p with work := true, told := fun hr _ => h hr } else none
  | .take => some { p with work := false, told := fun _ hw => by cases hw }
  | .settle => some { p with work := false, resting := true, told := fun _ hw => by cases hw }
  | .call => some { p with resting := false, calls := p.calls - 1, told := fun hr _ => by cases hr }
  | .miss =>
    if h : p.resting = true → p.work = true → 1 < p.calls then
      some { p with calls := p.calls - 1, told := fun hr hw => Nat.sub_pos_of_lt (h hr hw) }
    else none
  | .alarm => some { p with resting := false, told := fun hr _ => by cases hr }

def lts : Lts Park Event where
  init p := p.resting = false ∧ p.work = false ∧ p.calls = 0
  step := step

def idle : Park := ⟨false, false, 0, fun hr => by cases hr⟩

end Park

end QuickStart
