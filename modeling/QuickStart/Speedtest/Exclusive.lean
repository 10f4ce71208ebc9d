import QuickStart.Speedtest.Slots
import QuickStart.Speedtest.Writers

/-! # What one thread has for itself

`comp_skbqueue` and the counters have no lock. The queue has one reader at a time, since a compute thread keeps its
pointer as long as it reads; a direction has one sender that writes its status, up to the end time. -/

namespace QuickStart.Speedtest
open State

/-- The next statement takes from `comp_skbqueue`. -/
def Body.reads : Body → Bool
  | .compute (.drain _) | .compute .flush => true
  | _ => false

/-- The next statement of a sender writes the status of the direction; the end time comes later. -/
def Body.records (d : Dir) : Body → Bool
  | .sender e (.setState _) | .sender e (.setCsum _) | .sender e .setBegin | .sender e (.count _) => e == d
  | _ => false

theorem Body.holds_of_reads {b : Body} (h : b.reads = true) : b.holds = true ∧ b.slot = .compute := by
  rcases b with ⟨d, pc⟩ | pc <;> cases pc <;> first | exact ⟨rfl, rfl⟩ | cases h

theorem Body.holds_of_records {b : Body} {d : Dir} (h : b.records d = true) : b.holds = true ∧ b.slot = .sender d := by
  rcases b with ⟨e, pc⟩ | pc
  · cases pc <;> simp [Body.records] at h <;> subst h <;> exact ⟨rfl, rfl⟩
  · cases h

namespace Held
variable {s : State}

/-- Two threads that hold the same slot are one. -/
theorem unique (h : Held s) {i j : Nat} {th th' : Thread} (hi : s.threads[i]? = some th) (hj : s.threads[j]? = some th')
    (hslot : th.body.slot = th'.body.slot) (hholds : th.body.holds = true) (hholds' : th'.body.holds = true) : i = j := by
  have hptr := h.names i th hi hholds
  rw [hslot, h.names j th' hj hholds'] at hptr
  exact (Ptr.task.inj hptr).symm

/-- Nobody holds a slot that the control has found empty. -/
theorem not_holds_of_vacant (h : Held s) {i : Nat} {th : Thread} (hi : s.threads[i]? = some th)
    (hv : s.ctl.vacant th.body.slot = true) : th.body.holds = false := h.not_holds hi (h.vacant _ hv)

end Held

/-- While the commands come one at a time, at most one thread takes from the queue, and none while a command creates a
    new compute thread or after the unloading has stopped the last one, so that `kfifo_free` finds no reader; and at
    most one sender writes the status of a direction, and none while a command clears it. -/
theorem readers_alone {n : Nat} {K : Kernel} {s : Writers n}
    (h : (writersLts n K).Reach (fun s e => s.OneAtATime e) s) :
    (∀ (i j : Nat) (th th' : Thread), s.threads[i]? = some th → s.threads[j]? = some th' → th.body.reads = true →
      th'.body.reads = true → i = j) ∧
    (∀ (p : Fin n) (i : Nat) (th : Thread), s.threads[i]? = some th → (s.ctls p).vacant .compute = true →
      th.body.reads = false) ∧
    ∀ d, (∀ (i j : Nat) (th th' : Thread), s.threads[i]? = some th → s.threads[j]? = some th' →
      th.body.records d = true → th'.body.records d = true → i = j) ∧
      ∀ (p : Fin n) (i : Nat) (th : Thread) (c : Command), s.threads[i]? = some th → s.ctls p = .cmd c (.clear d) →
        th.body.records d = false := by
  obtain ⟨halone, hr⟩ := Writers.reach_whole (fun _ _ => True) (h.mono fun _ _ hok => ⟨hok, trivial⟩)
  have hheld := held hr
  refine ⟨fun i j th th' hi hj hr hr' => ?_, fun p i th hi hv => ?_, fun d => ⟨fun i j th th' hi hj hc hc' => ?_,
    fun p i th c hi hctl => ?_⟩⟩
  · obtain ⟨hh, hs⟩ := Body.holds_of_reads hr
    obtain ⟨hh', hs'⟩ := Body.holds_of_reads hr'
    exact hheld.unique hi hj (hs.trans hs'.symm) hh hh'
  · have hne : s.ctls p ≠ .idle := by
      rintro hidle
      rw [hidle] at hv
      cases hv
    have hv' : s.whole.ctl.vacant .compute = true := (congrArg (·.vacant .compute) (halone.busy_of_ne hne)).trans hv
    by_contra hr
    obtain ⟨hh, hs⟩ := Body.holds_of_reads (Bool.eq_true_of_not_eq_false hr)
    rw [hheld.not_holds_of_vacant hi (hs ▸ hv')] at hh
    cases hh
  · obtain ⟨hh, hs⟩ := Body.holds_of_records hc
    obtain ⟨hh', hs'⟩ := Body.holds_of_records hc'
    exact hheld.unique hi hj (hs.trans hs'.symm) hh hh'
  · by_contra hc
    obtain ⟨hh, hs⟩ := Body.holds_of_records (Bool.eq_true_of_not_eq_false hc)
    have hv : s.whole.ctl.vacant th.body.slot = true := by
      rw [show s.whole.ctl = s.ctls p from halone.busy_of_ne (by rw [hctl]; simp), hctl, hs]
      exact decide_eq_true (le_refl d)
    rw [hheld.not_holds_of_vacant hi hv] at hh
    cases hh

/-- The compute thread of the second of two tests, each started by a process of its own, at the queue. -/
theorem readers_alone_second : ∃ (s : Writers 2) (th : Thread),
    (writersLts 2 kernel32).Reach (fun s e => s.OneAtATime e) s ∧ s.threads[5]? = some th ∧ th.body.reads = true ∧
    ∀ (j : Nat) (th' : Thread), s.threads[j]? = some th' → th'.body.reads = true → j = 5 := by
  have hrun : ((writersLts 2 kernel32).runIf (fun s e => s.OneAtATime e) (.start 2 kernel32 1000)
      (firstTest.map ((0, ·)) ++ (commandRun ++ [Event.thread 5 ⟨none, true, 0⟩]).map ((1, ·)))).any
      (fun s => s.threads[5]?.any fun th => th.body.reads) = true := by decide +kernel
  obtain ⟨s, hr, hp⟩ := Lts.exists_reach_of_runIf hrun ⟨1000, by decide, rfl⟩
  obtain ⟨th, hth, hreads⟩ := (Option.any_eq_true _ _).mp hp
  exact ⟨s, th, hr, hth, hreads, fun j th' hj hr' => (readers_alone hr).1 j 5 th' th hj hth hr' hreads⟩

end QuickStart.Speedtest
