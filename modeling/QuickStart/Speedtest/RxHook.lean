import QuickStart.Speedtest.Slots
import QuickStart.Speedtest.Writers

/-! # The receive hook during a test

A command installs `fast_rcv_speedtest_pkt` before it has waited for the compute thread of the test before,
whose last statements install `rcv_speedtest_probe_pkt`. When no such thread is left, the fast hook stays until
the counting loop of the new one ends. -/

namespace QuickStart.Speedtest
open State

def ComputePc.counting : ComputePc → Bool
  | .entry | .drain _ | .look _ _ | .arm _ | .test _ _ => true
  | _ => false

/-- A compute thread that has not left its counting loop. -/
def Body.counting : Body → Bool
  | .compute pc => pc.counting
  | .sender _ _ => false

/-- A compute thread that has still to install `rcv_speedtest_probe_pkt`. -/
def Body.willProbe : Body → Bool
  | .compute pc => pc.holds || pc == .setHook
  | .sender _ _ => false

theorem Body.counting.holds {b : Body} (h : b.counting = true) : b.holds = true ∧ b.slot = .compute := by
  rcases b with ⟨d, pc⟩ | pc
  · cases h
  · cases pc <;> first | exact ⟨rfl, rfl⟩ | cases h

theorem Body.counting.willProbe {b : Body} (h : b.counting = true) : b.willProbe = true := by
  rcases b with ⟨d, pc⟩ | pc
  · cases h
  · cases pc <;> first | rfl | cases h

def Ctl.installs : Ctl → Bool
  | .cmd _ .hook => true
  | _ => false

/-- The command has installed the fast hook and not created the compute thread yet. -/
def Ctl.installed : Ctl → Bool
  | .cmd _ .ready | .cmd _ (.stopComp _) | .cmd _ .createComp => true
  | _ => false

/-- The fast hook is installed only when every compute thread has had its turn with the hook. -/
def Uncontested (s : State) : Event → Prop
  | .ctl _ => s.ctl.installs = true → ∀ th ∈ s.threads, th.body.willProbe = false
  | _ => True

instance (s : State) : ∀ e : Event, Decidable (Uncontested s e)
  | .ctl _ => inferInstanceAs (Decidable (_ → _))
  | .thread _ _ | .command _ | .unload | .receive _ | .rxHook _ | .transmit _ _ | .timer | .tick =>
    inferInstanceAs (Decidable True)

theorem Computes.rxHook {K : Kernel} {stop : Bool} {m m' : Mod} {pc pc' : ComputePc} (h : Computes K stop m pc m' pc') :
    (m'.rxHook = m.rxHook ∧ (pc'.counting = true → pc.counting = true) ∧
      ((pc'.holds || pc' == .setHook) = true → (pc.holds || pc == .setHook) = true)) ∨
    (pc = .setHook ∧ pc'.counting = false ∧ (pc'.holds || pc' == .setHook) = false) := by
  cases h with
  | setsHook => exact Or.inr ⟨rfl, rfl, rfl⟩
  | counts endTime skb rest =>
    rw [computePkt_eq]
    exact Or.inl ⟨rfl, fun _ => rfl, fun _ => rfl⟩
  | flushed | frees | clearsPtr => exact Or.inl ⟨rfl, fun h => (by cases h), fun _ => rfl⟩
  | testsTimer | finishes => refine Or.inl ⟨rfl, fun h => ?_, fun h => ?_⟩ <;> split at h <;> cases h
  | clearsReady | initsTimer | loses => exact Or.inl ⟨rfl, fun h => (by cases h), fun h => (by cases h)⟩
  | _ => exact Or.inl ⟨rfl, fun _ => rfl, fun _ => rfl⟩

/-- Only the statement behind the clearing of its pointer lets a compute thread write the hook. -/
theorem bodyStep_rxHook {K : Kernel} {stop : Bool} {x : Input} {m m' : Mod} {b b' : Body}
    (hs : bodyStep K stop x m b = some (m', b')) :
    (b'.counting = true → b.counting = true) ∧ (b'.willProbe = true → b.willProbe = true) ∧
      (m'.rxHook = m.rxHook ∨ (b.willProbe = true ∧ b.counting = false)) := by
  cases bodyStep_executes hs with
  | sends d h => exact ⟨fun h => (by cases h), fun h => (by cases h), Or.inl rfl⟩
  | @computes _ pc pc' h =>
    rcases h.rxHook with ⟨hhook, hc, hp⟩ | ⟨rfl, hc, hp⟩
    · exact ⟨hc, hp, Or.inl hhook⟩
    · refine ⟨fun h => ?_, fun _ => rfl, Or.inr ⟨rfl, rfl⟩⟩
      rw [show Body.counting (.compute pc') = pc'.counting from rfl, hc] at h
      cases h

theorem installed_stopAt {ctl : Ctl} {p : StopPc} : (ctl.stopAt p).installed = ctl.installed := by
  rcases ctl with _ | ⟨c, pc⟩ | pc | _ | _ <;> try rfl
  all_goals cases pc <;> rfl

theorem installed_afterStop {ctl : Ctl} {sl : Slot} {p : StopPc} (hstop : ctl.stopping = some (sl, p))
    (h : ctl.afterStop.installed = true) : ctl.installed = true := by
  generalize h' : ctl.afterStop = ctl' at h
  cases afterStop_exits hstop h' <;> first | rfl | cases h

theorem installed_afterWake {ctl : Ctl} {sl : Slot} (h : ctl.wakes = some sl) : ctl.afterWake.installed = ctl.installed := by
  generalize h' : ctl.afterWake = ctl'
  cases afterWake_wakes h h' <;> rfl

/-- The fast hook belongs to the command that creates a compute thread, and then to that thread. -/
structure Hooked (s : State) : Prop where
  held : Held s
  installed : s.ctl.installed = true → s.mod.rxHook = .fastRcvSpeedtestPkt ∧
    ∀ th ∈ s.threads, th.body.willProbe = false
  counting : ∀ (i : Nat) (th : Thread), s.threads[i]? = some th → th.body.counting = true →
    s.mod.rxHook = .fastRcvSpeedtestPkt ∧
      ∀ (j : Nat) (th' : Thread), s.threads[j]? = some th' → th'.body.willProbe = true → j = i

namespace Hooked
variable {K : Kernel} {s t : State}

theorem start (K : Kernel) (j : Nat) : Hooked (start K j) where
  held := Held.start K j
  installed h := by cases h
  counting i th hi := by simp [Speedtest.start] at hi

theorem not_counting (h : Hooked s) (hnull : s.mod.ptr .compute = .null) {i : Nat} {th : Thread}
    (hi : s.threads[i]? = some th) : th.body.counting = false := by
  by_contra hc
  obtain ⟨hholds, hslot⟩ := Body.counting.holds (by simpa using hc)
  have := h.held.not_holds hi (hslot ▸ hnull)
  rw [hholds] at this
  cases this

theorem ran (h : Hooked s) {tid : Nat} {x : Input} {th : Thread} {m : Mod} {b : Body} (hr : Ran K s t tid x th m b) :
    Hooked t := by
  have hheld := h.held.ran hr
  obtain ⟨hth, -, hb, rfl⟩ := hr
  obtain ⟨hcount, hprobe, hhook⟩ := bodyStep_rxHook hb
  -- Another thread that had still to write the hook would not be let count.
  have old (j : Nat) (th' : Thread) (hj : (s.threads.set tid { th with body := b })[j]? = some th')
      (hp : th'.body.willProbe = true) : ∃ th'', s.threads[j]? = some th'' ∧ th''.body.willProbe = true := by
    rcases Calls.getElem?_set_cases hj with ⟨rfl, rfl⟩ | ⟨-, hj⟩
    · exact ⟨th, hth, hprobe hp⟩
    · exact ⟨th', hj, hp⟩
  refine ⟨hheld, fun hinst => ?_, fun i th' hi hc => ?_⟩
  · obtain ⟨hfast, hnone⟩ := h.installed hinst
    refine ⟨?_, fun th' hm => ?_⟩
    · rcases hhook with he | ⟨hp, -⟩
      · exact he.trans hfast
      · rw [hnone th (List.mem_of_getElem? hth)] at hp
        cases hp
    · obtain ⟨j, hj⟩ := List.mem_iff_getElem?.mp hm
      by_contra hp
      obtain ⟨th'', hj', hp'⟩ := old j th' hj (by simpa using hp)
      rw [hnone th'' (List.mem_of_getElem? hj')] at hp'
      cases hp'
  · have hbefore : ∃ th'', s.threads[i]? = some th'' ∧ th''.body.counting = true := by
      rcases Calls.getElem?_set_cases hi with ⟨rfl, rfl⟩ | ⟨-, hi⟩
      · exact ⟨th, hth, hcount hc⟩
      · exact ⟨th', hi, hc⟩
    obtain ⟨th'', hi', hc'⟩ := hbefore
    obtain ⟨hfast, honly⟩ := h.counting i th'' hi' hc'
    refine ⟨?_, fun j th₁ hj hp => ?_⟩
    · rcases hhook with he | ⟨hp, hno⟩
      · exact he.trans hfast
      · obtain rfl := honly tid th hth hp
        rw [hth] at hi'
        obtain rfl := Option.some.inj hi'
        rw [hno] at hc'
        cases hc'
    · obtain ⟨th₂, hj', hp'⟩ := old j th₁ hj hp
      exact honly j th₂ hj' hp'

theorem of_frame (h : Hooked s) (hheld : Held t) (hhook : t.mod.rxHook = s.mod.rxHook) (hbodies : SameBodies s t)
    (hinst : t.ctl.installed = true → s.ctl.installed = true) : Hooked t := by
  refine ⟨hheld, fun hi => ?_, fun i th hi hc => ?_⟩
  · obtain ⟨hfast, hnone⟩ := h.installed (hinst hi)
    refine ⟨hhook.trans hfast, fun th hm => ?_⟩
    obtain ⟨j, hj⟩ := List.mem_iff_getElem?.mp hm
    obtain ⟨th', hj', hb⟩ := hbodies j th hj
    exact hb ▸ hnone th' (List.mem_of_getElem? hj')
  · obtain ⟨th₀, hi₀, hb⟩ := hbodies i th hi
    obtain ⟨hfast, honly⟩ := h.counting i th₀ hi₀ (hb ▸ hc)
    refine ⟨hhook.trans hfast, fun j th' hj hp => ?_⟩
    obtain ⟨th₁, hj₁, hb'⟩ := hbodies j th' hj
    exact honly j th₁ hj₁ (hb' ▸ hp)

theorem acts (h : Hooked s) {ok : Bool} (hok : Uncontested s (.ctl ok)) (ha : Acts s ok t) : Hooked t := by
  have hheld := h.held.acts ha
  cases ha with
  | leaves sl hstop => exact h.of_frame hheld rfl (.of_eq rfl) (installed_afterStop hstop)
  | stays | waited => exact h.of_frame hheld rfl (.of_eq rfl) fun hi => installed_stopAt.symm.trans hi
  | tells => exact h.of_frame hheld rfl (.of_modify rfl fun _ => rfl) fun hi => installed_stopAt.symm.trans hi
  | wakes sl tid hwakes =>
    exact h.of_frame hheld rfl (.of_modify rfl fun _ => rfl) fun hi => (installed_afterWake hwakes).symm.trans hi
  | readies c hctl => exact h.of_frame hheld rfl (.of_eq rfl) fun _ => by rw [hctl]; rfl
  | parses c d =>
    refine h.of_frame hheld rfl (.of_eq rfl) fun hi => ?_
    rcases dir_cases d with rfl | rfl <;> cases hi
  | skips c d =>
    refine h.of_frame hheld rfl (.of_eq rfl) fun hi => ?_
    rcases dir_cases d with rfl | rfl
    · cases hi
    · cases hrun : c.taskRunFlag <;> simp [State.goto, Ctl.installed, hrun] at hi
  | faults | rejects | clears | fails | failsComp | wakesNone | returns | delTimer | removeProc | txNull | fifoFree =>
    exact h.of_frame hheld rfl (.of_eq rfl) fun hi => by cases hi
  | installs c hctl =>
    have hnone := hok (by rw [hctl]; rfl)
    refine ⟨hheld, fun _ => ⟨rfl, hnone⟩, fun i th hi hc => ?_⟩
    have := hnone th (List.mem_of_getElem? hi)
    rw [Body.counting.willProbe hc] at this
    cases this
  | rxNull hctl =>
    refine ⟨hheld, fun hi => (by cases hi), fun i th hi hc => ?_⟩
    have hnull := h.held.vacant .compute (by rw [hctl]; rfl)
    have := h.not_counting hnull hi
    rw [hc] at this
    cases this
  | creates c d hctl =>
    refine ⟨hheld, fun hi => ?_, fun i th hi hc => ?_⟩
    · rcases dir_cases d with rfl | rfl <;> cases hi
    · -- The new thread is a sender.
      rcases Calls.getElem?_concat_cases hi with hi | ⟨-, rfl⟩
      · obtain ⟨hfast, honly⟩ := h.counting i th hi hc
        refine ⟨hfast, fun j th' hj hp => ?_⟩
        rcases Calls.getElem?_concat_cases hj with hj | ⟨-, rfl⟩
        · exact honly j th' hj hp
        · cases hp
      · cases hc
  | createsComp c hctl =>
    obtain ⟨hfast, hnone⟩ := h.installed (by rw [hctl]; rfl)
    have not_old {j : Nat} {th' : Thread} (hj : s.threads[j]? = some th') (hp : th'.body.willProbe = true) : False := by
      rw [hnone th' (List.mem_of_getElem? hj)] at hp
      cases hp
    refine ⟨hheld, fun hi => (by cases hi), fun i th hi hc => ⟨hfast, fun j th' hj hp => ?_⟩⟩
    rcases Calls.getElem?_concat_cases hi with hi | ⟨rfl, -⟩
    · exact (not_old hi (Body.counting.willProbe hc)).elim
    · rcases Calls.getElem?_concat_cases hj with hj | ⟨rfl, -⟩
      · exact (not_old hj hp).elim
      · rfl

theorem outside (h : Hooked s) (ho : Outside s t) : Hooked t := by
  refine h.of_frame (h.held.outside ho) ho.mod.rxHook (.of_eq ho.threads) fun hi => ?_
  rcases ho.ctl with hc | ⟨-, hc⟩ | ⟨-, nums, -, hc⟩
  · exact hc ▸ hi
  · rw [hc] at hi
    cases hi
  · rw [hc] at hi
    cases hi

theorem step (h : Hooked s) {e : Event} (hok : Uncontested s e) (hs : step K s e = some t) : Hooked t := by
  rcases step_cases hs with ⟨tid, x, th, m, b, -, hr⟩ | ⟨ok, rfl, ha⟩ | ho
  · exact h.ran hr
  · exact h.acts hok ha
  · exact h.outside ho

end Hooked

theorem hooked {K : Kernel} {s : State} (h : (lts K).Reach Uncontested s) : Hooked s :=
  h.invariant (fun _ ⟨j, _, he⟩ => he ▸ Hooked.start K j) fun _ _ _ hi hok hs => hi.step hok hs

/-- In the runs of `Uncontested` whose commands come one at a time, every packet received while a compute thread
    counts goes to its queue. -/
theorem hook_fast {n : Nat} {K : Kernel} {s : Writers n}
    (h : (writersLts n K).Reach (fun s e => s.OneAtATime e ∧ Uncontested s.whole e.2) s) {th : Thread}
    (hm : th ∈ s.threads) (hc : th.body.counting = true) : s.mod.rxHook = .fastRcvSpeedtestPkt := by
  obtain ⟨-, hr⟩ := Writers.reach_whole _ h
  obtain ⟨i, hi⟩ := List.mem_iff_getElem?.mp hm
  exact ((hooked hr).counting i th hi hc).1

/-- A test that one process starts after that of another has ended by itself. -/
theorem hook_fast_second : ∃ s : Writers 2,
    (writersLts 2 kernel32).Reach (fun s e => s.OneAtATime e ∧ Uncontested s.whole e.2) s ∧
    (∃ th ∈ s.threads.drop 5, th.body = .compute (.drain 0)) ∧ s.mod.rxHook = .fastRcvSpeedtestPkt := by
  have hrun : ((writersLts 2 kernel32).runIf (fun s e => s.OneAtATime e ∧ Uncontested s.whole e.2)
      (.start 2 kernel32 1000) (firstTest.map ((0, ·)) ++
        (commandRun ++ [Event.thread 5 ⟨none, true, 0⟩]).map ((1, ·)))).any
      (fun s => (s.threads.drop 5).any (·.body == .compute (.drain 0))) = true := by decide +kernel
  obtain ⟨s, hr, hp⟩ := Lts.exists_reach_of_runIf hrun ⟨1000, by decide, rfl⟩
  simp only [beq_iff_eq, List.any_eq_true] at hp
  obtain ⟨th, hm, hb⟩ := hp
  exact ⟨s, hr, ⟨th, hm, hb⟩, hook_fast hr (List.mem_of_mem_drop hm) (by rw [hb]; rfl)⟩

/-- A second command comes while the compute thread of the first test drains: its last statements undo the
    installation of the fast hook, and the second test counts under the probe hook. -/
theorem hook_probe : ∃ s : Writers 1, (writersLts 1 kernel32).Reachable s ∧ s.ctls 0 = .idle ∧
    (∃ th ∈ s.threads, th.body.counting = true) ∧ s.mod.rxHook = .rcvSpeedtestProbePkt := by
  have hrun : ((writersLts 1 kernel32).runIf (fun _ _ => True) (.start 1 kernel32 1000)
      ((commandRun ++ [Event.thread 2 ⟨none, true, 0⟩] ++ senderRun 0 ++ senderRun 1 ++
        Event.command [1, 0, 100, 42, 1] :: List.replicate 12 (Event.ctl true) ++
        List.replicate 13 (Event.thread 2 ⟨none, true, 0⟩) ++ List.replicate 7 (Event.ctl true) ++
        [Event.thread 5 ⟨none, true, 0⟩]).map ((0, ·)))).any
      (fun s => s.ctls 0 == .idle && s.threads.any (·.body.counting) && s.mod.rxHook == .rcvSpeedtestProbePkt) = true := by
    decide +kernel
  obtain ⟨s, hr, hp⟩ := Lts.exists_reach_of_runIf hrun ⟨1000, by decide, rfl⟩
  simp only [Bool.and_eq_true, beq_iff_eq, List.any_eq_true] at hp
  exact ⟨s, hr, hp.1.1, hp.1.2, hp.2⟩

end QuickStart.Speedtest
