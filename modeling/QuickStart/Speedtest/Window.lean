import QuickStart.Speedtest.Slots

/-! # The window of the loop detection

`speedtest_loop_detect_cb` opens a window when it finds one direction detected and means to clear `st_ready` when
the window is over. It tests for the end only when no window is open, so that a direction stays detected. -/

namespace QuickStart.Speedtest
open State

/-- When the latest probe of each direction came. -/
abbrev Probes := Dir → Option Nat

/-- The probes that `rcv_speedtest_probe_pkt` has seen. -/
def probes (s : State) (e : Event) (h : Probes) : Probes :=
  match e with
  | .rxHook i =>
    match s.rxCalls[i]? with
    | some (_, skb) => skb.dir.elim h fun d => Function.update h d (some s.mod.jiffies)
    | none => h
  | _ => h

abbrev probeLts (K : Kernel) : Lts (State × Probes) Event := (lts K).track probes fun _ => none

section Window
variable (K : Kernel) (x : State × Probes)

/-- Packets and callbacks, each callback when the timer expires, while the clock does not wrap and the end of a
    window is not 0. -/
def Probing : Event → Prop
  | .receive _ | .rxHook _ | .transmit _ _ => True
  | .timer => K.add x.1.mod.jiffies (5 * K.hz) ≠ 0
  | .tick => x.1.mod.jiffies + 1 < 2 ^ K.bitsPerLong ∧
      x.1.mod.loopDetectTimer.any (K.timeAfterEq x.1.mod.jiffies) = false
  | .thread _ _ | .command _ | .unload | .ctl _ => False

instance : ∀ e : Event, Decidable (Probing K x e)
  | .receive _ | .rxHook _ | .transmit _ _ => inferInstanceAs (Decidable True)
  | .timer => inferInstanceAs (Decidable (_ ≠ _))
  | .tick => inferInstanceAs (Decidable (_ ∧ _))
  | .thread _ _ | .command _ | .unload | .ctl _ => inferInstanceAs (Decidable False)

/-- The latest probe of the direction came in the last 9 seconds. -/
def Recent (d : Dir) : Prop := ∃ t ∈ x.2 d, x.1.mod.jiffies ≤ t + 9 * K.hz

instance (d : Dir) : Decidable (Recent K x d) := inferInstanceAs (Decidable (∃ t ∈ x.2 d, _))

def readyBit (d : Dir) : Nat := if d = 0 then 1 else 2

/-- A loop is half detected only when its latest probe came in the last 9 seconds. -/
def Windowed : Prop := ∀ d, x.1.mod.stReady = readyBit d → Recent K x d

/-- While one direction alone has been probed, its probes come at most 9 seconds apart. -/
def Prompt : Prop := ∀ d, x.2 (1 - d) = none → ∀ t ∈ x.2 d, x.1.mod.jiffies ≤ t + 9 * K.hz

instance : Decidable (Prompt K x) := inferInstanceAs (Decidable (∀ d, _ → ∀ t ∈ x.2 d, _))

end Window

/-! ### Who writes `st_ready` -/

/-- The bits of the directions that have been probed. -/
def Probes.bits (h : Probes) : Nat := (if (h 0).isSome then 1 else 0) ||| (if (h 1).isSome then 2 else 0)

theorem bits_update (h : Probes) (d : Dir) (t : Nat) :
    Probes.bits (Function.update h d (some t)) = h.bits ||| readyBit d := by
  rcases dir_cases d with rfl | rfl <;> cases h₀ : (h 0).isSome <;> cases h₁ : (h 1).isSome <;>
    simp [Probes.bits, readyBit, h₀, h₁]

theorem bits_eq_readyBit {h : Probes} {d : Dir} : h.bits = readyBit d ↔ h (1 - d) = none ∧ h d ≠ none := by
  rcases dir_cases d with rfl | rfl <;> cases h₀ : h 0 <;> cases h₁ : h 1 <;> simp [Probes.bits, readyBit, h₀, h₁]

theorem dir_other : ∀ {d e : Dir}, e ≠ d → e = 1 - d := by decide

theorem other_ne : ∀ d : Dir, 1 - d ≠ d := by decide

theorem other_other : ∀ d : Dir, 1 - (1 - d) = d := by decide

theorem bits_eq_three {h : Probes} : h.bits = 3 ↔ ∀ d, h d ≠ none := by
  cases h₀ : h 0 <;> cases h₁ : h 1 <;> simp [Probes.bits, Fin.forall_fin_two, h₀, h₁]

theorem Mod.Same.running {m m' : Mod} (h : m.Same m') : isSpeedtestTaskRunning m' = isSpeedtestTaskRunning m := by
  rw [isSpeedtestTaskRunning, h.computeTask, h.stCfg, isSpeedtestTaskRunning]

theorem callRxHook_jiffies (m : Mod) (skb : Skb) (h : RxHook) : (callRxHook m skb h).1.jiffies = m.jiffies := by
  rcases callRxHook_cases m skb h with he | he | ⟨bit, he⟩ <;> rw [he]
  · rw [kfifoIn]
    split <;> rfl
  · simp only [freeProbeSkb]
    split <;> rfl

theorem rcvSpeedtestProbePkt_ready {m : Mod} (hrun : isSpeedtestTaskRunning m = false) (skb : Skb) :
    (rcvSpeedtestProbePkt m skb).1.stReady = skb.dir.elim m.stReady fun d => m.stReady ||| readyBit d := by
  have hfree (bit : Nat) : (freeProbeSkb m skb bit).1.stReady = m.stReady ||| bit := by
    simp only [freeProbeSkb, devKfreeSkb]
    split <;> rfl
  rw [rcvSpeedtestProbePkt, hrun, if_neg Bool.false_ne_true, Skb.dir]
  split
  · exact hfree 1
  · split
    · exact hfree 2
    · rfl

theorem xmitSpeedtestPkt_ready (m : Mod) (skb : Skb) (dev : Option String) :
    (xmitSpeedtestPkt m skb dev).1.stReady = m.stReady := by
  rcases xmitSpeedtestPkt_skbs m skb dev with ⟨-, he⟩ | ⟨-, he⟩ <;> rw [he]
  rfl

/-- The callback does not clear `st_ready`: it opens a window before it looks for the end of one that is not open. -/
theorem speedtestLoopDetectCb_ready {K : Kernel} {m : Mod} (hend : K.add m.jiffies (5 * K.hz) ≠ 0) :
    (speedtestLoopDetectCb K m).stReady = m.stReady := by
  simp only [speedtestLoopDetectCb, armLoopDetectTimer]
  split
  · rfl
  · by_cases hready : m.stReady = 0
    · rw [if_neg (c := m.stReady ≠ 0 ∧ _) fun h => h.1 hready]
      split
      · exact hready.symm
      · rfl
    · by_cases hopen : m.readyEndtime = 0
      · rw [if_pos (c := m.stReady ≠ 0 ∧ _) ⟨hready, hopen⟩, if_neg fun h => hend h.1]
      · rw [if_neg (c := m.stReady ≠ 0 ∧ _) fun h => hopen h.2, if_neg fun h => hopen h.1]

/-- No test has been started, and `st_ready` has the bits of the directions that have been probed. -/
structure Detecting (x : State × Probes) : Prop where
  running : isSpeedtestTaskRunning x.1.mod = false
  rxHook : x.1.mod.rxHook = .rcvSpeedtestProbePkt
  rxCalls : ∀ r ∈ x.1.rxCalls, r.1 = .rcvSpeedtestProbePkt
  ready : x.1.mod.stReady = x.2.bits

namespace Detecting
variable {K : Kernel} {x y : State × Probes}

theorem start (K : Kernel) (j : Nat) : Detecting (start K j, fun _ => none) :=
  ⟨rfl, rfl, fun r hr => absurd hr List.not_mem_nil, by simp [Speedtest.start, armLoopDetectTimer, Probes.bits]⟩

theorem of_same (h : Detecting x) (hsame : x.1.mod.Same y.1.mod) (hcalls : y.1.rxCalls = x.1.rxCalls)
    (hready : y.1.mod.stReady = x.1.mod.stReady) (hprobes : y.2 = x.2) : Detecting y where
  running := hsame.running.trans h.running
  rxHook := hsame.rxHook.trans h.rxHook
  rxCalls := hcalls ▸ h.rxCalls
  ready := by rw [hready, hprobes, h.ready]

theorem step (h : Detecting x) {e : Event} (hok : Probing K x e) (hs : (probeLts K).step x e = some y) :
    Detecting y := by
  obtain ⟨hs, hy⟩ := Lts.track_step.mp hs
  obtain ⟨t, p⟩ := y
  cases step_steps hs with
  | runs | begins | unloads | acts => exact hok.elim
  | receives data =>
    refine ⟨h.running, h.rxHook, fun r hr => ?_, by rw [hy]; exact h.ready⟩
    rcases List.mem_append.mp hr with hr | hr
    · exact h.rxCalls r hr
    · obtain rfl := List.mem_singleton.mp hr
      exact h.rxHook
  | @calls i r hr =>
    obtain ⟨hook, skb⟩ := r
    obtain rfl : hook = .rcvSpeedtestProbePkt := h.rxCalls _ (List.mem_of_getElem? hr)
    have hsame := callRxHook_same x.1.mod skb .rcvSpeedtestProbePkt
    refine ⟨hsame.running.trans h.running, hsame.rxHook.trans h.rxHook,
      fun r hm => h.rxCalls r (List.mem_of_mem_eraseIdx hm), ?_⟩
    simp only [probes, hr] at hy
    refine (rcvSpeedtestProbePkt_ready h.running skb).trans ?_
    rw [hy, h.ready]
    cases skb.dir with
    | none => rfl
    | some d => exact (bits_update _ _ _).symm
  | transmits data dev =>
    obtain ⟨h₁, h₂, h₃⟩ := xmitSpeedtestPkt_same { x.1.mod with nextSkb := x.1.mod.nextSkb + 1 } (x.1.mod.newSkb data) dev
    exact h.of_same ⟨h₁, h₂, h₃⟩ rfl (xmitSpeedtestPkt_ready _ _ dev) hy
  | expires =>
    obtain ⟨h₁, h₂, h₃⟩ := speedtestLoopDetectCb_same K { x.1.mod with loopDetectTimer := none }
    exact h.of_same ⟨h₁, h₂, h₃⟩ rfl (speedtestLoopDetectCb_ready hok) hy
  | passes | ticks => exact h.of_same ⟨rfl, rfl, rfl⟩ rfl rfl hy

end Detecting

theorem detecting {K : Kernel} {x : State × Probes} (h : (probeLts K).Reach (Probing K) x) : Detecting x :=
  h.invariant (fun ⟨_, _⟩ ⟨⟨j, _, he⟩, hp⟩ => by subst he hp; exact Detecting.start K j)
    fun _ _ _ hi hok hs => hi.step hok hs

/-- `st_ready` becomes 3 with a probe of the direction `d` that was missing. -/
theorem becomes_ready {K : Kernel} {x y : State × Probes} {e : Event} (h : Detecting x) (hok : Probing K x e)
    (hs : (probeLts K).step x e = some y) (hx : x.1.mod.stReady ≠ 3) (hy : y.1.mod.stReady = 3) :
    ∃ d, x.2 d = none ∧ x.2 (1 - d) ≠ none ∧ y.2 = Function.update x.2 d (some x.1.mod.jiffies) ∧
      y.1.mod.jiffies = x.1.mod.jiffies := by
  have h' : Detecting y := h.step hok hs
  rw [h.ready] at hx
  rw [h'.ready] at hy
  obtain ⟨hs, hp⟩ := Lts.track_step.mp hs
  -- Only a probe changes the times.
  have same (he : y.2 = x.2) : False := hx (he ▸ hy)
  cases e with
  | rxHook i =>
    obtain ⟨⟨hook, skb⟩, hr, hmod⟩ := Option.map_eq_some_iff.mp hs
    obtain rfl : hook = .rcvSpeedtestProbePkt := h.rxCalls _ (List.mem_of_getElem? hr)
    simp only [probes, hr] at hp
    cases hd : skb.dir with
    | none =>
      rw [hd] at hp
      exact (same hp).elim
    | some d =>
      rw [hd, Option.elim_some] at hp
      have hprobed : x.2 (1 - d) ≠ none := by
        have := bits_eq_three.mp hy (1 - d)
        rwa [hp, Function.update_of_ne (other_ne d)] at this
      refine ⟨d, ?_, hprobed, hp, ?_⟩
      · by_contra hd'
        refine hx (bits_eq_three.mpr fun d' => ?_)
        by_cases he : d' = d
        · exact he ▸ hd'
        · exact dir_other he ▸ hprobed
      · rw [← hmod]
        exact callRxHook_jiffies _ _ _
  | _ => exact (same hp).elim

/-- `st_ready` keeps to its window if and only if the probes of one direction alone come at most 9 seconds apart. -/
theorem loop_window {K : Kernel} {x : State × Probes} (h : (probeLts K).Reach (Probing K) x) :
    (Windowed K x ↔ Prompt K x) ∧
    ∀ e y, Probing K x e → (probeLts K).step x e = some y → x.1.mod.stReady ≠ 3 → y.1.mod.stReady = 3 →
      ((∀ d, Recent K y d) ↔ Prompt K x) := by
  have inv := detecting h
  refine ⟨⟨fun hw d hnone t ht => ?_, fun hp d hbit => ?_⟩, fun e y hok hs hx hy => ?_⟩
  · have hbit := inv.ready.trans (bits_eq_readyBit.mpr ⟨hnone, Option.ne_none_iff_exists'.mpr ⟨t, ht⟩⟩)
    obtain ⟨t', ht', hle⟩ := hw d hbit
    rw [Option.mem_unique ht ht']
    exact hle
  · obtain ⟨hnone, hsome⟩ := bits_eq_readyBit.mp (inv.ready.symm.trans hbit)
    obtain ⟨t, ht⟩ := Option.ne_none_iff_exists'.mp hsome
    exact ⟨t, ht, hp d hnone t ht⟩
  · obtain ⟨d, hnone, hprobed, htimes, hjiffies⟩ := becomes_ready inv hok hs hx hy
    obtain ⟨t, ht⟩ := Option.ne_none_iff_exists'.mp hprobed
    have hold : y.2 (1 - d) = some t := by rw [htimes, Function.update_of_ne (other_ne d), ht]
    refine ⟨fun hr d' hnone' t' ht' => ?_, fun hp d' => ?_⟩
    · obtain rfl : d' = 1 - d := dir_other fun he => by rw [he, hnone] at ht'; cases ht'
      obtain ⟨t₁, ht₁, hle⟩ := hr (1 - d)
      rw [hold] at ht₁
      rw [ht] at ht'
      obtain rfl := Option.some.inj ht₁
      obtain rfl := Option.some.inj ht'
      exact hjiffies ▸ hle
    · by_cases he : d' = d
      · exact ⟨x.1.mod.jiffies, by rw [he, htimes, Function.update_self]; rfl, by omega⟩
      · rw [dir_other he]
        exact ⟨t, hold, hjiffies ▸ hp (1 - d) (by rw [other_other, hnone]) t ht⟩

/-- The first bytes of a probe packet. -/
def probeData (mac : Mac) : List Byte := List.replicate 6 0x80 ++ mac ++ [0x08, 0x00]

/-- Two seconds and the callback at their end. -/
def periodRun : List Event := List.replicate 200 Event.tick ++ [Event.timer]

/-- The second probe comes four seconds after the first. -/
theorem loop_window_prompt : ∃ x y : State × Probes, (probeLts kernel32).Reach (Probing kernel32) x ∧
    (probeLts kernel32).step x (.rxHook 0) = some y ∧ y.1.mod.stReady = 3 ∧ ∀ d, Recent kernel32 y d := by
  have hrun : ((probeLts kernel32).runIf (Probing kernel32) (Speedtest.start kernel32 1000, fun _ => none)
      ([Event.receive (probeData st0Mac), .rxHook 0] ++ periodRun ++ periodRun ++
        [Event.receive (probeData st1Mac)])).any
      (fun x => x.1.mod.stReady != 3 && decide (Prompt kernel32 x) &&
        ((probeLts kernel32).step x (.rxHook 0)).any (·.1.mod.stReady == 3)) = true := by decide +kernel
  obtain ⟨x, hr, hp⟩ := Lts.exists_reach_of_runIf hrun ⟨⟨1000, by decide, rfl⟩, rfl⟩
  simp only [Bool.and_eq_true, bne_iff_ne, ne_eq, decide_eq_true_eq, Option.any_eq_true, beq_iff_eq] at hp
  obtain ⟨⟨hx, hprompt⟩, y, hs, hy⟩ := hp
  exact ⟨x, y, hr, hs, hy, ((loop_window hr).2 (.rxHook 0) y trivial hs hx hy).mpr hprompt⟩

/-- The second probe comes ten seconds after the first, and five callbacks have left the first bit set. -/
theorem loop_stale : ∃ x y : State × Probes, (probeLts kernel32).Reach (Probing kernel32) x ∧
    (probeLts kernel32).step x (.rxHook 0) = some y ∧ x.1.mod.stReady = 1 ∧ ¬ Recent kernel32 x 0 ∧
    y.1.mod.stReady = 3 ∧ ¬ Recent kernel32 y 0 := by
  have hrun : ((probeLts kernel32).runIf (Probing kernel32) (Speedtest.start kernel32 1000, fun _ => none)
      ([Event.receive (probeData st0Mac), .rxHook 0] ++ periodRun ++ periodRun ++ periodRun ++ periodRun ++ periodRun ++
        [.receive (probeData st1Mac)])).any
      (fun x => x.1.mod.stReady == 1 && decide (¬ Recent kernel32 x 0) &&
        ((probeLts kernel32).step x (.rxHook 0)).any
          (fun y => y.1.mod.stReady == 3 && decide (¬ Recent kernel32 y 0))) = true := by decide +kernel
  obtain ⟨x, hr, hp⟩ := Lts.exists_reach_of_runIf hrun ⟨⟨1000, by decide, rfl⟩, rfl⟩
  simp only [Bool.and_eq_true, decide_eq_true_eq, Option.any_eq_true, beq_iff_eq] at hp
  obtain ⟨⟨hx, hold⟩, y, hs, hy, hold'⟩ := hp
  exact ⟨x, y, hr, hs, hx, hold, hy, hold'⟩

end QuickStart.Speedtest
