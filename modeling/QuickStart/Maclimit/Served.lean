import QuickStart.Maclimit.Listed

/-! # Published requests are served

The history variable holds the node of a published request until the thread has linked that node, put it in
the place of an entry, found all entries alive, or failed to allocate. -/

namespace QuickStart.Maclimit
open State

/-- The thread is done with the request of `node`. -/
def serve (node : MaclimitNode) (h : Option MaclimitNode) : Option MaclimitNode :=
  if h = some node then none else h

@[simp] theorem serve_self (node : MaclimitNode) : serve node (some node) = none := by
  simp [serve]

/-- The node of the published request that is not served yet, after the event. -/
def unserved (s : State) (e : Event) (h : Option MaclimitNode) : Option MaclimitNode :=
  match e with
  | .packet skb =>
    if s.flag = .noAddTask ∧ (netHookFunc s skb).1.flag ≠ .noAddTask then
      some (netHookFunc s skb).1.newTerminal.node
    else h
  | .thread ok =>
    if givesUp s ok then serve s.newTerminal.node h
    else s.pc.link?.elim h fun node => serve node h
  | _ => h

/-- The module whose runs carry the published request that is not served yet. -/
abbrev requestLts : Lts (State × Option MaclimitNode) Event := (lts maclimitCfg).track unserved none

/-- The next statement of the `i`-th hook invocation stores an ARP answer. -/
def State.storesAnswer (s : State) (i : Nat) : Bool :=
  match s.hooks[i]? with
  | some (.arp _ .setOk) => true
  | _ => false

/-- Every `net_hook_func` is one step. It posts no request between a reading of the flag that found none and
    the clearing of the flag, and no ARP answer comes so late that it overwrites a request that the thread
    has not read. -/
def InTime (s : State) : Event → Prop
  | .netEnter _ => False
  | .packet (some p) => s.pc = .clear → ¬Posts s p
  | .hook i => s.storesAnswer i = true → s.flag.request = true → s.pc.idle = false
  | _ => True

instance (s : State) : ∀ e : Event, Decidable (InTime s e)
  | .netEnter _ => inferInstanceAs (Decidable False)
  | .packet (some _) => inferInstanceAs (Decidable (_ → _))
  | .hook _ => inferInstanceAs (Decidable (_ → _ → _))
  | .packet none | .thread _ | .arp _ | .arpEnter _ | .setLimitNum _ | .setEnable _ =>
    inferInstanceAs (Decidable True)

theorem InTime.netWhole {s : State} {e : Event} (h : InTime s e) : e.netWhole = true := by
  cases e <;> first | rfl | exact h.elim

/-- Where the thread is, and what it has to do with the request `h` that is not served yet. -/
structure Pending (s : State) (h : Option MaclimitNode) : Prop where
  sound : ∃ m, Sound s m
  waiting : s.pc.idle = true → h = if s.flag.request then some s.newTerminal.node else none
  serving : s.pc.immediate = true ∨ s.pc.checking = true → h = some s.newTerminal.node
  closing : s.pc.idle = false → s.pc.immediate = false → s.pc.checking = false → h = none

namespace Pending
variable {s t : State} {h : Option MaclimitNode}

theorem start : Pending (start maclimitCfg) none where
  sound := ⟨_, Sound.start⟩
  waiting _ := rfl
  serving hs := by simp [State.start, Pc.immediate, Pc.checking] at hs
  closing _ _ _ := rfl

theorem none_of_empty (hp : Pending s h) (hf : s.flag = .noAddTask) : h = none := by
  obtain ⟨m, hm⟩ := hp.sound
  rcases hm.empty hf with hi | hc
  · rw [hp.waiting hi, hf]
    rfl
  · exact hp.closing (by rw [hc]; rfl) (by rw [hc]; rfl) (by rw [hc]; rfl)

theorem post (hp : Pending s h) {p : Packet} (hposts : Posts s p) (hpc : s.pc ≠ .clear) :
    Pending (s.post p s.mode) (some (s.post p s.mode).newTerminal.node) where
  sound := by
    obtain ⟨m, hm⟩ := hp.sound
    exact ⟨m, hm.post hposts⟩
  waiting _ := by
    rw [show (s.post p s.mode).flag = s.mode from rfl, mode_request]
    rfl
  serving _ := rfl
  closing hi _ _ := by
    obtain ⟨m, hm⟩ := hp.sound
    rcases hm.empty hposts.2 with hi' | hc
    · exact absurd (hi.symm.trans hi') (by simp)
    · exact absurd hc hpc

theorem setOk (hp : Pending s h) (hf : s.flag.request = true → s.pc.idle = false) :
    Pending (s.setFlag .arpReplayOk) h where
  sound := by
    obtain ⟨m, hm⟩ := hp.sound
    exact ⟨m, hm.setOk⟩
  waiting hi := by
    rw [hp.waiting hi, if_neg fun hr => absurd ((hf hr).symm.trans hi) (by simp)]
    rfl
  serving := hp.serving
  closing := hp.closing

theorem wake (hp : Pending s h) : Pending s.wakeUpProcess h := by
  obtain ⟨m, hm⟩ := hp.sound
  exact ⟨⟨m, hm.wake⟩, hp.waiting, hp.serving, hp.closing⟩

theorem quiet (hp : Pending s h) {ok : Bool} (q : Quiet s ok t) : Pending t (unserved s (.thread ok) h) := by
  have sound : ∃ m, Sound t m := hp.sound.imp fun m hm => hm.quiet q
  obtain ⟨m, hm⟩ := hp.sound
  simp only [unserved, q.link, Option.elim_none]
  by_cases hg : givesUp s ok = true
  · -- The request is served without its node, and the round ends.
    have hserving := givesUp_serving hg
    have hidle : t.pc.idle = false := by
      by_contra hi
      exact absurd ((Pc.not_idle hserving).symm.trans (q.idle (by simpa using hi))) (by simp)
    have himm : t.pc.immediate = false := by rw [q.immediate, hg, Bool.not_true, Bool.and_false]
    have hchk : t.pc.checking = false := by rw [q.checking, hg, Bool.not_true, Bool.and_false]
    rw [if_pos hg, hp.serving hserving, serve_self]
    refine ⟨sound, fun hi => ?_, fun hs => ?_, fun _ _ _ => rfl⟩
    · exact absurd (hidle.symm.trans hi) (by simp)
    · rw [himm, hchk] at hs
      simp at hs
  · have hg' : givesUp s ok = false := by simpa using hg
    have himm : t.pc.immediate = s.pc.immediate := by rw [q.immediate, hg', Bool.not_false, Bool.and_true]
    have hchk : t.pc.checking = s.pc.checking := by rw [q.checking, hg', Bool.not_false, Bool.and_true]
    have hend : s.pc.idle = true → t.pc.idle = true ∨ (t.pc = .clear ∧ s.flag.request = false) := fun hi =>
      (q.idleEnd hi).imp id fun hor => hor.resolve_left (by rw [hm.loaded]; simp)
    rw [if_neg hg]
    refine ⟨sound, fun hi => ?_, fun hs => ?_, fun hi h1 h2 => ?_⟩
    · rw [q.flag, q.slotNode]
      exact hp.waiting (q.idle hi)
    · rw [himm, hchk] at hs
      rw [q.slotNode]
      exact hp.serving hs
    · cases hsi : s.pc.idle with
      | false => exact hp.closing hsi (himm.symm.trans h1) (hchk.symm.trans h2)
      | true =>
        rcases hend hsi with hti | ⟨-, hf⟩
        · exact absurd (hi.symm.trans hti) (by simp)
        · rw [hp.waiting hsi, hf]
          rfl

/-- Outside a service the history is what it was or nothing, so a statement that does not link keeps it. -/
theorem limitCheckStep (hp : Pending s h) {ok : Bool} (hs : limitCheckStep s ok = some t) :
    Pending t (unserved s (.thread ok) h) := by
  have sound : ∃ m, Sound t m := hp.sound.imp fun m hm => hm.limitCheckStep hs
  rcases limitCheckStep_cases hs with q | ⟨hpc, hf, rfl⟩ | ⟨hpc, hf, rfl⟩ | ⟨i, hpc, rfl⟩ | ⟨node, hpc, rfl⟩ |
    ⟨i, node, hpc, rfl⟩ | ⟨hpc, rfl⟩
  · exact hp.quiet q
  · have hh : h = some s.newTerminal.node := by
      rw [hp.waiting (by rw [hpc]; rfl), hf]
      rfl
    simp only [unserved, givesUp, hpc, Pc.link?]
    exact ⟨sound, by simp [Pc.idle], fun _ => hh, by simp [Pc.immediate]⟩
  · have hh : h = some s.newTerminal.node := by
      rw [hp.waiting (by rw [hpc]; rfl), hf]
      rfl
    simp only [unserved, givesUp, hpc, Pc.link?]
    exact ⟨sound, by simp [Pc.idle], fun _ => hh, by simp [Pc.checking]⟩
  · have hh : h = some s.newTerminal.node := hp.serving (Or.inr (by rw [hpc]; rfl))
    simp only [unserved, givesUp, hpc, Pc.link?]
    exact ⟨sound, by simp [Pc.idle], fun _ => hh, by simp [Pc.checking]⟩
  · obtain ⟨m, hm⟩ := hp.sound
    have hnode := hm.node node (by rw [hpc]; rfl)
    have hh : h = some node := hnode ▸ hp.serving (Or.inl (by rw [hpc]; rfl))
    simp only [unserved, givesUp, hpc, Pc.link?, hh]
    exact ⟨sound, by simp [Pc.idle], by simp [Pc.immediate, Pc.checking], by simp⟩
  · obtain ⟨m, hm⟩ := hp.sound
    have hnode := hm.node node (by rw [hpc]; rfl)
    have hh : h = some node := hnode ▸ hp.serving (Or.inr (by rw [hpc]; rfl))
    simp only [unserved, givesUp, hpc, Pc.link?, hh]
    exact ⟨sound, by simp [Pc.idle], by simp [Pc.immediate, Pc.checking], by simp⟩
  · have hh : h = none := hp.closing (by rw [hpc]; rfl) (by rw [hpc]; rfl) (by rw [hpc]; rfl)
    simp only [unserved, givesUp, hpc, Pc.link?]
    exact ⟨sound, fun _ => hh, by simp [Pc.immediate, Pc.checking], by simp [Pc.idle]⟩

theorem arpinHookStep (hp : Pending s h) (a : ArpInfo) (pc : ArpPc)
    (hok : pc = .setOk → s.flag.request = true → s.pc.idle = false) : Pending (arpinHookStep s a pc).1 h := by
  rcases arpinHookStep_cases s a pc with he | ⟨hpc, he⟩ | ⟨-, he⟩
  · rw [he]
    exact hp
  · rw [he]
    exact hp.setOk (hok hpc)
  · rw [he]
    exact hp.wake

/-- Only the sound part of the invariant reads the hooks and the configuration. -/
theorem of_frame (hp : Pending s h) (sound : ∃ m, Sound t m) (hpc : t.pc = s.pc)
    (hslot : t.newTerminal = s.newTerminal) : Pending t h where
  sound := sound
  waiting := by
    simp only [State.flag, hpc, hslot]
    exact hp.waiting
  serving := by
    rw [hpc, hslot]
    exact hp.serving
  closing := by
    rw [hpc]
    exact hp.closing

theorem step (hp : Pending s h) {e : Event} (hok : InTime s e) (hs : step s e = some t) :
    Pending t (unserved s e h) := by
  have sound : ∃ m, Sound t m := by
    obtain ⟨m, hm⟩ := hp.sound
    exact ⟨_, hm.step hok.netWhole hs⟩
  cases e with
  | thread ok => exact hp.limitCheckStep hs
  | packet skb =>
    obtain rfl := Option.some.inj hs
    rcases netHookFunc_cases s skb with he | ⟨p, rfl, hposts, he⟩
    · rw [he, unserved, he, if_neg fun hf => hf.2 hf.1]
      exact hp
    · have hne : (s.post p s.mode).flag ≠ .noAddTask := by
        rw [show (s.post p s.mode).flag = s.mode from rfl]
        intro hm
        have := mode_request s
        rw [hm] at this
        cases this
      rw [unserved, he, if_pos ⟨hposts.2, hne⟩]
      exact hp.post hposts fun hpc => hok hpc hposts
  | arp a =>
    obtain rfl := Option.some.inj hs
    rcases arpinHookFunc_cases s a with he | ⟨hf, he⟩
    · rw [he]
      exact hp
    · rw [he]
      exact (hp.setOk (by rw [hf]; simp [AddMode.request])).wake
  | netEnter p => exact hok.elim
  | hook i =>
    obtain ⟨x, hx, rfl⟩ := Option.map_eq_some_iff.mp hs
    obtain ⟨m, hm⟩ := hp.sound
    cases x with
    | net p pc => exact absurd (hm.arp _ (List.mem_of_getElem? hx)) (by simp [Hook.isArp])
    | arp a pc =>
      refine (hp.arpinHookStep a pc fun hpc => hok ?_).of_frame sound rfl rfl
      rw [State.storesAnswer, hx, hpc]
  | arpEnter _ | setLimitNum _ | setEnable _ =>
    obtain rfl := Option.some.inj hs
    exact hp.of_frame sound rfl rfl

end Pending

/-- In the runs of `InTime`, the flag is clear only when every published request has been served. -/
theorem requests_served {s : State} {h : Option MaclimitNode}
    (hr : requestLts.Reach (fun x e => InTime x.1 e) (s, h)) (hf : s.flag = .noAddTask) : h = none := by
  have inv : Pending s h := by
    refine hr.track_invariant ?_ fun _ _ _ _ hp hok hs => hp.step hok hs
    rintro _ rfl
    exact Pending.start
  exact inv.none_of_empty hf

theorem requests_served_linkA : ∃ s h, requestLts.Reach (fun x e => InTime x.1 e) (s, h) ∧
    s.flag = .noAddTask ∧ s.macs = [packetA.hSource] ∧ h = none := by
  have hrun : (requestLts.runIf (fun x e => InTime x.1 e) (start maclimitCfg, none) linkA).any
      (fun x => x.1.flag == .noAddTask && x.1.macs == [packetA.hSource]) = true := by decide
  obtain ⟨⟨s, h⟩, hr, hp⟩ := Lts.exists_reach_of_runIf hrun ⟨rfl, rfl⟩
  rw [Bool.and_eq_true, beq_iff_eq, beq_iff_eq] at hp
  exact ⟨s, h, hr, hp.1, hp.2, requests_served hr hp.1⟩

/-- The thread reads the flag for the first time, a packet posts its request, and the thread clears the
    flag: the request of `packetA` is erased unserved. -/
theorem request_erased : ∃ s h, requestLts.Reach (fun _ e => e.netWhole = true) (s, h) ∧
    s.flag = .noAddTask ∧ s.maclimitList = [] ∧ h.map (·.mac) = some packetA.hSource := by
  have hrun : (requestLts.runIf (fun _ e => e.netWhole = true) (start maclimitCfg, none)
      [.setEnable 1, .thread true, .thread true, .packet (some packetA), .thread true]).any
      (fun x => x.1.flag == .noAddTask && x.1.maclimitList == [] && x.2.map (·.mac) == some packetA.hSource) = true := by
    decide
  obtain ⟨⟨s, h⟩, hr, hp⟩ := Lts.exists_reach_of_runIf hrun ⟨rfl, rfl⟩
  simp only [Bool.and_eq_true, beq_iff_eq] at hp
  exact ⟨s, h, hr, hp.1.1, hp.1.2, hp.2⟩

end QuickStart.Maclimit
