import QuickStart.Maclimit.Slot
import QuickStart.Roster

/-! # The list stays a roster

While a request is open, its MAC is not in the list, and an `ADD_IMMEDIATE` request was posted below the
limit in force. So the thread admits or replaces entries as `Roster` allows, with the largest `limit_num`
so far as the bound. -/

namespace QuickStart.Maclimit
open State

/-- The largest value that `limit_num` has held. -/
def largestLimit (_ : State) : Event → Int → Int
  | .setLimitNum n, m => max m n
  | _, m => m

/-- What the open request, the thread and the largest limit `m` so far have to do with each other. -/
structure Sound (s : State) (m : Int) : Prop where
  loaded : s.shouldStop = false
  limit : s.cfg.limitNum ≤ m
  arp : ∀ h ∈ s.hooks, h.isArp = true
  busy : s.pc.immediate = true ∨ s.pc.checking = true → s.flag ≠ .noAddTask
  empty : s.flag = .noAddTask → s.pc.idle = true ∨ s.pc = .clear
  node : ∀ node, s.pc.node? = some node → node = s.newTerminal.node
  fresh : s.Open → s.newTerminal.node.mac ∉ s.macs
  room : s.OpenImmediate → (s.maclimitList.length : Int) < m

namespace Sound
variable {s t : State} {m : Int}

theorem start {cfg : MaclimitCfg} : Sound (start cfg) cfg.limitNum where
  loaded := rfl
  limit := Int.le_refl _
  arp := by simp [State.start]
  busy := by simp [State.start, Pc.immediate, Pc.checking]
  empty _ := Or.inl rfl
  node := by simp [State.start, Pc.node?]
  fresh := by simp [State.start, State.macs]
  room := by simp [State.start, State.OpenImmediate, Pc.immediate]

theorem not_busy (h : Sound s m) (hf : s.flag = .noAddTask) : s.pc.immediate = false ∧ s.pc.checking = false := by
  constructor
  · by_contra hi
    exact h.busy (Or.inl (by simpa using hi)) hf
  · by_contra hc
    exact h.busy (Or.inr (by simpa using hc)) hf

theorem raise {m' : Int} (h : Sound s m) (hm : m ≤ m') : Sound s m' :=
  { h with
    limit := h.limit.trans hm
    room := fun ho => (h.room ho).trans_le hm }

theorem post (h : Sound s m) {p : Packet} (hp : Posts s p) : Sound (s.post p s.mode) m where
  loaded := h.loaded
  limit := h.limit
  arp := h.arp
  busy hb := by
    obtain ⟨hi, hc⟩ := h.not_busy hp.2
    rcases hb with hb | hb
    · exact absurd (hi.symm.trans hb) (by simp)
    · exact absurd (hc.symm.trans hb) (by simp)
  empty _ := h.empty hp.2
  node node hn := by
    -- The thread holds a node only while it is busy, and then the slot is not empty.
    obtain ⟨hi, hc⟩ := h.not_busy hp.2
    have hn : s.pc.node? = some node := hn
    cases hpc : s.pc <;> simp_all [Pc.node?, Pc.immediate, Pc.checking]
  fresh _ := hp.1.fresh
  room ho := by
    have hmode : s.mode = .addImmediate := by
      rcases ho with hi | ⟨-, hf'⟩
      · exact absurd ((h.not_busy hp.2).1.symm.trans hi) (by simp)
      · exact hf'
    unfold State.mode at hmode
    split at hmode
    · rename_i hroom
      exact lt_of_lt_of_le hroom h.limit
    · cases hmode

theorem setOk (h : Sound s m) : Sound (s.setFlag .arpReplayOk) m where
  loaded := h.loaded
  limit := h.limit
  arp := h.arp
  busy _ := by simp [setFlag]
  empty hf := by cases hf
  node := h.node
  fresh ho := by
    refine h.fresh ?_
    rcases ho with hi | hc | ⟨-, hf⟩
    · exact Or.inl hi
    · exact Or.inr (Or.inl hc)
    · simp [setFlag, AddMode.request] at hf
  room ho := by
    refine h.room ?_
    rcases ho with hi | ⟨-, hf⟩
    · exact Or.inl hi
    · simp [setFlag] at hf

theorem wake (h : Sound s m) : Sound s.wakeUpProcess m := ⟨h.loaded, h.limit, h.arp, h.busy, h.empty, h.node, h.fresh, h.room⟩

theorem withHooks (h : Sound s m) {hooks : List Hook} (ha : ∀ x ∈ hooks, x.isArp = true) :
    Sound { s with hooks := hooks } m :=
  ⟨h.loaded, h.limit, ha, h.busy, h.empty, h.node, h.fresh, h.room⟩

theorem netHookFunc (h : Sound s m) (skb : Option Packet) : Sound (netHookFunc s skb).1 m := by
  rcases netHookFunc_cases s skb with he | ⟨p, -, hp, he⟩
  · rw [he]
    exact h
  · rw [he]
    exact h.post hp

theorem arpinHookFunc (h : Sound s m) (a : Option ArpInfo) : Sound (arpinHookFunc s a).1 m := by
  rcases arpinHookFunc_cases s a with he | ⟨-, he⟩
  · rw [he]
    exact h
  · rw [he]
    exact h.setOk.wake

theorem arpinHookStep (h : Sound s m) (a : ArpInfo) (pc : ArpPc) : Sound (arpinHookStep s a pc).1 m := by
  rcases arpinHookStep_cases s a pc with he | ⟨-, he⟩ | ⟨-, he⟩
  · rw [he]
    exact h
  · rw [he]
    exact h.setOk
  · rw [he]
    exact h.wake

/-- A step that keeps the configuration, the hooks, the list and the saved node, and opens nothing. -/
theorem of_frame (h : Sound s m) (hstop : t.shouldStop = s.shouldStop) (hcfg : t.cfg = s.cfg)
    (hhooks : t.hooks = s.hooks) (hlist : t.maclimitList = s.maclimitList) (hnode : t.newTerminal.node = s.newTerminal.node)
    (busy : t.pc.immediate = true ∨ t.pc.checking = true → t.flag ≠ .noAddTask)
    (empty : t.flag = .noAddTask → t.pc.idle = true ∨ t.pc = .clear)
    (node : ∀ node, t.pc.node? = some node → node = s.newTerminal.node)
    (ho : t.Open → s.Open) (hi : t.OpenImmediate → s.OpenImmediate) : Sound t m where
  loaded := hstop.trans h.loaded
  limit := by rw [hcfg]; exact h.limit
  arp := by rw [hhooks]; exact h.arp
  busy := busy
  empty := empty
  node := by rw [hnode]; exact node
  fresh h' := by
    rw [State.macs, hlist, hnode]
    exact h.fresh (ho h')
  room h' := by
    rw [hlist]
    exact h.room (hi h')

theorem quiet (h : Sound s m) {ok : Bool} (q : Quiet s ok t) : Sound t m := by
  refine h.of_frame q.shouldStop q.cfg q.hooks q.list q.slotNode (fun hb => ?_) (fun hf => ?_) (fun node hn => ?_)
    (fun ho => ?_) fun ho => ?_
  · rw [q.flag]
    exact h.busy (hb.imp q.of_immediate q.of_checking)
  · rcases h.empty (q.flag.symm.trans hf) with hi | hc
    · rcases q.idleEnd hi with hi | hstop | hc
      · exact Or.inl hi
      · exact absurd (h.loaded.symm.trans hstop) (by simp)
      · exact Or.inr hc.1
    · exact absurd hc q.clear
  · exact (q.node node hn).elim id (h.node node)
  · rw [State.Open, q.flag] at ho
    exact ho.imp q.of_immediate (Or.imp q.of_checking (And.imp_left q.idle))
  · rw [State.OpenImmediate, q.flag] at ho
    exact ho.imp q.of_immediate (And.imp_left q.idle)

/-- Once the thread has used the node or cleared the flag, nothing is open. -/
theorem closed (h : Sound s m) (hstop : t.shouldStop = s.shouldStop) (hcfg : t.cfg = s.cfg)
    (hhooks : t.hooks = s.hooks) (himm : t.pc.immediate = false) (hchk : t.pc.checking = false)
    (hnode : t.pc.node? = none) (hidle : t.pc.idle = true → t.flag = .noAddTask)
    (empty : t.flag = .noAddTask → t.pc.idle = true ∨ t.pc = .clear) : Sound t m := by
  have nothing : ¬t.Open := by
    rintro (hi | hc | ⟨hi, hf⟩)
    · exact absurd (himm.symm.trans hi) (by simp)
    · exact absurd (hchk.symm.trans hc) (by simp)
    · rw [hidle hi] at hf
      cases hf
  exact
    { loaded := hstop.trans h.loaded
      limit := by rw [hcfg]; exact h.limit
      arp := by rw [hhooks]; exact h.arp
      busy := by simp [himm, hchk]
      empty := empty
      node := by simp [hnode]
      fresh := fun ho => absurd ho nothing
      room := fun ho => absurd (OpenImmediate.open ho) nothing }

theorem limitCheckStep (h : Sound s m) {ok : Bool} (hs : limitCheckStep s ok = some t) : Sound t m := by
  rcases limitCheckStep_cases hs with q | ⟨hpc, hf, rfl⟩ | ⟨hpc, hf, rfl⟩ | ⟨i, hpc, rfl⟩ | ⟨node, hpc, rfl⟩ |
    ⟨i, node, hpc, rfl⟩ | ⟨hpc, rfl⟩
  · exact h.quiet q
  · -- The thread takes an `ADD_IMMEDIATE` request that was open already.
    have hopen : s.OpenImmediate := Or.inr ⟨by rw [hpc]; rfl, hf⟩
    exact h.of_frame rfl rfl rfl rfl rfl (fun _ => by simp [hf]) (by simp [hf]) (by simp [Pc.node?])
      (fun _ => OpenImmediate.open hopen) fun _ => hopen
  · have hopen : s.Open := Or.inr (Or.inr ⟨by rw [hpc]; rfl, by rw [hf]; rfl⟩)
    exact h.of_frame rfl rfl rfl rfl rfl (fun _ => by simp [hf]) (by simp [hf]) (by simp [Pc.node?]) (fun _ => hopen)
      (by simp [State.OpenImmediate, Pc.immediate, Pc.idle])
  · exact h.of_frame rfl rfl rfl rfl rfl (by simp) (by simp) (by simp [Pc.node?])
      (fun _ => Or.inr (Or.inl (by rw [hpc]; rfl))) (by simp [State.OpenImmediate, Pc.immediate, Pc.idle])
  · have hbusy := h.busy (Or.inl (by rw [hpc]; rfl))
    exact h.closed rfl rfl rfl rfl rfl rfl (by simp [Pc.idle]) fun hf => absurd hf hbusy
  · have hbusy := h.busy (Or.inr (by rw [hpc]; rfl))
    exact h.closed rfl rfl rfl rfl rfl rfl (by simp [Pc.idle]) fun hf => absurd hf hbusy
  · exact h.closed rfl rfl rfl rfl rfl rfl (fun _ => rfl) fun _ => Or.inl rfl

theorem step (h : Sound s m) {e : Event} (he : e.netWhole = true) (hs : step s e = some t) :
    Sound t (largestLimit s e m) := by
  cases e with
  | thread ok => exact h.limitCheckStep hs
  | packet skb =>
    obtain rfl := Option.some.inj hs
    exact h.netHookFunc skb
  | arp a =>
    obtain rfl := Option.some.inj hs
    exact h.arpinHookFunc a
  | netEnter p => cases he
  | arpEnter a =>
    obtain rfl := Option.some.inj hs
    refine h.withHooks fun x hx => ?_
    rcases List.mem_append.mp hx with hx | hx
    · exact h.arp x hx
    · obtain rfl := List.mem_singleton.mp hx
      rfl
  | hook i =>
    obtain ⟨x, hx, rfl⟩ := Option.map_eq_some_iff.mp hs
    have hmem := List.mem_of_getElem? hx
    cases x with
    | net p pc => exact absurd (h.arp _ hmem) (by simp [Hook.isArp])
    | arp a pc =>
      refine (h.arpinHookStep a pc).withHooks fun y hy => ?_
      rcases Calls.mem_put hy with hy | hy
      · exact h.arp y hy
      · obtain ⟨_, -, rfl⟩ := Option.map_eq_some_iff.mp hy
        rfl
  | setLimitNum n =>
    obtain rfl := Option.some.inj hs
    have h' := h.raise (Int.le_max_left m n)
    exact ⟨h.loaded, Int.le_max_right m n, h'.arp, h'.busy, h'.empty, h'.node, h'.fresh, h'.room⟩
  | setEnable n =>
    obtain rfl := Option.some.inj hs
    exact ⟨h.loaded, h.limit, h.arp, h.busy, h.empty, h.node, h.fresh, h.room⟩

end Sound

/-! ### The refinement -/

/-- The list changes only where the thread links a node or replaces an entry by one. -/
theorem step_list {s t : State} {e : Event} (hs : step s e = some t) :
    t.maclimitList = s.maclimitList ∨
      (∃ ok node, e = .thread ok ∧ s.pc = .add node ∧ t.maclimitList = node :: s.maclimitList) ∨
      (∃ ok i node, e = .thread ok ∧ s.pc = .replace i node ∧ t.maclimitList = s.maclimitList.set i node) := by
  cases e with
  | thread ok =>
    rcases limitCheckStep_cases hs with q | ⟨-, -, rfl⟩ | ⟨-, -, rfl⟩ | ⟨_, -, rfl⟩ | ⟨node, hpc, rfl⟩ |
      ⟨i, node, hpc, rfl⟩ | ⟨-, rfl⟩
    · exact Or.inl q.list
    · exact Or.inl rfl
    · exact Or.inl rfl
    · exact Or.inl rfl
    · exact Or.inr (Or.inl ⟨ok, node, rfl, hpc, rfl⟩)
    · exact Or.inr (Or.inr ⟨ok, i, node, rfl, hpc, rfl⟩)
    · exact Or.inl rfl
  | packet skb =>
    obtain rfl := Option.some.inj hs
    rcases netHookFunc_cases s skb with he | ⟨p, -, -, he⟩ <;> rw [he] <;> exact Or.inl rfl
  | arp a =>
    obtain rfl := Option.some.inj hs
    rcases arpinHookFunc_cases s a with he | ⟨-, he⟩ <;> rw [he] <;> exact Or.inl rfl
  | hook i =>
    obtain ⟨x, -, rfl⟩ := Option.map_eq_some_iff.mp hs
    cases x with
    | net p pc => cases pc <;> exact Or.inl rfl
    | arp a pc => cases pc <;> exact Or.inl rfl
  | netEnter _ | arpEnter _ | setLimitNum _ | setEnable _ =>
    obtain rfl := Option.some.inj hs
    exact Or.inl rfl

/-- The module whose runs carry the largest `limit_num` so far. -/
abbrev limitLts (cfg : MaclimitCfg) : Lts (State × Int) Event := (lts cfg).track largestLimit cfg.limitNum

/-- The roster that a state stands for. -/
structure Roster.Of (x : State × Int) (r : Roster Mac) : Prop where
  entries : r.entries = x.1.macs
  bound : r.bound = x.2
  sound : Sound x.1 x.2

/-- With `net_hook_func` as one step, the module refines the roster of its MACs. -/
theorem roster_simulation (cfg : MaclimitCfg) (h0 : 0 ≤ cfg.limitNum) :
    Lts.Simulation (limitLts cfg) (Roster.lts cfg.limitNum) (fun _ e => e.netWhole = true) Roster.Of where
  init := by
    rintro ⟨s, m⟩ ⟨rfl, rfl⟩
    exact ⟨Roster.empty _ h0, ⟨rfl, rfl⟩, rfl, rfl, Sound.start⟩
  step := by
    rintro ⟨s, m⟩ r e ⟨t, m'⟩ ⟨hent, hbound, sound⟩ he hs
    obtain ⟨hs, rfl⟩ := Lts.track_step.mp hs
    dsimp only at hent hbound sound hs ⊢
    have sound' := sound.step he hs
    rcases step_list hs with hl | ⟨ok, node, rfl, hpc, hl⟩ | ⟨ok, i, node, rfl, hpc, hl⟩
    · -- Only a change of the limit shows in the roster.
      cases e with
      | setLimitNum n =>
        exact Or.inr ⟨.raise n, r.raise n, rfl, by rw [State.macs, hl]; exact hent, by rw [← hbound]; rfl, sound'⟩
      | _ => exact Or.inl ⟨by rw [State.macs, hl]; exact hent, hbound, sound'⟩
    · have hnode := sound.node node (by rw [hpc]; rfl)
      have fresh : node.mac ∉ r.entries := by
        rw [hent, hnode]
        exact sound.fresh (Or.inl (by rw [hpc]; rfl))
      have room : (r.entries.length : Int) < r.bound := by
        rw [hent, hbound, State.macs, List.length_map]
        exact sound.room (Or.inl (by rw [hpc]; rfl))
      refine Or.inr ⟨_, _, Roster.step_enroll fresh room, ?_, hbound, sound'⟩
      rw [State.macs, hl, Roster.enroll_entries, hent]
      rfl
    · have hnode := sound.node node (by rw [hpc]; rfl)
      have fresh : node.mac ∉ r.entries := by
        rw [hent, hnode]
        exact sound.fresh (Or.inr (Or.inl (by rw [hpc]; rfl)))
      refine Or.inr ⟨_, _, Roster.step_replace i fresh, ?_, hbound, sound'⟩
      rw [State.macs, hl, Roster.replace_entries, hent, State.macs, List.map_set]

/-- In every reachable state the MACs in `maclimit_list` are pairwise distinct and there are at most as many
    as the largest `limit_num` so far. -/
theorem list_distinct_bounded {s : State} {m : Int}
    (h : (limitLts maclimitCfg).Reach (fun _ e => e.netWhole = true) (s, m)) :
    s.macs.Nodup ∧ (s.maclimitList.length : Int) ≤ m := by
  obtain ⟨r, -, hent, hbound, -⟩ := (roster_simulation maclimitCfg (by decide)).reach h
  dsimp only at hent hbound
  constructor
  · rw [← hent]
    exact r.nodup
  · have := r.length_le
    rwa [hent, hbound, State.macs, List.length_map] at this

/-- The packets of two terminals on `br0`. -/
def packetA : Packet where
  protocol := 6
  hSource := 0x0a0000000001
  hDest := 0x0a00000000fe
  saddr := 0xc0a80102
  daddr := 0x08080808
  dev := { name := "br0", devAddr := 0x0a00000000ff }

def packetB : Packet := { packetA with hSource := 0x0a0000000002, saddr := 0xc0a80103 }

/-- A request of `packetA` served by the thread: read the flag, allocate, lock, link, unlock, clear. -/
def linkA : List Event :=
  [Event.setEnable 1, .packet (some packetA)] ++ List.replicate 7 (Event.thread true)

theorem list_distinct_bounded_linkA : ∃ s m, (limitLts maclimitCfg).Reach (fun _ e => e.netWhole = true) (s, m) ∧
    s.maclimitList.length = 1 ∧ s.macs.Nodup ∧ (s.maclimitList.length : Int) ≤ m := by
  have hrun : ((limitLts maclimitCfg).runIf (fun _ e => e.netWhole = true) (start maclimitCfg, 1) linkA).any
      (fun x => x.1.maclimitList.length == 1) = true := by decide
  obtain ⟨⟨s, m⟩, hr, hlen⟩ := Lts.exists_reach_of_runIf hrun ⟨rfl, rfl⟩
  exact ⟨s, m, hr, by simpa using hlen, list_distinct_bounded hr⟩

end QuickStart.Maclimit
