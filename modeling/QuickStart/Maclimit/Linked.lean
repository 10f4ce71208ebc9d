import QuickStart.Maclimit.Listed

/-! # Linked entries come from one packet

An invocation of `net_hook_func` that has found the slot empty writes the saved node field by field. While at
most one invocation does so, the thread is idle and the slot shows no request, so that a published node is
that of one packet, and the list is as the packet's hook has seen it at the test of the flag. -/

namespace QuickStart.Maclimit
open State

/-- The node of a request for the packet. -/
def Packet.node (p : Packet) : MaclimitNode where
  dev := some p.dev
  mac := p.hSource
  srcip := p.saddr
  dstip := p.daddr

/-- The invocation has found the slot empty and has not published its request. -/
def Hook.filling : Hook → Bool
  | .net _ (.setSrcip _) | .net _ (.setDstip _) | .net _ (.setDev _) | .net _ (.setMac _) | .net _ (.publish _) => true
  | _ => false

/-- The invocations that are filling the slot. -/
def State.fillers (s : State) : Nat := s.hooks.countP Hook.filling

/-- The packets whose request has been published. -/
def posted (s : State) (e : Event) (ps : List Packet) : List Packet :=
  match e with
  | .packet (some p) => if Posts s p then p :: ps else ps
  | .hook i =>
    match s.hooks[i]? with
    | some (.net p (.publish _)) => p :: ps
    | _ => ps
  | _ => ps

/-- The module whose runs carry the packets whose request has been published. -/
abbrev postedLts : Lts (State × List Packet) Event := (lts maclimitCfg).track posted []

/-- The packet of an invocation whose next statement tests the flag. -/
def Hook.tests : Hook → Option Packet
  | .net p (.readFlag _) => some p
  | _ => none

/-- A hook that finds the slot empty finds no other hook filling it, and its MAC not in the list. -/
def Exclusive (s : State) : Event → Prop
  | .packet (some p) => Posts s p → s.fillers = 0
  | .hook i => ∀ p ∈ s.hooks[i]?.bind Hook.tests, s.flag = .noAddTask → s.fillers = 0 ∧ p.hSource ∉ s.macs
  | _ => True

instance (s : State) : ∀ e : Event, Decidable (Exclusive s e)
  | .packet (some _) => inferInstanceAs (Decidable (_ → _))
  | .hook i => inferInstanceAs (Decidable (∀ p ∈ s.hooks[i]?.bind Hook.tests, _ → _))
  | .packet none | .thread _ | .arp _ | .netEnter _ | .arpEnter _ | .setLimitNum _ | .setEnable _ =>
    inferInstanceAs (Decidable True)

/-! ### Filling the slot -/

/-- What a filling invocation has written into the saved node is still there. -/
def Hook.Wrote (node : MaclimitNode) : Hook → Prop
  | .net p (.setDstip _) => node.srcip = p.saddr
  | .net p (.setDev _) => node.srcip = p.saddr ∧ node.dstip = p.daddr
  | .net p (.setMac _) => node.srcip = p.saddr ∧ node.dstip = p.daddr ∧ node.dev = some p.dev
  | .net p (.publish _) => node = p.node
  | _ => True

/-- The MAC that the invocation is about is not in the list. -/
def Hook.Fresh (macs : List Mac) : Hook → Prop
  | .net p _ => p.hSource ∉ macs
  | .arp _ _ => True

/-- What a statement of a hook does to the slot. -/
inductive Fill (s : State) : Hook → State → Option Hook → Prop
  | aside {h : Hook} {t : State} {o : Option Hook} : h.filling = false → o.any Hook.filling = false →
      t = s ∨ t = s.wakeUpProcess → Fill s h t o
  /-- the test of the flag finds the slot empty -/
  | enter {p : Packet} {mode : AddMode} : s.flag = .noAddTask →
      Fill s (.net p (.readFlag mode)) s (some (.net p (.setSrcip mode)))
  /-- a field of the saved node -/
  | write {p : Packet} {pc pc' : NetPc} {node : MaclimitNode} : (Hook.net p pc).filling = true →
      (Hook.net p pc').filling = true → ((Hook.net p pc).Wrote s.newTerminal.node → (Hook.net p pc').Wrote node) →
      (∀ mode, pc ≠ .publish mode) → Fill s (.net p pc) (s.setNode node) (some (.net p pc'))
  | publish {p : Packet} {mode : AddMode} : Fill s (.net p (.publish mode)) (s.setFlag mode) (some (.net p .wake))
  | answer {a : ArpInfo} : Fill s (.arp a .setOk) (s.setFlag .arpReplayOk) (some (.arp a .wake))

theorem hookStep_fill (s : State) (h : Hook) : Fill s h (hookStep s h).1 (hookStep s h).2 := by
  cases h with
  | net p pc =>
    cases pc with
    | start =>
      refine .aside rfl ?_ (Or.inl rfl)
      simp only [hookStep, netHookStep]
      split <;> rfl
    | scan =>
      refine .aside rfl ?_ (Or.inl rfl)
      simp only [hookStep, netHookStep]
      split
      · rfl
      · cases searchList p.hSource s.maclimitList 0 <;> rfl
    | compare n => exact .aside rfl rfl (Or.inl rfl)
    | readFlag mode =>
      by_cases hf : s.flag = .noAddTask
      · rw [hookStep, netHookStep, if_pos hf]
        exact .enter hf
      · rw [hookStep, netHookStep, if_neg hf]
        exact .aside rfl rfl (Or.inl rfl)
    | setSrcip mode => exact .write rfl rfl (fun _ => rfl) (by simp)
    | setDstip mode => exact .write rfl rfl (fun h => ⟨h, rfl⟩) (by simp)
    | setDev mode => exact .write rfl rfl (fun h => ⟨h.1, h.2, rfl⟩) (by simp)
    | setMac mode =>
      refine .write rfl rfl (fun h => ?_) (by simp)
      obtain ⟨hsrc, hdst, hdev⟩ := h
      simp only [Hook.Wrote, Packet.node, hsrc, hdst, hdev]
    | publish mode => exact .publish
    | wake => exact .aside rfl rfl (Or.inr rfl)
  | arp a pc =>
    cases pc with
    | readFlag =>
      refine .aside rfl ?_ (Or.inl rfl)
      simp only [hookStep, arpinHookStep]
      split <;> rfl
    | compare =>
      refine .aside rfl ?_ (Or.inl rfl)
      simp only [hookStep, arpinHookStep]
      split <;> rfl
    | setOk => exact .answer
    | wake => exact .aside rfl rfl (Or.inr rfl)

/-- No statement of a hook moves the thread, or touches the list or a node in it. -/
theorem hookStep_kept (s : State) (h : Hook) : (hookStep s h).1.pc = s.pc ∧
    (hookStep s h).1.maclimitList = s.maclimitList ∧ (hookStep s h).1.live = s.live := by
  have hfill := hookStep_fill s h
  generalize (hookStep s h).1 = t at hfill ⊢
  generalize (hookStep s h).2 = o at hfill
  cases hfill with
  | aside _ _ ht => rcases ht with rfl | rfl <;> exact ⟨rfl, rfl, rfl⟩
  | enter | write | publish | answer => exact ⟨rfl, rfl, rfl⟩

/-! ### The invariant -/

/-- The slot shows no request, and the thread serves none. -/
def State.Vacant (s : State) : Prop := (s.pc.idle = true ∨ s.pc = .clear) ∧ s.flag.request = false

theorem Vacant.not_open {s : State} (h : s.Vacant) : ¬s.Open := by
  obtain ⟨hpc, hf⟩ := h
  rintro (hi | hc | ⟨-, hr⟩)
  · rcases hpc with hpc | hpc
    · exact absurd (hpc.symm.trans (Pc.not_idle (Or.inl hi))) (by simp)
    · simp [hpc, Pc.immediate] at hi
  · rcases hpc with hpc | hpc
    · exact absurd (hpc.symm.trans (Pc.not_idle (Or.inr hc))) (by simp)
    · simp [hpc, Pc.checking] at hc
  · exact absurd (hf.symm.trans hr) (by simp)

theorem Vacant.not_node {s : State} (h : s.Vacant) : s.pc.node? = none := by
  rcases h.1 with hpc | hpc
  · cases hpc' : s.pc <;> simp_all [Pc.idle, Pc.node?]
  · rw [hpc]
    rfl

/-- The entry comes from one of the packets. -/
def MaclimitNode.From (node : MaclimitNode) (ps : List Packet) : Prop := ∃ p ∈ ps, node = p.node

theorem MaclimitNode.From.mono {node : MaclimitNode} {ps : List Packet} (p : Packet) (h : node.From ps) :
    node.From (p :: ps) := by
  obtain ⟨q, hq, rfl⟩ := h
  exact ⟨q, List.mem_cons_of_mem p hq, rfl⟩

/-- The hooks, the slot, the thread and the list with the packets `ps` published so far. -/
structure Whole (s : State) (ps : List Packet) : Prop where
  loaded : s.shouldStop = false
  one : s.fillers ≤ 1
  vacant : ∀ h ∈ s.hooks, h.filling = true → s.Vacant
  wrote : ∀ h ∈ s.hooks, h.filling = true → h.Wrote s.newTerminal.node ∧ h.Fresh s.macs
  empty : s.flag = .noAddTask → s.Vacant
  node : ∀ node, s.pc.node? = some node → node = s.newTerminal.node
  request : s.Open → s.newTerminal.node.From ps ∧ s.newTerminal.node.mac ∉ s.macs
  listed : ∀ node ∈ s.maclimitList, node.From ps
  distinct : s.macs.Nodup

namespace Whole
variable {s t : State} {ps : List Packet}

theorem start : Whole (start maclimitCfg) [] where
  loaded := rfl
  one := Nat.zero_le _
  vacant := by simp [State.start]
  wrote := by simp [State.start]
  empty _ := ⟨Or.inl rfl, rfl⟩
  node := by simp [State.start, Pc.node?]
  request ho := absurd ho (Vacant.not_open ⟨Or.inl rfl, rfl⟩)
  listed := by simp [State.start]
  distinct := List.nodup_nil

/-- A step that changes neither the thread nor the list nor the hooks nor the slot. -/
theorem same (h : Whole s ps) (hstop : t.shouldStop = s.shouldStop) (hpc : t.pc = s.pc)
    (hlist : t.maclimitList = s.maclimitList) (hhooks : t.hooks = s.hooks) (hslot : t.newTerminal = s.newTerminal) :
    Whole t ps := by
  have hvacant : s.Vacant → t.Vacant := fun hv => by
    rw [State.Vacant, hpc, State.flag, hslot]
    exact hv
  have hmacs : t.macs = s.macs := by rw [State.macs, hlist, State.macs]
  exact
    { loaded := hstop.trans h.loaded
      one := by rw [State.fillers, hhooks]; exact h.one
      vacant := by rw [hhooks]; exact fun x hx hf => hvacant (h.vacant x hx hf)
      wrote := by rw [hhooks, hslot, hmacs]; exact h.wrote
      empty := by rw [State.flag, hslot]; exact fun hf => hvacant (h.empty hf)
      node := by rw [hpc, hslot]; exact h.node
      request := by rw [State.Open, hpc, State.flag, hslot, hmacs]; exact h.request
      listed := by rw [hlist]; exact h.listed
      distinct := by rw [hmacs]; exact h.distinct }

theorem withHooks (h : Whole s ps) {hooks : List Hook} (hmem : ∀ x ∈ hooks, x.filling = true → x ∈ s.hooks)
    (hone : hooks.countP Hook.filling ≤ 1) : Whole { s with hooks := hooks } ps :=
  { h with
    one := hone
    vacant := fun x hx hf => h.vacant x (hmem x hx hf) hf
    wrote := fun x hx hf => h.wrote x (hmem x hx hf) hf }

/-- With nobody filling the slot, an empty slot can be given to one hook. -/
theorem post (h : Whole s ps) {p : Packet} (hp : Posts s p) (hone : s.fillers = 0) : Whole (s.post p s.mode) (p :: ps) where
  loaded := h.loaded
  one := h.one
  vacant x hx hf := absurd (List.countP_pos_iff.mpr ⟨x, hx, hf⟩) (Nat.not_lt.mpr hone.le)
  wrote x hx hf := absurd (List.countP_pos_iff.mpr ⟨x, hx, hf⟩) (Nat.not_lt.mpr hone.le)
  empty hf := by
    have hmode := mode_request s
    rw [show s.mode = .noAddTask from hf] at hmode
    cases hmode
  node node hn := by
    have hnone := Vacant.not_node (h.empty hp.2)
    rw [show s.pc.node? = some node from hn] at hnone
    cases hnone
  request _ := ⟨⟨p, List.mem_cons_self, rfl⟩, hp.1.fresh⟩
  listed node hn := (h.listed node hn).mono p
  distinct := h.distinct

theorem answer (h : Whole s ps) : Whole (s.setFlag .arpReplayOk) ps := by
  have hvacant : s.Vacant → (s.setFlag .arpReplayOk).Vacant := fun hv => ⟨hv.1, rfl⟩
  exact
    { h with
      vacant := fun x hx hf => hvacant (h.vacant x hx hf)
      empty := fun hf => by cases hf
      request := fun ho => by
        refine h.request ?_
        rcases ho with hi | hc | ⟨-, hr⟩
        · exact Or.inl hi
        · exact Or.inr (Or.inl hc)
        · cases hr }

/-! ### Statements of hooks -/

section Hooks
variable {i : Nat} {x : Hook} {o : Option Hook} {p : Packet} {mode : AddMode}

/-- No other invocation fills the slot. -/
theorem others (h : Whole s ps) (hx : s.hooks[i]? = some x) (hf : x.filling = true) :
    ∀ y ∈ s.hooks.eraseIdx i, y.filling = false := by
  have hcount := Calls.countP_put hx Hook.filling none
  have hone := h.one
  rw [State.fillers] at hone
  simp only [hf, Option.any_none, if_true] at hcount
  intro y hy
  have hzero : (s.hooks.eraseIdx i).countP Hook.filling = 0 := by
    rw [Calls.put] at hcount
    simp only [Bool.false_eq_true, if_false] at hcount
    omega
  simpa using List.countP_eq_zero.mp hzero y hy

theorem aside (h : Whole s ps) (hx : s.hooks[i]? = some x) (hf : x.filling = false)
    (ho : o.any Hook.filling = false) : Whole { s with hooks := Calls.put s.hooks i o } ps := by
  refine h.withHooks (fun y hy hyf => ?_) ?_
  · rcases Calls.mem_put hy with hy | rfl
    · exact hy
    · exact absurd (ho.symm.trans hyf) (by simp)
  · have hcount := Calls.countP_put hx Hook.filling o
    simp only [hf, ho, Bool.false_eq_true, if_false, Nat.add_zero] at hcount
    rw [hcount]
    exact h.one

theorem enter (h : Whole s ps) (hx : s.hooks[i]? = some (.net p (.readFlag mode))) (hflag : s.flag = .noAddTask)
    (hone : s.fillers = 0) (hfresh : p.hSource ∉ s.macs) :
    Whole { s with hooks := Calls.put s.hooks i (some (.net p (.setSrcip mode))) } ps :=
  { h with
    one := by
      have hcount := Calls.countP_put hx Hook.filling (some (.net p (.setSrcip mode)))
      rw [← State.fillers, hone] at hcount
      exact (Nat.le_add_right _ _).trans hcount.le
    vacant := fun _ _ _ => h.empty hflag
    wrote := fun y hy hyf => by
      have hy : y ∈ Calls.put s.hooks i (some (.net p (.setSrcip mode))) := hy
      rcases Calls.mem_put hy with hy | hy
      · exact absurd (List.countP_pos_iff.mpr ⟨y, hy, hyf⟩) (Nat.not_lt.mpr hone.le)
      · obtain rfl := Option.some.inj hy
        exact ⟨trivial, hfresh⟩ }

theorem write (h : Whole s ps) {pc pc' : NetPc} {node : MaclimitNode} (hx : s.hooks[i]? = some (.net p pc))
    (hf : (Hook.net p pc).filling = true) (hf' : (Hook.net p pc').filling = true)
    (hw : (Hook.net p pc).Wrote s.newTerminal.node → (Hook.net p pc').Wrote node) :
    Whole { s.setNode node with hooks := Calls.put s.hooks i (some (.net p pc')) } ps := by
  have hmem := List.mem_of_getElem? hx
  have hvacant := h.vacant _ hmem hf
  obtain ⟨hwrote, hfresh⟩ := h.wrote _ hmem hf
  exact
    { loaded := h.loaded
      one := by
        have hcount := Calls.countP_put hx Hook.filling (some (.net p pc'))
        have hone := h.one
        rw [State.fillers] at hone ⊢
        simp only [hf, Option.any_some, hf', if_true] at hcount
        exact (Nat.add_right_cancel hcount).le.trans hone
      vacant := fun _ _ _ => hvacant
      wrote := fun y hy hyf => by
        have hy : y ∈ Calls.put s.hooks i (some (.net p pc')) := hy
        rcases Calls.mem_put_others hx hy with hy | hy
        · obtain rfl := Option.some.inj hy
          exact ⟨hw hwrote, hfresh⟩
        · exact absurd ((h.others hx hf y hy).symm.trans hyf) (by simp)
      empty := h.empty
      node := fun node hn => absurd ((Vacant.not_node hvacant).symm.trans hn) (by simp)
      request := fun ho => absurd ho (Vacant.not_open hvacant)
      listed := h.listed
      distinct := h.distinct }

theorem publish (h : Whole s ps) (hx : s.hooks[i]? = some (.net p (.publish mode))) :
    Whole { s.setFlag mode with hooks := Calls.put s.hooks i (some (.net p .wake)) } (p :: ps) := by
  have hmem := List.mem_of_getElem? hx
  have hvacant := h.vacant _ hmem rfl
  obtain ⟨hwrote, hfresh⟩ := h.wrote _ hmem rfl
  have hnode : s.newTerminal.node = p.node := hwrote
  have hothers : ∀ y ∈ Calls.put s.hooks i (some (.net p .wake)), y.filling = false := fun y hy => by
    rcases Calls.mem_put_others hx hy with hy | hy
    · obtain rfl := Option.some.inj hy
      rfl
    · exact h.others hx rfl y hy
  exact
    { loaded := h.loaded
      one := by
        rw [State.fillers, List.countP_eq_zero.mpr fun y hy => by rw [hothers y hy]; simp]
        exact Nat.zero_le 1
      vacant := fun y hy hyf => absurd ((hothers y hy).symm.trans hyf) (by simp)
      wrote := fun y hy hyf => absurd ((hothers y hy).symm.trans hyf) (by simp)
      empty := fun hflag => ⟨hvacant.1, by rw [hflag]; rfl⟩
      node := fun node hn => absurd ((Vacant.not_node hvacant).symm.trans hn) (by simp)
      request := fun _ => ⟨⟨p, List.mem_cons_self, hnode⟩, by
        rw [show (s.setFlag mode).newTerminal.node = p.node from hnode]; exact hfresh⟩
      listed := fun node hn => (h.listed node hn).mono p
      distinct := h.distinct }

theorem posted_of_ne (hx : s.hooks[i]? = some x) (hne : ∀ p mode, x ≠ .net p (.publish mode)) :
    posted s (.hook i) ps = ps := by
  simp only [posted, hx]
  split
  · rename_i heq
    exact absurd (Option.some.inj heq) (hne _ _)
  · rfl

theorem hook (h : Whole s ps) (hx : s.hooks[i]? = some x) (hok : Exclusive s (.hook i)) :
    Whole { (hookStep s x).1 with hooks := Calls.put s.hooks i (hookStep s x).2 } (posted s (.hook i) ps) := by
  have hfill := hookStep_fill s x
  generalize (hookStep s x).1 = t at hfill ⊢
  generalize (hookStep s x).2 = o at hfill ⊢
  cases hfill with
  | aside hf ho ht =>
    rw [posted_of_ne hx fun p mode he => by rw [he] at hf; cases hf]
    rcases ht with rfl | rfl
    · exact h.aside hx hf ho
    · exact (h.aside hx hf ho).same rfl rfl rfl rfl rfl
  | enter hflag =>
    rw [posted_of_ne hx (by simp)]
    obtain ⟨hone, hfresh⟩ := hok _ (by rw [hx]; rfl) hflag
    exact h.enter hx hflag hone hfresh
  | write hf hf' hw hp =>
    rw [posted_of_ne hx fun q mode he => hp mode (by injection he)]
    exact h.write hx hf hf' hw
  | publish =>
    simp only [posted, hx]
    exact h.publish hx
  | answer =>
    rw [posted_of_ne hx (by simp)]
    exact h.answer.aside hx rfl rfl

end Hooks

/-! ### Statements of the thread -/

theorem of_frame (h : Whole s ps) (hstop : t.shouldStop = s.shouldStop) (hhooks : t.hooks = s.hooks)
    (hlist : t.maclimitList = s.maclimitList) (hnode : t.newTerminal.node = s.newTerminal.node)
    (vacant : s.Vacant → t.Vacant) (empty : t.flag = .noAddTask → t.Vacant)
    (node : ∀ node, t.pc.node? = some node → node = s.newTerminal.node) (request : t.Open → s.Open) : Whole t ps := by
  have hmacs : t.macs = s.macs := by rw [State.macs, hlist, State.macs]
  exact
    { loaded := hstop.trans h.loaded
      one := by rw [State.fillers, hhooks]; exact h.one
      vacant := by rw [hhooks]; exact fun x hx hf => vacant (h.vacant x hx hf)
      wrote := by rw [hhooks, hnode, hmacs]; exact h.wrote
      empty := empty
      node := by rw [hnode]; exact node
      request := by rw [hnode, hmacs]; exact fun ho => h.request (request ho)
      listed := by rw [hlist]; exact h.listed
      distinct := by rw [hmacs]; exact h.distinct }

/-- The thread links the node of the request. -/
theorem link (h : Whole s ps) {list : List MaclimitNode} {pc : Pc} (hopen : s.Open)
    (hlist : ∀ node ∈ list, node ∈ s.maclimitList ∨ node = s.newTerminal.node)
    (hmacs : (list.map (·.mac)).Nodup) (hidle : pc.idle = false) (himm : pc.immediate = false)
    (hchk : pc.checking = false) (hnode : pc.node? = none) :
    Whole ({ s with maclimitList := list }.goto pc) ps := by
  have hfull : ∀ x ∈ s.hooks, x.filling = false := fun x hx => by
    by_contra hf
    exact Vacant.not_open (h.vacant x hx (by simpa using hf)) hopen
  have hflag : s.flag ≠ .noAddTask := fun hf => Vacant.not_open (h.empty hf) hopen
  exact
    { loaded := h.loaded
      one := h.one
      vacant := fun x hx hf => absurd ((hfull x hx).symm.trans hf) (by simp)
      wrote := fun x hx hf => absurd ((hfull x hx).symm.trans hf) (by simp)
      empty := fun hf => absurd hf hflag
      node := fun node hn => absurd (hnode.symm.trans hn) (by simp)
      request := by
        rintro (hi | hc | ⟨hi, -⟩)
        · exact absurd (himm.symm.trans hi) (by simp)
        · exact absurd (hchk.symm.trans hc) (by simp)
        · exact absurd (hidle.symm.trans hi) (by simp)
      listed := fun node hn => (hlist node hn).elim (h.listed node) fun he => he ▸ (h.request hopen).1
      distinct := hmacs }

theorem quiet (h : Whole s ps) {ok : Bool} (q : Quiet s ok t) : Whole t ps := by
  have vacant : s.Vacant → t.Vacant := by
    rintro ⟨hpc | hpc, hf⟩
    · refine ⟨?_, by rw [q.flag]; exact hf⟩
      rcases q.idleEnd hpc with hi | hstop | hc
      · exact Or.inl hi
      · exact absurd (h.loaded.symm.trans hstop) (by simp)
      · exact Or.inr hc.1
    · exact absurd hpc q.clear
  refine h.of_frame q.shouldStop q.hooks q.list q.slotNode vacant (fun hf => ?_) (fun node hn => ?_) fun ho => ?_
  · exact vacant (h.empty (q.flag.symm.trans hf))
  · exact (q.node node hn).elim id (h.node node)
  · rw [State.Open, q.flag] at ho
    exact ho.imp q.of_immediate (Or.imp q.of_checking (And.imp_left q.idle))

theorem limitCheckStep (h : Whole s ps) {ok : Bool} (hs : limitCheckStep s ok = some t) : Whole t ps := by
  -- While a request is open the slot is not vacant, and the thread may move on within the round.
  have serve {u : State} (hopen : s.Open) (hstop : u.shouldStop = s.shouldStop) (hhooks : u.hooks = s.hooks)
      (hlist : u.maclimitList = s.maclimitList) (hslot : u.newTerminal.node = s.newTerminal.node)
      (hflag : u.flag ≠ .noAddTask) (hnode : u.pc.node? = none) : Whole u ps :=
    h.of_frame hstop hhooks hlist hslot (fun hv => absurd hopen (Vacant.not_open hv)) (fun hf => absurd hf hflag)
      (fun node hn => absurd (hnode.symm.trans hn) (by simp)) fun _ => hopen
  rcases limitCheckStep_cases hs with q | ⟨hpc, hf, rfl⟩ | ⟨hpc, hf, rfl⟩ | ⟨i, hpc, rfl⟩ | ⟨node, hpc, rfl⟩ |
    ⟨i, node, hpc, rfl⟩ | ⟨hpc, rfl⟩
  · exact h.quiet q
  · exact serve (Or.inr (Or.inr ⟨by rw [hpc]; rfl, by rw [hf]; rfl⟩)) rfl rfl rfl rfl (by simp [hf]) rfl
  · exact serve (Or.inr (Or.inr ⟨by rw [hpc]; rfl, by rw [hf]; rfl⟩)) rfl rfl rfl rfl (by simp [hf]) rfl
  · exact serve (Or.inr (Or.inl (by rw [hpc]; rfl))) rfl rfl rfl rfl (by simp) rfl
  · have hopen : s.Open := Or.inl (by rw [hpc]; rfl)
    have hnode := h.node node (by rw [hpc]; rfl)
    refine h.link hopen (fun x hx => ?_) ?_ rfl rfl rfl rfl
    · rcases List.mem_cons.mp hx with rfl | hx
      · exact Or.inr hnode
      · exact Or.inl hx
    · rw [hnode]
      exact List.nodup_cons.mpr ⟨(h.request hopen).2, h.distinct⟩
  · have hopen : s.Open := Or.inr (Or.inl (by rw [hpc]; rfl))
    have hnode := h.node node (by rw [hpc]; rfl)
    refine h.link hopen (fun x hx => ?_) ?_ rfl rfl rfl rfl
    · rcases List.mem_or_eq_of_mem_set hx with hx | rfl
      · exact Or.inl hx
      · exact Or.inr hnode
    · rw [List.map_set, hnode]
      exact h.distinct.set (h.request hopen).2
  · have vacant : ((s.setFlag .noAddTask).goto .setState).Vacant := ⟨Or.inl rfl, rfl⟩
    exact h.of_frame rfl rfl rfl rfl (fun _ => vacant) (fun _ => vacant) (by simp [Pc.node?])
      fun ho => absurd ho (Vacant.not_open vacant)

theorem step (h : Whole s ps) {e : Event} (hok : Exclusive s e) (hs : step s e = some t) :
    Whole t (posted s e ps) := by
  cases e with
  | thread ok => exact h.limitCheckStep hs
  | packet skb =>
    obtain rfl := Option.some.inj hs
    rcases netHookFunc_cases s skb with he | ⟨p, rfl, hp, he⟩
    · rw [he]
      cases skb with
      | none => exact h
      | some p =>
        have hnot : ¬Posts s p := fun hp => by
          rw [netHookFunc_of_unlisted hp.1, if_pos hp.2] at he
          have hmode := mode_request s
          rw [show s.mode = s.flag from congrArg State.flag he, hp.2] at hmode
          cases hmode
        simp only [posted, if_neg hnot]
        exact h
    · rw [he]
      simp only [posted, if_pos hp]
      exact h.post hp (hok hp)
  | arp a =>
    obtain rfl := Option.some.inj hs
    rcases arpinHookFunc_cases s a with he | ⟨-, he⟩
    · rw [he]
      exact h
    · rw [he]
      exact h.answer.same rfl rfl rfl rfl rfl
  | hook i =>
    obtain ⟨x, hx, rfl⟩ := Option.map_eq_some_iff.mp hs
    exact h.hook hx hok
  | netEnter _ | arpEnter _ =>
    obtain rfl := Option.some.inj hs
    refine h.withHooks (fun x hx hf => ?_) ?_
    · rcases List.mem_append.mp hx with hx | hx
      · exact hx
      · obtain rfl := List.mem_singleton.mp hx
        cases hf
    · rw [List.countP_append]
      exact h.one
  | setLimitNum _ | setEnable _ =>
    obtain rfl := Option.some.inj hs
    exact h.same rfl rfl rfl rfl rfl

end Whole

/-! ### The claim of a node -/

theorem whole {s : State} {ps : List Packet} (h : postedLts.Reach (fun x e => Exclusive x.1 e) (s, ps)) :
    Whole s ps := by
  refine h.track_invariant ?_ fun _ _ _ _ hw hok hs => hw.step hok hs
  rintro _ rfl
  exact Whole.start

/-- A node that the thread is about to link is that of one published packet and its MAC is not in the list;
    the entries are nodes of published packets and their MACs are pairwise distinct. -/
theorem linked_from_packet {s : State} {ps : List Packet}
    (h : postedLts.Reach (fun x e => Exclusive x.1 e) (s, ps)) :
    (∀ node, s.pc.link? = some node → (∃ p ∈ ps, node = p.node) ∧ node.mac ∉ s.macs) ∧
      (∀ node ∈ s.maclimitList, ∃ p ∈ ps, node = p.node) ∧ s.macs.Nodup := by
  have hw := whole h
  refine ⟨fun node hlink => ?_, hw.listed, hw.distinct⟩
  have hnode : node = s.newTerminal.node := hw.node node (by cases hpc : s.pc <;> simp_all [Pc.link?, Pc.node?])
  have hopen : s.Open := by
    cases hpc : s.pc with
    | add _ => exact Or.inl (by rw [hpc]; rfl)
    | replace _ _ => exact Or.inr (Or.inl (by rw [hpc]; rfl))
    | _ => simp [hpc, Pc.link?] at hlink
  rw [hnode]
  exact hw.request hopen

/-- Two hooks for `packetA` and `packetB`; the second one looks at the flag when the request of the first
    one has been served. -/
def linkBoth : List Event :=
  [Event.setEnable 1, .netEnter packetA, .netEnter packetB] ++ List.replicate 3 (Event.hook 1) ++
    List.replicate 10 (Event.hook 0) ++ List.replicate 8 (Event.thread true) ++ List.replicate 7 (Event.hook 0) ++
    List.replicate 5 (Event.thread true)

theorem linked_from_packet_linkBoth : ∃ s ps, postedLts.Reach (fun x e => Exclusive x.1 e) (s, ps) ∧
    s.pc = .add packetB.node ∧ packetB.node.mac ∉ s.macs ∧ s.maclimitList = [packetA.node] ∧
    ps = [packetB, packetA] ∧ s.macs.Nodup := by
  have hrun : (postedLts.runIf (fun x e => Exclusive x.1 e) (start maclimitCfg, []) linkBoth).any
      (fun x => x.1.pc == .add packetB.node && x.1.maclimitList == [packetA.node] && x.2 == [packetB, packetA]) =
        true := by decide
  obtain ⟨⟨s, ps⟩, hr, hp⟩ := Lts.exists_reach_of_runIf hrun ⟨rfl, rfl⟩
  simp only [Bool.and_eq_true, beq_iff_eq] at hp
  obtain ⟨⟨hpc, hlist⟩, hps⟩ := hp
  obtain ⟨hlink, -, hnodup⟩ := linked_from_packet hr
  exact ⟨s, ps, hr, hpc, (hlink packetB.node (by rw [hpc]; rfl)).2, hlist, hps, hnodup⟩

/-- The packets that a hook has been called for. -/
def received (_ : State) (e : Event) (ps : List Packet) : List Packet :=
  match e with
  | .packet (some p) | .netEnter p => p :: ps
  | _ => ps

/-- Two hooks find the slot empty and fill it at the same time; the entry has the MAC of one packet and the
    source address of the other. Two hooks for one packet scan the list before the first one posts; the list
    has the MAC twice. -/
theorem linked_torn :
    (∃ s, ((lts maclimitCfg).track received []).Reachable (s, [packetB, packetA]) ∧
      ∃ node ∈ s.maclimitList, ∀ p ∈ [packetB, packetA], node ≠ p.node) ∧
    (∃ s, ((lts maclimitCfg).track received []).Reachable (s, [packetA, packetA]) ∧
      s.maclimitList = [packetA.node, packetA.node] ∧ ¬s.macs.Nodup) := by
  have htorn : (((lts maclimitCfg).track received []).runIf (fun _ _ => True) (start maclimitCfg, [])
      ([Event.setEnable 1, .netEnter packetA, .netEnter packetB] ++ List.replicate 4 (Event.hook 0) ++
        List.replicate 4 (Event.hook 1) ++ [Event.hook 0] ++ List.replicate 4 (Event.hook 1) ++
        List.replicate 4 (Event.hook 0) ++ List.replicate 5 (Event.thread true))).any
      (fun x => x.2 == [packetB, packetA] && x.1.maclimitList == [{ packetA.node with srcip := packetB.saddr }]) =
        true := by decide
  have htwice : (((lts maclimitCfg).track received []).runIf (fun _ _ => True) (start maclimitCfg, [])
      ([Event.setEnable 1, .netEnter packetA, .netEnter packetA] ++ List.replicate 3 (Event.hook 1) ++
        List.replicate 10 (Event.hook 0) ++ List.replicate 8 (Event.thread true) ++ List.replicate 7 (Event.hook 0) ++
        List.replicate 6 (Event.thread true))).any
      (fun x => x.2 == [packetA, packetA] && x.1.maclimitList == [packetA.node, packetA.node]) = true := by decide
  obtain ⟨⟨s, ps⟩, hr, hp⟩ := Lts.exists_reach_of_runIf htorn ⟨rfl, rfl⟩
  obtain ⟨⟨t, qs⟩, hr', hq⟩ := Lts.exists_reach_of_runIf htwice ⟨rfl, rfl⟩
  simp only [Bool.and_eq_true, beq_iff_eq] at hp hq
  obtain ⟨rfl, hlist⟩ := hp
  obtain ⟨rfl, hlist'⟩ := hq
  refine ⟨⟨s, hr, { packetA.node with srcip := packetB.saddr }, by rw [hlist]; exact List.mem_singleton_self _,
    by decide⟩, ⟨t, hr', hlist', ?_⟩⟩
  rw [State.macs, hlist']
  decide

end QuickStart.Maclimit
