import QuickStart.Maclimit.Check

/-! # Spared on its own answer

The flag that lets answers in is set before the MAC they are compared with is copied. While no answer of another
terminal is underway at the first of the two statements, and none passes the comparison between them, the entry
that is being probed is spared only by a packet from its own MAC. -/

namespace QuickStart.Maclimit
open State

/-- The thread is about to set the flag for the probe of the entry. -/
def Pc.flagging? : Pc → Option Nat
  | .flagProbe i => some i
  | _ => none

/-- The source of an ARP packet whose next statement is the comparison. -/
def Hook.compares? : Hook → Option Mac
  | .arp a .compare => some a.src
  | _ => none

/-- The source of an ARP packet that has passed the comparison and has not set the flag. -/
def Hook.stores? : Hook → Option Mac
  | .arp a .setOk => some a.src
  | _ => none

/-- `arpin_hook_func` run as one step sets the flag. -/
def Sets (s : State) (a : ArpInfo) : Prop := s.flag = .arpReplayCheck ∧ a.src = s.newTerminal.arpCmpMac

instance (s : State) (a : ArpInfo) : Decidable (Sets s a) := inferInstanceAs (Decidable (_ ∧ _))

theorem arpinHookFunc_fst (s : State) (a : ArpInfo) :
    (arpinHookFunc s (some a)).1 = if Sets s a then (s.setFlag .arpReplayOk).wakeUpProcess else s := by
  rw [arpinHookFunc, apply_ite Prod.fst]
  rfl

/-- The sources of the ARP packets that have set the flag since the last probe began. -/
def answers (s : State) (e : Event) (macs : List Mac) : List Mac :=
  match e with
  | .thread _ => if s.pc.flagging?.isSome then [] else macs
  | .arp (some a) => if Sets s a then a.src :: macs else macs
  | .hook j => (s.hooks[j]?.bind Hook.stores?).toList ++ macs
  | _ => macs

/-- The module whose runs carry the answers to the last probe. -/
abbrev answersLts (cfg : MaclimitCfg) : Lts (State × List Mac) Event := (lts cfg).track answers []

theorem answers_thread {s : State} {ok : Bool} {macs : List Mac} (hpc : s.pc.flagging? = none) :
    answers s (.thread ok) macs = macs := by
  simp [answers, hpc]

/-- Each `net_hook_func` is one step. When the flag is set for the probe of an entry, no packet from another MAC has
    passed the comparison without having set the flag, and none passes it until the MAC of the entry is copied. -/
def Timely (s : State) : Event → Prop
  | .netEnter _ => False
  | .thread _ => ∀ i ∈ s.pc.flagging?, ∀ x ∈ s.hooks, ∀ m ∈ x.stores?, s.maclimitList[i]?.map (·.mac) = some m
  | .arp a => s.pc.copying = true → ∀ b ∈ a, Sets s b → s.probed? = some b.src
  | .hook j => s.pc.copying = true → ∀ m ∈ s.hooks[j]?.bind Hook.compares?, m = s.newTerminal.arpCmpMac →
      s.probed? = some m
  | _ => True

instance (s : State) : ∀ e : Event, Decidable (Timely s e)
  | .netEnter _ => inferInstanceAs (Decidable False)
  | .thread _ => inferInstanceAs (Decidable (∀ i ∈ s.pc.flagging?, ∀ x ∈ s.hooks, ∀ m ∈ x.stores?, _ = _))
  | .arp a => inferInstanceAs (Decidable (_ → ∀ b ∈ a, Sets s b → _))
  | .hook j => inferInstanceAs (Decidable (_ → ∀ m ∈ s.hooks[j]?.bind Hook.compares?, _ → _))
  | .packet _ | .arpEnter _ | .setLimitNum _ | .setEnable _ => inferInstanceAs (Decidable True)

theorem Timely.netWhole {s : State} {e : Event} (h : Timely s e) : e.netWhole = true := by
  cases e <;> first | rfl | exact h.elim

/-! ### The invariant -/

/-- The answers underway are those of the entry with the MAC `m`, which is being probed. -/
structure Answers (s : State) (macs : List Mac) (m : Mac) : Prop where
  stores : ∀ x ∈ s.hooks, ∀ m' ∈ x.stores?, m' = m
  cmpMac : s.pc.copying = false → s.newTerminal.arpCmpMac = m
  flag : s.flag = .arpReplayCheck ∨ (s.flag = .arpReplayOk ∧ m ∈ macs)

structure Own (s : State) (macs : List Mac) : Prop where
  arp : ∀ x ∈ s.hooks, x.isArp = true
  listed : ∀ i, s.pc.flagging? = some i ∨ s.pc.probing? = some i → i < s.maclimitList.length
  probe : ∀ m, s.probed? = some m → Answers s macs m

namespace Own
variable {s t : State} {macs : List Mac}

theorem start {cfg : MaclimitCfg} : Own (start cfg) [] where
  arp := by simp [State.start]
  listed := by simp [State.start, Pc.flagging?, Pc.probing?]
  probe := by simp [State.start, State.probed?, Pc.probing?]

/-- Between the probes nothing is claimed of the answers. -/
theorem between (ho : Own s macs) (hhooks : t.hooks = s.hooks) (hprobing : t.pc.probing? = none)
    (hflagging : ∀ i, t.pc.flagging? = some i → i < t.maclimitList.length) : Own t macs where
  arp := by rw [hhooks]; exact ho.arp
  listed i hi := hflagging i (hi.resolve_right fun hp => by rw [hprobing] at hp; cases hp)
  probe m hm := by
    rw [State.probed?, hprobing] at hm
    cases hm

/-- A statement inside the probe of an entry leaves the answers alone. -/
theorem inside (ho : Own s macs) (hhooks : t.hooks = s.hooks) (hslot : t.newTerminal = s.newTerminal)
    (hlist : t.maclimitList = s.maclimitList) (hprobing : t.pc.probing? = s.pc.probing?)
    (hcopying : s.pc.copying = false) (hflagging : t.pc.flagging? = none) : Own t macs where
  arp := by rw [hhooks]; exact ho.arp
  listed i hi := by
    rw [hlist]
    exact ho.listed i (Or.inr (hprobing.symm.trans (hi.resolve_left fun hf => by rw [hflagging] at hf; cases hf)))
  probe m hm := by
    have hans := ho.probe m (by rwa [State.probed?, hprobing, hlist] at hm)
    refine ⟨?_, fun _ => ?_, ?_⟩
    · rw [hhooks]
      exact hans.stores
    · rw [hslot]
      exact hans.cmpMac hcopying
    · rw [State.flag, hslot]
      exact hans.flag

theorem thread (ho : Own s macs) {ok : Bool} (htimely : Timely s (.thread ok)) (hs : limitCheckStep s ok = some t) :
    Own t (answers s (.thread ok) macs) := by
  cases limitCheckStep_checks hs with
  | flags i hpc =>
    have hlt := ho.listed i (Or.inl (by rw [hpc]; rfl))
    have hget : s.maclimitList[i]? = some s.maclimitList[i] := List.getElem?_eq_getElem hlt
    refine ⟨ho.arp, fun j hj => ?_, fun m hm => ⟨fun x hx m' hm' => ?_, fun hcopy => (by cases hcopy), Or.inl rfl⟩⟩
    · rcases hj with hj | hj
      · cases hj
      · obtain rfl := Option.some.inj hj
        exact hlt
    · have hother := htimely i (by rw [hpc]; rfl) x hx m' hm'
      exact Option.some.inj (hother.symm.trans hm)
  | copies i pos hpc hpos =>
    have hprobed : s.probed? = some pos.mac := by
      rw [State.probed?, hpc, Pc.probing?, Option.bind_some, hpos]
      rfl
    have hans := ho.probe _ hprobed
    rw [answers_thread (by rw [hpc]; rfl)]
    refine ⟨ho.arp, fun j hj => ho.listed j ?_, fun m hm => ?_⟩
    · rw [hpc]
      exact hj
    · have hm' : (s.goto (.probe i 0)).probed? = some m := hm
      rw [State.probed?, goto_pc, Pc.probing?, Option.bind_some, goto_maclimitList, hpos] at hm'
      obtain rfl := Option.some.inj hm'
      exact ⟨hans.stores, fun _ => rfl, hans.flag⟩
  | enters i hpc =>
    rw [answers_thread (by rw [hpc]; rfl)]
    split <;> rename_i hlt
    · refine ho.between rfl rfl fun j hj => ?_
      obtain rfl := Option.some.inj hj
      exact hlt
    · exact ho.between rfl rfl fun j hj => (by cases hj)
  | probes i k hpc =>
    rw [answers_thread (by rw [hpc]; rfl)]
    split <;> exact ho.inside rfl rfl rfl (by rw [hpc]; rfl) (by rw [hpc]; rfl) rfl
  | sends i k pos hpc | dozes i k hpc | expires i k hpc =>
    rw [answers_thread (by rw [hpc]; rfl)]
    exact ho.inside rfl rfl rfl (by rw [hpc]; rfl) (by rw [hpc]; rfl) rfl
  | tests hpc | decides i hpc | schedules hpc =>
    rw [answers_thread (by rw [hpc]; rfl)]
    split <;> exact ho.between rfl rfl fun j hj => (by cases hj)
  | fails hpc | unlocks hpc =>
    rw [answers_thread (by rcases hpc with hpc | hpc <;> first | rw [hpc]; rfl | obtain ⟨i, hpc⟩ := hpc; rw [hpc]; rfl)]
    exact ho.between rfl rfl fun j hj => (by cases hj)
  | adds hpc | checks hpc | ignores hpc | allocs hpc | locksAdd node hpc | links node hpc | allocsReplace i hpc
  | locksReplace i node hpc | allocsAgain i node hpc | failsAgain i node hpc | replaces i node hpc | frees hpc
  | clears hpc | setsState hpc | wakes hpc =>
    rw [answers_thread (by rw [hpc]; rfl)]
    exact ho.between rfl rfl fun j hj => (by cases hj)

/-- Only the slot and the hooks matter outside the thread, and only while an entry is being probed. -/
theorem of_frame (ho : Own s macs) {macs' : List Mac} (hpc : t.pc = s.pc) (hlist : t.maclimitList = s.maclimitList)
    (harp : ∀ x ∈ t.hooks, x.isArp = true)
    (hans : ∀ m, s.probed? = some m → Answers s macs m → Answers t macs' m) : Own t macs' where
  arp := harp
  listed := by rw [hpc, hlist]; exact ho.listed
  probe m hm := by
    rw [State.probed?, hpc, hlist] at hm
    exact hans m hm (ho.probe m hm)

theorem packet (ho : Own s macs) (skb : Option Packet) : Own (netHookFunc s skb).1 macs := by
  rcases netHookFunc_cases s skb with he | ⟨p, -, hposts, he⟩
  · rw [he]
    exact ho
  · rw [he]
    refine ho.of_frame rfl rfl ho.arp fun m _ hans => absurd hposts.2 ?_
    rcases hans.flag with hf | ⟨hf, -⟩ <;> rw [hf] <;> simp

/-- While an entry is being probed, what sets the flag comes from its MAC. -/
theorem arpinHookFunc (ho : Own s macs) (a : Option ArpInfo) (htimely : Timely s (.arp a)) :
    Own (arpinHookFunc s a).1 (answers s (.arp a) macs) := by
  cases a with
  | none => exact ho
  | some a =>
    by_cases hsets : Sets s a
    · rw [answers, if_pos hsets]
      rw [arpinHookFunc_fst, if_pos hsets]
      refine ho.of_frame rfl rfl ho.arp fun m hm hans => ⟨hans.stores, hans.cmpMac, Or.inr ⟨rfl, ?_⟩⟩
      have hsrc : a.src = m := by
        cases hcopy : s.pc.copying with
        | true => exact Option.some.inj ((htimely hcopy a rfl hsets).symm.trans hm)
        | false => exact hsets.2.trans (hans.cmpMac hcopy)
      rw [hsrc]
      exact List.mem_cons_self
    · rw [answers, if_neg hsets]
      rw [arpinHookFunc_fst, if_neg hsets]
      exact ho

theorem hook (ho : Own s macs) {j : Nat} {x : Hook} (hx : s.hooks[j]? = some x) (htimely : Timely s (.hook j)) :
    Own { (hookStep s x).1 with hooks := Calls.put s.hooks j (hookStep s x).2 } (answers s (.hook j) macs) := by
  have hmem := List.mem_of_getElem? hx
  cases x with
  | net p pc => exact absurd (ho.arp _ hmem) (by simp [Hook.isArp])
  | arp a pc =>
    have harp : ∀ (o : Option ArpPc) y, y ∈ Calls.put s.hooks j (o.map (Hook.arp a)) → y.isArp = true := by
      intro o y hy
      rcases Calls.mem_put hy with hy | hy
      · exact ho.arp y hy
      · obtain ⟨pc', -, rfl⟩ := Option.map_eq_some_iff.mp hy
        rfl
    -- An invocation underway stays one of the probed entry, and only the comparison adds one.
    have hput : ∀ (o : Option ArpPc) m, (∀ x ∈ s.hooks, ∀ m' ∈ x.stores?, m' = m) → (o = some ArpPc.setOk → a.src = m) →
        ∀ y ∈ Calls.put s.hooks j (o.map (Hook.arp a)), ∀ m' ∈ y.stores?, m' = m := by
      intro o m hstores hset y hy m' hm'
      rcases Calls.mem_put hy with hy | hy
      · exact hstores y hy m' hm'
      · obtain ⟨pc', ho', rfl⟩ := Option.map_eq_some_iff.mp hy
        cases pc' <;> simp only [Hook.stores?, Option.mem_def, Option.some.injEq, reduceCtorEq] at hm'
        exact hm' ▸ hset ho'
    cases pc with
    | readFlag =>
      simp only [answers, hx, Option.bind_some, Hook.stores?, Option.toList_none, List.nil_append]
      refine ho.of_frame rfl rfl (harp _) fun m hm hans => ⟨hput _ m hans.stores fun hset => ?_, hans.cmpMac, hans.flag⟩
      simp only [arpinHookStep] at hset
      split at hset <;> cases hset
    | compare =>
      simp only [answers, hx, Option.bind_some, Hook.stores?, Option.toList_none, List.nil_append]
      refine ho.of_frame rfl rfl (harp _) fun m hm hans => ⟨hput _ m hans.stores fun hset => ?_, hans.cmpMac, hans.flag⟩
      simp only [arpinHookStep] at hset
      split at hset <;> rename_i hsrc
      · cases hcopy : s.pc.copying with
        | true => exact Option.some.inj ((htimely hcopy a.src (by rw [hx]; rfl) hsrc).symm.trans hm)
        | false => exact hsrc.trans (hans.cmpMac hcopy)
      · cases hset
    | setOk =>
      simp only [answers, hx, Option.bind_some, Hook.stores?, Option.toList_some, List.singleton_append]
      refine ho.of_frame rfl rfl (harp (some .wake)) fun m hm hans =>
        ⟨hput (some .wake) m hans.stores fun hset => (by cases hset), hans.cmpMac, Or.inr ⟨rfl, ?_⟩⟩
      rw [hans.stores _ hmem a.src rfl]
      exact List.mem_cons_self
    | wake =>
      simp only [answers, hx, Option.bind_some, Hook.stores?, Option.toList_none, List.nil_append]
      exact ho.of_frame rfl rfl (harp none) fun m hm hans =>
        ⟨hput none m hans.stores fun hset => (by cases hset), hans.cmpMac, hans.flag⟩

theorem step (ho : Own s macs) {e : Event} (htimely : Timely s e) (hs : step s e = some t) : Own t (answers s e macs) := by
  cases e with
  | thread ok => exact ho.thread htimely hs
  | packet skb =>
    obtain rfl := Option.some.inj hs
    exact ho.packet skb
  | arp a =>
    obtain rfl := Option.some.inj hs
    exact ho.arpinHookFunc a htimely
  | netEnter p => exact htimely.elim
  | hook j =>
    obtain ⟨x, hx, rfl⟩ := Option.map_eq_some_iff.mp hs
    exact ho.hook hx htimely
  | arpEnter a =>
    obtain rfl := Option.some.inj hs
    refine ho.of_frame rfl rfl (fun x hx => ?_) fun m _ hans => ⟨fun x hx => ?_, hans.cmpMac, hans.flag⟩ <;>
      rcases List.mem_append.mp hx with hx | hx
    · exact ho.arp x hx
    · rw [List.mem_singleton.mp hx]
      rfl
    · exact hans.stores x hx
    · rw [List.mem_singleton.mp hx]
      simp [Hook.stores?]
  | setLimitNum _ | setEnable _ =>
    obtain rfl := Option.some.inj hs
    exact ho.of_frame rfl rfl ho.arp fun m _ hans => ⟨hans.stores, hans.cmpMac, hans.flag⟩

end Own

/-- The entry of a decision is spared only if a packet from its own MAC has set the flag since its probe began; a
    silent entry is replaced. -/
theorem spared_on_own_answer {cfg : MaclimitCfg} {s : State} {macs : List Mac} {i : Nat}
    (hr : (answersLts cfg).Reach (fun x e => Timely x.1 e) (s, macs)) (hpc : s.pc = .decide i) :
    ∃ pos, s.maclimitList[i]? = some pos ∧ (s.flag ≠ .arpReplayCheck → pos.mac ∈ macs) ∧
      (pos.mac ∉ macs → ∀ ok, limitCheckStep s ok = some (s.goto (.allocReplace i))) := by
  have ho : Own s macs := by
    refine hr.track_invariant ?_ fun _ _ _ _ ho hok hs => ho.step hok hs
    rintro _ rfl
    exact Own.start
  have hlt := ho.listed i (Or.inr (by rw [hpc]; rfl))
  have hget : s.maclimitList[i]? = some s.maclimitList[i] := List.getElem?_eq_getElem hlt
  have hans := ho.probe s.maclimitList[i].mac (by
    rw [State.probed?, hpc, Pc.probing?, Option.bind_some, hget]
    rfl)
  refine ⟨_, hget, fun hf => (hans.flag.resolve_left hf).2, fun hsilent ok => ?_⟩
  have hf : s.flag = .arpReplayCheck := hans.flag.resolve_right fun hor => hsilent hor.2
  simp only [limitCheckStep, hpc, hf, if_true]

/-- The terminal of `packetA` has an entry and answers the first probe for `packetC`. -/
def answerA : List Event :=
  linkA ++ List.replicate 2 (Event.thread true) ++ [Event.packet (some packetC)] ++
    List.replicate 7 (Event.thread true) ++ [Event.arpEnter packetA.arp] ++ List.replicate 4 (Event.hook 0) ++
    List.replicate 4 (Event.thread true)

theorem spared_on_own_answer_answerA : ∃ s macs, (answersLts maclimitCfg).Reach (fun x e => Timely x.1 e) (s, macs) ∧
    s.pc = .decide 0 ∧ s.flag = .arpReplayOk ∧ macs = [packetA.hSource] ∧
    s.maclimitList[0]?.map (·.mac) = some packetA.hSource := by
  have hrun : ((answersLts maclimitCfg).runIf (fun x e => Timely x.1 e) (start maclimitCfg, []) answerA).any
      (fun x => x.1.pc == .decide 0 && x.1.flag == .arpReplayOk && x.2 == [packetA.hSource]) = true := by
    decide
  obtain ⟨⟨s, macs⟩, hr, hp⟩ := Lts.exists_reach_of_runIf hrun ⟨rfl, rfl⟩
  simp only [Bool.and_eq_true, beq_iff_eq] at hp
  obtain ⟨⟨hpc, hflag⟩, rfl⟩ := hp
  obtain ⟨pos, hpos, hown, -⟩ := spared_on_own_answer hr hpc
  refine ⟨s, _, hr, hpc, hflag, rfl, ?_⟩
  rw [hpos, Option.map_some, List.mem_singleton.mp (hown (by rw [hflag]; simp))]

/-- The entries of `packetA` and `packetB` are probed for `packetC`. The terminal of `packetA` answers its probe, and
    answers once more between the two statements that begin the probe of the other entry. -/
def answerTwice : List Event :=
  [Event.setEnable 1, .setLimitNum 2, .packet (some packetB)] ++ List.replicate 9 (Event.thread true) ++
    [Event.packet (some packetA)] ++ List.replicate 10 (Event.thread true) ++ [Event.packet (some packetC)] ++
    List.replicate 7 (Event.thread true) ++ [Event.arpEnter packetA.arp] ++ List.replicate 4 (Event.hook 0) ++
    List.replicate 7 (Event.thread true) ++ [Event.arpEnter packetA.arp] ++ List.replicate 4 (Event.hook 0) ++
    List.replicate 2 (Event.thread true)

/-- The sender of an ARP packet. -/
def Event.arpSource? : Event → Option Mac
  | .arp a => a.map (·.src)
  | .arpEnter a => some a.src
  | _ => none

/-- The entry of `packetB` is spared, although no ARP packet has come from its MAC. -/
theorem spared_by_late_answer : (∀ e ∈ answerTwice, e.netWhole = true ∧ e.arpSource? ≠ some packetB.hSource) ∧
    ∃ s, (lts maclimitCfg).Reach (fun _ e => e.netWhole = true) s ∧ s.pc = .decide 1 ∧ s.flag ≠ .arpReplayCheck ∧
      s.macs = [packetA.hSource, packetB.hSource] := by
  refine ⟨by decide, ?_⟩
  have hrun : ((lts maclimitCfg).runIf (fun _ e => e.netWhole = true) (start maclimitCfg) answerTwice).any
      (fun s => s.pc == .decide 1 && s.flag != .arpReplayCheck && s.macs == [packetA.hSource, packetB.hSource]) = true := by
    decide
  obtain ⟨s, hr, hp⟩ := Lts.exists_reach_of_runIf hrun rfl
  simp only [Bool.and_eq_true, beq_iff_eq, bne_iff_ne, ne_eq] at hp
  exact ⟨s, hr, hp.1.1, hp.1.2, hp.2⟩

end QuickStart.Maclimit
