import Mathlib.Data.Finset.Card
import QuickStart.Maclimit.Listed

/-! # The terminals that get through

The verdict on a packet looks at the list, but an accepted terminal enters the list only later and through
the one request slot. While every accepted terminal is listed or is the one in the slot, the limit holds of
the traffic; two unlisted terminals in a row break it. -/

namespace QuickStart.Maclimit
open State

/-- The source MACs of the non-UDP packets from `br0` that `net_hook_func` has accepted. -/
def accepted (s : State) : Event → Finset Mac → Finset Mac
  | .packet (some p), acc =>
    if limited p = true ∧ (netHookFunc s (some p)).2 = .accept then insert p.hSource acc else acc
  | _, acc => acc

/-- The module with the limit `limit` in force, whose runs carry the accepted MACs. -/
abbrev trafficLts (limit : Int) : Lts (State × Finset Mac) Event :=
  (lts { enable := 1, limitNum := limit }).track accepted ∅

/-- Hooks run as one step, the configuration stays, `read_trylock` does not fail, no entry is evicted. -/
def Steady (s : State) : Event → Prop
  | .packet skb => skb.any limited = true → s.wlocked = false
  | .thread _ => s.pc.checking = true → s.pc.link? = none
  | .arp _ => True
  | _ => False

instance (s : State) : ∀ e : Event, Decidable (Steady s e)
  | .packet _ | .thread _ => inferInstanceAs (Decidable (_ → _))
  | .arp _ => inferInstanceAs (Decidable True)
  | .netEnter _ | .arpEnter _ | .hook _ | .setLimitNum _ | .setEnable _ => inferInstanceAs (Decidable False)

/-- A packet of an unlisted terminal that finds room in the list also finds the slot empty, with the thread
    not about to clear it, or finds its own request in it; and the node of a request is allocated. -/
def Recorded (s : State) : Event → Prop
  | .packet (some p) => Unlisted s p → s.mode = .addImmediate →
      (s.flag = .noAddTask ∧ s.pc ≠ .clear) ∨ (s.flag = .addImmediate ∧ s.newTerminal.node.mac = p.hSource)
  | .thread ok => s.pc = .alloc → ok = true
  | _ => True

instance (s : State) : ∀ e : Event, Decidable (Recorded s e)
  | .packet (some _) => inferInstanceAs (Decidable (_ → _ → _))
  | .thread _ => inferInstanceAs (Decidable (_ → _))
  | .packet none | .arp _ | .netEnter _ | .arpEnter _ | .hook _ | .setLimitNum _ | .setEnable _ =>
    inferInstanceAs (Decidable True)

theorem Steady.netWhole {s : State} {e : Event} (h : Steady s e) : e.netWhole = true := by
  cases e <;> first | rfl | exact h.elim

/-- Every accepted MAC is in the list, or in the slot on its way there. -/
structure Covered (limit : Int) (s : State) (acc : Finset Mac) : Prop where
  sound : Sound s limit
  cfg : s.cfg = { enable := 1, limitNum := limit }
  length : (s.maclimitList.length : Int) ≤ limit
  linked : s.flag = .addImmediate → s.OpenImmediate ∨ s.newTerminal.node.mac ∈ s.macs
  covered : ∀ a ∈ acc, a ∈ s.macs ∨ (s.OpenImmediate ∧ a = s.newTerminal.node.mac)

namespace Covered
variable {limit : Int} {s t : State} {acc : Finset Mac}

theorem start (h0 : 0 ≤ limit) : Covered limit (start { enable := 1, limitNum := limit }) ∅ where
  sound := Sound.start
  cfg := rfl
  length := h0
  linked hf := by cases hf
  covered a ha := absurd ha (Finset.notMem_empty a)

/-- An open `ADD_IMMEDIATE` request leaves room for itself, so the accepted MACs stay within the limit. -/
theorem card_le (h : Covered limit s acc) : (acc.card : Int) ≤ limit := by
  have hlen := h.length
  by_cases ho : s.OpenImmediate
  · have hsub : acc ⊆ insert s.newTerminal.node.mac s.macs.toFinset := fun a ha => by
      rw [Finset.mem_insert, List.mem_toFinset]
      exact (h.covered a ha).symm.imp_left And.right
    have hcard := (Finset.card_le_card hsub).trans (Finset.card_insert_le _ _)
    have hlist := s.macs.toFinset_card_le
    have hroom := h.sound.room ho
    rw [State.macs, List.length_map] at hlist
    rw [State.macs] at hcard
    omega
  · have hsub : acc ⊆ s.macs.toFinset := fun a ha => by
      rw [List.mem_toFinset]
      exact (h.covered a ha).resolve_right fun hor => ho hor.1
    have hcard := Finset.card_le_card hsub
    have hlist := s.macs.toFinset_card_le
    rw [State.macs, List.length_map] at hlist
    rw [State.macs] at hcard
    omega

theorem mem_of_empty (h : Covered limit s acc) (hf : s.flag = .noAddTask) : ∀ a ∈ acc, a ∈ s.macs := fun a ha => by
  refine (h.covered a ha).resolve_right ?_
  rintro ⟨hi | ⟨-, hf'⟩, -⟩
  · exact h.sound.busy (Or.inl hi) hf
  · rw [hf] at hf'
    cases hf'

theorem insert_covered (h : Covered limit s acc) {a : Mac}
    (ha : a ∈ s.macs ∨ (s.OpenImmediate ∧ a = s.newTerminal.node.mac)) : Covered limit s (insert a acc) :=
  { h with
    covered := fun b hb => by
      rcases Finset.mem_insert.mp hb with rfl | hb
      · exact ha
      · exact h.covered b hb }

/-- A posted `ADD_IMMEDIATE` request covers the MAC of its packet. -/
theorem post (h : Covered limit s acc) {p : Packet} (hp : Posts s p) (hpc : s.mode = .addImmediate → s.pc ≠ .clear) :
    Covered limit (s.post p s.mode) (if s.mode = .addImmediate then insert p.hSource acc else acc) where
  sound := h.sound.post hp
  cfg := h.cfg
  length := h.length
  linked hf := Or.inl (Or.inr ⟨(h.sound.empty hp.2).resolve_right (hpc hf), hf⟩)
  covered a ha := by
    have hold := h.mem_of_empty hp.2
    split at ha
    · rename_i hmode
      rcases Finset.mem_insert.mp ha with rfl | ha
      · exact Or.inr ⟨Or.inr ⟨(h.sound.empty hp.2).resolve_right (hpc hmode), hmode⟩, rfl⟩
      · exact Or.inl (hold a ha)
    · exact Or.inl (hold a ha)

theorem packet (h : Covered limit s acc) {skb : Option Packet} (hsteady : Steady s (.packet skb))
    (hrec : Recorded s (.packet skb)) : Covered limit (netHookFunc s skb).1 (accepted s (.packet skb) acc) := by
  cases skb with
  | none => exact h
  | some p =>
    by_cases hu : Unlisted s p
    · rw [accepted, netHookFunc_of_unlisted hu, hu.limited]
      dsimp only
      have hverdict : (true = true ∧ (if s.mode = .addImmediate then Verdict.accept else .drop) = .accept) ↔
          s.mode = .addImmediate := by
        by_cases hm : s.mode = .addImmediate <;> simp [hm]
      rw [if_congr hverdict rfl rfl]
      by_cases hf : s.flag = .noAddTask
      · rw [if_pos hf]
        refine h.post ⟨hu, hf⟩ fun hm => ?_
        rcases hrec hu hm with ⟨-, hpc⟩ | ⟨hf', -⟩
        · exact hpc
        · rw [hf] at hf'
          cases hf'
      · rw [if_neg hf]
        split
        · rename_i hm
          -- The slot holds the request of the same terminal, whose node is still to be linked.
          obtain ⟨hf', hmac⟩ := (hrec hu hm).resolve_left fun hor => hf hor.1
          refine h.insert_covered (Or.inr ⟨(h.linked hf').resolve_right ?_, hmac.symm⟩)
          rw [hmac]
          exact hu.fresh
        · exact h
    · rw [accepted, netHookFunc_of_not_unlisted hu]
      split
      · rename_i hlim
        refine h.insert_covered (Or.inl ?_)
        by_contra hfresh
        exact hu ⟨by rw [h.cfg]; exact one_ne_zero, hlim.1, hsteady hlim.1, hfresh⟩
      · exact h

/-- An answer to a probe comes while no `ADD_IMMEDIATE` request is in the slot. -/
theorem arp (h : Covered limit s acc) (a : Option ArpInfo) : Covered limit (arpinHookFunc s a).1 acc := by
  rcases arpinHookFunc_cases s a with he | ⟨hf, he⟩
  · rw [he]
    exact h
  · rw [he]
    refine ⟨h.sound.setOk.wake, h.cfg, h.length, fun hf' => (by cases hf'), fun b hb => ?_⟩
    refine (h.covered b hb).imp_right fun ⟨ho, hb'⟩ => ⟨Or.inl (ho.resolve_right ?_), hb'⟩
    rintro ⟨-, hf'⟩
    rw [hf] at hf'
    cases hf'

/-- While its node can be allocated, an open `ADD_IMMEDIATE` request stays open until the node is linked. -/
theorem openImmediate_quiet (h : Covered limit s acc) {ok : Bool} (hrec : Recorded s (.thread ok))
    (q : Quiet s ok t) (ho : s.OpenImmediate) : t.OpenImmediate := by
  rcases ho with hi | ⟨hi, hf⟩
  · left
    have hg : givesUp s ok = false := by
      by_contra hg
      cases hpc : s.pc <;> simp_all [Pc.immediate, givesUp, Recorded]
    rw [q.immediate, hi, hg]
    rfl
  · rcases q.idleEnd hi with hi' | hstop | ⟨-, hr⟩
    · exact Or.inr ⟨hi', q.flag.trans hf⟩
    · exact absurd (h.sound.loaded.symm.trans hstop) (by simp)
    · rw [hf] at hr
      cases hr

theorem quiet (h : Covered limit s acc) {ok : Bool} (hrec : Recorded s (.thread ok)) (q : Quiet s ok t) :
    Covered limit t acc where
  sound := h.sound.quiet q
  cfg := q.cfg.trans h.cfg
  length := by rw [q.list]; exact h.length
  linked hf := by
    rw [State.macs, q.list, q.slotNode]
    exact (h.linked (q.flag.symm.trans hf)).imp_left (h.openImmediate_quiet hrec q)
  covered a ha := by
    rw [State.macs, q.list, q.slotNode]
    exact (h.covered a ha).imp_right (And.imp_left (h.openImmediate_quiet hrec q))

theorem limitCheckStep (h : Covered limit s acc) {ok : Bool} (hsteady : Steady s (.thread ok))
    (hrec : Recorded s (.thread ok)) (hs : limitCheckStep s ok = some t) : Covered limit t acc := by
  have sound := h.sound.limitCheckStep hs
  rcases limitCheckStep_cases hs with q | ⟨hpc, hf, rfl⟩ | ⟨hpc, hf, rfl⟩ | ⟨i, hpc, rfl⟩ | ⟨node, hpc, rfl⟩ |
    ⟨i, node, hpc, rfl⟩ | ⟨hpc, rfl⟩
  · exact h.quiet hrec q
  · have hopen : (s.goto .alloc).OpenImmediate := Or.inl rfl
    exact ⟨sound, h.cfg, h.length, fun _ => Or.inl hopen, fun a ha => (h.covered a ha).imp_right fun hor => ⟨hopen, hor.2⟩⟩
  · have hclosed : ¬s.OpenImmediate := by simp [State.OpenImmediate, hpc, hf, Pc.immediate]
    exact ⟨sound, h.cfg, h.length, fun hf' => absurd (hf.symm.trans hf') (by simp),
      fun a ha => (h.covered a ha).imp_right fun hor => absurd hor.1 hclosed⟩
  · have hclosed : ¬s.OpenImmediate := by simp [State.OpenImmediate, hpc, Pc.immediate, Pc.idle]
    exact ⟨sound, h.cfg, h.length, fun hf' => (by cases hf'),
      fun a ha => (h.covered a ha).imp_right fun hor => absurd hor.1 hclosed⟩
  · -- The node of the slot is in the list now.
    have hopen : s.OpenImmediate := Or.inl (by rw [hpc]; rfl)
    have hnode := h.sound.node node (by rw [hpc]; rfl)
    have hroom := h.sound.room hopen
    refine ⟨sound, h.cfg, ?_, fun _ => Or.inr ?_, fun a ha => Or.inl ?_⟩
    · simp only [goto_maclimitList, List.length_cons]
      omega
    · show s.newTerminal.node.mac ∈ node.mac :: s.macs
      rw [hnode]
      exact List.mem_cons_self
    · show a ∈ node.mac :: s.macs
      rcases h.covered a ha with hm | ⟨-, rfl⟩
      · exact List.mem_cons_of_mem _ hm
      · rw [hnode]
        exact List.mem_cons_self
  · have := hsteady (by rw [hpc]; rfl)
    rw [hpc] at this
    cases this
  · have hclosed : ¬s.OpenImmediate := by simp [State.OpenImmediate, hpc, Pc.immediate, Pc.idle]
    exact ⟨sound, h.cfg, h.length, fun hf' => (by cases hf'),
      fun a ha => (h.covered a ha).imp_right fun hor => absurd hor.1 hclosed⟩

theorem step (h : Covered limit s acc) {e : Event} (hsteady : Steady s e) (hrec : Recorded s e)
    (hs : step s e = some t) : Covered limit t (accepted s e acc) := by
  cases e with
  | thread ok => exact h.limitCheckStep hsteady hrec hs
  | packet skb =>
    obtain rfl := Option.some.inj hs
    exact h.packet hsteady hrec
  | arp a =>
    obtain rfl := Option.some.inj hs
    exact h.arp a
  | _ => exact hsteady.elim

end Covered

/-- With every accepted terminal recorded in time, at most `limit` distinct MACs get through. -/
theorem accepted_le_limit {limit : Int} (h0 : 0 ≤ limit) {s : State} {acc : Finset Mac}
    (h : (trafficLts limit).Reach (fun x e => Steady x.1 e ∧ Recorded x.1 e) (s, acc)) :
    (acc.card : Int) ≤ limit := by
  have inv : Covered limit s acc := by
    refine h.track_invariant ?_ fun _ _ _ _ hc hok hs => hc.step hok.1 hok.2 hs
    rintro _ rfl
    exact Covered.start h0
  exact inv.card_le

/-- With the limit one, `packetA` is accepted and its terminal linked, and `packetB` is dropped. -/
theorem accepted_le_limit_linkA : ∃ s acc, (trafficLts 1).Reach (fun x e => Steady x.1 e ∧ Recorded x.1 e) (s, acc) ∧
    acc = {packetA.hSource} ∧ s.flag = .addCheck ∧ (acc.card : Int) ≤ 1 := by
  have hrun : ((trafficLts 1).runIf (fun x e => Steady x.1 e ∧ Recorded x.1 e) (start ⟨1, 1⟩, ∅)
      (linkA.tail ++ [Event.packet (some packetB)])).any
      (fun x => x.2 == {packetA.hSource} && x.1.flag == .addCheck) = true := by decide
  obtain ⟨⟨s, acc⟩, hr, hp⟩ := Lts.exists_reach_of_runIf hrun ⟨rfl, rfl⟩
  rw [Bool.and_eq_true, beq_iff_eq, beq_iff_eq] at hp
  exact ⟨s, acc, hr, hp.1, hp.2, accepted_le_limit (by decide) hr⟩

/-- With the limit one, `packetB` arrives before the thread has linked the terminal of `packetA`: both are
    accepted. -/
theorem two_accepted : ∃ s acc, (trafficLts 1).Reach (fun x e => Steady x.1 e) (s, acc) ∧ ¬(acc.card : Int) ≤ 1 := by
  have hrun : ((trafficLts 1).runIf (fun x e => Steady x.1 e) (start ⟨1, 1⟩, ∅)
      [.packet (some packetA), .packet (some packetB)]).any (fun x => !decide ((x.2.card : Int) ≤ 1)) = true := by
    decide
  obtain ⟨⟨s, acc⟩, hr, hp⟩ := Lts.exists_reach_of_runIf hrun ⟨rfl, rfl⟩
  exact ⟨s, acc, hr, by simpa using hp⟩

end QuickStart.Maclimit
