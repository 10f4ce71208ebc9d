import QuickStart.Speedtest.Slots

/-! # Who has to free a packet

A receive hook that returns 1 has taken the packet, and `xmit_speedtest_pkt` takes it when it returns 0. The
fast hook loses a packet when the queue is full, the probe hook when a test is running, and the unloading loses
those it finds in the queue. -/

namespace QuickStart.Speedtest
open State

/-- The packets that the hooks have returned for, with the results. -/
structure Ledger where
  rx : List (Skb × Int)
  tx : List (Skb × Int)
  deriving DecidableEq, Repr

def ledger (s : State) (e : Event) (h : Ledger) : Ledger :=
  match e with
  | .rxHook i =>
    match s.rxCalls[i]? with
    | none | some (.null, _) => h
    | some (hook, skb) => { h with rx := (skb, (callRxHook s.mod skb hook).2) :: h.rx }
  | .transmit data dev =>
    let m := { s.mod with nextSkb := s.mod.nextSkb + 1 }
    let skb := s.mod.newSkb data
    if m.txHook then { h with tx := (skb, (xmitSpeedtestPkt m skb dev).2) :: h.tx } else h
  | _ => h

/-- The module with the results that the packet hooks have returned. -/
abbrev ledgerLts (K : Kernel) : Lts (State × Ledger) Event := (lts K).track ledger ⟨[], []⟩

/-- The `i`-th call of the receive hook finds room in the queue, or no test running. -/
def State.fits (s : State) (i : Nat) : Bool :=
  match s.rxCalls[i]? with
  | some (.fastRcvSpeedtestPkt, _) => s.mod.compSkbqueue.length < s.mod.fifoSize
  | some (.rcvSpeedtestProbePkt, _) => !isSpeedtestTaskRunning s.mod
  | _ => true

/-- The fast hook finds room, the probe hook no test, and the unloading an empty queue. -/
def Roomy (s : State) : Event → Prop
  | .rxHook i => s.fits i = true
  | .ctl _ => s.ctl = .unload .fifoFree → s.mod.compSkbqueue = []
  | _ => True

instance (s : State) : ∀ e : Event, Decidable (Roomy s e)
  | .rxHook _ => inferInstanceAs (Decidable (_ = _))
  | .ctl _ => inferInstanceAs (Decidable (_ → _))
  | .thread _ _ | .command _ | .unload | .receive _ | .transmit _ _ | .timer | .tick => inferInstanceAs (Decidable True)

namespace Mod

/-- The places of the packet in the queue and in the freed memory. -/
def places (m : Mod) (skb : Skb) : Nat := m.compSkbqueue.count skb + m.freed.count skb

structure SameSkbs (m m' : Mod) : Prop where
  queue : m'.compSkbqueue = m.compSkbqueue
  freed : m'.freed = m.freed
  next : m'.nextSkb = m.nextSkb

end Mod

/-- A thread leaves the packets alone, or takes one from the queue and frees it. -/
theorem bodyStep_skbs {K : Kernel} {stop : Bool} {x : Input} {m m' : Mod} {b b' : Body}
    (hs : bodyStep K stop x m b = some (m', b')) :
    m.SameSkbs m' ∨ ∃ skb, m.compSkbqueue = skb :: m'.compSkbqueue ∧ m'.freed = m.freed ++ [skb] ∧
      m'.nextSkb = m.nextSkb := by
  cases bodyStep_executes hs with
  | sends d h => exact Or.inl ⟨rfl, rfl, rfl⟩
  | computes h =>
    cases h with
    | counts endTime skb rest hq =>
      rw [computePkt_eq]
      exact Or.inr ⟨skb, hq, rfl, rfl⟩
    | frees skb rest hq => exact Or.inr ⟨skb, hq, rfl, rfl⟩
    | _ => exact Or.inl ⟨rfl, rfl, rfl⟩

/-- The control leaves the packets alone until the unloading frees the queue. -/
theorem Acts.skbs {s t : State} {ok : Bool} (h : Acts s ok t) :
    t.rxCalls = s.rxCalls ∧ (s.mod.SameSkbs t.mod ∨ s.ctl = .unload .fifoFree ∧ t.mod.compSkbqueue = [] ∧
      t.mod.freed = s.mod.freed ∧ t.mod.nextSkb = s.mod.nextSkb) := by
  cases h with
  | fifoFree hctl => exact ⟨rfl, Or.inr ⟨hctl, rfl, rfl, rfl⟩⟩
  | _ => exact ⟨rfl, Or.inl ⟨rfl, rfl, rfl⟩⟩

theorem speedtestLoopDetectCb_skbs (K : Kernel) (m : Mod) : m.SameSkbs (speedtestLoopDetectCb K m) := by
  simp only [speedtestLoopDetectCb, armLoopDetectTimer]
  split
  · exact ⟨rfl, rfl, rfl⟩
  · split <;> split <;> exact ⟨rfl, rfl, rfl⟩

/-- What the receive hook does with a packet when it has room for it: queue it, free it, or leave it. -/
theorem callRxHook_skbs (m : Mod) (skb : Skb) (h : RxHook)
    (hroom : h = .fastRcvSpeedtestPkt → m.compSkbqueue.length < m.fifoSize)
    (hidle : h = .rcvSpeedtestProbePkt → isSpeedtestTaskRunning m = false) :
    (callRxHook m skb h).1.nextSkb = m.nextSkb ∧
      (((callRxHook m skb h).2 = 1 ∧ (callRxHook m skb h).1.compSkbqueue = m.compSkbqueue ++ [skb] ∧
          (callRxHook m skb h).1.freed = m.freed) ∨
        ((callRxHook m skb h).2 = 1 ∧ (callRxHook m skb h).1.compSkbqueue = m.compSkbqueue ∧
          (callRxHook m skb h).1.freed = m.freed ++ [skb]) ∨
        ((callRxHook m skb h).2 = 0 ∧ (callRxHook m skb h).1.compSkbqueue = m.compSkbqueue ∧
          (callRxHook m skb h).1.freed = m.freed)) := by
  cases h with
  | null => exact ⟨rfl, Or.inr (Or.inr ⟨rfl, rfl, rfl⟩)⟩
  | fastRcvSpeedtestPkt =>
    simp only [callRxHook, fastRcvSpeedtestPkt, kfifoIn, if_pos (hroom rfl)]
    exact ⟨trivial, Or.inl ⟨trivial, trivial, trivial⟩⟩
  | rcvSpeedtestProbePkt =>
    have hfree (bit : Nat) : (freeProbeSkb m skb bit).1.nextSkb = m.nextSkb ∧ (freeProbeSkb m skb bit).2 = 1 ∧
        (freeProbeSkb m skb bit).1.compSkbqueue = m.compSkbqueue ∧
        (freeProbeSkb m skb bit).1.freed = m.freed ++ [skb] := by
      simp only [freeProbeSkb]
      split <;> exact ⟨rfl, trivial, rfl, rfl⟩
    simp only [callRxHook, rcvSpeedtestProbePkt, hidle rfl, Bool.false_eq_true, if_false]
    split
    · exact ⟨(hfree 1).1, Or.inr (Or.inl (hfree 1).2)⟩
    · split
      · exact ⟨(hfree 2).1, Or.inr (Or.inl (hfree 2).2)⟩
      · exact ⟨rfl, Or.inr (Or.inr ⟨rfl, rfl, rfl⟩)⟩

/-- Every packet a hook has taken is in exactly one place, and every other one is left alone. -/
structure Custody (s : State) (h : Ledger) : Prop where
  queued : ∀ skb ∈ s.mod.compSkbqueue, skb.id < s.mod.nextSkb
  freed : ∀ skb ∈ s.mod.freed, skb.id < s.mod.nextSkb
  known : ∀ p, p ∈ h.rx ∨ p ∈ h.tx → p.1.id < s.mod.nextSkb
  calls : (s.rxCalls.map (·.2)).Nodup
  pending : ∀ skb ∈ s.rxCalls.map (·.2), skb.id < s.mod.nextSkb ∧ s.mod.places skb = 0 ∧
    ∀ p, p ∈ h.rx ∨ p ∈ h.tx → p.1 ≠ skb
  rx : ∀ p ∈ h.rx, (p.2 = 1 ∧ s.mod.places p.1 = 1) ∨ (p.2 = 0 ∧ s.mod.places p.1 = 0)
  tx : ∀ p ∈ h.tx, p.1 ∉ s.mod.compSkbqueue ∧
    ((p.2 = 0 ∧ s.mod.freed.count p.1 = 1) ∨ (p.2 = 1 ∧ s.mod.freed.count p.1 = 0))

namespace Custody
variable {K : Kernel} {s t : State} {h : Ledger}

theorem start (K : Kernel) (j : Nat) : Custody (start K j) ⟨[], []⟩ where
  queued skb hm := by cases hm
  freed skb hm := by cases hm
  known p hm := by rcases hm with hm | hm <;> cases hm
  calls := List.nodup_nil
  pending skb hm := by cases hm
  rx p hm := by cases hm
  tx p hm := by cases hm

theorem of_same (hc : Custody s h) (hm : s.mod.SameSkbs t.mod) (hcalls : t.rxCalls = s.rxCalls) : Custody t h := by
  obtain ⟨hq, hf, hn⟩ := hm
  have hplaces (skb : Skb) : t.mod.places skb = s.mod.places skb := by rw [Mod.places, hq, hf, Mod.places]
  constructor
  · rw [hq, hn]
    exact hc.queued
  · rw [hf, hn]
    exact hc.freed
  · rw [hn]
    exact hc.known
  · rw [hcalls]
    exact hc.calls
  · intro skb hskb
    rw [hn, hplaces]
    exact hc.pending skb (hcalls ▸ hskb)
  · intro p hp
    rw [hplaces]
    exact hc.rx p hp
  · intro p hp
    rw [hq, hf]
    exact hc.tx p hp

theorem take (hc : Custody s h) {skb : Skb} (hq : s.mod.compSkbqueue = skb :: t.mod.compSkbqueue)
    (hf : t.mod.freed = s.mod.freed ++ [skb]) (hn : t.mod.nextSkb = s.mod.nextSkb) (hcalls : t.rxCalls = s.rxCalls) :
    Custody t h := by
  have hplaces (a : Skb) : t.mod.places a = s.mod.places a := by
    rw [Mod.places, Mod.places, hq, hf, List.count_cons, List.count_append, List.count_singleton]
    omega
  have hmem : skb ∈ s.mod.compSkbqueue := by
    rw [hq]
    exact List.mem_cons_self
  constructor
  · intro a ha
    rw [hn]
    exact hc.queued a (by rw [hq]; exact List.mem_cons_of_mem _ ha)
  · intro a ha
    rw [hn]
    rw [hf, List.mem_append, List.mem_singleton] at ha
    rcases ha with ha | rfl
    · exact hc.freed a ha
    · exact hc.queued a hmem
  · rw [hn]
    exact hc.known
  · rw [hcalls]
    exact hc.calls
  · intro a ha
    rw [hn, hplaces]
    exact hc.pending a (hcalls ▸ ha)
  · intro p hp
    rw [hplaces]
    exact hc.rx p hp
  · intro p hp
    obtain ⟨hnot, hcount⟩ := hc.tx p hp
    have hne : p.1 ≠ skb := fun he => hnot (he ▸ hmem)
    refine ⟨fun ha => hnot (by rw [hq]; exact List.mem_cons_of_mem _ ha), ?_⟩
    rw [hf, List.count_append, List.count_singleton, if_neg (by simpa using Ne.symm hne)]
    exact hcount

theorem receive (hc : Custody s h) (data : List Byte) {t : State} (hs : step K s (.receive data) = some t) :
    Custody t h := by
  obtain rfl := Option.some.inj hs
  have hnew (skb : Skb) (hlt : skb.id < s.mod.nextSkb) : skb ≠ s.mod.newSkb data := by
    rintro rfl
    exact absurd hlt (Nat.lt_irrefl _)
  have hplaces : s.mod.places (s.mod.newSkb data) = 0 := by
    rw [Mod.places, Nat.add_eq_zero_iff, List.count_eq_zero, List.count_eq_zero]
    exact ⟨fun hm => hnew _ (hc.queued _ hm) rfl, fun hm => hnew _ (hc.freed _ hm) rfl⟩
  constructor
  · exact fun skb hm => Nat.lt_succ_of_lt (hc.queued skb hm)
  · exact fun skb hm => Nat.lt_succ_of_lt (hc.freed skb hm)
  · exact fun p hp => Nat.lt_succ_of_lt (hc.known p hp)
  · rw [List.map_append, List.nodup_append]
    refine ⟨hc.calls, List.nodup_singleton _, ?_⟩
    intro a ha b hb he
    obtain rfl := List.mem_singleton.mp hb
    exact hnew a (hc.pending a ha).1 he
  · intro skb hm
    rw [List.map_append, List.mem_append] at hm
    rcases hm with hm | hm
    · obtain ⟨hlt, hrest⟩ := hc.pending skb hm
      exact ⟨Nat.lt_succ_of_lt hlt, hrest⟩
    · obtain rfl := List.mem_singleton.mp hm
      exact ⟨Nat.lt_succ_self _, hplaces, fun p hp => hnew _ (hc.known p hp)⟩
  · exact hc.rx
  · exact hc.tx

/-- A call of the receive hook ends: the packet is in one place when the result is 1, and nowhere when it is 0. -/
theorem settle (hc : Custody s h) {i : Nat} {hook : RxHook} {skb : Skb} {m : Mod} {ret : Int} {rx : List (Skb × Int)}
    (hi : s.rxCalls[i]? = some (hook, skb)) (hn : m.nextSkb = s.mod.nextSkb)
    (hqueue : m.compSkbqueue = s.mod.compSkbqueue ∨ m.compSkbqueue = s.mod.compSkbqueue ++ [skb])
    (hfreed : m.freed = s.mod.freed ∨ m.freed = s.mod.freed ++ [skb])
    (hret : (ret = 1 ∧ m.places skb = 1) ∨ (ret = 0 ∧ m.places skb = 0))
    (hrx : rx = h.rx ∨ rx = (skb, ret) :: h.rx) :
    Custody { s with mod := m, rxCalls := s.rxCalls.eraseIdx i } { h with rx := rx } := by
  obtain ⟨hlt, hget⟩ := List.getElem?_eq_some_iff.mp hi
  have hperm := (List.getElem_cons_eraseIdx_perm hlt).map (·.2)
  rw [List.map_cons, hget] at hperm
  have hmem : skb ∈ s.rxCalls.map (·.2) := hperm.subset List.mem_cons_self
  obtain ⟨hid, -, hother⟩ := hc.pending skb hmem
  have hnodup : (skb :: (s.rxCalls.eraseIdx i).map (·.2)).Nodup := hperm.nodup_iff.mpr hc.calls
  have hcount {a : Skb} (hne : a ≠ skb) :
      m.compSkbqueue.count a = s.mod.compSkbqueue.count a ∧ m.freed.count a = s.mod.freed.count a := by
    have happ (l : List Skb) : (l ++ [skb]).count a = l.count a := by
      rw [List.count_append, List.count_singleton, if_neg (by simpa using Ne.symm hne), Nat.add_zero]
    refine ⟨?_, ?_⟩
    · rcases hqueue with he | he <;> rw [he]
      exact happ _
    · rcases hfreed with he | he <;> rw [he]
      exact happ _
  have hplaces {a : Skb} (hne : a ≠ skb) : m.places a = s.mod.places a := by
    rw [Mod.places, (hcount hne).1, (hcount hne).2, Mod.places]
  constructor
  · intro a ha
    rw [hn]
    rcases hqueue with he | he <;> rw [he] at ha
    · exact hc.queued a ha
    · rcases List.mem_append.mp ha with ha | ha
      · exact hc.queued a ha
      · obtain rfl := List.mem_singleton.mp ha
        exact hid
  · intro a ha
    rw [hn]
    rcases hfreed with he | he <;> rw [he] at ha
    · exact hc.freed a ha
    · rcases List.mem_append.mp ha with ha | ha
      · exact hc.freed a ha
      · obtain rfl := List.mem_singleton.mp ha
        exact hid
  · intro p hp
    rw [hn]
    rcases hrx with rfl | rfl
    · exact hc.known p hp
    · rcases hp with hp | hp
      · rcases List.mem_cons.mp hp with rfl | hp
        · exact hid
        · exact hc.known p (Or.inl hp)
      · exact hc.known p (Or.inr hp)
  · exact (List.nodup_cons.mp hnodup).2
  · intro a ha
    have hne : a ≠ skb := fun he => (List.nodup_cons.mp hnodup).1 (he ▸ ha)
    obtain ⟨hid', hzero, hother'⟩ := hc.pending a (hperm.subset (List.mem_cons_of_mem _ ha))
    rw [hn, hplaces hne]
    refine ⟨hid', hzero, fun p hp => ?_⟩
    rcases hrx with rfl | rfl
    · exact hother' p hp
    · rcases hp with hp | hp
      · rcases List.mem_cons.mp hp with rfl | hp
        · exact Ne.symm hne
        · exact hother' p (Or.inl hp)
      · exact hother' p (Or.inr hp)
  · intro p hp
    have hold (hp : p ∈ h.rx) : (p.2 = 1 ∧ m.places p.1 = 1) ∨ (p.2 = 0 ∧ m.places p.1 = 0) := by
      rw [hplaces (hother p (Or.inl hp))]
      exact hc.rx p hp
    rcases hrx with rfl | rfl
    · exact hold hp
    · rcases List.mem_cons.mp hp with rfl | hp
      · exact hret
      · exact hold hp
  · intro p hp
    have hne := hother p (Or.inr hp)
    obtain ⟨hnot, hfree⟩ := hc.tx p hp
    refine ⟨?_, ?_⟩
    · rw [← List.count_eq_zero, (hcount hne).1, List.count_eq_zero]
      exact hnot
    · rw [(hcount hne).2]
      exact hfree

theorem rxHook (hc : Custody s h) {i : Nat} (hok : s.fits i = true) (hs : step K s (.rxHook i) = some t) :
    Custody t (ledger s (.rxHook i) h) := by
  obtain ⟨⟨hook, skb⟩, hi, rfl⟩ := Option.map_eq_some_iff.mp hs
  rw [State.fits, hi] at hok
  have hzero := (hc.pending skb (List.mem_map_of_mem (List.mem_of_getElem? hi))).2.1
  obtain ⟨hn, hcase⟩ := callRxHook_skbs s.mod skb hook
    (fun he => by subst he; simpa using hok) (fun he => by subst he; simpa using hok)
  have hledger : ∃ rx, ledger s (.rxHook i) h = { h with rx := rx } ∧
      (rx = h.rx ∨ rx = (skb, (callRxHook s.mod skb hook).2) :: h.rx) := by
    simp only [ledger, hi]
    cases hook
    · exact ⟨h.rx, rfl, Or.inl rfl⟩
    · exact ⟨_, rfl, Or.inr rfl⟩
    · exact ⟨_, rfl, Or.inr rfl⟩
  obtain ⟨rx, he, hrx⟩ := hledger
  rw [he]
  rw [Mod.places] at hzero
  refine hc.settle hi hn ?_ ?_ ?_ hrx
  · rcases hcase with ⟨-, hq, -⟩ | ⟨-, hq, -⟩ | ⟨-, hq, -⟩
    · exact Or.inr hq
    · exact Or.inl hq
    · exact Or.inl hq
  · rcases hcase with ⟨-, -, hf⟩ | ⟨-, -, hf⟩ | ⟨-, -, hf⟩
    · exact Or.inl hf
    · exact Or.inr hf
    · exact Or.inl hf
  · rcases hcase with ⟨hr, hq, hf⟩ | ⟨hr, hq, hf⟩ | ⟨hr, hq, hf⟩
    · refine Or.inl ⟨hr, ?_⟩
      rw [Mod.places, hq, hf, List.count_append, List.count_singleton_self]
      omega
    · refine Or.inl ⟨hr, ?_⟩
      rw [Mod.places, hq, hf, List.count_append, List.count_singleton_self]
      omega
    · refine Or.inr ⟨hr, ?_⟩
      rw [Mod.places, hq, hf]
      exact hzero

/-- A new packet is handed to the transmit hook, which frees it and returns 0 or leaves it. -/
theorem hand (hc : Custody s h) {skb : Skb} (hid : skb.id = s.mod.nextSkb) {m : Mod} {tx : List (Skb × Int)}
    (hn : m.nextSkb = s.mod.nextSkb + 1) (hqueue : m.compSkbqueue = s.mod.compSkbqueue)
    (hcase : (m.freed = s.mod.freed ∧ (tx = h.tx ∨ tx = (skb, 1) :: h.tx)) ∨
      (m.freed = s.mod.freed ++ [skb] ∧ tx = (skb, 0) :: h.tx)) :
    Custody { s with mod := m } { h with tx := tx } := by
  have hnew (a : Skb) (hlt : a.id < s.mod.nextSkb) : a ≠ skb := by
    rintro rfl
    omega
  have hlt (a : Skb) (ha : a.id < s.mod.nextSkb) : a.id < m.nextSkb := by omega
  have hskb : skb.id < m.nextSkb := by omega
  have hnotfreed : skb ∉ s.mod.freed := fun hm => hnew _ (hc.freed _ hm) rfl
  have hcount {a : Skb} (ha : a.id < s.mod.nextSkb) : m.freed.count a = s.mod.freed.count a := by
    rcases hcase with ⟨he, -⟩ | ⟨he, -⟩ <;> rw [he]
    rw [List.count_append, List.count_singleton, if_neg (by simpa using Ne.symm (hnew a ha)), Nat.add_zero]
  have hplaces {a : Skb} (ha : a.id < s.mod.nextSkb) : m.places a = s.mod.places a := by
    rw [Mod.places, hqueue, hcount ha, Mod.places]
  have htx (p : Skb × Int) (hp : p ∈ tx) : p ∈ h.tx ∨ p.1 = skb ∧
      ((p.2 = 0 ∧ m.freed = s.mod.freed ++ [skb]) ∨ (p.2 = 1 ∧ m.freed = s.mod.freed)) := by
    rcases hcase with ⟨he, rfl | rfl⟩ | ⟨he, rfl⟩
    · exact Or.inl hp
    · rcases List.mem_cons.mp hp with rfl | hp
      · exact Or.inr ⟨rfl, Or.inr ⟨rfl, he⟩⟩
      · exact Or.inl hp
    · rcases List.mem_cons.mp hp with rfl | hp
      · exact Or.inr ⟨rfl, Or.inl ⟨rfl, he⟩⟩
      · exact Or.inl hp
  constructor
  · intro a ha
    rw [hqueue] at ha
    exact hlt a (hc.queued a ha)
  · intro a ha
    rcases hcase with ⟨he, -⟩ | ⟨he, -⟩ <;> rw [he] at ha
    · exact hlt a (hc.freed a ha)
    · rcases List.mem_append.mp ha with ha | ha
      · exact hlt a (hc.freed a ha)
      · obtain rfl := List.mem_singleton.mp ha
        exact hskb
  · rintro p (hp | hp)
    · exact hlt _ (hc.known p (Or.inl hp))
    · rcases htx p hp with hp | ⟨he, -⟩
      · exact hlt _ (hc.known p (Or.inr hp))
      · rw [he]
        exact hskb
  · exact hc.calls
  · intro a ha
    obtain ⟨hid', hzero, hother⟩ := hc.pending a ha
    rw [hplaces hid']
    refine ⟨hlt a hid', hzero, ?_⟩
    rintro p (hp | hp)
    · exact hother p (Or.inl hp)
    · rcases htx p hp with hp | ⟨he, -⟩
      · exact hother p (Or.inr hp)
      · rw [he]
        exact Ne.symm (hnew a hid')
  · intro p hp
    rw [hplaces (hc.known p (Or.inl hp))]
    exact hc.rx p hp
  · intro p hp
    rcases htx p hp with hp | ⟨he, hret⟩
    · rw [hqueue, hcount (hc.known p (Or.inr hp))]
      exact hc.tx p hp
    · rw [he, hqueue]
      refine ⟨fun hm => hnew _ (hc.queued _ hm) rfl, ?_⟩
      rcases hret with ⟨hr, hf⟩ | ⟨hr, hf⟩
      · left
        rw [hf, List.count_append, List.count_singleton_self, List.count_eq_zero.mpr hnotfreed]
        exact ⟨hr, rfl⟩
      · right
        rw [hf, List.count_eq_zero]
        exact ⟨hr, hnotfreed⟩

theorem transmit (hc : Custody s h) (data : List Byte) (dev : Option String)
    (hs : step K s (.transmit data dev) = some t) : Custody t (ledger s (.transmit data dev) h) := by
  obtain rfl := Option.some.inj hs
  simp only [ledger]
  split
  · rcases xmitSpeedtestPkt_skbs { s.mod with nextSkb := s.mod.nextSkb + 1 } (s.mod.newSkb data) dev with
      ⟨hr, hm⟩ | ⟨hr, hm⟩
    · rw [hr, hm]
      exact hc.hand rfl rfl rfl (Or.inr ⟨rfl, rfl⟩)
    · rw [hr, hm]
      exact hc.hand rfl rfl rfl (Or.inl ⟨rfl, Or.inr rfl⟩)
  · have hid : (s.mod.newSkb data).id = s.mod.nextSkb := rfl
    exact hc.hand hid rfl rfl (Or.inl ⟨rfl, Or.inl rfl⟩)

theorem step (hc : Custody s h) {e : Event} (hok : Roomy s e) (hs : step K s e = some t) :
    Custody t (ledger s e h) := by
  cases step_steps hs with
  | runs hr =>
    obtain ⟨-, -, hb, rfl⟩ := hr
    rcases bodyStep_skbs hb with hm | ⟨skb, hq, hf, hn⟩
    · exact hc.of_same hm rfl
    · exact hc.take hq hf hn rfl
  | acts ha =>
    obtain ⟨hcalls, hm | ⟨hctl, hq, hf, hn⟩⟩ := ha.skbs
    · exact hc.of_same hm hcalls
    · exact hc.of_same ⟨by rw [hq, hok hctl], hf, hn⟩ hcalls
  | receives data => exact hc.receive data hs
  | calls => exact hc.rxHook hok hs
  | transmits data dev | passes data dev => exact hc.transmit data dev hs
  | expires =>
    obtain ⟨hq, hf, hn⟩ := speedtestLoopDetectCb_skbs K { s.mod with loopDetectTimer := none }
    exact hc.of_same ⟨hq, hf, hn⟩ rfl
  | begins | unloads | ticks => exact hc.of_same ⟨rfl, rfl, rfl⟩ rfl

end Custody

end QuickStart.Speedtest
