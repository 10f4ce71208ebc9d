import QuickStart.Speedtest.Slots

/-! # The paced loop keeps to the speed

The paced loop sends a packet only after the clock has passed `send_time` nanoseconds since the sample before the
last packet. Both divisions that compute `send_time` round down, but the clock has to be past the interval, so that
two packets are a nanosecond more than `send_time` apart. -/

namespace QuickStart.Speedtest

/-- What the send loop of a sender has done: the speed and the size it has been computed from, the first and the
    last clock sample, the sample that ended the last waiting, the packets sent, and the sample of the last one. -/
structure Pacing where
  speed : Nat
  pktSize : Nat
  first : Nat
  clk : Nat
  sample : Nat
  count : Nat
  last : Nat
  deriving DecidableEq, Repr

namespace Pacing

def start : Pacing := { speed := 0, pktSize := 0, first := 0, clk := 0, sample := 0, count := 0, last := 0 }

/-- After a statement of the sender at `pc`. -/
def after (cfg : Cfg) (x : Input) (h : Pacing) : SenderPc → Pacing
  | .setSend _ =>
    { speed := cfg.speed.toNat, pktSize := cfg.pktSize.toNat, first := x.clk, clk := x.clk, sample := x.clk,
      count := 0, last := x.clk }
  | .pace l => { h with clk := x.clk, sample := if l.speedTime < x.clk then x.clk else h.sample }
  | .send _ => if x.sent then { h with count := h.count + 1, last := h.sample } else h
  | _ => h

/-- The clock does not go back, and its sum with `send_time` does not wrap. -/
def Clocked (K : Kernel) (cfg : Cfg) (x : Input) (h : Pacing) : SenderPc → Prop
  | .setSend _ => ((1000000000 : BitVec 32) / pktRate cfg).toNat + x.clk < 2 ^ K.bitsPerLong
  | .pace l => h.clk ≤ x.clk ∧ l.sendTime + x.clk < 2 ^ K.bitsPerLong
  | _ => True

instance (K : Kernel) (cfg : Cfg) (x : Input) (h : Pacing) : ∀ pc : SenderPc, Decidable (Clocked K cfg x h pc)
  | .setSend _ => inferInstanceAs (Decidable (_ < _))
  | .pace _ => inferInstanceAs (Decidable (_ ∧ _))
  | .entry | .make | .setState _ | .setCsum _ | .setBegin | .setEnd | .send _ | .count _ | .test _ | .clearTask
  | .clearEnable | .setEndTime | .done | .killed => inferInstanceAs (Decidable True)

end Pacing

def Body.Clocked (K : Kernel) (m : Mod) (x : Input) (h : Pacing) : Body → Prop
  | .sender d pc => h.Clocked K (m.stCfg d) x pc
  | .compute _ => True

instance (K : Kernel) (m : Mod) (x : Input) (h : Pacing) : ∀ b : Body, Decidable (b.Clocked K m x h)
  | .sender d pc => inferInstanceAs (Decidable (h.Clocked K (m.stCfg d) x pc))
  | .compute _ => inferInstanceAs (Decidable True)

section History
variable (tid : Nat)

/-- The send loop of the thread `tid`. -/
def pacing (s : State) (e : Event) (h : Pacing) : Pacing :=
  match e with
  | .thread i x =>
    match s.threads[tid]? with
    | some ⟨.sender d pc, _, _⟩ => if i = tid then h.after (s.mod.stCfg d) x pc else h
    | _ => h
  | _ => h

/-- The clock of the thread `tid`. -/
def Clocked (K : Kernel) (y : State × Pacing) : Event → Prop
  | .thread i x => ∀ th ∈ y.1.threads[i]?, i = tid → th.body.Clocked K y.1.mod x y.2
  | _ => True

instance (K : Kernel) (y : State × Pacing) : ∀ e : Event, Decidable (Clocked tid K y e)
  | .thread i x => inferInstanceAs (Decidable (∀ th ∈ y.1.threads[i]?, i = tid → th.body.Clocked K y.1.mod x y.2))
  | .command _ | .unload | .ctl _ | .receive _ | .rxHook _ | .transmit _ _ | .timer | .tick =>
    inferInstanceAs (Decidable True)

/-- The module whose runs carry the send loop of the thread `tid`. -/
abbrev pacingLts (K : Kernel) : Lts (State × Pacing) Event := (lts K).track (pacing tid) Pacing.start

end History

/-! ### The interval -/

/-- Both divisions round down, and one nanosecond more makes up for it. -/
theorem interval_covers {size quota : Nat} (h : quota / size ≠ 0) :
    size * 1000000000 ≤ (1000000000 / (quota / size) + 1) * quota := by
  have hrate : 0 < quota / size := Nat.pos_of_ne_zero h
  calc size * 1000000000
      ≤ size * (quota / size * (1000000000 / (quota / size) + 1)) :=
        Nat.mul_le_mul_left _ (Nat.lt_mul_div_succ _ hrate).le
    _ = (1000000000 / (quota / size) + 1) * (size * (quota / size)) := by ac_rfl
    _ ≤ (1000000000 / (quota / size) + 1) * quota := Nat.mul_le_mul_left _ (Nat.mul_div_le quota size)

/-- Below 4096 the product in `pktRate` does not wrap. -/
theorem toNat_pktRate {cfg : Cfg} (h : cfg.speed.toNat < 4096) :
    (pktRate cfg).toNat = cfg.speed.toNat * 131072 / cfg.pktSize.toNat := by
  have hquota : (cfg.speed * 1024 * 1024 / 8).toNat = cfg.speed.toNat * 131072 := by
    rw [BitVec.toNat_udiv, BitVec.toNat_mul, BitVec.toNat_mul, show (1024 : BitVec 32).toNat = 1024 from rfl,
      show (8 : BitVec 32).toNat = 8 from rfl]
    omega
  rw [pktRate, BitVec.toNat_udiv, hquota]

theorem toNat_sendTime {cfg : Cfg} (h : cfg.speed.toNat < 100) :
    ((1000000000 : BitVec 32) / pktRate cfg).toNat = 1000000000 / (cfg.speed.toNat * 131072 / cfg.pktSize.toNat) := by
  rw [BitVec.toNat_udiv, toNat_pktRate (by omega)]
  rfl

/-! ### The invariant -/

/-- The loop has waited `count + n` times, and `count` packets are sent. -/
structure Apart (h : Pacing) (l : SendLoop) (n : Nat) : Prop where
  paced : l.paced = true
  interval : h.pktSize * 1000000000 ≤ (l.sendTime + 1) * (h.speed * 131072)
  next : l.speedTime = l.sendTime + h.sample
  first : h.first ≤ h.last
  last : h.last ≤ h.sample
  sample : h.sample ≤ h.clk
  waited : h.first + (h.count + n) * (l.sendTime + 1) ≤ h.sample
  sent : h.first + h.count * (l.sendTime + 1) ≤ h.last

/-- What the loop has done when the sender is at `pc`. -/
def At (h : Pacing) : SenderPc → Prop
  | .pace l | .count l | .test l => Apart h l 0
  | .send l => Apart h l 1
  | _ => True

/-- The packets that have been sent stay within the speed. -/
structure Within (h : Pacing) : Prop where
  first : h.first ≤ h.last
  speed : h.count * h.pktSize * 8 * 1000000000 ≤ h.speed * 1048576 * (h.last - h.first)

theorem Apart.within {h : Pacing} {l : SendLoop} {n : Nat} (hs : Apart h l n) : Within h where
  first := hs.first
  speed := by
    have hsent : h.count * (l.sendTime + 1) ≤ h.last - h.first := by
      have := hs.sent
      omega
    calc h.count * h.pktSize * 8 * 1000000000
        = 8 * h.count * (h.pktSize * 1000000000) := by ac_rfl
      _ ≤ 8 * h.count * ((l.sendTime + 1) * (h.speed * 131072)) := Nat.mul_le_mul_left _ hs.interval
      _ = h.speed * (131072 * 8) * (h.count * (l.sendTime + 1)) := by ac_rfl
      _ ≤ h.speed * 1048576 * (h.last - h.first) := Nat.mul_le_mul_left _ hsent

theorem Within.of_count {h : Pacing} (hcount : h.count = 0) (hfirst : h.first ≤ h.last) : Within h where
  first := hfirst
  speed := by
    simp only [hcount, Nat.zero_mul, Nat.zero_le]

section Step
variable {K : Kernel} {cfg : Cfg} {x : Input} {h : Pacing} {l : SendLoop}

/-- The loop begins with a sample and without a packet. -/
theorem apart_first {endTime : Nat} (hspeed : cfg.speed.toNat < 100) (hrate : pktRate cfg ≠ 0)
    (hclock : h.Clocked K cfg x (.setSend endTime)) :
    Apart (h.after cfg x (.setSend endTime))
      ⟨endTime, ((1000000000 : BitVec 32) / pktRate cfg).toNat, K.add ((1000000000 : BitVec 32) / pktRate cfg).toNat x.clk,
        true⟩ 0 where
  paced := rfl
  interval := by
    have hne : cfg.speed.toNat * 131072 / cfg.pktSize.toNat ≠ 0 := fun h0 => hrate (by
      apply BitVec.eq_of_toNat_eq
      rw [toNat_pktRate (by omega), h0]
      rfl)
    rw [toNat_sendTime hspeed]
    exact interval_covers hne
  next := Nat.mod_eq_of_lt hclock
  first := Nat.le_refl _
  last := Nat.le_refl _
  sample := Nat.le_refl _
  waited := by simp [Pacing.after]
  sent := by simp [Pacing.after]

/-- A sample that is not past the interval changes nothing but the clock. -/
theorem Apart.waits (hs : Apart h l 0) (hclock : h.Clocked K cfg x (.pace l)) (htime : l.speedTime ≥ x.clk) :
    Apart (h.after cfg x (.pace l)) l 0 := by
  rw [Pacing.after, if_neg (Nat.not_lt.mpr htime)]
  exact { hs with sample := hs.sample.trans hclock.1 }

/-- A sample past the interval is at least `send_time + 1` behind the last one. -/
theorem Apart.passes (hs : Apart h l 0) (hclock : h.Clocked K cfg x (.pace l)) (htime : ¬l.speedTime ≥ x.clk) :
    Apart (h.after cfg x (.pace l)) { l with speedTime := K.add l.sendTime x.clk } 1 := by
  have hlt : l.sendTime + h.sample < x.clk := by
    have := hs.next
    omega
  have hwaited := hs.waited
  rw [Pacing.after, if_pos (Nat.lt_of_not_le htime)]
  exact
    { paced := hs.paced
      interval := hs.interval
      next := Nat.mod_eq_of_lt hclock.2
      first := hs.first
      last := by
        have := hs.last
        show h.last ≤ x.clk
        omega
      sample := Nat.le_refl _
      waited := by
        show h.first + (h.count + 1) * (l.sendTime + 1) ≤ x.clk
        rw [Nat.add_zero] at hwaited
        rw [Nat.add_mul, Nat.one_mul]
        omega
      sent := hs.sent }

theorem Apart.sends (hs : Apart h l 1) (hsent : x.sent = true) : Apart (h.after cfg x (.send l)) l 0 := by
  rw [Pacing.after, if_pos hsent]
  exact
    { paced := hs.paced
      interval := hs.interval
      next := hs.next
      first := hs.first.trans hs.last
      last := Nat.le_refl _
      sample := hs.sample
      waited := hs.waited
      sent := hs.waited }

theorem Apart.drops (hs : Apart h l 1) : Apart h l 0 :=
  { hs with
    waited := by
      have hsent := hs.sent
      exact hsent.trans hs.last }

theorem at_of_slow {pc : SenderPc} (hslow : (h.after cfg x pc).speed < 100) (hat : h.speed < 100 → At h pc) : At h pc := by
  cases pc with
  | setSend => trivial
  | send l =>
    simp only [Pacing.after] at hslow
    split at hslow <;> exact hat hslow
  | _ => exact hat hslow

/-- A statement of the sender keeps the distance of the packets. -/
theorem Sends.keepsPace {j : Nat} {stop : Bool} {cfg' : Cfg} {pc pc' : SenderPc}
    (hs : Sends K j stop x cfg pc cfg' pc') (hclock : h.Clocked K cfg x pc) (hslow : (h.after cfg x pc).speed < 100)
    (hat : At h pc) (hwithin : h.speed < 100 → Within h) : Within (h.after cfg x pc) ∧ At (h.after cfg x pc) pc' := by
  cases hs with
  | slow endTime hrate =>
    have hfirst := apart_first hslow hrate hclock
    exact ⟨hfirst.within, hfirst⟩
  | fast endTime hrate hspeed => exact absurd (show cfg.speed.toNat < (100 : BitVec 32).toNat from hslow) hspeed
  | divides endTime => exact ⟨.of_count rfl (Nat.le_refl _), trivial⟩
  | paces l htime => exact ⟨(hat.waits hclock htime).within, hat.waits hclock htime⟩
  | paced l htime => exact ⟨(hat.passes hclock htime).within, hat.passes hclock htime⟩
  | sends l =>
    cases hsent : x.sent with
    | true =>
      have hnext : Apart (h.after cfg x (.send l)) l 0 := hat.sends hsent
      exact ⟨hnext.within, hnext⟩
    | false =>
      rw [Pacing.after, if_neg (by simp [hsent]), if_neg (by simp)]
      exact ⟨hat.within, hat.drops⟩
  | counts l => exact ⟨hat.within, hat⟩
  | tests l =>
    refine ⟨hat.within, ?_⟩
    split
    · trivial
    · rw [if_pos hat.paced]
      exact hat
  | enters =>
    refine ⟨hwithin hslow, ?_⟩
    split <;> trivial
  | makes =>
    refine ⟨hwithin hslow, ?_⟩
    cases x.made <;> trivial
  | setsState | setsCsum | setsBegin | setsEnd | clearsTask | clearsEnable | setsEndTime =>
    exact ⟨hwithin hslow, trivial⟩

end Step

/-! ### Runs -/

section Runs
variable {K : Kernel} {tid : Nat} {s t : State} {h : Pacing}

theorem pacing_other {e : Event} (he : ∀ x, e ≠ .thread tid x) : pacing tid s e h = h := by
  cases e with
  | thread i x =>
    have hi : i ≠ tid := fun hi => he x (by rw [hi])
    simp only [pacing, if_neg hi]
    split <;> rfl
  | _ => rfl

/-- A thread that has not taken the step is where it was, or has not begun. -/
theorem step_other {e : Event} {th : Thread} (hs : step K s e = some t) (he : ∀ x, e ≠ .thread tid x)
    (hth : t.threads[tid]? = some th) :
    (∃ th', s.threads[tid]? = some th' ∧ th'.body = th.body) ∨ th.body.begun = false := by
  rcases step_cases hs with ⟨i, x, th', m, b, rfl, hr⟩ | ⟨ok, rfl, ha⟩ | ho
  · have hi : i ≠ tid := fun hi => he x (by rw [hi])
    rw [hr.eq, List.getElem?_set_ne hi] at hth
    exact Or.inl ⟨th, hth, rfl⟩
  · cases ha.managed with
    | quiet hthreads | fails _ _ _ hthreads => exact Or.inl (SameBodies.of_eq hthreads tid th hth)
    | tells _ _ _ _ hthreads | wakes _ _ _ _ hthreads =>
      exact Or.inl (SameBodies.of_modify hthreads (fun _ => rfl) tid th hth)
    | creates sl _ _ hthreads =>
      rw [hthreads] at hth
      rcases Calls.getElem?_concat_cases hth with hth | ⟨-, rfl⟩
      · exact Or.inl ⟨th, hth, rfl⟩
      · exact Or.inr (by cases sl <;> rfl)
  · exact Or.inl (SameBodies.of_eq ho.threads tid th hth)

/-- The packets of the thread `tid` are within the speed, and its loop goes on at the right distance. -/
structure Paces (tid : Nat) (s : State) (h : Pacing) : Prop where
  within : h.speed < 100 → Within h
  at_ : ∀ th d pc, s.threads[tid]? = some th → th.body = .sender d pc → h.speed < 100 → At h pc

theorem Paces.step (hp : Paces tid s h) {e : Event} (hclock : Clocked tid K (s, h) e) (hs : step K s e = some t) :
    Paces tid t (pacing tid s e h) := by
  by_cases he : ∃ x, e = .thread tid x
  · obtain ⟨x, rfl⟩ := he
    obtain ⟨th, m, b, hth, -, hb, rfl⟩ := threadStep_ran hs
    have hclock := hclock th hth rfl
    have hset : ∀ th', (s.threads.set tid { th with body := b })[tid]? = some th' → th'.body = b := by
      intro th' hth'
      rw [List.getElem?_set_self (List.getElem?_eq_some_iff.mp hth).1] at hth'
      rw [← Option.some.inj hth']
    have hobs : pacing tid s (.thread tid x) h = match th.body with
        | .sender d pc => h.after (s.mod.stCfg d) x pc
        | .compute _ => h := by
      obtain ⟨body, woken, stop⟩ := th
      cases body <;> simp [pacing, hth]
    have hat := fun d pc => hp.at_ th d pc hth
    generalize hbody : th.body = body at hb hclock hobs hat
    rw [hobs]
    cases bodyStep_executes hb with
    | sends d hsends =>
      have hkept := fun hslow => hsends.keepsPace hclock hslow (at_of_slow hslow (hat d _ rfl)) hp.within
      refine ⟨fun hslow => (hkept hslow).1, fun th' d' pc' hth' hbody' hslow => ?_⟩
      rw [hset th' hth'] at hbody'
      obtain ⟨rfl, rfl⟩ := Body.sender.inj hbody'
      exact (hkept hslow).2
    | computes hcomputes =>
      refine ⟨hp.within, fun th' d pc hth' hbody' => ?_⟩
      rw [hset th' hth'] at hbody'
      cases hbody'
  · have he' : ∀ x, e ≠ .thread tid x := fun x hx => he ⟨x, hx⟩
    rw [pacing_other he']
    refine ⟨hp.within, fun th d pc hth hbody hslow => ?_⟩
    rcases step_other hs he' hth with ⟨th', hth', hbody'⟩ | hbegun
    · exact hp.at_ th' d pc hth' (hbody'.trans hbody) hslow
    · rw [hbody] at hbegun
      cases pc <;> trivial

end Runs

/-- The packets that a sender has sent at a speed below 100 need at least the time that the speed gives them. -/
theorem paced_within_speed {K : Kernel} {tid : Nat} {s : State} {h : Pacing}
    (hr : (pacingLts tid K).Reach (Clocked tid K) (s, h)) (hspeed : h.speed < 100) :
    h.first ≤ h.last ∧ h.count * h.pktSize * 8 * 1000000000 ≤ h.speed * 1048576 * (h.last - h.first) := by
  have hp : Paces tid s h := by
    refine hr.track_invariant ?_ fun _ _ _ _ hp hclock hs => hp.step hclock hs
    rintro _ ⟨j, -, rfl⟩
    exact ⟨fun _ => .of_count rfl (Nat.le_refl _), fun th d pc hth => by cases hth⟩
  exact ⟨(hp.within hspeed).first, (hp.within hspeed).speed⟩

/-- A 64-bit kernel. -/
def kernel64 : Kernel := ⟨100, 64, Nat.succ_pos _, Or.inr rfl⟩

/-- The command `1 10 1 42 1`. Its first sender waits for more than 320512 nanoseconds before each of two packets. -/
def pacedRun : List Event :=
  Event.command [1, 10, 1, 42, 1] :: List.replicate 16 (Event.ctl true) ++
    List.replicate 7 (Event.thread 0 ⟨some pkt42, true, 0⟩) ++ [Event.thread 0 ⟨none, true, 320512⟩] ++
    List.replicate 4 (Event.thread 0 ⟨none, true, 320513⟩) ++ List.replicate 4 (Event.thread 0 ⟨none, true, 641026⟩)

theorem paced_within_speed_pacedRun : ∃ s h, (pacingLts 0 kernel64).Reach (Clocked 0 kernel64) (s, h) ∧
    h.speed = 1 ∧ h.pktSize = 42 ∧ h.first = 0 ∧ h.count = 2 ∧ 2 * 42 * 8 * 1000000000 ≤ 1048576 * h.last := by
  have hrun : ((pacingLts 0 kernel64).runIf (Clocked 0 kernel64) (Speedtest.start kernel64 1000, Pacing.start)
      pacedRun).any (fun y => y.2.speed == 1 && y.2.pktSize == 42 && y.2.first == 0 && y.2.count == 2) = true := by
    decide +kernel
  obtain ⟨⟨s, h⟩, hr, hp⟩ := Lts.exists_reach_of_runIf hrun ⟨⟨1000, by decide, rfl⟩, rfl⟩
  simp only [Bool.and_eq_true, beq_iff_eq] at hp
  obtain ⟨⟨⟨hspeed, hsize⟩, hfirst⟩, hcount⟩ := hp
  have hbound := (paced_within_speed hr (by rw [hspeed]; decide)).2
  rw [hspeed, hsize, hfirst, hcount, Nat.one_mul, Nat.sub_zero] at hbound
  exact ⟨s, h, hr, hspeed, hsize, hfirst, hcount, hbound⟩

end QuickStart.Speedtest
