import QuickStart.Speedtest.Tally
import QuickStart.Speedtest.Truth

/-! # The lost packets of a test

When a compute thread computes `pktlose_count`, no sender sends any more, so that the counters stand for the packets
of the test. A corrupted packet is counted as received and as an error, and is subtracted twice. -/

namespace QuickStart.Speedtest
open State

/-! ### The compute thread and the senders -/

/-- The compute thread has found the pointer of the direction empty in this round, or has left its counting loop. -/
def ComputePc.saw (d : Dir) : ComputePc → Bool
  | .entry | .drain _ | .done => false
  | .look e _ => d < e
  | .test isStRunning _ => !isStRunning
  | _ => true

/-- A compute thread that has found the pointer of the direction empty or has been told to stop. -/
def Thread.quiet (d : Dir) (th : Thread) : Bool :=
  match th.body with
  | .compute pc => pc != .done && (th.stop || pc.saw d)
  | .sender _ _ => false

/-- A sender of the direction that may still send. -/
def Thread.sending (d : Dir) (th : Thread) : Bool :=
  th.body.slot == .sender d && th.body.holds && (th.body.begun || (th.woken && !th.stop))

/-- The command has stopped the senders of the test before and has woken none. -/
def Ctl.calm : Ctl → Bool
  | .cmd _ (.clear _) | .cmd _ (.create _) | .cmd _ .hook | .cmd _ .ready | .cmd _ (.stopComp _) | .cmd _ .createComp =>
    true
  | _ => false

/-- The command has created its compute thread and has still to wake the sender of the direction. -/
def Ctl.toWake (d : Dir) : Ctl → Bool
  | .cmd _ .wakeComp => true
  | .cmd _ (.start e) => e ≤ d
  | _ => false

theorem Thread.sending_cases {d : Dir} {th : Thread} (h : th.sending d = true) :
    th.body.slot = .sender d ∧ th.body.holds = true ∧ (th.body.begun = true ∨ (th.woken = true ∧ th.stop = false)) := by
  simpa [Thread.sending, and_assoc] using h

theorem Thread.quiet_of_lost {d : Dir} {th : Thread} (h : th.body.lost d = true) : th.quiet d = true := by
  rcases th with ⟨⟨e, pc⟩ | pc, woken, stop⟩
  · cases h
  · cases pc <;> first | cases h | simp [Thread.quiet, ComputePc.saw]

theorem Body.computing_of_reads {b : Body} (h : b.reads = true) : b.computing = true := by
  rcases b with ⟨e, pc⟩ | pc
  · cases h
  · cases pc <;> first | rfl | cases h

theorem Body.not_lost_of_reads {b : Body} {d : Dir} (h : b.reads = true) : b.lost d = false := by
  rcases b with ⟨e, pc⟩ | pc
  · rfl
  · cases pc <;> first | rfl | cases h

theorem Thread.computing_of_quiet {d : Dir} {th : Thread} (h : th.quiet d = true) : th.body.computing = true := by
  rcases th with ⟨⟨e, pc⟩ | pc, woken, stop⟩
  · cases h
  · exact (Bool.and_eq_true_iff.mp h).1

section Steps
variable {K : Kernel} {x : Input} {m m' : Mod} {b b' : Body} {stop : Bool}

theorem bodyStep_computing (hs : bodyStep K stop x m b = some (m', b')) (h : b'.computing = true) : b.computing = true := by
  cases bodyStep_executes hs with
  | sends => cases h
  | computes hstep =>
    cases hstep with
    | _ => rfl

/-- A sender that is told to stop before its function begins sends nothing. -/
theorem bodyStep_stopped {d : Dir} (hs : bodyStep K true x m b = some (m', b')) (hsl : b.slot = .sender d)
    (hb : b.begun = false) : b'.holds = false := by
  cases bodyStep_executes hs with
  | computes => cases hsl
  | sends e h =>
    cases h with
    | enters => rfl
    | _ => cases hb

theorem bodyStep_sending {d : Dir} {woken : Bool} (hs : bodyStep K stop x m b = some (m', b')) (hwoken : woken = true)
    (h : Thread.sending d ⟨b', woken, stop⟩ = true) : Thread.sending d ⟨b, woken, stop⟩ = true := by
  obtain ⟨hslot, hholds, -⟩ := Thread.sending_cases h
  obtain ⟨hsame, hcase⟩ := bodyStep_ptr hs
  have hsl : b.slot = .sender d := hsame.symm.trans hslot
  have hheld : b.holds = true := by
    rcases hcase with ⟨-, he | ⟨-, hno⟩⟩ | ⟨hhad, -⟩
    · exact he.symm.trans hholds
    · cases hno.symm.trans hholds
    · exact hhad
  simp only [Thread.sending, hsl, hheld, hwoken, beq_self_eq_true, Bool.true_and, Bool.or_eq_true]
  cases hb : b.begun with
  | true => exact Or.inl rfl
  | false =>
    right
    cases stop with
    | false => rfl
    | true => cases (bodyStep_stopped hs hsl hb).symm.trans hholds

/-- A compute thread becomes quiet when it finds the pointer empty. -/
theorem bodyStep_quiet {d : Dir} {woken : Bool} (hs : bodyStep K stop x m b = some (m', b'))
    (h : Thread.quiet d ⟨b', woken, stop⟩ = true) :
    Thread.quiet d ⟨b, woken, stop⟩ = true ∨ m.ptr (.sender d) = .null := by
  cases bodyStep_executes hs with
  | sends => cases h
  | computes hstep =>
    cases stop with
    | true =>
      left
      cases hstep <;> rfl
    | false =>
      simp only [Thread.quiet, Bool.false_or, Bool.and_eq_true] at h ⊢
      obtain ⟨-, hsaw⟩ := h
      cases hstep with
      | sees => cases hsaw
      | passes e endTime hnull =>
        rcases dir_cases e with rfl | rfl <;> rcases dir_cases d with rfl | rfl
        · exact Or.inr hnull
        · cases hsaw
        · exact Or.inl ⟨rfl, rfl⟩
        · exact Or.inr hnull
      | tests isStRunning endTime =>
        left
        cases isStRunning with
        | true => simp [ComputePc.saw] at hsaw
        | false => exact ⟨rfl, rfl⟩
      | enters | counts => cases hsaw
      | drained => simp [ComputePc.saw] at hsaw
      | _ => exact Or.inl ⟨rfl, rfl⟩

/-- An empty pointer stays empty under the steps of the threads. -/
theorem bodyStep_null {sl : Slot} (hs : bodyStep K stop x m b = some (m', b')) (h : m.ptr sl = .null) :
    m'.ptr sl = .null := by
  rcases (bodyStep_ptr hs).2 with ⟨hp, -⟩ | ⟨-, -, hp⟩
  · rw [hp, h]
  · rw [hp, Function.update_apply]
    split
    · rfl
    · exact h

end Steps

/-- While a compute thread is quiet no sender sends, and what it has computed stays right. -/
structure Settled (s : State) : Prop where
  held : Held s
  alone : ∀ (i j : Nat) (th th' : Thread), s.threads[i]? = some th → s.threads[j]? = some th' →
    th.body.computing = true → th'.body.computing = true → i = j
  quiet : ∀ d, ∀ th ∈ s.threads, th.quiet d = true → ∀ th' ∈ s.threads, th'.sending d = false
  calm : s.ctl.calm = true → ∀ d, ∀ th ∈ s.threads, th.sending d = false
  waking : ∀ d, s.ctl.toWake d = true → ∀ th ∈ s.threads, th.quiet d = true → s.mod.ptr (.sender d) = .null
  lost : ∀ d, ∀ th ∈ s.threads, th.body.lost d = true →
    (s.mod.stCfg d).status.pktloseCount = lostPkts (s.mod.stCfg d).status

theorem Held.not_sending {s : State} (h : Held s) {d : Dir} (hnull : s.mod.ptr (.sender d) = .null) :
    ∀ th ∈ s.threads, th.sending d = false := by
  intro th hm
  by_contra hs
  obtain ⟨hslot, hholds, -⟩ := Thread.sending_cases (by simpa using hs)
  obtain ⟨i, hi⟩ := List.mem_iff_getElem?.mp hm
  rw [h.not_holds hi (hslot ▸ hnull)] at hholds
  cases hholds

theorem calm_stopAt {ctl : Ctl} {p : StopPc} : (ctl.stopAt p).calm = ctl.calm := by
  rcases ctl with _ | ⟨c, pc⟩ | pc | _ | _ <;> try rfl
  all_goals cases pc <;> rfl

/-- Behind a loop the control is calm if it was, or if both loops of the senders are behind it. -/
theorem calm_afterStop {ctl : Ctl} {sl : Slot} {p : StopPc} (hstop : ctl.stopping = some (sl, p))
    (h : ctl.afterStop.calm = true) : ctl.calm = true ∨ ∀ d, ctl.afterStop.vacant (.sender d) = true := by
  generalize h' : ctl.afterStop = ctl' at h ⊢
  cases afterStop_exits hstop h' with
  | cmdClears => exact Or.inr fun d => decide_eq_true (Fin.zero_le d)
  | cmdCreates => exact Or.inl rfl
  | _ => cases h

theorem toWake_afterStop {ctl : Ctl} {sl : Slot} {p : StopPc} {d : Dir} (hstop : ctl.stopping = some (sl, p)) :
    ctl.afterStop.toWake d = false := by
  generalize h' : ctl.afterStop = ctl'
  cases afterStop_exits hstop h' <;> rfl

theorem calm_afterWake {ctl : Ctl} {sl : Slot} (h : ctl.wakes = some sl) : ctl.afterWake.calm = false := by
  generalize h' : ctl.afterWake = ctl'
  cases afterWake_wakes h h' <;> rfl

theorem toWake_of_wakes {ctl : Ctl} {d : Dir} (h : ctl.wakes = some (.sender d)) : ctl.toWake d = true := by
  generalize h' : ctl.afterWake = ctl'
  cases afterWake_wakes h h' <;> rfl

theorem toWake_of_afterWake {ctl : Ctl} {sl : Slot} {d : Dir} (h : ctl.wakes = some sl)
    (hw : ctl.afterWake.toWake d = true) : ctl.toWake d = true := by
  generalize h' : ctl.afterWake = ctl' at hw
  cases afterWake_wakes h h' with
  | comp => rfl
  | next => exact decide_eq_true (Fin.zero_le d)
  | last => cases hw

theorem toWake_stopAt {ctl : Ctl} {sl : Slot} {p q : StopPc} {d : Dir} (hstop : ctl.stopping = some (sl, p)) :
    (ctl.stopAt q).toWake d = false := by
  rcases ctl with _ | ⟨c, pc⟩ | pc | _ | _ <;> try cases hstop
  all_goals cases pc <;> cases hstop <;> rfl

namespace Settled
variable {K : Kernel} {s t : State}

theorem start (K : Kernel) (j : Nat) : Settled (start K j) where
  held := Held.start K j
  alone i j th th' hi := by simp [Speedtest.start] at hi
  quiet d th hm := by simp [Speedtest.start] at hm
  calm h := by cases h
  waking d h := by cases h
  lost d th hm := by simp [Speedtest.start] at hm

theorem ran (h : Settled s) {tid : Nat} {x : Input} {th : Thread} {m : Mod} {b : Body} (hr : Ran K s t tid x th m b)
    (hpops : th.body.pops s.mod = false) : Settled t := by
  have hheld := h.held.ran hr
  obtain ⟨hth, hwoken, hb, rfl⟩ := hr
  have hmem := List.mem_of_getElem? hth
  have sending_before (d : Dir) (th' : Thread) (hm : th' ∈ s.threads.set tid { th with body := b })
      (hs : th'.sending d = true) : ∃ th₀ ∈ s.threads, th₀.sending d = true := by
    rcases List.mem_or_eq_of_mem_set hm with hm | rfl
    · exact ⟨th', hm, hs⟩
    · exact ⟨th, hmem, bodyStep_sending hb hwoken hs⟩
  have quiet_before (d : Dir) (th' : Thread) (hm : th' ∈ s.threads.set tid { th with body := b })
      (hq : th'.quiet d = true) : (∃ th₀ ∈ s.threads, th₀.quiet d = true) ∨ s.mod.ptr (.sender d) = .null := by
    rcases List.mem_or_eq_of_mem_set hm with hm | rfl
    · exact Or.inl ⟨th', hm, hq⟩
    · exact (bodyStep_quiet hb hq).imp_left fun hq => ⟨th, hmem, hq⟩
  refine ⟨hheld, fun i j th₁ th₂ hi hj h₁ h₂ => ?_, fun d th₁ hm₁ hq th₂ hm₂ => ?_, fun hc d th₁ hm₁ => ?_,
    fun d hw th₁ hm₁ hq => ?_, fun d th₁ hm₁ hl => ?_⟩
  · have before {k : Nat} {th' : Thread} (hk : (s.threads.set tid { th with body := b })[k]? = some th')
        (hc : th'.body.computing = true) : ∃ th₀, s.threads[k]? = some th₀ ∧ th₀.body.computing = true := by
      rcases Calls.getElem?_set_cases hk with ⟨rfl, rfl⟩ | ⟨-, hk⟩
      · exact ⟨th, hth, bodyStep_computing hb hc⟩
      · exact ⟨th', hk, hc⟩
    obtain ⟨a, ha, hca⟩ := before hi h₁
    obtain ⟨c, hc, hcc⟩ := before hj h₂
    exact h.alone i j a c ha hc hca hcc
  · by_contra hs
    obtain ⟨th₀, hm₀, hs₀⟩ := sending_before d th₂ hm₂ (by simpa using hs)
    rcases quiet_before d th₁ hm₁ hq with ⟨th₃, hm₃, hq₃⟩ | hnull
    · rw [h.quiet d th₃ hm₃ hq₃ th₀ hm₀] at hs₀
      cases hs₀
    · rw [h.held.not_sending hnull th₀ hm₀] at hs₀
      cases hs₀
  · by_contra hs
    obtain ⟨th₀, hm₀, hs₀⟩ := sending_before d th₁ hm₁ (by simpa using hs)
    rw [h.calm hc d th₀ hm₀] at hs₀
    cases hs₀
  · refine bodyStep_null hb ?_
    rcases quiet_before d th₁ hm₁ hq with ⟨th₃, hm₃, hq₃⟩ | hnull
    · exact h.waking d hw th₃ hm₃ hq₃
    · exact hnull
  · obtain ⟨i, hi⟩ := List.mem_iff_getElem?.mp hm₁
    have of_same (hcounts : (s.mod.stCfg d).status.SameCounts (m.stCfg d).status)
        (hold : ∃ th₀ ∈ s.threads, th₀.body.lost d = true) :
        (m.stCfg d).status.pktloseCount = lostPkts (m.stCfg d).status := by
      obtain ⟨th₀, hm₀, hl₀⟩ := hold
      rw [hcounts.lose, h.lost d th₀ hm₀ hl₀, lostPkts, lostPkts, hcounts.send, hcounts.rcv, hcounts.err]
    obtain ⟨body, woken, stop⟩ := th
    have hmoves : Moves x d s.mod m body b := bodyStep_moves d hb hpops
    cases hmoves with
    | quiet counts _ _ lost =>
      refine of_same counts ?_
      rcases Calls.getElem?_set_cases hi with ⟨-, rfl⟩ | ⟨-, hi⟩
      · exact ⟨_, hmem, lost hl⟩
      · exact ⟨th₁, List.mem_of_getElem? hi, hl⟩
    | sends l sent counts =>
      refine of_same counts ?_
      rcases Calls.getElem?_set_cases hi with ⟨-, rfl⟩ | ⟨-, hi⟩
      · cases hl
      · exact ⟨th₁, List.mem_of_getElem? hi, hl⟩
    | counts l =>
      rcases Calls.getElem?_set_cases hi with ⟨-, rfl⟩ | ⟨-, hi⟩
      · cases hl
      · have := h.quiet d th₁ (List.mem_of_getElem? hi) (Thread.quiet_of_lost hl) _ hmem
        simp [Thread.sending, Body.slot, Body.holds, SenderPc.holds, Body.begun] at this
    | loses status =>
      simp only [status]
      rfl

/-- A statement for a packet: the thread that counts it is the only compute thread. -/
theorem piece (h : Settled s) {hand : Hand} (hheld : Handed s hand) {tid : Nat} {th : Thread} {m : Mod}
    {a : Option (Skb × PktPc)} (hth : s.threads[tid]? = some th) (hp : Piece s.mod th.body (hand tid) m a) :
    Settled { s with mod := m } := by
  refine ⟨(hheld.piece hth hp).held, h.alone, h.quiet, h.calm, fun d hw th₁ hm₁ hq => ?_, fun d th₁ hm₁ hl => ?_⟩
  · rw [hp.ptr]
    exact h.waking d hw th₁ hm₁ hq
  · have not_counting {a : Skb × PktPc} (ha : hand tid = some a) : False := by
      obtain ⟨th', hth', hreads⟩ := hheld.reads tid a ha
      obtain ⟨i, hi⟩ := List.mem_iff_getElem?.mp hm₁
      obtain rfl := h.alone i tid th₁ th' hi hth' (Thread.computing_of_quiet (Thread.quiet_of_lost hl))
        (Body.computing_of_reads hreads)
      obtain rfl := Option.some.inj (hi.symm.trans hth')
      rw [Body.not_lost_of_reads hreads] at hl
      cases hl
    have hold := h.lost d th₁ hm₁ hl
    generalize ha : hand tid = c at hp
    cases hp with
    | receives | errs => exact (not_counting ha).elim
    | _ => exact hold

/-- The threads are at the same statements, and the pointers of the senders are the same where that matters. -/
theorem of_frame (h : Settled s) (hheld : Held t) (hbodies : SameBodies s t)
    (hstatus : ∀ d, (t.mod.stCfg d).status = (s.mod.stCfg d).status ∨ (t.mod.stCfg d).status = .zero)
    (hsend : ∀ d, ∀ th ∈ t.threads, th.sending d = true → (∃ th₀ ∈ s.threads, th₀.sending d = true) ∨
      ∀ th₁ ∈ t.threads, th₁.quiet d = false)
    (hquiet : ∀ d, ∀ th ∈ t.threads, th.quiet d = true → (∃ th₀ ∈ s.threads, th₀.quiet d = true) ∨
      ∀ th₁ ∈ t.threads, th₁.sending d = false)
    (hcalm : t.ctl.calm = true → s.ctl.calm = true ∨ ∀ d, t.mod.ptr (.sender d) = .null)
    (hcalmsend : t.ctl.calm = true → ∀ d, ∀ th ∈ t.threads, th.sending d = true → ∃ th₀ ∈ s.threads, th₀.sending d = true)
    (hwaking : ∀ d, t.ctl.toWake d = true → s.ctl.toWake d = true ∧ t.mod.ptr (.sender d) = s.mod.ptr (.sender d) ∧
      ∀ th ∈ t.threads, th.quiet d = true → ∃ th₀ ∈ s.threads, th₀.quiet d = true) : Settled t := by
  refine ⟨hheld, fun i j th th' hi hj hc hc' => ?_, fun d th hm hq th' hm' => ?_, fun hc d th hm => ?_,
    fun d hw th hm hq => ?_, fun d th hm hl => ?_⟩
  · obtain ⟨a, ha, hba⟩ := hbodies i th hi
    obtain ⟨c, hc₀, hbc⟩ := hbodies j th' hj
    exact h.alone i j a c ha hc₀ (hba ▸ hc) (hbc ▸ hc')
  · by_contra hs
    have hs : th'.sending d = true := by simpa using hs
    rcases hquiet d th hm hq with ⟨th₁, hm₁, hq₁⟩ | hnone
    · rcases hsend d th' hm' hs with ⟨th₀, hm₀, hs₀⟩ | hnone
      · rw [h.quiet d th₁ hm₁ hq₁ th₀ hm₀] at hs₀
        cases hs₀
      · rw [hnone th hm] at hq
        cases hq
    · rw [hnone th' hm'] at hs
      cases hs
  · rcases hcalm hc with hold | hnull
    · by_contra hs
      obtain ⟨th₀, hm₀, hs₀⟩ := hcalmsend hc d th hm (by simpa using hs)
      rw [h.calm hold d th₀ hm₀] at hs₀
      cases hs₀
    · exact hheld.not_sending (hnull d) th hm
  · obtain ⟨hold, hptr, hq₀⟩ := hwaking d hw
    obtain ⟨th₀, hm₀, hq₀⟩ := hq₀ th hm hq
    rw [hptr]
    exact h.waking d hold th₀ hm₀ hq₀
  · rcases hstatus d with he | he
    · obtain ⟨i, hi⟩ := List.mem_iff_getElem?.mp hm
      obtain ⟨th₀, hi₀, hb⟩ := hbodies i th hi
      rw [he]
      exact h.lost d th₀ (List.mem_of_getElem? hi₀) (hb ▸ hl)
    · rw [he]
      rfl

theorem of_threads (h : Settled s) (hheld : Held t) (hth : t.threads = s.threads)
    (hstatus : ∀ d, (t.mod.stCfg d).status = (s.mod.stCfg d).status ∨ (t.mod.stCfg d).status = .zero)
    (hcalm : t.ctl.calm = true → s.ctl.calm = true ∨ ∀ d, t.mod.ptr (.sender d) = .null)
    (hwaking : ∀ d, t.ctl.toWake d = true → s.ctl.toWake d = true ∧ t.mod.ptr (.sender d) = s.mod.ptr (.sender d)) :
    Settled t := by
  refine h.of_frame hheld (.of_eq hth) hstatus (fun d th hm hs => Or.inl ⟨th, hth ▸ hm, hs⟩)
    (fun d th hm hq => Or.inl ⟨th, hth ▸ hm, hq⟩) hcalm (fun _ d th hm hs => ⟨th, hth ▸ hm, hs⟩) fun d hw => ?_
  obtain ⟨hold, hptr⟩ := hwaking d hw
  exact ⟨hold, hptr, fun th hm hq => ⟨th, hth ▸ hm, hq⟩⟩

theorem mem_modify {l : List Thread} {tid : Nat} {f : Thread → Thread} {th : Thread} (hm : th ∈ l.modify tid f) :
    th ∈ l ∨ ∃ th₀, l[tid]? = some th₀ ∧ th = f th₀ := by
  obtain ⟨i, hi⟩ := List.mem_iff_getElem?.mp hm
  rw [List.getElem?_modify] at hi
  obtain ⟨th₀, hi₀, rfl⟩ := Option.map_eq_some_iff.mp hi
  split
  · rename_i hit
    subst hit
    exact Or.inr ⟨th₀, hi₀, rfl⟩
  · exact Or.inl (List.mem_of_getElem? hi₀)

/-- A thread is told to stop: a sender that has not begun sends nothing any more, and a compute thread is told only
    when no sender sends. -/
theorem tells (h : Settled s) {ctl : Ctl} {sl : Slot} {tid : Nat} (hheld : Held ((s.tellStop tid).goto ctl))
    (hstop : s.ctl.stopping = some (sl, .call)) (hptr : s.mod.ptr sl = .task tid)
    (hcalm : ctl.calm = true → s.ctl.calm = true) (hwake : ∀ d, ctl.toWake d = false) :
    Settled ((s.tellStop tid).goto ctl) := by
  have sending_before (d : Dir) (th : Thread) (hm : th ∈ ((s.tellStop tid).goto ctl).threads) (hs : th.sending d = true) :
      ∃ th₀ ∈ s.threads, th₀.sending d = true := by
    rcases mem_modify hm with hm | ⟨th₀, hi₀, rfl⟩
    · exact ⟨th, hm, hs⟩
    · refine ⟨th₀, List.mem_of_getElem? hi₀, ?_⟩
      obtain ⟨hslot, hholds, hbegun | ⟨-, hno⟩⟩ := Thread.sending_cases hs
      · simp only [Thread.sending, Bool.and_eq_true, Bool.or_eq_true, beq_iff_eq]
        exact ⟨⟨hslot, hholds⟩, Or.inl hbegun⟩
      · cases hno
  have none_sends (hcomp : sl = .compute) (d : Dir) : ∀ th ∈ s.threads, th.sending d = false := by
    subst hcomp
    rcases hs : s.ctl with _ | ⟨c, pc⟩ | pc | _ | _ <;> rw [hs] at hstop <;> try cases hstop
    · cases pc <;> cases hstop
      exact h.calm (by rw [hs]; rfl) d
    · cases pc <;> cases hstop
      exact h.held.not_sending (h.held.vacant (.sender d) (by rw [hs]; rfl))
  refine h.of_frame hheld (.of_modify rfl fun _ => rfl) (fun _ => Or.inl rfl)
    (fun d th hm hs => Or.inl (sending_before d th hm hs)) (fun d th hm hq => ?_) (fun hc => Or.inl (hcalm hc))
    (fun _ => sending_before) (fun d hw => by rw [show ((s.tellStop tid).goto ctl).ctl = ctl from rfl, hwake] at hw; cases hw)
  rcases mem_modify hm with hm | ⟨th₀, hi₀, rfl⟩
  · exact Or.inl ⟨th, hm, hq⟩
  · right
    obtain ⟨th', hth', hsl⟩ := h.held.owner sl tid hptr
    rw [hi₀] at hth'
    obtain rfl := Option.some.inj hth'
    have hcomp : sl = .compute := by
      rw [← hsl]
      rcases th₀ with ⟨⟨e, pc⟩ | pc, woken, stop⟩
      · cases hq
      · rfl
    intro th₁ hm₁
    by_contra hs
    obtain ⟨th₂, hm₂, hs₂⟩ := sending_before d th₁ hm₁ (by simpa using hs)
    rw [none_sends hcomp d th₂ hm₂] at hs₂
    cases hs₂

/-- A thread is woken: a sender is woken only when no compute thread has found its pointer empty. -/
theorem wakes (h : Settled s) {sl : Slot} {tid : Nat} (hheld : Held ((s.wake tid).goto s.ctl.afterWake))
    (hwakes : s.ctl.wakes = some sl) (hptr : s.mod.ptr sl = .task tid) : Settled ((s.wake tid).goto s.ctl.afterWake) := by
  have quiet_before (d : Dir) (th : Thread) (hm : th ∈ (s.wake tid).threads) (hq : th.quiet d = true) :
      ∃ th₀ ∈ s.threads, th₀.quiet d = true := by
    rcases mem_modify hm with hm | ⟨th₀, hi₀, rfl⟩
    · exact ⟨th, hm, hq⟩
    · exact ⟨th₀, List.mem_of_getElem? hi₀, hq⟩
  have hnot_calm := calm_afterWake hwakes
  refine h.of_frame hheld (.of_modify rfl fun _ => rfl) (fun _ => Or.inl rfl) (fun d th hm hs => ?_)
    (fun d th hm hq => Or.inl (quiet_before d th hm hq))
    (fun hc => by rw [show ((s.wake tid).goto s.ctl.afterWake).ctl = s.ctl.afterWake from rfl, hnot_calm] at hc; cases hc)
    (fun hc => by rw [show ((s.wake tid).goto s.ctl.afterWake).ctl = s.ctl.afterWake from rfl, hnot_calm] at hc; cases hc)
    fun d hw => ⟨toWake_of_afterWake hwakes hw, rfl, quiet_before d⟩
  rcases mem_modify hm with hm | ⟨th₀, hi₀, rfl⟩
  · exact Or.inl ⟨th, hm, hs⟩
  · right
    intro th₁ hm₁
    by_contra hq
    obtain ⟨th₂, hm₂, hq₂⟩ := quiet_before d th₁ hm₁ (by simpa using hq)
    obtain ⟨hslot, -⟩ := Thread.sending_cases hs
    obtain ⟨th', hth', hsl⟩ := h.held.owner sl tid hptr
    rw [hi₀] at hth'
    obtain rfl := Option.some.inj hth'
    obtain rfl : sl = .sender d := hsl.symm.trans hslot
    have hw : s.ctl.toWake d = true := toWake_of_wakes hwakes
    rw [h.waking d hw th₂ hm₂ hq₂] at hptr
    cases hptr

theorem creates (h : Settled s) (hheld : Held t) {d : Dir} (hth : t.threads = s.threads ++ [⟨.fresh (.sender d), false, false⟩])
    (hstatus : ∀ d, (t.mod.stCfg d).status = (s.mod.stCfg d).status ∨ (t.mod.stCfg d).status = .zero)
    (hcalm : s.ctl.calm = true) (hwake : ∀ d, t.ctl.toWake d = false) : Settled t := by
  have old {th : Thread} (hm : th ∈ t.threads) : th ∈ s.threads ∨ th = ⟨.fresh (.sender d), false, false⟩ := by
    rw [hth] at hm
    exact (List.mem_append.mp hm).imp_right List.mem_singleton.mp
  have hnone (e : Dir) (th : Thread) (hm : th ∈ t.threads) : th.sending e = false := by
    rcases old hm with hm | rfl
    · exact h.calm hcalm e th hm
    · simp [Thread.sending, Body.fresh, Body.begun]
  refine ⟨hheld, fun i j th₁ th₂ hi hj h₁ h₂ => ?_, fun e _ _ _ => hnone e, fun _ => hnone,
    fun e hw => absurd hw (by simp [hwake]), fun e th hm hl => ?_⟩
  · rw [hth] at hi hj
    rcases Calls.getElem?_concat_cases hi with hi | ⟨-, rfl⟩
    · rcases Calls.getElem?_concat_cases hj with hj | ⟨-, rfl⟩
      · exact h.alone i j th₁ th₂ hi hj h₁ h₂
      · cases h₂
    · cases h₁
  · rcases hstatus e with he | he <;> rw [he]
    · rcases old hm with hm | rfl
      · exact h.lost e th hm hl
      · cases hl
    · rfl

theorem createsComp (hheld : Held t) (hth : t.threads = s.threads ++ [⟨.fresh .compute, false, false⟩])
    (hnone : ∀ th ∈ s.threads, th.body.computing = false) (hcalm : t.ctl.calm = false) : Settled t := by
  have old {th : Thread} (hm : th ∈ t.threads) : th ∈ s.threads ∨ th = ⟨.fresh .compute, false, false⟩ := by
    rw [hth] at hm
    exact (List.mem_append.mp hm).imp_right List.mem_singleton.mp
  have not_quiet {d : Dir} {th : Thread} (hm : th ∈ t.threads) (hq : th.quiet d = true) : False := by
    rcases old hm with hm | rfl
    · have := Thread.computing_of_quiet hq
      rw [hnone th hm] at this
      cases this
    · cases hq
  refine ⟨hheld, fun i j th₁ th₂ hi hj h₁ h₂ => ?_, fun d th hm hq => (not_quiet hm hq).elim,
    fun hc => absurd hc (by simp [hcalm]), fun d _ th hm hq => (not_quiet hm hq).elim,
    fun d th hm hl => (not_quiet hm (Thread.quiet_of_lost hl)).elim⟩
  have new {i : Nat} {th : Thread} (hi : t.threads[i]? = some th) (hc : th.body.computing = true) : i = s.threads.length := by
    rw [hth] at hi
    rcases Calls.getElem?_concat_cases hi with hi | ⟨rfl, -⟩
    · rw [hnone th (List.mem_of_getElem? hi)] at hc
      cases hc
    · rfl
  rw [new hi h₁, new hj h₂]

theorem acts (h : Settled s) {ok : Bool} (ha : Acts s ok t)
    (hnone : s.ctl.creates = some .compute → ok = true → ∀ th ∈ s.threads, th.body.computing = false) : Settled t := by
  have hheld := h.held.acts ha
  have hstatus (d : Dir) : (t.mod.stCfg d).status = (s.mod.stCfg d).status ∨ (t.mod.stCfg d).status = .zero := by
    have := ha.status d
    split at this
    · exact Or.inr this
    · exact Or.inl this
  cases ha with
  | leaves sl hstop hnull =>
    refine h.of_threads hheld rfl hstatus (fun hc => ?_) fun d hw => ?_
    · exact (calm_afterStop hstop hc).imp_right fun hvacant d => hheld.vacant (.sender d) (hvacant d)
    · exact absurd hw (by rw [State.goto, toWake_afterStop hstop]; simp)
  | stays sl hstop | waited sl tid hstop =>
    refine h.of_threads hheld rfl hstatus (fun hc => Or.inl ?_) fun d hw => ?_
    · rw [State.goto] at hc
      rwa [calm_stopAt] at hc
    · rw [State.goto, toWake_stopAt hstop] at hw
      cases hw
  | tells sl tid hstop hptr => exact h.tells hheld hstop hptr (fun hc => by rwa [calm_stopAt] at hc) fun d => toWake_stopAt hstop
  | wakes sl tid hwakes hptr => exact h.wakes hheld hwakes hptr
  | creates c d hctl =>
    refine h.creates hheld rfl hstatus (by rw [hctl]; rfl) fun e => ?_
    rcases dir_cases d with rfl | rfl <;> rfl
  | createsComp c hctl hok => exact createsComp hheld rfl (hnone (by rw [hctl]; rfl) hok) rfl
  | clears c d hctl | installs c hctl | readies c hctl =>
    exact h.of_threads hheld rfl hstatus (fun _ => Or.inl (by rw [hctl]; rfl)) fun d hw => (by cases hw)
  | skips c d hctl =>
    refine h.of_threads hheld rfl hstatus (fun _ => Or.inl (by rw [hctl]; rfl)) fun e hw => ?_
    rcases dir_cases d with rfl | rfl
    · cases hw
    · cases hrun : c.taskRunFlag <;> simp [State.goto, Ctl.toWake, hrun] at hw
  | parses c d =>
    refine h.of_threads hheld rfl hstatus (fun hc => ?_) fun e hw => ?_
    · rcases dir_cases d with rfl | rfl <;> cases hc
    · rcases dir_cases d with rfl | rfl <;> cases hw
  | faults | rejects | fails | failsComp | wakesNone | returns | delTimer | removeProc | rxNull | txNull | fifoFree =>
    exact h.of_threads hheld rfl hstatus (fun hc => (by cases hc)) fun d hw => (by cases hw)

theorem outside (h : Settled s) (ho : Outside s t) : Settled t := by
  have hctl : t.ctl.calm = true → s.ctl.calm = true := by
    intro hc
    rcases ho.ctl with he | ⟨-, he⟩ | ⟨-, nums, -, he⟩ <;> rw [he] at hc
    · exact hc
    · cases hc
    · cases hc
  refine h.of_threads (h.held.outside ho) ho.threads (fun d => Or.inl (by rw [ho.mod.stCfg])) (fun hc => Or.inl (hctl hc))
    fun d hw => ⟨?_, by rw [ho.mod.ptr]⟩
  rcases ho.ctl with he | ⟨-, he⟩ | ⟨-, nums, -, he⟩ <;> rw [he] at hw
  · exact hw
  · cases hw
  · cases hw

theorem step (h : Settled s) {hand hand' : Hand} (hheld : Handed s hand) {hist : Dir → Tally} {e : Event}
    (hok : Honest (s, hand) hist e) (hs : Pieced K s hand e t hand') : Settled t := by
  cases hs with
  | piece hth _ hp => exact h.piece hheld hth (pieceStep_piece hp)
  | other hs hnone =>
    rcases step_cases hs with ⟨tid, x, th, m, b, rfl, hr⟩ | ⟨ok, rfl, ha⟩ | ho
    · exact h.ran hr (hnone tid x rfl th hr.thread).2
    · exact h.acts ha hok.2
    · exact h.outside ho

end Settled

/-- The counters of the packets and the compute thread fit together in the runs of `Honest`. -/
theorem settled {K : Kernel} {s : State} {hand : Hand} {hist : Dir → Tally}
    (hr : ((handLts K).track tally fun _ => .zero).Reach (fun x => Honest x.1 x.2) ((s, hand), hist)) :
    Handed s hand ∧ Settled s ∧ ∀ d, Tallied s hand d (hist d) := by
  refine hr.track_invariant (I := fun x h => Handed x.1 x.2 ∧ Settled x.1 ∧ ∀ d, Tallied x.1 x.2 d (h d)) ?_ ?_
  · rintro ⟨_, _⟩ ⟨⟨j, -, rfl⟩, rfl⟩
    exact ⟨Handed.start K j, Settled.start K j, Tallied.start K j⟩
  · rintro ⟨s, hand⟩ h e ⟨t, hand'⟩ ⟨hheld, hc, ht⟩ hok hs
    have hs := handStep_pieced.mp hs
    exact ⟨hheld.step hs, hc.step hheld hok hs, Tallied.step ht hheld hok hs⟩

/-- Without a wrap-around the computed loss is what was sent and not received exactly when no error was counted. -/
theorem lostPkts_eq {st : Status} (herr : st.pkterrCount ≤ st.pktrcvCount) (hrcv : st.pktrcvCount ≤ st.pktsendCount)
    (hsend : st.pktsendCount < 2 ^ 64) : lostPkts st = st.pktsendCount - st.pktrcvCount ↔ st.pkterrCount = 0 := by
  rw [lostPkts]
  by_cases hneg : st.pktsendCount < st.pktrcvCount + st.pkterrCount
  · have hmod : ((st.pktsendCount : Int) - st.pktrcvCount - st.pkterrCount) % 2 ^ 64 =
        (st.pktsendCount : Int) - st.pktrcvCount - st.pkterrCount + 2 ^ 64 := by
      rw [← Int.add_emod_right]
      exact Int.emod_eq_of_lt (by omega) (by omega)
    rw [hmod]
    omega
  · rw [Int.emod_eq_of_lt (by omega) (by omega)]
    omega

/-- The last statement of a compute thread. -/
theorem Settled.returned {K : Kernel} {s t : State} {hand hand' : Hand} {hist : Dir → Tally} (hsettled : Settled s)
    (hheld : Handed s hand) {d : Dir} (htallied : Tallied s hand d (hist d)) {tid : Nat} {x : Input} {th : Thread}
    (hth : s.threads[tid]? = some th) (hfinish : th.body = .compute (.finish 1))
    (hs : Pieced K s hand (.thread tid x) t hand') :
    t.threads[tid]? = some { th with body := .compute .done } ∧
    (t.mod.stCfg d).status.pkterrCount ≤ (t.mod.stCfg d).status.pktrcvCount ∧
    (t.mod.stCfg d).status.pktrcvCount ≤ (t.mod.stCfg d).status.pktsendCount ∧
    (t.mod.stCfg d).status.pktsendCount = (hist d).sent ∧ (t.mod.stCfg d).status.pktrcvCount = (hist d).counted ∧
    ((t.mod.stCfg d).status.pktloseCount =
        (t.mod.stCfg d).status.pktsendCount - (t.mod.stCfg d).status.pktrcvCount ↔ (hist d).corrupt = 0) := by
  obtain ⟨body, woken, stop⟩ := th
  obtain rfl : body = .compute (.finish 1) := hfinish
  -- The thread is the only compute thread, and is not at the queue.
  have hempty (i : Nat) : hand i = none := by
    by_contra hne
    obtain ⟨a, ha⟩ := Option.ne_none_iff_exists'.mp hne
    obtain ⟨th', hth', hreads⟩ := hheld.reads i a ha
    obtain rfl := hsettled.alone i tid th' _ hth' hth (Body.computing_of_reads hreads) rfl
    obtain rfl := Option.some.inj (hth.symm.trans hth')
    cases hreads
  have hhands (p : Skb × PktPc → Bool) : s.inHand hand p = 0 := by
    rw [State.inHand, List.countP_eq_zero]
    intro a hm hany
    obtain ⟨i, -, rfl⟩ := List.mem_map.mp hm
    rw [hempty i] at hany
    cases hany
  cases hs with
  | piece hth' _ hp =>
    obtain rfl := Option.some.inj (hth.symm.trans hth')
    rw [hempty tid] at hp
    cases hp
  | other hs =>
    obtain ⟨th', m, b, hth', hwoken, hb, rfl⟩ := threadStep_ran hs
    obtain rfl := Option.some.inj (hth.symm.trans hth')
    obtain ⟨rfl, rfl⟩ := Prod.mk.inj (Option.some.inj hb)
    have hmem := List.mem_of_getElem? hth
    have hcounts : (s.mod.stCfg d).status.SameCounts
        ((s.mod.setStatus 1 { (s.mod.stCfg 1).status with state := .stFinished }).stCfg d).status := by
      refine sameCounts_setStatus ?_ d
      exact ⟨rfl, rfl, rfl, rfl⟩
    have hlost : Body.lost d (.compute (.finish 1)) = true := by
      rcases dir_cases d with rfl | rfl <;> rfl
    have hlose := hsettled.lost d _ hmem hlost
    -- No sender of the direction is between sending a packet and counting it.
    have hunsaid : s.unsaid d = 0 := by
      rw [State.unsaid, List.countP_eq_zero]
      intro th hm hu
      have hno := hsettled.quiet d _ hmem (Thread.quiet_of_lost hlost) th hm
      rcases th with ⟨⟨e, pc⟩ | pc, woken, stop⟩
      · cases pc <;> try cases hu
        obtain rfl : e = d := by simpa [Body.unsaid] using hu
        simp [Thread.sending, Body.slot, Body.holds, SenderPc.holds, Body.begun] at hno
      · cases hu
    obtain ⟨hsend, hrcv, herr, hcorrupt, harrived, hsent, hfits⟩ := htallied
    rw [hunsaid, Nat.add_zero] at hsend
    rw [hhands, Nat.add_zero] at herr
    refine ⟨List.getElem?_set_self (List.getElem?_eq_some_iff.mp hth).1, ?_⟩
    rw [hcounts.send, hcounts.rcv, hcounts.err, hcounts.lose, hlose]
    have hle : (s.mod.stCfg d).status.pktrcvCount ≤ (s.mod.stCfg d).status.pktsendCount := by omega
    have hle' : (s.mod.stCfg d).status.pkterrCount ≤ (s.mod.stCfg d).status.pktrcvCount := by omega
    refine ⟨hle', hle, hsend, hrcv, ?_⟩
    rw [lostPkts_eq hle' hle (by omega), herr]

abbrev tallyLts (n : Nat) (K : Kernel) : Lts (Pieces n × (Dir → Tally)) (Fin n × Event) :=
  (piecesLts n K).track (fun s e => tally s.whole e.2) fun _ => .zero

/-- In the runs of `Honest` whose commands come one at a time, the compute thread returns with
    `pkterr_count ≤ pktrcv_count ≤ pktsend_count` for each direction, which are the numbers of its corrupted, counted and
    sent packets; and `pktlose_count` is the number of sent packets that were never counted exactly when none of the
    counted packets was corrupted. -/
theorem loss_counted {n : Nat} {K : Kernel} {s t : Pieces n} {hist : Dir → Tally}
    (hr : (tallyLts n K).Reach (fun x e => x.1.writers.OneAtATime e ∧ Honest x.1.whole x.2 e.2) (s, hist))
    {i : Fin n} {tid : Nat} {x : Input} {th : Thread} (hth : s.writers.threads[tid]? = some th)
    (hfinish : th.body = .compute (.finish 1)) (hs : (piecesLts n K).step s (i, .thread tid x) = some t) (d : Dir) :
    t.writers.threads[tid]? = some { th with body := .compute .done } ∧
    (t.writers.mod.stCfg d).status.pkterrCount ≤ (t.writers.mod.stCfg d).status.pktrcvCount ∧
    (t.writers.mod.stCfg d).status.pktrcvCount ≤ (t.writers.mod.stCfg d).status.pktsendCount ∧
    (t.writers.mod.stCfg d).status.pktsendCount = (hist d).sent ∧
    (t.writers.mod.stCfg d).status.pktrcvCount = (hist d).counted ∧
    ((t.writers.mod.stCfg d).status.pktloseCount =
        (t.writers.mod.stCfg d).status.pktsendCount - (t.writers.mod.stCfg d).status.pktrcvCount ↔
      (hist d).corrupt = 0) := by
  obtain ⟨halone, hr⟩ := Pieces.reach_whole_track (fun x => Honest x.1 x.2) hr
  obtain ⟨hheld, hsettled, htallied⟩ := settled hr
  obtain ⟨-, hs⟩ := Pieces.step_whole (e := (i, .thread tid x)) halone trivial hs
  exact hsettled.returned hheld (htallied d) hth hfinish (handStep_pieced.mp hs)

/-- `pkt42` as it comes back with a VLAN tag. -/
def vlan42 : List Byte := pkt42.take 12 ++ [0x81, 0x00, 0x00, 0x01] ++ pkt42.drop 12

/-- Each direction sends one packet, `data` arrives, for which the compute thread executes `k` statements, and another
    process unloads the module. -/
def lossRun (data : List Byte) (k : Nat) : List (Fin 2 × Event) :=
  (commandRun ++ [Event.thread 2 ⟨none, true, 0⟩] ++ senderRun 0 ++ senderRun 1 ++ [Event.receive data, .rxHook 0] ++
    List.replicate k (Event.thread 2 ⟨none, true, 0⟩)).map ((0, ·)) ++
  (Event.unload :: List.replicate 5 (Event.ctl true)).map ((1, ·)) ++
  List.replicate 14 (0, Event.thread 2 ⟨none, true, 0⟩)

/-- The packet of the first direction comes back, and that of the second is lost. -/
theorem loss_counted_vlan42 : ∃ (s t : Pieces 2) (hist : Dir → Tally),
    (tallyLts 2 kernel32).Reach (fun x e => x.1.writers.OneAtATime e ∧ Honest x.1.whole x.2 e.2) (s, hist) ∧
    (piecesLts 2 kernel32).step s (0, .thread 2 ⟨none, true, 0⟩) = some t ∧ (hist 0).sent = 1 ∧ (hist 0).counted = 1 ∧
    (hist 1).sent = 1 ∧ (hist 1).counted = 0 ∧
    ∀ d, (t.writers.mod.stCfg d).status.pktloseCount = (hist d).sent - (hist d).counted := by
  have hrun : ((tallyLts 2 kernel32).runIf (fun x e => x.1.writers.OneAtATime e ∧ Honest x.1.whole x.2 e.2)
      (.start 2 kernel32 1000, fun _ => .zero) (lossRun vlan42 5)).any
      (fun x => x.1.writers.threads[2]? == some ⟨.compute (.finish 1), true, true⟩ && x.2 0 == ⟨1, 1, 1, 0⟩ &&
        x.2 1 == ⟨1, 0, 0, 0⟩ && ((piecesLts 2 kernel32).step x.1 (0, .thread 2 ⟨none, true, 0⟩)).isSome) = true := by
    decide +kernel
  obtain ⟨⟨s, hist⟩, hr, hp⟩ := Lts.exists_reach_of_runIf hrun ⟨⟨1000, by decide, rfl⟩, rfl⟩
  simp only [Bool.and_eq_true, beq_iff_eq] at hp
  obtain ⟨⟨⟨hth, h₀⟩, h₁⟩, hs⟩ := hp
  obtain ⟨t, hs⟩ := Option.isSome_iff_exists.mp hs
  refine ⟨s, t, hist, hr, hs, by rw [h₀], by rw [h₀], by rw [h₁], by rw [h₁], fun d => ?_⟩
  obtain ⟨-, -, -, hsend, hrcv, hlose⟩ := loss_counted hr hth rfl hs d
  rw [← hsend, ← hrcv]
  refine hlose.mpr ?_
  rcases dir_cases d with rfl | rfl
  · rw [h₀]
  · rw [h₁]

/-- The packet of the first direction comes back corrupted: one is sent, one is received, and `2 ^ 64 - 1` are lost. -/
theorem loss_wraps : ∃ (s : Pieces 2) (hist : Dir → Tally),
    (tallyLts 2 kernel32).Reach (fun x e => x.1.writers.OneAtATime e ∧ Honest x.1.whole x.2 e.2) (s, hist) ∧
    s.writers.threads[2]?.any (·.body == .compute .done) = true ∧ (s.writers.mod.stCfg 0).status.pktsendCount = 1 ∧
    (s.writers.mod.stCfg 0).status.pktrcvCount = 1 ∧ (s.writers.mod.stCfg 0).status.pktloseCount = 2 ^ 64 - 1 := by
  have hrun : ((tallyLts 2 kernel32).runIf (fun x e => x.1.writers.OneAtATime e ∧ Honest x.1.whole x.2 e.2)
      (.start 2 kernel32 1000, fun _ => .zero)
      (lossRun (vlan42.set 45 0xc3) 6 ++ [(0, Event.thread 2 ⟨none, true, 0⟩)])).any
      (fun x => x.1.writers.threads[2]?.any (·.body == .compute .done) &&
        (x.1.writers.mod.stCfg 0).status.pktsendCount == 1 && (x.1.writers.mod.stCfg 0).status.pktrcvCount == 1 &&
        (x.1.writers.mod.stCfg 0).status.pktloseCount == 2 ^ 64 - 1) = true := by
    decide +kernel
  obtain ⟨⟨s, hist⟩, hr, hp⟩ := Lts.exists_reach_of_runIf hrun ⟨⟨1000, by decide, rfl⟩, rfl⟩
  simp only [Bool.and_eq_true, beq_iff_eq] at hp
  exact ⟨s, hist, hr, hp.1.1.1, hp.1.1.2, hp.1.2, hp.2⟩

end QuickStart.Speedtest
