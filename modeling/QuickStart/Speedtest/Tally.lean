import Mathlib.Data.List.Nodup
import QuickStart.Speedtest.Custody
import QuickStart.Speedtest.Pieces

/-! # The packets of a test

A history that counts, for each direction, the packets that its senders have sent since the status was cleared,
those of them that came to the fast hook, and those that a compute thread has counted, and the counters of the
module in its terms. -/

namespace QuickStart.Speedtest
open State Checksum

/-- The packets of a direction since its status was cleared; `corrupt` are the counted ones with another checksum. -/
structure Tally where
  sent : Nat
  arrived : Nat
  counted : Nat
  corrupt : Nat
  deriving DecidableEq, Repr

def Tally.zero : Tally := ⟨0, 0, 0, 0⟩

/-- The direction for which the next step of the thread sends a packet. -/
def Body.sends (x : Input) : Body → Option Dir
  | .sender d (.send _) => if x.sent then some d else none
  | _ => none

/-- The direction of a packet that arrives for the fast hook. -/
def State.arrives (s : State) (data : List Byte) : Option Dir :=
  if s.mod.rxHook = .fastRcvSpeedtestPkt then (s.mod.newSkb data).dir else none

/-- The direction whose status the next statement of the command clears. -/
def State.zeroes (s : State) : Option Dir :=
  match s.ctl with
  | .cmd _ (.clear d) => if (s.mod.stCfg d).enable ≠ 0 then some d else none
  | _ => none

/-- What a statement of a thread adds; `a` is the packet in its hand. -/
def Body.tally (m : Mod) (a : Option (Skb × PktPc)) (x : Input) (d : Dir) (h : Tally) (b : Body) : Tally :=
  match a with
  | some (_, .receive e) => if e = d then { h with counted := h.counted + 1 } else h
  | some (skb, .check e) => if e = d ∧ (m.stCfg d).status.differs skb then { h with corrupt := h.corrupt + 1 } else h
  | some _ => h
  | none => if b.sends x = some d then { h with sent := h.sent + 1 } else h

def tally (s : State × Hand) (e : Event) (h : Dir → Tally) (d : Dir) : Tally :=
  match e with
  | .thread tid x => (s.1.threads[tid]?.map fun th => th.body.tally s.1.mod (s.2 tid) x d (h d)).getD (h d)
  | .receive data => if s.1.arrives data = some d then { h d with arrived := (h d).arrived + 1 } else h d
  | .ctl _ => if s.1.zeroes = some d then .zero else h d
  | _ => h d

/-! ### What a thread does to the counters -/

/-- The sender has sent a packet that it has still to count. -/
def Body.unsaid (d : Dir) : Body → Bool
  | .sender e (.count _) => e == d
  | _ => false

/-- `pktlose_count` of the direction has been computed by this compute thread. -/
def Body.lost (d : Dir) : Body → Bool
  | .compute (.lose e) => d < e
  | .compute (.finish e) => d ≤ e
  | _ => false

/-- The packets of the direction in the queue. -/
def Mod.queued (m : Mod) (d : Dir) : Nat := m.compSkbqueue.countP fun skb => skb.dir == some d

structure Status.SameCounts (st st' : Status) : Prop where
  send : st'.pktsendCount = st.pktsendCount
  rcv : st'.pktrcvCount = st.pktrcvCount
  err : st'.pkterrCount = st.pkterrCount
  lose : st'.pktloseCount = st.pktloseCount

theorem sameCounts_setStatus {m : Mod} {e : Dir} {st : Status} (h : (m.stCfg e).status.SameCounts st) (d : Dir) :
    (m.stCfg d).status.SameCounts ((m.setStatus e st).stCfg d).status where
  send := setCfg_keep (·.status.pktsendCount) h.send d
  rcv := setCfg_keep (·.status.pktrcvCount) h.rcv d
  err := setCfg_keep (·.status.pkterrCount) h.err d
  lose := setCfg_keep (·.status.pktloseCount) h.lose d

/-- What a step of a thread does to the counters of the direction `d`. -/
inductive Moves (x : Input) (d : Dir) (m m' : Mod) : Body → Body → Prop
  | quiet {b b' : Body} (counts : (m.stCfg d).status.SameCounts (m'.stCfg d).status)
      (queue : m'.compSkbqueue = m.compSkbqueue) (unsaid : b'.unsaid d = b.unsaid d)
      (lost : b'.lost d = true → b.lost d = true) (tally : ∀ h, b.tally m none x d h = h) : Moves x d m m' b b'
  | sends (l : SendLoop) (sent : x.sent = true) (counts : (m.stCfg d).status.SameCounts (m'.stCfg d).status)
      (queue : m'.compSkbqueue = m.compSkbqueue) : Moves x d m m' (.sender d (.send l)) (.sender d (.count l))
  | counts (l : SendLoop) (status : (m'.stCfg d).status =
        { (m.stCfg d).status with pktsendCount := ((m.stCfg d).status.pktsendCount + 1) % 2 ^ 64 })
      (queue : m'.compSkbqueue = m.compSkbqueue) : Moves x d m m' (.sender d (.count l)) (.sender d (.test l))
  | loses (status : (m'.stCfg d).status =
        { (m.stCfg d).status with pktloseCount := lostPkts (m.stCfg d).status })
      (queue : m'.compSkbqueue = m.compSkbqueue) : Moves x d m m' (.compute (.lose d)) (.compute (.finish d))

theorem moves_of_ne {x : Input} {m : Mod} {d e : Dir} (hne : d ≠ e) (cfg : Cfg) (pc pc' : SenderPc) :
    Moves x d m (m.setCfg e cfg) (.sender e pc) (.sender e pc') := by
  refine .quiet ?_ rfl ?_ (fun hl => by cases hl) fun h => ?_
  · rw [setCfg_of_ne hne]
    exact ⟨rfl, rfl, rfl, rfl⟩
  · cases pc <;> cases pc' <;> simp [Body.unsaid, Ne.symm hne]
  · cases pc <;> simp [Body.tally, Body.sends, Ne.symm hne]

theorem Sends.moves {K : Kernel} {j : Nat} {stop : Bool} {x : Input} {m : Mod} {d : Dir} {cfg : Cfg} {pc pc' : SenderPc}
    (h : Sends K j stop x (m.stCfg d) pc cfg pc') : Moves x d m (m.setCfg d cfg) (.sender d pc) (.sender d pc') := by
  have frame (hcounts : (m.stCfg d).status.SameCounts cfg.status)
      (hunsaid : Body.unsaid d (.sender d pc') = Body.unsaid d (.sender d pc))
      (hsends : Body.sends x (.sender d pc) = none) : Moves x d m (m.setCfg d cfg) (.sender d pc) (.sender d pc') := by
    refine .quiet ?_ rfl hunsaid (fun hl => by cases hl) fun h => ?_
    · rw [setCfg_self]
      exact hcounts
    · rw [Body.tally, hsends]
      rfl
  cases h with
  | sends l =>
    by_cases hsent : x.sent = true
    · rw [if_pos hsent]
      exact .sends l hsent (by rw [setCfg_self]; exact ⟨rfl, rfl, rfl, rfl⟩) rfl
    · refine frame ⟨rfl, rfl, rfl, rfl⟩ ?_ ?_
      · rw [if_neg hsent]
        rfl
      · rw [Body.sends, if_neg hsent]
  | counts l => exact .counts l (by rw [setCfg_self]) rfl
  | enters => exact frame ⟨rfl, rfl, rfl, rfl⟩ (by split <;> rfl) rfl
  | makes => exact frame ⟨rfl, rfl, rfl, rfl⟩ (by cases x.made <;> rfl) rfl
  | tests l => exact frame ⟨rfl, rfl, rfl, rfl⟩ (by split <;> [rfl; (split <;> rfl)]) rfl
  | _ => exact frame ⟨rfl, rfl, rfl, rfl⟩ rfl rfl

theorem Computes.moves {K : Kernel} {stop : Bool} (x : Input) {m m' : Mod} {pc pc' : ComputePc} (d : Dir)
    (h : Computes K stop m pc m' pc') (hpops : Body.pops m (.compute pc) = false) :
    Moves x d m m' (.compute pc) (.compute pc') := by
  have frame (hcounts : (m.stCfg d).status.SameCounts (m'.stCfg d).status) (hqueue : m'.compSkbqueue = m.compSkbqueue)
      (hlost : Body.lost d (.compute pc') = true → Body.lost d (.compute pc) = true) :
      Moves x d m m' (.compute pc) (.compute pc') := .quiet hcounts hqueue rfl hlost fun _ => rfl
  cases h with
  | counts endTime skb rest hq | frees skb rest hq => simp [Body.pops, hq] at hpops
  | passes e endTime =>
    refine frame ⟨rfl, rfl, rfl, rfl⟩ rfl fun hl => ?_
    rcases dir_cases e with rfl | rfl <;> cases hl
  | loses e =>
    by_cases hde : d = e
    · subst hde
      exact .loses (setStatus_self _ _ _) rfl
    · refine frame ?_ rfl fun hl => ?_
      · rw [setStatus_of_ne hde]
        exact ⟨rfl, rfl, rfl, rfl⟩
      · simp only [Body.lost, decide_eq_true_eq] at hl ⊢
        exact lt_of_le_of_ne hl hde
  | finishes e =>
    refine frame ?_ rfl fun hl => ?_
    · refine sameCounts_setStatus ?_ d
      exact ⟨rfl, rfl, rfl, rfl⟩
    · rcases dir_cases e with rfl | rfl
      · simp only [Body.lost, if_true, decide_eq_true_eq] at hl ⊢
        rcases dir_cases d with rfl | rfl
        · exact le_refl _
        · exact absurd hl (lt_irrefl _)
      · cases hl
  | enters | tests =>
    refine frame ⟨rfl, rfl, rfl, rfl⟩ rfl fun hl => ?_
    split at hl <;> cases hl
  | testsTimer =>
    refine frame ⟨rfl, rfl, rfl, rfl⟩ rfl fun hl => ?_
    split at hl
    · cases hl
    · simp [Body.lost] at hl
  | initsTimer =>
    refine frame ⟨rfl, rfl, rfl, rfl⟩ rfl fun hl => ?_
    simp [Body.lost] at hl
  | _ => exact frame ⟨rfl, rfl, rfl, rfl⟩ rfl fun hl => by cases hl

theorem bodyStep_moves {K : Kernel} {stop : Bool} {x : Input} {m m' : Mod} {b b' : Body} (d : Dir)
    (hs : bodyStep K stop x m b = some (m', b')) (hpops : b.pops m = false) : Moves x d m m' b b' := by
  cases bodyStep_executes hs with
  | @sends e cfg pc pc' h =>
    by_cases hne : d = e
    · subst hne
      exact h.moves
    · exact moves_of_ne hne cfg pc pc'
  | computes h => exact h.moves x d hpops

/-! ### The counters in terms of the packets -/

/-- The packets of the direction that have come to the fast hook and are still to be taken from the queue. -/
def State.inFlight (s : State) (d : Dir) : Nat :=
  s.mod.queued d + s.rxCalls.countP fun r => r.1 == .fastRcvSpeedtestPkt && r.2.dir == some d

/-- The packets of the direction that have been sent and are still to be added to `pktsend_count`. -/
def State.unsaid (s : State) (d : Dir) : Nat := s.threads.countP fun th => th.body.unsaid d

/-- The packets in hand with a property. -/
def State.inHand (s : State) (hand : Hand) (p : Skb × PktPc → Bool) : Nat :=
  ((List.range s.threads.length).map hand).countP fun a => a.any p

/-- A packet of the direction that is still to be added to `pktrcv_count`. -/
def unreceived (d : Dir) (a : Skb × PktPc) : Bool :=
  a.1.dir == some d && match a.2 with
    | .compare _ | .receive _ => true
    | _ => false

/-- A compute thread that has not returned. -/
def Body.computing : Body → Bool
  | .compute pc => pc != .done
  | _ => false

/-- The network neither duplicates nor invents packets of a test: no more of them come to the fast hook than have
    been sent, and there are fewer than `2 ^ 64`. A test begins without packets of an earlier one, in the queue or in
    hand, and every earlier compute thread has returned when a command creates another. -/
def Honest (s : State × Hand) (h : Dir → Tally) : Event → Prop
  | .thread tid x => ∀ d ∈ s.1.threads[tid]?.bind fun th => th.body.sends x, (h d).sent + 1 < 2 ^ 64
  | .receive data => ∀ d ∈ s.1.arrives data, (h d).arrived < (h d).sent
  | .ctl ok => (∀ d ∈ s.1.zeroes, s.1.inFlight d = 0 ∧ s.1.inHand s.2 (uncounted d) = 0) ∧
    (s.1.ctl.creates = some .compute → ok = true → ∀ th ∈ s.1.threads, th.body.computing = false)
  | _ => True

instance (s : State × Hand) (h : Dir → Tally) : ∀ e : Event, Decidable (Honest s h e)
  | .thread _ _ => inferInstanceAs (Decidable (∀ d ∈ (_ : Option Dir), _))
  | .receive _ => inferInstanceAs (Decidable (∀ d ∈ (_ : Option Dir), _))
  | .ctl _ => inferInstanceAs (Decidable (_ ∧ _))
  | .command _ | .unload | .rxHook _ | .transmit _ _ | .timer | .tick => inferInstanceAs (Decidable True)

/-- The counters of the direction in terms of its packets. -/
structure Tallied (s : State) (hand : Hand) (d : Dir) (h : Tally) : Prop where
  send : (s.mod.stCfg d).status.pktsendCount + s.unsaid d = h.sent
  rcv : (s.mod.stCfg d).status.pktrcvCount = h.counted
  err : (s.mod.stCfg d).status.pkterrCount + s.inHand hand (·.2 == .error d) = h.corrupt
  corrupt : h.corrupt + s.inHand hand (·.2 == .check d) ≤ h.counted
  arrived : h.counted + s.inHand hand (unreceived d) + s.inFlight d ≤ h.arrived
  sent : h.arrived ≤ h.sent
  fits : h.sent < 2 ^ 64

section InHand
variable {s t : State} {hand : Hand} {p : Skb × PktPc → Bool}

theorem inHand_update (hand : Hand) (p : Skb × PktPc → Bool) {tid : Nat} {th : Thread} (hth : s.threads[tid]? = some th)
    (a : Option (Skb × PktPc)) : s.inHand (Function.update hand tid a) p + (if (hand tid).any p then 1 else 0) =
      s.inHand hand p + if a.any p then 1 else 0 := by
  have hlt : tid < s.threads.length := (List.getElem?_eq_some_iff.mp hth).1
  have hget : ((List.range s.threads.length).map hand)[tid]? = some (hand tid) := by
    rw [List.getElem?_map, List.getElem?_range hlt, Option.map_some]
  have hset : (List.range s.threads.length).map (Function.update hand tid a) =
      ((List.range s.threads.length).map hand).set tid a := by
    have hidx := List.nodup_range.idxOf_getElem tid (hlt.trans_eq List.length_range.symm)
    rw [List.getElem_range] at hidx
    rw [List.nodup_range.map_update, if_pos (List.mem_range.mpr hlt), hidx]
  have hcount := Calls.countP_put hget (fun a => a.any p) (some a)
  rw [State.inHand, hset]
  exact hcount

/-- New threads have no packet in hand. -/
theorem Handed.inHand_eq (h : Handed s hand) (hlen : s.threads.length ≤ t.threads.length) :
    t.inHand hand p = s.inHand hand p := by
  obtain ⟨k, hk⟩ := Nat.exists_eq_add_of_le hlen
  have hnew : ((List.range k).map (s.threads.length + ·)).countP (fun tid => (hand tid).any p) = 0 := by
    rw [List.countP_eq_zero]
    intro tid hm hany
    obtain ⟨i, -, rfl⟩ := List.mem_map.mp hm
    obtain ⟨a, ha, -⟩ := (Option.any_eq_true _ _).mp hany
    obtain ⟨th, hth, -⟩ := h.reads _ a ha
    have := (List.getElem?_eq_some_iff.mp hth).1
    omega
  rw [State.inHand, State.inHand, hk, List.range_add, List.countP_map, List.countP_map, List.countP_append]
  exact (congrArg _ hnew).trans (Nat.add_zero _)

theorem Handed.inHand_zero (h : Handed s hand) {q : Skb × PktPc → Bool} (hzero : s.inHand hand q = 0)
    (hp : ∀ skb pc, pc.Placed skb → p (skb, pc) = true → q (skb, pc) = true) : s.inHand hand p = 0 := by
  rw [State.inHand, List.countP_eq_zero] at hzero ⊢
  intro a hm hany
  obtain ⟨tid, -, rfl⟩ := List.mem_map.mp hm
  obtain ⟨⟨skb, pc⟩, ha, hpa⟩ := (Option.any_eq_true _ _).mp hany
  refine hzero _ hm ?_
  rw [ha]
  exact hp skb pc (h.placed tid skb pc ha) hpa

theorem BodiesKept.length_le (h : BodiesKept s t) : s.threads.length ≤ t.threads.length := by
  by_contra hlt
  obtain ⟨th', hth', -⟩ := h t.threads.length _ (List.getElem?_eq_getElem (not_le.mp hlt))
  exact absurd (List.getElem?_eq_some_iff.mp hth').1 (lt_irrefl _)

end InHand

/-- The statements of the threads are the same, apart from new threads. -/
theorem Acts.unsaid {s t : State} {ok : Bool} (ha : Acts s ok t) (d : Dir) : t.unsaid d = s.unsaid d := by
  have hmodify {tid : Nat} {f : Thread → Thread} (hth : t.threads = s.threads.modify tid f)
      (hf : ∀ th, (f th).body = th.body) : t.unsaid d = s.unsaid d := by
    have hmap : t.threads.map (·.body) = s.threads.map (·.body) := by
      refine List.ext_getElem? fun i => ?_
      rw [List.getElem?_map, List.getElem?_map, hth, List.getElem?_modify]
      cases s.threads[i]? with
      | none => rfl
      | some th =>
        simp only [Option.map_eq_map, Option.map_some]
        split
        · rw [hf]
        · rfl
    have := congrArg (List.countP (Body.unsaid d)) hmap
    rwa [List.countP_map, List.countP_map] at this
  cases ha.managed with
  | quiet hth | fails _ _ _ hth => rw [State.unsaid, hth, State.unsaid]
  | tells _ _ _ _ hth => exact hmodify hth fun _ => rfl
  | wakes _ _ _ _ hth => exact hmodify hth fun _ => rfl
  | creates sl _ _ hth =>
    rw [State.unsaid, hth, List.countP_append, State.unsaid]
    cases sl <;> rfl

theorem State.zeroes_eq {s : State} {d : Dir} (h : s.zeroes = some d) :
    ∃ c, s.ctl = .cmd c (.clear d) ∧ (s.mod.stCfg d).enable ≠ 0 := by
  rw [State.zeroes] at h
  split at h
  · rename_i c e hctl
    split at h
    · rename_i hen
      obtain rfl := Option.some.inj h
      exact ⟨c, hctl, hen⟩
    · cases h
  · cases h

/-- A command writes the status only to clear it. -/
theorem Acts.status {s t : State} {ok : Bool} (ha : Acts s ok t) (d : Dir) :
    (t.mod.stCfg d).status = if s.zeroes = some d then .zero else (s.mod.stCfg d).status := by
  have hset (m : Mod) (e : Dir) (c : Cfg) (hc : c.status = (m.stCfg e).status) :
      ((m.setCfg e c).stCfg d).status = (m.stCfg d).status := setCfg_keep (·.status) hc d
  split
  · rename_i hz
    obtain ⟨c, hctl, hen⟩ := State.zeroes_eq hz
    cases ha
    case clears c' e hctl' _ =>
      obtain ⟨-, he⟩ := Ctl.cmd.inj (hctl.symm.trans hctl')
      cases he
      exact congrArg Cfg.status (setCfg_self _ _ _)
    case skips c' e hctl' hno =>
      obtain ⟨-, he⟩ := Ctl.cmd.inj (hctl.symm.trans hctl')
      cases he
      exact absurd hno hen
    all_goals simp_all [Ctl.stopping, Ctl.wakes]
  · rename_i hz
    cases ha
    case clears c e hctl hen =>
      have hne : d ≠ e := by
        rintro rfl
        refine hz ?_
        rw [State.zeroes, hctl]
        exact if_pos hen
      exact congrArg Cfg.status (setCfg_of_ne hne)
    case parses c e _ _ =>
      have hport := hset (sscanfCmd s.mod e c.nums) e
        { (sscanfCmd s.mod e c.nums).stCfg e with port := getSpeedtestPortByIndex e } rfl
      exact hport.trans (hset s.mod e _ rfl)
    case rejects c e _ _ => exact hset _ e _ rfl
    case creates c e _ _ => exact hset _ e _ rfl
    case fails c e _ _ => exact hset _ e _ rfl
    all_goals rfl

namespace Tallied
variable {K : Kernel} {s t : State} {hand hand' : Hand} {d : Dir} {h : Tally} {hist : Dir → Tally}

theorem start (K : Kernel) (j : Nat) (d : Dir) : Tallied (start K j) (fun _ => none) d .zero where
  send := rfl
  rcv := rfl
  err := rfl
  corrupt := le_refl _
  arrived := le_refl _
  sent := le_refl _
  fits := by decide

theorem of_frame (ht : Tallied s hand d h)
    (hsend : (t.mod.stCfg d).status.pktsendCount = (s.mod.stCfg d).status.pktsendCount)
    (hrcv : (t.mod.stCfg d).status.pktrcvCount = (s.mod.stCfg d).status.pktrcvCount)
    (herr : (t.mod.stCfg d).status.pkterrCount = (s.mod.stCfg d).status.pkterrCount)
    (hunsaid : t.unsaid d = s.unsaid d) (hin : ∀ p, t.inHand hand p = s.inHand hand p)
    (hfly : t.inFlight d ≤ s.inFlight d) : Tallied t hand d h where
  send := by rw [hsend, hunsaid, ht.send]
  rcv := hrcv.trans ht.rcv
  err := by rw [herr, hin, ht.err]
  corrupt := by
    rw [hin]
    exact ht.corrupt
  arrived := by
    rw [hin]
    exact (Nat.add_le_add_left hfly _).trans ht.arrived
  sent := ht.sent
  fits := ht.fits

/-- The senders and the packets that arrive have no part in a statement for a packet. -/
theorem of_hand (ht : Tallied s hand d h) {m : Mod} {h' : Tally}
    (hsend : (m.stCfg d).status.pktsendCount = (s.mod.stCfg d).status.pktsendCount)
    (hrcv : (m.stCfg d).status.pktrcvCount = h'.counted)
    (herr : (m.stCfg d).status.pkterrCount + s.inHand hand' (·.2 == .error d) = h'.corrupt)
    (hcorrupt : h'.corrupt + s.inHand hand' (·.2 == .check d) ≤ h'.counted)
    (hleft : h'.counted + s.inHand hand' (unreceived d) + m.queued d ≤
      h.counted + s.inHand hand (unreceived d) + s.mod.queued d)
    (hsame : h'.sent = h.sent ∧ h'.arrived = h.arrived) : Tallied { s with mod := m } hand' d h' where
  send := by
    rw [hsame.1, ← ht.send]
    exact congrArg (· + _) hsend
  rcv := hrcv
  err := herr
  corrupt := hcorrupt
  arrived := by
    have harrived := ht.arrived
    simp only [State.inFlight] at harrived ⊢
    rw [hsame.2]
    exact le_trans (by simp only [State.inHand] at *; omega) harrived
  sent := by
    rw [hsame.1, hsame.2]
    exact ht.sent
  fits := by
    rw [hsame.1]
    exact ht.fits

section Hands
variable {tid : Nat} {th : Thread} {skb : Skb} {e : Dir}

/-- A statement that leaves the status of the direction as it is. -/
theorem goes_on (ht : Tallied s hand d h) (hth : s.threads[tid]? = some th) {m : Mod} {a : Option (Skb × PktPc)}
    (hstatus : (m.stCfg d).status = (s.mod.stCfg d).status)
    (hcheck : a.any (·.2 == .check d) = (hand tid).any (·.2 == .check d))
    (herror : a.any (·.2 == .error d) = (hand tid).any (·.2 == .error d))
    (hleft : m.queued d + (if a.any (unreceived d) then 1 else 0) ≤
      s.mod.queued d + if (hand tid).any (unreceived d) then 1 else 0) :
    Tallied { s with mod := m } (Function.update hand tid a) d h := by
  have hcheck' := inHand_update hand (·.2 == .check d) hth a
  have herror' := inHand_update hand (·.2 == .error d) hth a
  have hunreceived := inHand_update hand (unreceived d) hth a
  rw [hcheck] at hcheck'
  rw [herror] at herror'
  refine ht.of_hand (by rw [hstatus]) (by rw [hstatus, ht.rcv]) ?_ ?_ (by omega) ⟨rfl, rfl⟩
  · rw [hstatus, Nat.add_right_cancel herror', ht.err]
  · rw [Nat.add_right_cancel hcheck']
    exact ht.corrupt

theorem take (ht : Tallied s hand d h) (hth : s.threads[tid]? = some th) (ha : hand tid = none) {rest : List Skb}
    (hq : s.mod.compSkbqueue = skb :: rest) {p : PktPc} (hp : p = .compare 0 ∨ p = .free) :
    Tallied { s with mod := { s.mod with compSkbqueue := rest } } (Function.update hand tid (some (skb, p))) d h := by
  have hqueue : s.mod.queued d = rest.countP (fun skb => skb.dir == some d) + if skb.dir == some d then 1 else 0 := by
    rw [Mod.queued, hq, List.countP_cons]
  refine ht.goes_on hth rfl ?_ ?_ ?_
  · rw [ha]
    rcases hp with rfl | rfl <;> rfl
  · rw [ha]
    rcases hp with rfl | rfl <;> rfl
  · rw [hqueue]
    refine Nat.le_add_right_of_le (Nat.add_le_add_left ?_ _)
    rcases hp with rfl | rfl <;> cases hd : skb.dir == some d <;> simp [unreceived, hd]

theorem compare (ht : Tallied s hand d h) (hth : s.threads[tid]? = some th) (ha : hand tid = some (skb, .compare e))
    (hplaced : PktPc.Placed skb (.compare e)) {p : PktPc}
    (hp : p = if skb.hSource = stMac e then .receive e else if e = 0 then .compare 1 else .free) :
    Tallied { s with mod := s.mod } (Function.update hand tid (some (skb, p))) d h := by
  rcases compare_cases hplaced hp with ⟨rfl, -⟩ | ⟨rfl, -⟩ | ⟨rfl, hnone⟩
  · exact ht.goes_on hth rfl (by rw [ha]; rfl) (by rw [ha]; rfl) (by rw [ha]; rfl)
  · exact ht.goes_on hth rfl (by rw [ha]; rfl) (by rw [ha]; rfl) (by rw [ha]; rfl)
  · refine ht.goes_on hth rfl (by rw [ha]; rfl) (by rw [ha]; rfl) (Nat.add_le_add_left ?_ _)
    simp [unreceived, hnone]

theorem receive (ht : Tallied s hand d h) (hth : s.threads[tid]? = some th) (ha : hand tid = some (skb, .receive e))
    (hdir : skb.dir = some e) :
    Tallied { s with mod := s.mod.setStatus e (s.mod.stCfg e).status.received }
      (Function.update hand tid (some (skb, .check e))) d (if e = d then { h with counted := h.counted + 1 } else h) := by
  by_cases hed : e = d
  · subst hed
    have hcheck := inHand_update hand (·.2 == .check e) hth (some (skb, .check e))
    have herror := inHand_update hand (·.2 == .error e) hth (some (skb, .check e))
    have hunreceived := inHand_update hand (unreceived e) hth (some (skb, .check e))
    rw [ha] at hcheck herror hunreceived
    simp [unreceived, hdir] at hcheck herror hunreceived
    have hfits := ht.fits
    have harrived := ht.arrived
    have hsent := ht.sent
    have hcorrupt := ht.corrupt
    rw [if_pos rfl]
    refine ht.of_hand (by rw [setStatus_self]; rfl) ?_ ?_ ?_ ?_ ⟨rfl, rfl⟩
    · rw [setStatus_self, Status.received, ht.rcv]
      exact Nat.mod_eq_of_lt (by omega)
    · rw [setStatus_self, herror]
      exact ht.err
    · simp only
      omega
    · rw [show (s.mod.setStatus e _).queued e = s.mod.queued e from rfl]
      simp only
      omega
  · rw [if_neg hed]
    refine ht.goes_on hth (by rw [setStatus_of_ne (Ne.symm hed)]) ?_ ?_ ?_
    · rw [ha]
      simp [hed]
    · rw [ha]
      rfl
    · rw [ha]
      refine Nat.add_le_add_left ?_ _
      simp [unreceived]

theorem check (ht : Tallied s hand d h) (hth : s.threads[tid]? = some th) (ha : hand tid = some (skb, .check e))
    {p : PktPc} (hp : p = if (s.mod.stCfg e).status.differs skb then .error e else .free) :
    Tallied { s with mod := s.mod } (Function.update hand tid (some (skb, p))) d
      (if e = d ∧ (s.mod.stCfg d).status.differs skb then { h with corrupt := h.corrupt + 1 } else h) := by
  by_cases hed : e = d
  · subst hed
    have hcheck := inHand_update hand (·.2 == .check e) hth (some (skb, p))
    have herror := inHand_update hand (·.2 == .error e) hth (some (skb, p))
    have hunreceived := inHand_update hand (unreceived e) hth (some (skb, p))
    have herr := ht.err
    have hcorrupt := ht.corrupt
    rw [ha] at hcheck herror hunreceived
    cases hdiffers : (s.mod.stCfg e).status.differs skb with
    | true =>
      rw [hdiffers, if_pos rfl] at hp
      subst hp
      simp [unreceived] at hcheck herror hunreceived
      rw [if_pos ⟨rfl, rfl⟩]
      refine ht.of_hand rfl ht.rcv ?_ ?_ (by rw [hunreceived]) ⟨rfl, rfl⟩ <;> simp only <;> omega
    | false =>
      rw [hdiffers, if_neg Bool.false_ne_true] at hp
      subst hp
      simp [unreceived] at hcheck herror hunreceived
      rw [if_neg fun hd => Bool.false_ne_true hd.2]
      exact ht.of_hand rfl ht.rcv (by omega) (by omega) (by rw [hunreceived]) ⟨rfl, rfl⟩
  · rw [if_neg fun hd => hed hd.1]
    have hpast : p = .error e ∨ p = .free := by
      rw [hp]
      split
      · exact Or.inl rfl
      · exact Or.inr rfl
    refine ht.goes_on hth rfl ?_ ?_ (Nat.add_le_add_left ?_ _) <;> rw [ha] <;> rcases hpast with rfl | rfl <;>
      simp [unreceived, hed]

theorem error (ht : Tallied s hand d h) (hth : s.threads[tid]? = some th) (ha : hand tid = some (skb, .error e)) :
    Tallied { s with mod := s.mod.setStatus e (s.mod.stCfg e).status.erred }
      (Function.update hand tid (some (skb, .free))) d h := by
  by_cases hed : e = d
  · subst hed
    have hcheck := inHand_update hand (·.2 == .check e) hth (some (skb, .free))
    have herror := inHand_update hand (·.2 == .error e) hth (some (skb, .free))
    have hunreceived := inHand_update hand (unreceived e) hth (some (skb, .free))
    rw [ha] at hcheck herror hunreceived
    simp [unreceived] at hcheck herror hunreceived
    have herr := ht.err
    have hcorrupt := ht.corrupt
    have harrived := ht.arrived
    have hsent := ht.sent
    have hfits := ht.fits
    refine ht.of_hand (by rw [setStatus_self]; rfl) (by rw [setStatus_self]; exact ht.rcv) ?_ (by omega)
      (by rw [hunreceived]; rfl) ⟨rfl, rfl⟩
    rw [setStatus_self, Status.erred]
    simp only
    rw [Nat.mod_eq_of_lt (by omega)]
    omega
  · refine ht.goes_on hth (by rw [setStatus_of_ne (Ne.symm hed)]) (by rw [ha]; rfl) ?_ (by rw [ha]; rfl)
    rw [ha]
    simp [hed]

/-- A statement for a packet. -/
theorem piece (ht : Tallied s hand d h) (hheld : Handed s hand) (x : Input) {m : Mod} {a : Option (Skb × PktPc)}
    (hth : s.threads[tid]? = some th) (hp : Piece s.mod th.body (hand tid) m a) :
    Tallied { s with mod := m } (Function.update hand tid a) d (th.body.tally s.mod (hand tid) x d h) := by
  have hplaced := hheld.placed tid
  generalize ha : hand tid = c at hp hplaced
  cases hp with
  | takes endTime skb rest hbody hq =>
    rw [show th.body.tally s.mod none x d h = h by rw [hbody]; rfl]
    exact ht.take hth ha hq (Or.inl rfl)
  | takesOut skb rest hbody hq =>
    rw [show th.body.tally s.mod none x d h = h by rw [hbody]; rfl]
    exact ht.take hth ha hq (Or.inr rfl)
  | compares skb e => exact ht.compare hth ha (hplaced _ _ rfl) rfl
  | receives skb e => exact ht.receive hth ha (hplaced _ _ rfl)
  | checks skb e => exact ht.check hth ha rfl
  | errs skb e => exact ht.error hth ha
  | frees skb =>
    exact ht.goes_on hth rfl (by rw [ha]; rfl) (by rw [ha]; rfl) (by rw [ha]; exact Nat.le_add_right _ _)

end Hands

/-- A statement of a thread that has no packet in hand and takes none. -/
theorem ran (ht : Tallied s hand d h) (hheld : Handed s hand) {tid : Nat} {x : Input} {th : Thread} {m : Mod} {b : Body}
    (hr : Ran K s t tid x th m b) (hpops : th.body.pops s.mod = false)
    (hsend : th.body.sends x = some d → h.sent + 1 < 2 ^ 64) : Tallied t hand d (th.body.tally s.mod none x d h) := by
  have hlen : s.threads.length ≤ t.threads.length := by rw [hr.eq, List.length_set]
  have hin (p : Skb × PktPc → Bool) : t.inHand hand p = s.inHand hand p := hheld.inHand_eq hlen
  obtain ⟨hth, -, hb, rfl⟩ := hr
  obtain ⟨body, woken, stop⟩ := th
  have hunsaid : ({ s with mod := m, threads := s.threads.set tid ⟨b, woken, stop⟩ } : State).unsaid d +
      (if body.unsaid d = true then 1 else 0) = s.unsaid d + if b.unsaid d = true then 1 else 0 :=
    Calls.countP_put hth (fun th => th.body.unsaid d) (some ⟨b, woken, stop⟩)
  have hfly (hq : m.compSkbqueue = s.mod.compSkbqueue) :
      ({ s with mod := m, threads := s.threads.set tid ⟨b, woken, stop⟩ } : State).inFlight d ≤ s.inFlight d := by
    rw [State.inFlight, Mod.queued, hq]
    exact le_refl _
  cases bodyStep_moves d hb hpops with
  | quiet counts queue unsaid _ tally =>
    have hsame : b.unsaid d = body.unsaid d := unsaid
    rw [tally]
    rw [hsame] at hunsaid
    exact ht.of_frame counts.send counts.rcv counts.err (Nat.add_right_cancel hunsaid) hin (hfly queue)
  | sends l sent counts queue =>
    have hone : Body.sends x (.sender d (.send l)) = some d := by rw [Body.sends, if_pos sent]
    have htally : Body.tally s.mod none x d h (.sender d (.send l)) = { h with sent := h.sent + 1 } := by
      rw [Body.tally, hone, if_pos rfl]
    rw [htally]
    simp only [Body.unsaid, beq_self_eq_true, if_true, Bool.false_eq_true, if_false, Nat.add_zero] at hunsaid
    refine ⟨?_, counts.rcv.trans ht.rcv, ?_, ?_, ?_, Nat.le_succ_of_le ht.sent, hsend hone⟩
    · rw [counts.send, hunsaid, ← ht.send, Nat.add_assoc]
    · rw [counts.err, hin, ht.err]
    · rw [hin]
      exact ht.corrupt
    · rw [hin]
      exact (Nat.add_le_add_left (hfly queue) _).trans ht.arrived
  | counts l status queue =>
    have hone : ({ s with mod := m, threads := s.threads.set tid ⟨.sender d (.test l), woken, stop⟩ } : State).unsaid d + 1 =
        s.unsaid d := by
      simpa [Body.unsaid] using hunsaid
    have hs := ht.send
    have hfits := ht.fits
    rw [show Body.tally s.mod none x d h (.sender d (.count l)) = h from rfl]
    refine ⟨?_, by rw [status]; exact ht.rcv, ?_, ?_, ?_, ht.sent, ht.fits⟩
    · rw [status]
      simp only
      rw [Nat.mod_eq_of_lt (by omega)]
      omega
    · rw [status, hin]
      exact ht.err
    · rw [hin]
      exact ht.corrupt
    · rw [hin]
      exact (Nat.add_le_add_left (hfly queue) _).trans ht.arrived
  | loses status queue =>
    rw [show Body.tally s.mod none x d h (.compute (.lose d)) = h from rfl]
    exact ht.of_frame (by rw [status]) (by rw [status]) (by rw [status]) (Nat.add_right_cancel hunsaid) hin (hfly queue)

theorem acts (ht : Tallied s hand d h) (hheld : Handed s hand) {ok : Bool} (ha : Acts s ok t)
    (hclean : s.zeroes = some d → s.inFlight d = 0 ∧ s.inHand hand (uncounted d) = 0) :
    Tallied t hand d (if s.zeroes = some d then .zero else h) := by
  have hin (p : Skb × PktPc → Bool) : t.inHand hand p = s.inHand hand p := hheld.inHand_eq ha.bodiesKept.length_le
  have hunsaid := ha.unsaid d
  have hstatus := ha.status d
  have hfly : t.inFlight d ≤ s.inFlight d := by
    obtain ⟨hcalls, hsame | ⟨-, hq, -⟩⟩ := ha.skbs
    · rw [State.inFlight, hcalls, Mod.queued, hsame.queue]
      exact le_refl _
    · rw [State.inFlight, hcalls, Mod.queued, hq]
      exact Nat.add_le_add_right (Nat.zero_le _) _
  split
  · rename_i hz
    rw [if_pos hz] at hstatus
    -- The pointer has been found empty, so that no sender of the direction is between sending and counting.
    have hnone : s.unsaid d = 0 := by
      obtain ⟨c, hctl, -⟩ := State.zeroes_eq hz
      have hnull := hheld.held.vacant (.sender d) (by rw [hctl]; simp [Ctl.vacant])
      rw [State.unsaid, List.countP_eq_zero]
      intro th hm hu
      obtain ⟨i, hi⟩ := List.mem_iff_getElem?.mp hm
      rcases hb : th.body with ⟨e, pc⟩ | pc <;> rw [hb] at hu
      · cases pc <;> try cases hu
        obtain rfl : e = d := by simpa [Body.unsaid] using hu
        have := hheld.held.not_holds hi (by rw [hb]; exact hnull)
        rw [hb] at this
        cases this
      · cases hu
    obtain ⟨hempty, hhands⟩ := hclean hz
    have hzero : t.inFlight d = 0 := Nat.le_zero.mp (hfly.trans_eq hempty)
    have hno {p : Skb × PktPc → Bool} (hp : ∀ skb pc, pc.Placed skb → p (skb, pc) = true → uncounted d (skb, pc) = true) :
        t.inHand hand p = 0 := (hin p).trans (hheld.inHand_zero hhands hp)
    have herror : t.inHand hand (·.2 == .error d) = 0 := hno fun skb pc hplaced hpc => by
      obtain rfl : pc = .error d := by simpa using hpc
      simp [uncounted, show skb.dir = some d from hplaced]
    have hcheck : t.inHand hand (·.2 == .check d) = 0 := hno fun skb pc hplaced hpc => by
      obtain rfl : pc = .check d := by simpa using hpc
      simp [uncounted, show skb.dir = some d from hplaced]
    have hunreceived : t.inHand hand (unreceived d) = 0 := hno fun skb pc _ hpc => by
      cases pc <;> simp [unreceived, uncounted] at hpc ⊢ <;> exact hpc
    refine ⟨?_, by rw [hstatus]; rfl, by rw [hstatus, herror]; rfl, by rw [hcheck]; exact le_refl _,
      by rw [hzero, hunreceived]; exact le_refl _, le_refl _, by decide⟩
    rw [hstatus, hunsaid, hnone]
    rfl
  · rename_i hz
    rw [if_neg hz] at hstatus
    exact ht.of_frame (by rw [hstatus]) (by rw [hstatus]) (by rw [hstatus]) hunsaid hin hfly

theorem arrives (ht : Tallied s hand d h) {data : List Byte} (hs : Speedtest.step K s (.receive data) = some t)
    (hfew : s.arrives data = some d → h.arrived < h.sent) :
    Tallied t hand d (if s.arrives data = some d then { h with arrived := h.arrived + 1 } else h) := by
  obtain rfl := Option.some.inj hs
  have harrives : s.arrives data = some d ↔
      (s.mod.rxHook == .fastRcvSpeedtestPkt && (s.mod.newSkb data).dir == some d) = true := by
    rw [State.arrives, Bool.and_eq_true, beq_iff_eq, beq_iff_eq]
    split
    · rename_i hfast
      exact ⟨fun hd => ⟨hfast, hd⟩, fun hd => hd.2⟩
    · rename_i hslow
      exact ⟨fun hd => (by cases hd), fun hd => absurd hd.1 hslow⟩
  obtain ⟨hsend, hrcv, herr, hcorrupt, harrived, hsent, hfits⟩ := ht
  split
  · rename_i ha
    have hmore := hfew ha
    refine ⟨hsend, hrcv, herr, hcorrupt, ?_, hmore, hfits⟩
    simp only [State.inFlight, State.inHand] at harrived ⊢
    rw [List.countP_append, List.countP_singleton, if_pos (harrives.mp ha)]
    simp only [Mod.queued] at harrived ⊢
    omega
  · rename_i ha
    refine ⟨hsend, hrcv, herr, hcorrupt, ?_, hsent, hfits⟩
    simp only [State.inFlight] at harrived ⊢
    rw [List.countP_append, List.countP_singleton, if_neg fun hf => ha (harrives.mpr hf)]
    exact harrived

theorem rxHook (ht : Tallied s hand d h) {i : Nat} (hs : Speedtest.step K s (.rxHook i) = some t) : Tallied t hand d h := by
  obtain ⟨⟨hook, skb⟩, hi, rfl⟩ := Option.map_eq_some_iff.mp hs
  have hcfg := (callRxHook_same s.mod skb hook).stCfg
  have hcalls : (s.rxCalls.eraseIdx i).countP (fun r => r.1 == .fastRcvSpeedtestPkt && r.2.dir == some d) +
      (if (hook == .fastRcvSpeedtestPkt && skb.dir == some d) = true then 1 else 0) =
        s.rxCalls.countP fun r => r.1 == .fastRcvSpeedtestPkt && r.2.dir == some d :=
    Calls.countP_put hi (fun r => r.1 == .fastRcvSpeedtestPkt && r.2.dir == some d) none
  have hqueue : (callRxHook s.mod skb hook).1.queued d ≤ s.mod.queued d +
      if (hook == .fastRcvSpeedtestPkt && skb.dir == some d) = true then 1 else 0 := by
    cases hook with
    | null => exact Nat.le_add_right _ _
    | fastRcvSpeedtestPkt =>
      simp only [callRxHook, fastRcvSpeedtestPkt, kfifoIn]
      split
      · simp only [Mod.queued, List.countP_append, List.countP_singleton]
        exact le_refl _
      · exact Nat.le_add_right _ _
    | rcvSpeedtestProbePkt =>
      refine Nat.le_add_right_of_le (le_of_eq ?_)
      have hfree (bit : Nat) : (freeProbeSkb s.mod skb bit).1.compSkbqueue = s.mod.compSkbqueue := by
        simp only [freeProbeSkb]
        split <;> rfl
      rw [Mod.queued, Mod.queued, callRxHook, rcvSpeedtestProbePkt]
      split
      · rfl
      · split
        · rw [hfree]
        · split
          · rw [hfree]
          · rfl
  refine ht.of_frame (by rw [hcfg]) (by rw [hcfg]) (by rw [hcfg]) rfl (fun _ => rfl) ?_
  simp only [State.inFlight]
  omega

theorem step (ht : ∀ d, Tallied s hand d (hist d)) (hheld : Handed s hand) {e : Event} (hok : Honest (s, hand) hist e)
    (hs : Pieced K s hand e t hand') (d : Dir) : Tallied t hand' d (tally (s, hand) e hist d) := by
  cases hs with
  | @piece tid x th m a hth _ hp =>
    rw [tally, hth]
    exact (ht d).piece hheld x hth (pieceStep_piece hp)
  | other hs hnone =>
    cases step_steps hs with
    | @runs tid x _ th m b hr =>
      obtain ⟨hhand, hpops⟩ := hnone tid x rfl th hr.thread
      rw [tally, hr.thread, Option.map_some, Option.getD_some, show (s, hand).2 tid = none from hhand]
      refine (ht d).ran hheld hr hpops fun hsends => hok d ?_
      simpa [hr.thread] using hsends
    | acts ha =>
      rw [tally]
      exact (ht d).acts hheld ha fun hz => hok.1 d hz
    | receives data =>
      rw [tally]
      exact (ht d).arrives hs fun ha => hok d ha
    | calls => exact (ht d).rxHook hs
    | transmits data dev =>
      have hcfg := (xmitSpeedtestPkt_same { s.mod with nextSkb := s.mod.nextSkb + 1 } (s.mod.newSkb data) dev).stCfg
      refine (ht d).of_frame (by rw [hcfg]) (by rw [hcfg]) (by rw [hcfg]) rfl (fun _ => rfl) (le_of_eq ?_)
      rw [State.inFlight, Mod.queued]
      rcases xmitSpeedtestPkt_skbs { s.mod with nextSkb := s.mod.nextSkb + 1 } (s.mod.newSkb data) dev with
        ⟨-, hm⟩ | ⟨-, hm⟩ <;> rw [hm] <;> rfl
    | expires =>
      have hcfg := (speedtestLoopDetectCb_same K { s.mod with loopDetectTimer := none }).stCfg
      have hq := (speedtestLoopDetectCb_skbs K { s.mod with loopDetectTimer := none }).queue
      refine (ht d).of_frame (by rw [hcfg]) (by rw [hcfg]) (by rw [hcfg]) rfl (fun _ => rfl) (le_of_eq ?_)
      rw [State.inFlight, Mod.queued, hq]
      rfl
    | begins | unloads | passes | ticks => exact (ht d).of_frame rfl rfl rfl rfl (fun _ => rfl) (le_refl _)

end Tallied

end QuickStart.Speedtest
