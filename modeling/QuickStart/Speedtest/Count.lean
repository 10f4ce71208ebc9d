import QuickStart.Speedtest.Pieces

/-! # The loops of the compute thread

`speedtest_compute_func` with every statement between taking a packet and freeing it as a step of its own, among
packets that the fast hook puts into the queue, the statements of the senders, and a command that stores the task
pointers and stops the thread. -/

namespace QuickStart.Speedtest
open Checksum

/-- The next statement of `speedtest_compute_func`; `drop` frees a packet behind the main loop. -/
inductive LoopPc
  | at_ (pc : ComputePc)
  | pkt (endTime : Nat) (skb : Skb) (p : PktPc)
  | drop (skb : Skb)
  deriving DecidableEq, Repr

/-- A statement of `speedtest_compute_func`. -/
def loopStep (K : Kernel) (stop : Bool) (m : Mod) : LoopPc → Option (Mod × LoopPc)
  | .pkt endTime skb p => some ((pktStep m skb p).1, (pktStep m skb p).2.elim (.at_ (.drain endTime)) (.pkt endTime skb))
  | .drop skb => some (devKfreeSkb m skb, .at_ .flush)
  | .at_ pc =>
    match pc, m.compSkbqueue with
    | .drain endTime, skb :: rest => some ({ m with compSkbqueue := rest }, .pkt endTime skb (.compare 0))
    | .flush, skb :: rest => some ({ m with compSkbqueue := rest }, .drop skb)
    | pc, _ => (computeStep K stop m pc).map fun r => (r.1, .at_ r.2)

def LoopStep (K : Kernel) (stop : Bool) (a b : Mod × LoopPc) : Prop := loopStep K stop a.1 a.2 = some b

/-! ### The single steps and `computeStep` -/

section Coarse
variable {K : Kernel} {stop : Bool} {m m' : Mod} {endTime : Nat} {skb : Skb} {rest : List Skb}

/-- A packet that has been taken is compared with the addresses, counted and freed. -/
theorem pkt_loop (m : Mod) : Relation.TransGen (LoopStep K stop) (m, .pkt endTime skb (.compare 0))
    (computePkt m skb, .at_ (.drain endTime)) := by
  let at_ (r : Mod × Option PktPc) : Mod × LoopPc := (r.1, r.2.elim (.at_ (.drain endTime)) (.pkt endTime skb))
  have hstep (a b : Mod × Option PktPc) (h : PktRun skb a b) : LoopStep K stop (at_ a) (at_ b) := by
    obtain ⟨m, _⟩ := a
    obtain ⟨p, rfl, rfl⟩ := h
    rfl
  exact (pkt_run m).lift at_ hstep

/-- The thread does in one or more statements what `computeStep` does in one. -/
theorem computeStep_loop {pc pc' : ComputePc} (hs : computeStep K stop m pc = some (m', pc')) :
    Relation.TransGen (LoopStep K stop) (m, .at_ pc) (m', .at_ pc') := by
  have hone (hpc : ∀ skb rest, m.compSkbqueue = skb :: rest → pc ≠ .flush ∧ ∀ endTime, pc ≠ .drain endTime) :
      Relation.TransGen (LoopStep K stop) (m, .at_ pc) (m', .at_ pc') := by
    refine .single ?_
    simp only [LoopStep, loopStep]
    split
    · rename_i skb rest hq
      exact absurd rfl ((hpc _ _ hq).2 _)
    · rename_i skb rest hq
      exact absurd rfl (hpc _ _ hq).1
    · rw [hs, Option.map_some]
  cases computeStep_computes hs with
  | counts endTime skb rest hq =>
    have htake : LoopStep K stop (m, .at_ (.drain endTime))
        ({ m with compSkbqueue := rest }, .pkt endTime skb (.compare 0)) := by
      simp only [LoopStep, loopStep, hq]
    exact .head htake (pkt_loop _)
  | frees skb rest hq =>
    have htake : LoopStep K stop (m, .at_ .flush) ({ m with compSkbqueue := rest }, .drop skb) := by
      simp only [LoopStep, loopStep, hq]
    exact .head htake (.single rfl)
  | drained endTime hq => exact hone fun skb rest h => by rw [hq] at h; cases h
  | flushed hq => exact hone fun skb rest h => by rw [hq] at h; cases h
  | _ => exact hone fun _ _ _ => ⟨(by rintro ⟨⟩), fun _ => (by rintro ⟨⟩)⟩

end Coarse

/-! ### The thread among the others -/

structure LoopState where
  mod : Mod
  stop : Bool
  pc : LoopPc

inductive LoopEvent
  -- a statement of the thread
  | run
  -- `fast_rcv_speedtest_pkt`
  | put (skb : Skb)
  -- a statement of a sender
  | sender (d : Dir) (stop : Bool) (x : Input) (pc : SenderPc)
  -- a command stores a task pointer
  | task (d : Dir) (p : Ptr)
  -- `kthread_stop`
  | stop
  | tick
  deriving DecidableEq, Repr

def LoopState.step (K : Kernel) (s : LoopState) : LoopEvent → Option LoopState
  | .run => (loopStep K s.stop s.mod s.pc).map fun r => { s with mod := r.1, pc := r.2 }
  | .put skb => some { s with mod := (fastRcvSpeedtestPkt s.mod skb).1 }
  | .sender d stop x pc =>
    (senderStep K s.mod.jiffies stop x (s.mod.stCfg d) pc).map fun r => { s with mod := s.mod.setCfg d r.1 }
  | .task d p => some { s with mod := s.mod.setTask d p }
  | .stop => some { s with stop := true }
  | .tick => some { s with mod := { s.mod with jiffies := K.add s.mod.jiffies 1 } }

/-- The packets put into the queue, those that the main loop has taken and those taken behind it. For each direction
    the packets added to `pktrcv_count`, those compared with `pkt_csum`, and with which, and those added to
    `pkterr_count`. Whether the iterations of the main loop have seen a task, and after how many ticks; the ticks. -/
structure Account where
  put : List Skb
  taken : List Skb
  dropped : List Skb
  received : Dir → List Skb
  checked : Dir → List (Skb × BitVec 16)
  erred : Dir → List Skb
  looks : List (Bool × Nat)
  ticks : Nat

namespace Account

def zero : Account where
  put := []
  taken := []
  dropped := []
  received _ := []
  checked _ := []
  erred _ := []
  looks := []
  ticks := 0

/-- After a statement of the thread. -/
def after (m : Mod) (h : Account) : LoopPc → Account
  | .at_ (.drain _) => { h with taken := h.taken ++ m.compSkbqueue.take 1 }
  | .at_ .flush => { h with dropped := h.dropped ++ m.compSkbqueue.take 1 }
  | .at_ (.look d _) => if (m.stCfg d).task ≠ .null then { h with looks := h.looks ++ [(true, h.ticks)] } else h
  | .at_ (.arm _) => { h with looks := h.looks ++ [(false, h.ticks)] }
  | .pkt _ skb (.receive d) => { h with received := Function.update h.received d (h.received d ++ [skb]) }
  | .pkt _ skb (.check d) =>
    { h with checked := Function.update h.checked d (h.checked d ++ [(skb, (m.stCfg d).status.pktCsum)]) }
  | .pkt _ skb (.error d) => { h with erred := Function.update h.erred d (h.erred d ++ [skb]) }
  | _ => h

end Account

def account (s : LoopState) (e : LoopEvent) (h : Account) : Account :=
  match e with
  | .run => h.after s.mod s.pc
  | .put skb => if s.mod.compSkbqueue.length < s.mod.fifoSize then { h with put := h.put ++ [skb] } else h
  | .tick => { h with ticks := h.ticks + 1 }
  | .sender _ _ _ _ | .task _ _ | .stop => h

/-- The thread from its first statement on, in a module with the data `m`. -/
def loopLts (K : Kernel) (m : Mod) : Lts LoopState LoopEvent where
  init s := s = { mod := m, stop := false, pc := .at_ .entry }
  step := LoopState.step K

abbrev accountLts (K : Kernel) (m : Mod) : Lts (LoopState × Account) LoopEvent := (loopLts K m).track account .zero

/-- The thread may set the deadline. -/
def LoopPc.arms : LoopPc → Bool
  | .at_ (.arm _) => true
  | _ => false

/-- Neither `jiffies` nor the deadline wraps. -/
def Unwrapped (K : Kernel) (x : LoopState × Account) : LoopEvent → Prop
  | .run => x.1.pc.arms = true → x.1.mod.jiffies + 5 * K.hz < 2 ^ K.bitsPerLong
  | .tick => x.1.mod.jiffies + 1 < 2 ^ K.bitsPerLong
  | _ => True

instance (K : Kernel) (x : LoopState × Account) : ∀ e : LoopEvent, Decidable (Unwrapped K x e)
  | .run => inferInstanceAs (Decidable (_ → _))
  | .tick => inferInstanceAs (Decidable (_ < _))
  | .put _ | .sender _ _ _ _ | .task _ _ | .stop => inferInstanceAs (Decidable True)

/-! ### What is in the hands of the thread -/

namespace LoopPc

/-- The packet taken and not freed. -/
def hand : LoopPc → List Skb
  | .pkt _ skb _ | .drop skb => [skb]
  | .at_ _ => []

/-- The packet of the direction that is not yet in `pktrcv_count`. -/
def unreceived (d : Dir) : LoopPc → List Skb
  | .pkt _ skb (.compare _) | .pkt _ skb (.receive _) => if skb.dir = some d then [skb] else []
  | _ => []

/-- The packet of the direction whose checksum has not been compared. -/
def unchecked (d : Dir) : LoopPc → List Skb
  | .pkt _ skb (.compare _) | .pkt _ skb (.receive _) | .pkt _ skb (.check _) => if skb.dir = some d then [skb] else []
  | _ => []

/-- The packet with an error that is not yet in `pkterr_count`. -/
def unsaid (d : Dir) : LoopPc → List Skb
  | .pkt _ skb (.error e) => if e = d then [skb] else []
  | _ => []

/-- The thread is in the main loop, or has not yet come to it. -/
def inLoop : LoopPc → Bool
  | .pkt _ _ _ | .at_ .entry | .at_ (.drain _) | .at_ (.look _ _) | .at_ (.arm _) | .at_ (.test _ _) => true
  | _ => false

/-- The variable `end_time`, in the main loop. -/
def endTime : LoopPc → Option Nat
  | .pkt endTime _ _ | .at_ (.drain endTime) | .at_ (.look _ endTime) | .at_ (.arm endTime) | .at_ (.test _ endTime) =>
    some endTime
  | _ => none

def Placed : LoopPc → Prop
  | .pkt _ skb p => p.Placed skb
  | _ => True

end LoopPc

/-- The checksum differs from the `pkt_csum` it has been compared with. -/
def Differs (p : Skb × BitVec 16) : Bool := p.2 ≠ ipComputeCsum (p.1.data.drop 18)

/-- The packets are taken in the order in which they were put into the queue, and each is freed. Each packet of a
    direction that the main loop has taken is added once to its `pktrcv_count`, and once to its `pkterr_count` when its
    checksum differs, apart from the packet in hand. -/
structure Accounted (m : Mod) (s : LoopState) (h : Account) : Prop where
  order : m.compSkbqueue ++ h.put = h.taken ++ h.dropped ++ s.mod.compSkbqueue
  freed : m.freed ++ (h.taken ++ h.dropped) = s.mod.freed ++ s.pc.hand
  received : ∀ d, h.received d ++ s.pc.unreceived d = h.taken.filter fun skb => skb.dir == some d
  rcv : ∀ d, (s.mod.stCfg d).status.pktrcvCount = ((m.stCfg d).status.pktrcvCount + (h.received d).length) % 2 ^ 64
  checked : ∀ d, (h.checked d).map (·.1) ++ s.pc.unchecked d = h.taken.filter fun skb => skb.dir == some d
  erred : ∀ d, h.erred d ++ s.pc.unsaid d = ((h.checked d).filter Differs).map (·.1)
  err : ∀ d, (s.mod.stCfg d).status.pkterrCount = ((m.stCfg d).status.pkterrCount + (h.erred d).length) % 2 ^ 64

/-- After more than `5 * HZ` ticks in which no iteration has seen a task. -/
def Waited (K : Kernel) (h : Account) : Prop :=
  ∃ before since ticks, h.looks = before ++ (false, ticks) :: since ∧ (∀ l ∈ since, l.1 = false) ∧
    ticks + 5 * K.hz < h.ticks

/-! ### What one statement does -/

inductive Loops (K : Kernel) (stop : Bool) (m : Mod) : LoopPc → Mod → LoopPc → Prop
  | takes (endTime : Nat) (skb : Skb) (rest : List Skb) (queue : m.compSkbqueue = skb :: rest) :
      Loops K stop m (.at_ (.drain endTime)) { m with compSkbqueue := rest } (.pkt endTime skb (.compare 0))
  | compares (endTime : Nat) (skb : Skb) (d : Dir) :
      Loops K stop m (.pkt endTime skb (.compare d)) m
        (.pkt endTime skb (if skb.hSource = stMac d then .receive d else if d = 0 then .compare 1 else .free))
  | receives (endTime : Nat) (skb : Skb) (d : Dir) :
      Loops K stop m (.pkt endTime skb (.receive d)) (m.setStatus d (m.stCfg d).status.received)
        (.pkt endTime skb (.check d))
  | checks (endTime : Nat) (skb : Skb) (d : Dir) :
      Loops K stop m (.pkt endTime skb (.check d)) m
        (.pkt endTime skb (if (m.stCfg d).status.differs skb then .error d else .free))
  | errs (endTime : Nat) (skb : Skb) (d : Dir) :
      Loops K stop m (.pkt endTime skb (.error d)) (m.setStatus d (m.stCfg d).status.erred) (.pkt endTime skb .free)
  | frees (endTime : Nat) (skb : Skb) :
      Loops K stop m (.pkt endTime skb .free) (devKfreeSkb m skb) (.at_ (.drain endTime))
  | takesOut (skb : Skb) (rest : List Skb) (queue : m.compSkbqueue = skb :: rest) :
      Loops K stop m (.at_ .flush) { m with compSkbqueue := rest } (.drop skb)
  | drops (skb : Skb) : Loops K stop m (.drop skb) (devKfreeSkb m skb) (.at_ .flush)
  | others {m' : Mod} {pc pc' : ComputePc} (step : Computes K stop m pc m' pc')
      (empty : (∃ endTime, pc = .drain endTime) ∨ pc = .flush → m.compSkbqueue = []) :
      Loops K stop m (.at_ pc) m' (.at_ pc')

theorem loopStep_loops {K : Kernel} {stop : Bool} {m m' : Mod} {pc pc' : LoopPc}
    (hs : loopStep K stop m pc = some (m', pc')) : Loops K stop m pc m' pc' := by
  cases pc with
  | at_ pc =>
    simp only [loopStep] at hs
    split at hs
    · rename_i endTime skb rest hq
      obtain ⟨rfl, rfl⟩ := Prod.mk.inj (Option.some.inj hs)
      exact .takes endTime skb rest hq
    · rename_i skb rest hq
      obtain ⟨rfl, rfl⟩ := Prod.mk.inj (Option.some.inj hs)
      exact .takesOut skb rest hq
    · rename_i hdrain hflush
      obtain ⟨⟨m₁, pc₁⟩, hr, he⟩ := Option.map_eq_some_iff.mp hs
      obtain ⟨rfl, rfl⟩ := Prod.mk.inj he
      refine .others (computeStep_computes hr) fun hpc => ?_
      cases hq : m.compSkbqueue with
      | nil => rfl
      | cons skb rest =>
        rcases hpc with ⟨endTime, rfl⟩ | rfl
        · exact absurd hq (hdrain endTime skb rest rfl)
        · exact absurd hq (hflush skb rest rfl)
  | drop skb =>
    obtain ⟨rfl, rfl⟩ := Prod.mk.inj (Option.some.inj hs)
    exact .drops skb
  | pkt endTime skb p =>
    obtain ⟨rfl, rfl⟩ := Prod.mk.inj (Option.some.inj hs)
    cases p <;> constructor

/-- What the packets are accounted with is the same. -/
structure Beside (m m' : Mod) : Prop where
  queue : m'.compSkbqueue = m.compSkbqueue
  freed : m'.freed = m.freed
  rcv : ∀ d, (m'.stCfg d).status.pktrcvCount = (m.stCfg d).status.pktrcvCount
  err : ∀ d, (m'.stCfg d).status.pkterrCount = (m.stCfg d).status.pkterrCount

theorem beside_setCfg {m : Mod} {d : Dir} {c : Cfg} (hrcv : c.status.pktrcvCount = (m.stCfg d).status.pktrcvCount)
    (herr : c.status.pkterrCount = (m.stCfg d).status.pkterrCount) : Beside m (m.setCfg d c) :=
  ⟨rfl, rfl, setCfg_keep (·.status.pktrcvCount) hrcv, setCfg_keep (·.status.pkterrCount) herr⟩

theorem Sends.beside {K : Kernel} {j : Nat} {stop : Bool} {x : Input} {m : Mod} {d : Dir} {cfg : Cfg} {pc pc' : SenderPc}
    (h : Sends K j stop x (m.stCfg d) pc cfg pc') : Beside m (m.setCfg d cfg) := by
  cases h <;> exact beside_setCfg rfl rfl

theorem Computes.beside {K : Kernel} {stop : Bool} {m m' : Mod} {pc pc' : ComputePc} (h : Computes K stop m pc m' pc')
    (empty : (∃ endTime, pc = .drain endTime) ∨ pc = .flush → m.compSkbqueue = []) : Beside m m' := by
  cases h with
  | counts endTime skb rest hq =>
    rw [empty (Or.inl ⟨_, rfl⟩)] at hq
    cases hq
  | frees skb rest hq =>
    rw [empty (Or.inr rfl)] at hq
    cases hq
  | loses d => exact beside_setCfg rfl rfl
  | finishes d => exact beside_setCfg rfl rfl
  | _ => exact ⟨rfl, rfl, fun _ => rfl, fun _ => rfl⟩

namespace Accounted
variable {m : Mod} {s t : LoopState} {h h' : Account}

theorem of_beside (ha : Accounted m s h) (hb : Beside s.mod t.mod)
    (hh : h' = { h with looks := h'.looks, ticks := h'.ticks })
    (hhand : t.pc.hand = s.pc.hand) (hrcv : ∀ d, t.pc.unreceived d = s.pc.unreceived d)
    (hcheck : ∀ d, t.pc.unchecked d = s.pc.unchecked d) (herr : ∀ d, t.pc.unsaid d = s.pc.unsaid d) :
    Accounted m t h' := by
  rw [hh]
  constructor
  · exact hb.queue ▸ ha.order
  · exact hb.freed ▸ hhand ▸ ha.freed
  · exact fun d => hrcv d ▸ ha.received d
  · exact fun d => (hb.rcv d).trans (ha.rcv d)
  · exact fun d => hcheck d ▸ ha.checked d
  · exact fun d => herr d ▸ ha.erred d
  · exact fun d => (hb.err d).trans (ha.err d)

/-- An error is counted only after its packet. -/
theorem err_le (ha : Accounted m s h) {d : Dir} (hm : (m.stCfg d).status.pkterrCount ≤ (m.stCfg d).status.pktrcvCount)
    (hfits : (m.stCfg d).status.pktrcvCount + (h.received d).length < 2 ^ 64) :
    (s.mod.stCfg d).status.pkterrCount ≤ (s.mod.stCfg d).status.pktrcvCount := by
  have hchecked : (h.checked d).length ≤ (h.received d).length := by
    have hlen := congrArg List.length ((ha.checked d).trans (ha.received d).symm)
    rw [List.length_append, List.length_append, List.length_map] at hlen
    have hpending : (s.pc.unreceived d).length ≤ (s.pc.unchecked d).length := by
      cases s.pc with
      | pkt endTime skb p => cases p <;> simp [LoopPc.unreceived, LoopPc.unchecked]
      | _ => simp [LoopPc.unreceived]
    omega
  have herred : (h.erred d).length ≤ (h.checked d).length := by
    have hlen := congrArg List.length (ha.erred d)
    rw [List.length_append, List.length_map] at hlen
    have := (List.filter_sublist (p := Differs) (l := h.checked d)).length_le
    omega
  rw [ha.rcv, ha.err, Nat.mod_eq_of_lt hfits, Nat.mod_eq_of_lt (by omega)]
  omega

theorem take (ha : Accounted m s h) {endTime : Nat} {skb : Skb} {rest : List Skb} (hpc : s.pc = .at_ (.drain endTime))
    (hq : s.mod.compSkbqueue = skb :: rest) (hdropped : h.dropped = []) :
    Accounted m { s with mod := { s.mod with compSkbqueue := rest }, pc := .pkt endTime skb (.compare 0) }
      { h with taken := h.taken ++ [skb] } := by
  obtain ⟨horder, hfreed, hreceived, hrcv, hchecked, herred, herr⟩ := ha
  rw [hpc] at hfreed hreceived hchecked herred
  rw [hq, hdropped, List.append_nil] at horder
  rw [hdropped, List.append_nil, LoopPc.hand, List.append_nil] at hfreed
  have hfilter (d : Dir) : (h.taken ++ [skb]).filter (fun skb => skb.dir == some d) =
      h.taken.filter (fun skb => skb.dir == some d) ++ if skb.dir = some d then [skb] else [] := by
    rw [List.filter_append]
    by_cases hdir : skb.dir = some d <;> simp [hdir]
  refine ⟨?_, ?_, fun d => ?_, hrcv, fun d => ?_, herred, herr⟩
  · rw [hdropped, List.append_nil, horder, List.append_assoc, List.singleton_append]
  · rw [hdropped, List.append_nil, ← List.append_assoc, hfreed]
    rfl
  · rw [hfilter, ← hreceived]
    simp only [LoopPc.unreceived, List.append_nil]
  · rw [hfilter, ← hchecked]
    simp only [LoopPc.unchecked, List.append_nil]

theorem takeOut (ha : Accounted m s h) {skb : Skb} {rest : List Skb} (hpc : s.pc = .at_ .flush)
    (hq : s.mod.compSkbqueue = skb :: rest) :
    Accounted m { s with mod := { s.mod with compSkbqueue := rest }, pc := .drop skb }
      { h with dropped := h.dropped ++ [skb] } := by
  obtain ⟨horder, hfreed, hreceived, hrcv, hchecked, herred, herr⟩ := ha
  rw [hpc] at hfreed hreceived hchecked herred
  rw [LoopPc.hand, List.append_nil] at hfreed
  refine ⟨?_, ?_, hreceived, hrcv, hchecked, herred, herr⟩
  · rw [horder, hq, ← List.append_assoc, List.append_assoc (h.taken ++ h.dropped), List.singleton_append]
  · rw [← List.append_assoc, ← List.append_assoc, List.append_assoc m.freed, hfreed]
    rfl

theorem free (ha : Accounted m s h) {skb : Skb} {pc : ComputePc}
    (hpc : s.pc = .drop skb ∨ ∃ endTime, s.pc = .pkt endTime skb .free) :
    Accounted m { s with mod := devKfreeSkb s.mod skb, pc := .at_ pc } h := by
  obtain ⟨horder, hfreed, hreceived, hrcv, hchecked, herred, herr⟩ := ha
  rcases hpc with hpc | ⟨endTime, hpc⟩ <;> rw [hpc] at hfreed hreceived hchecked herred
  · exact ⟨horder, hfreed.trans (List.append_nil _).symm, hreceived, hrcv, hchecked, herred, herr⟩
  · exact ⟨horder, hfreed.trans (List.append_nil _).symm, hreceived, hrcv, hchecked, herred, herr⟩

/-- A statement for the packet in hand that changes nothing else. -/
theorem goes_on (ha : Accounted m s h) {endTime : Nat} {skb : Skb} {p p' : PktPc} (hpc : s.pc = .pkt endTime skb p)
    (hrcv : ∀ d, LoopPc.unreceived d (.pkt endTime skb p') = LoopPc.unreceived d (.pkt endTime skb p))
    (hcheck : ∀ d, LoopPc.unchecked d (.pkt endTime skb p') = LoopPc.unchecked d (.pkt endTime skb p))
    (herr : ∀ d, LoopPc.unsaid d (.pkt endTime skb p') = LoopPc.unsaid d (.pkt endTime skb p)) :
    Accounted m { s with pc := .pkt endTime skb p' } h := by
  rw [← hpc] at hrcv hcheck herr
  refine ha.of_beside ⟨rfl, rfl, fun _ => rfl, fun _ => rfl⟩ rfl ?_ hrcv hcheck herr
  rw [hpc, LoopPc.hand, LoopPc.hand]

theorem compare (ha : Accounted m s h) {endTime : Nat} {skb : Skb} {d : Dir} (hpc : s.pc = .pkt endTime skb (.compare d))
    (hplaced : s.pc.Placed) {p : PktPc}
    (hp : p = if skb.hSource = stMac d then .receive d else if d = 0 then .compare 1 else .free) :
    Accounted m { s with pc := .pkt endTime skb p } h ∧ LoopPc.Placed (.pkt endTime skb p) := by
  rw [hpc] at hplaced
  rcases compare_cases hplaced hp with ⟨rfl, hdir⟩ | ⟨rfl, hmac⟩ | ⟨rfl, hnone⟩
  · exact ⟨ha.goes_on hpc (fun _ => rfl) (fun _ => rfl) fun _ => rfl, hdir⟩
  · exact ⟨ha.goes_on hpc (fun _ => rfl) (fun _ => rfl) fun _ => rfl, Or.inr hmac⟩
  · refine ⟨ha.goes_on hpc (fun e => ?_) (fun e => ?_) fun _ => rfl, trivial⟩
    · simp [LoopPc.unreceived, hnone]
    · simp [LoopPc.unchecked, hnone]

/-- A counter of the direction `d` and the list of what has been added to it. -/
theorem count_succ (count : Status → Nat) {c₀ : Dir → Nat} {l : Dir → List Skb} {mod : Mod} {d : Dir} {st : Status}
    (hc : ∀ e, count (mod.stCfg e).status = (c₀ e + (l e).length) % 2 ^ 64)
    (hst : count st = (count (mod.stCfg d).status + 1) % 2 ^ 64) (skb : Skb) (e : Dir) :
    count ((mod.setStatus d st).stCfg e).status =
      (c₀ e + (Function.update l d (l d ++ [skb]) e).length) % 2 ^ 64 := by
  by_cases hed : e = d
  · subst hed
    rw [setStatus_self, Function.update_self, hst, hc, List.length_append, List.length_singleton, Nat.mod_add_mod,
      Nat.add_assoc]
  · rw [setStatus_of_ne hed, Function.update_of_ne hed, hc]

theorem receive (ha : Accounted m s h) {endTime : Nat} {skb : Skb} {d : Dir} (hpc : s.pc = .pkt endTime skb (.receive d))
    (hplaced : skb.dir = some d) :
    Accounted m
      { s with mod := s.mod.setStatus d (s.mod.stCfg d).status.received, pc := .pkt endTime skb (.check d) }
      { h with received := Function.update h.received d (h.received d ++ [skb]) } := by
  obtain ⟨horder, hfreed, hreceived, hrcv, hchecked, herred, herr⟩ := ha
  rw [hpc] at hfreed hreceived hchecked herred
  refine ⟨horder, hfreed, fun e => ?_, count_succ (·.pktrcvCount) hrcv rfl skb, hchecked, herred, fun e => ?_⟩
  · rw [← hreceived]
    by_cases hed : e = d
    · subst hed
      simp [LoopPc.unreceived, hplaced]
    · simp [LoopPc.unreceived, hplaced, hed, Ne.symm hed]
  · refine Eq.trans ?_ (herr e)
    exact setCfg_keep (·.status.pkterrCount) (by rfl) e

theorem check (ha : Accounted m s h) {endTime : Nat} {skb : Skb} {d : Dir} (hpc : s.pc = .pkt endTime skb (.check d))
    (hplaced : skb.dir = some d) :
    Accounted m { s with pc := .pkt endTime skb (if (s.mod.stCfg d).status.differs skb then .error d else .free) }
      { h with checked := Function.update h.checked d (h.checked d ++ [(skb, (s.mod.stCfg d).status.pktCsum)]) } := by
  obtain ⟨horder, hfreed, hreceived, hrcv, hchecked, herred, herr⟩ := ha
  rw [hpc] at hfreed hreceived hchecked herred
  refine ⟨horder, hfreed, fun e => ?_, hrcv, fun e => ?_, fun e => ?_, herr⟩
  · rw [← hreceived]
    split <;> rfl
  · rw [← hchecked]
    by_cases hed : e = d
    · subst hed
      split <;> simp [LoopPc.unchecked, hplaced]
    · split <;> simp [LoopPc.unchecked, hplaced, hed, Ne.symm hed]
  · have hlist := herred e
    simp only [LoopPc.unsaid, List.append_nil] at hlist
    by_cases hed : e = d
    · subst hed
      dsimp only
      rw [Function.update_self, List.filter_append, List.map_append, ← hlist]
      have hdiffers : Differs (skb, (s.mod.stCfg e).status.pktCsum) = (s.mod.stCfg e).status.differs skb := rfl
      cases hd : (s.mod.stCfg e).status.differs skb <;> simp [LoopPc.unsaid, hdiffers, hd]
    · dsimp only
      rw [Function.update_of_ne hed, ← hlist]
      split <;> simp [LoopPc.unsaid, Ne.symm hed]

theorem error (ha : Accounted m s h) {endTime : Nat} {skb : Skb} {d : Dir} (hpc : s.pc = .pkt endTime skb (.error d)) :
    Accounted m { s with mod := s.mod.setStatus d (s.mod.stCfg d).status.erred, pc := .pkt endTime skb .free }
      { h with erred := Function.update h.erred d (h.erred d ++ [skb]) } := by
  obtain ⟨horder, hfreed, hreceived, hrcv, hchecked, herred, herr⟩ := ha
  rw [hpc] at hfreed hreceived hchecked herred
  refine ⟨horder, hfreed, hreceived, fun e => ?_, hchecked, fun e => ?_, count_succ (·.pkterrCount) herr rfl skb⟩
  · refine Eq.trans ?_ (hrcv e)
    exact setCfg_keep (·.status.pktrcvCount) (by rfl) e
  · rw [← herred]
    by_cases hed : e = d
    · subst hed
      simp [LoopPc.unsaid]
    · simp [LoopPc.unsaid, hed, Ne.symm hed]

end Accounted

/-! ### The deadline -/

/-- `end_time` has been set in an iteration since which none has seen a task. -/
def Opened (K : Kernel) (m : Mod) (h : Account) (endTime : Nat) : Prop :=
  ∃ before since ticks, h.looks = before ++ (false, ticks) :: since ∧ (∀ l ∈ since, l.1 = false) ∧
    endTime = m.jiffies + ticks + 5 * K.hz

theorem Opened.of_looks {K : Kernel} {m : Mod} {h h' : Account} {endTime : Nat} (ho : Opened K m h endTime)
    (hlooks : h'.looks = h.looks) : Opened K m h' endTime := by
  rw [Opened, hlooks]
  exact ho

structure Looped (K : Kernel) (m : Mod) (x : LoopState × Account) : Prop where
  accounted : Accounted m x.1 x.2
  placed : x.1.pc.Placed
  first : x.1.pc.inLoop = true → x.2.dropped = []
  clock : x.1.mod.jiffies = m.jiffies + x.2.ticks
  opened : ∀ endTime, x.1.pc.endTime = some endTime → endTime = 0 ∨ Opened K m x.2 endTime
  tested : ∀ endTime, x.1.pc = .at_ (.test false endTime) → Opened K m x.2 endTime

theorem Loops.jiffies {K : Kernel} {stop : Bool} {m m' : Mod} {pc pc' : LoopPc} (h : Loops K stop m pc m' pc') :
    m'.jiffies = m.jiffies := by
  cases h with
  | others h _ =>
    cases h with
    | counts => rw [computePkt_eq]
    | _ => rfl
  | _ => rfl

namespace Looped
variable {K : Kernel} {m : Mod} {s t : LoopState} {h h' : Account}

theorem init (hm : ∀ d, (m.stCfg d).status.pktrcvCount < 2 ^ 64 ∧ (m.stCfg d).status.pkterrCount < 2 ^ 64) :
    Looped K m ({ mod := m, stop := false, pc := .at_ .entry }, .zero) where
  accounted := ⟨List.append_nil _, rfl, fun _ => rfl, fun d => (Nat.mod_eq_of_lt (hm d).1).symm, fun _ => rfl,
    fun _ => rfl, fun d => (Nat.mod_eq_of_lt (hm d).2).symm⟩
  placed := trivial
  first _ := rfl
  clock := rfl
  opened endTime he := by cases he
  tested endTime he := by cases he

theorem of_looks (hl : Looped K m (s, h)) (ha : Accounted m t h') (hplaced : t.pc.Placed)
    (hfirst : t.pc.inLoop = true → h'.dropped = []) (hclock : t.mod.jiffies = s.mod.jiffies) (hticks : h'.ticks = h.ticks)
    (hlooks : h'.looks = h.looks)
    (hend : ∀ endTime, t.pc.endTime = some endTime → endTime = 0 ∨ s.pc.endTime = some endTime)
    (htest : ∀ endTime, t.pc = .at_ (.test false endTime) → s.pc = .at_ (.test false endTime)) : Looped K m (t, h') where
  accounted := ha
  placed := hplaced
  first := hfirst
  clock := by
    dsimp only
    rw [hclock, hticks, hl.clock]
  opened endTime he :=
    (hend endTime he).elim Or.inl fun he => (hl.opened endTime he).imp_right fun ho => ho.of_looks hlooks
  tested endTime he := (hl.tested endTime (htest endTime he)).of_looks hlooks

/-- A statement for a packet after which the thread goes on with the packet. -/
theorem of_pkt (hl : Looped K m (s, h)) {endTime : Nat} {skb : Skb} {p p' : PktPc} {m' : Mod}
    (hpc : s.pc = .pkt endTime skb p) (hjiffies : m'.jiffies = s.mod.jiffies)
    (ha : Accounted m { s with mod := m', pc := .pkt endTime skb p' } h')
    (hplaced : LoopPc.Placed (.pkt endTime skb p')) (hdropped : h'.dropped = h.dropped) (hticks : h'.ticks = h.ticks)
    (hlooks : h'.looks = h.looks) : Looped K m ({ s with mod := m', pc := .pkt endTime skb p' }, h') := by
  refine hl.of_looks ha hplaced (fun _ => ?_) hjiffies hticks hlooks (fun _ he => Or.inr ?_) fun _ he => (by cases he)
  · exact hdropped.trans (hl.first (by rw [hpc]; rfl))
  · rw [hpc]
    exact he

theorem other (hl : Looped K m (s, h)) {pc pc' : ComputePc} {m' : Mod} (hpc : s.pc = .at_ pc)
    (hc : Computes K s.stop s.mod pc m' pc')
    (hempty : (∃ endTime, pc = .drain endTime) ∨ pc = .flush → s.mod.compSkbqueue = [])
    (hjiffies : m'.jiffies = s.mod.jiffies) (hok : Unwrapped K (s, h) .run) :
    Looped K m ({ s with mod := m', pc := .at_ pc' }, h.after s.mod (.at_ pc)) := by
  have hb := hc.beside hempty
  have hfirst := hl.first
  have hopened := hl.opened
  dsimp only at hfirst hopened
  rw [hpc] at hfirst hopened
  have haccounted {pc₁ : ComputePc} {h' : Account} (hlooks : h' = { h with looks := h'.looks }) :
      Accounted m { s with mod := m', pc := .at_ pc₁ } h' := by
    rw [hlooks]
    exact hl.accounted.of_beside hb rfl (by rw [hpc]; rfl) (fun _ => by rw [hpc]; rfl) (fun _ => by rw [hpc]; rfl)
      fun _ => by rw [hpc]; rfl
  have hquiet {pc₁ : ComputePc} (hafter : h.after s.mod (.at_ pc) = h)
      (hloop : LoopPc.inLoop (.at_ pc₁) = true → LoopPc.inLoop (.at_ pc) = true)
      (hend : ∀ endTime, LoopPc.endTime (.at_ pc₁) = some endTime → endTime = 0 ∨ LoopPc.endTime (.at_ pc) = some endTime)
      (htest : ∀ endTime, pc₁ ≠ .test false endTime) :
      Looped K m ({ s with mod := m', pc := .at_ pc₁ }, h.after s.mod (.at_ pc)) := by
    rw [hafter]
    exact hl.of_looks (haccounted rfl) trivial (fun hin => hfirst (hloop hin)) hjiffies rfl rfl (by rw [hpc]; exact hend)
      fun endTime he => absurd (LoopPc.at_.inj he) (htest endTime)
  cases hc with
  | sees d endTime htask =>
    have hafter : h.after s.mod (.at_ (.look d endTime)) = { h with looks := h.looks ++ [(true, h.ticks)] } :=
      if_pos htask
    rw [hafter]
    exact ⟨haccounted rfl, trivial, fun _ => hfirst rfl, hl.clock, fun _ he => Or.inl (Option.some.inj he).symm,
      fun _ he => (by cases he)⟩
  | arms endTime =>
    have hnow := hok (by rw [hpc]; rfl)
    dsimp only at hnow
    have hset : Opened K m { h with looks := h.looks ++ [(false, h.ticks)] }
        (if endTime = 0 then K.add s.mod.jiffies (5 * K.hz) else endTime) := by
      split
      · rename_i hzero
        refine ⟨h.looks, [], h.ticks, rfl, fun l hl => (by cases hl), ?_⟩
        rw [Kernel.add, Nat.mod_eq_of_lt hnow]
        exact congrArg (· + 5 * K.hz) hl.clock
      · rename_i hne
        obtain ⟨before, since, ticks, hlooks, hnone, he⟩ := (hopened endTime rfl).resolve_left hne
        refine ⟨before, since ++ [(false, h.ticks)], ticks, ?_, fun l hmem => ?_, he⟩
        · dsimp only at hlooks ⊢
          rw [hlooks, List.append_assoc, List.cons_append]
        · rcases List.mem_append.mp hmem with hmem | hmem
          · exact hnone l hmem
          · rw [List.mem_singleton.mp hmem]
    refine ⟨haccounted rfl, trivial, fun _ => hfirst rfl, hl.clock, fun e he => ?_, fun e he => ?_⟩
    · obtain rfl := Option.some.inj he
      exact Or.inr hset
    · cases he
      exact hset
  | enters =>
    split
    · exact hquiet rfl (fun _ => rfl) (fun e he => by cases he) fun e => (by rintro ⟨⟩)
    · exact hquiet rfl (fun _ => rfl) (fun e he => Or.inl (Option.some.inj he).symm) fun e => (by rintro ⟨⟩)
  | drained endTime hq =>
    have hafter : h.after s.mod (.at_ (.drain endTime)) = h := by rw [Account.after, hq, List.take_nil, List.append_nil]
    exact hquiet hafter (fun _ => rfl) (fun e he => Or.inr he) fun e => (by rintro ⟨⟩)
  | passes d endTime htask =>
    split <;> exact hquiet (if_neg (not_not_intro htask)) (fun _ => rfl) (fun e he => Or.inr he) fun e => (by rintro ⟨⟩)
  | tests isStRunning endTime =>
    split
    · exact hquiet rfl (fun _ => rfl) (fun e he => by cases he) fun e => (by rintro ⟨⟩)
    · exact hquiet rfl (fun _ => rfl) (fun e he => Or.inr he) fun e => (by rintro ⟨⟩)
  | flushed hq =>
    have hafter : h.after s.mod (.at_ .flush) = h := by rw [Account.after, hq, List.take_nil, List.append_nil]
    exact hquiet hafter (fun hin => by cases hin) (fun e he => by cases he) fun e => (by rintro ⟨⟩)
  | counts endTime skb rest hq =>
    rw [hempty (Or.inl ⟨_, rfl⟩)] at hq
    cases hq
  | frees skb rest hq =>
    rw [hempty (Or.inr rfl)] at hq
    cases hq
  | testsTimer | finishes =>
    split <;> exact hquiet rfl (fun hin => by cases hin) (fun e he => by cases he) fun e => (by rintro ⟨⟩)
  | clearsPtr | setsHook | clearsReady | initsTimer | loses =>
    exact hquiet rfl (fun hin => by cases hin) (fun e he => by cases he) fun e => (by rintro ⟨⟩)

theorem run (hl : Looped K m (s, h)) (hok : Unwrapped K (s, h) .run)
    (hs : (loopLts K m).step s .run = some t) : Looped K m (t, account s .run h) := by
  obtain ⟨⟨m', pc'⟩, hr, rfl⟩ := Option.map_eq_some_iff.mp hs
  have hloops := loopStep_loops hr
  have hjiffies := hloops.jiffies
  obtain ⟨mod, stop, pc⟩ := s
  dsimp only at hloops hjiffies
  cases hloops with
  | takes endTime skb rest hq =>
    have hdropped := hl.first rfl
    have htaken : account ⟨mod, stop, .at_ (.drain endTime)⟩ .run h = { h with taken := h.taken ++ [skb] } := by
      simp [account, Account.after, hq]
    rw [htaken]
    exact hl.of_looks (hl.accounted.take rfl hq hdropped) (Or.inl rfl) (fun _ => hdropped) hjiffies rfl rfl
      (fun _ he => Or.inr he) fun _ he => by cases he
  | compares endTime skb d =>
    obtain ⟨ha, hplaced⟩ := hl.accounted.compare rfl hl.placed rfl
    exact hl.of_pkt rfl hjiffies ha hplaced rfl rfl rfl
  | receives endTime skb d =>
    exact hl.of_pkt rfl hjiffies (hl.accounted.receive rfl hl.placed) hl.placed rfl rfl rfl
  | checks endTime skb d =>
    refine hl.of_pkt rfl hjiffies (hl.accounted.check rfl hl.placed) ?_ rfl rfl rfl
    split
    · exact hl.placed
    · trivial
  | errs endTime skb d =>
    exact hl.of_pkt rfl hjiffies (hl.accounted.error rfl) trivial rfl rfl rfl
  | frees endTime skb =>
    exact hl.of_looks (hl.accounted.free (Or.inr ⟨_, rfl⟩)) trivial (fun _ => hl.first rfl) hjiffies rfl rfl
      (fun _ he => Or.inr he) fun _ he => by cases he
  | takesOut skb rest hq =>
    have htaken : account ⟨mod, stop, .at_ .flush⟩ .run h = { h with dropped := h.dropped ++ [skb] } := by
      simp [account, Account.after, hq]
    rw [htaken]
    exact hl.of_looks (hl.accounted.takeOut rfl hq) trivial (fun he => by cases he) hjiffies rfl rfl
      (fun _ he => by cases he) fun _ he => by cases he
  | drops skb =>
    exact hl.of_looks (hl.accounted.free (Or.inl rfl)) trivial (fun he => by cases he) hjiffies rfl rfl
      (fun _ he => by cases he) fun _ he => by cases he
  | others hc hempty => exact hl.other rfl hc hempty hjiffies hok

theorem outside (hl : Looped K m (s, h)) (hb : Beside s.mod t.mod) (hpc : t.pc = s.pc)
    (hjiffies : t.mod.jiffies = s.mod.jiffies) : Looped K m (t, h) := by
  refine hl.of_looks (hl.accounted.of_beside hb rfl (by rw [hpc]) (fun _ => by rw [hpc]) (fun _ => by rw [hpc])
    fun _ => by rw [hpc]) ?_ ?_ hjiffies rfl rfl (fun _ he => Or.inr (hpc ▸ he)) fun _ he => hpc ▸ he
  · rw [hpc]
    exact hl.placed
  · rw [hpc]
    exact hl.first

theorem put (hl : Looped K m (s, h)) (skb : Skb) :
    Looped K m ({ s with mod := (fastRcvSpeedtestPkt s.mod skb).1 }, account s (.put skb) h) := by
  simp only [fastRcvSpeedtestPkt, kfifoIn, account]
  split
  · obtain ⟨horder, hfreed, hreceived, hrcv, hchecked, herred, herr⟩ := hl.accounted
    refine hl.of_looks ⟨?_, hfreed, hreceived, hrcv, hchecked, herred, herr⟩ hl.placed hl.first rfl rfl rfl
      (fun _ he => Or.inr he) fun _ he => he
    dsimp only at horder ⊢
    rw [← List.append_assoc, horder, List.append_assoc]
  · exact hl

theorem step (hl : Looped K m (s, h)) {e : LoopEvent} (hok : Unwrapped K (s, h) e)
    (hs : (loopLts K m).step s e = some t) : Looped K m (t, account s e h) := by
  cases e with
  | run => exact hl.run hok hs
  | put skb =>
    obtain rfl := Option.some.inj hs
    exact hl.put skb
  | sender d stop x pc =>
    obtain ⟨⟨cfg, pc'⟩, hr, rfl⟩ := Option.map_eq_some_iff.mp hs
    exact hl.outside (senderStep_sends hr).beside rfl rfl
  | task d p =>
    obtain rfl := Option.some.inj hs
    exact hl.outside (beside_setCfg rfl rfl) rfl rfl
  | stop =>
    obtain rfl := Option.some.inj hs
    exact hl.outside ⟨rfl, rfl, fun _ => rfl, fun _ => rfl⟩ rfl rfl
  | tick =>
    obtain rfl := Option.some.inj hs
    obtain ⟨⟨horder, hfreed, hreceived, hrcv, hchecked, herred, herr⟩, hplaced, hfirst, hclock, hopened, htested⟩ := hl
    refine ⟨⟨horder, hfreed, hreceived, hrcv, hchecked, herred, herr⟩, hplaced, hfirst, ?_, hopened, htested⟩
    dsimp only [account] at hclock ⊢
    rw [Kernel.add, Nat.mod_eq_of_lt hok, hclock, Nat.add_assoc]

end Looped

/-- In the runs of `Unwrapped` every packet is accounted for, no direction has more errors than packets as long as
    fewer than `2 ^ 64` packets are counted, and the thread leaves the main loop only when it has been told to, or after
    more than `5 * HZ` ticks in which no iteration has seen a task. -/
theorem packets_accounted {K : Kernel} {m : Mod}
    (hm : ∀ d, (m.stCfg d).status.pkterrCount ≤ (m.stCfg d).status.pktrcvCount ∧ (m.stCfg d).status.pktrcvCount < 2 ^ 64)
    {s : LoopState} {h : Account} (hr : (accountLts K m).Reach (Unwrapped K) (s, h)) :
    Accounted m s h ∧
    (∀ d, (m.stCfg d).status.pktrcvCount + (h.received d).length < 2 ^ 64 →
      (s.mod.stCfg d).status.pkterrCount ≤ (s.mod.stCfg d).status.pktrcvCount) ∧
    ∀ t, (loopLts K m).step s .run = some t → s.pc.inLoop = true → t.pc.inLoop = false → s.stop = true ∨ Waited K h := by
  have hl : Looped K m (s, h) := by
    refine hr.track_invariant (I := fun s h => Looped K m (s, h)) ?_ fun _ _ _ _ hl hok hs => hl.step hok hs
    rintro _ rfl
    exact Looped.init fun d => ⟨(hm d).2, lt_of_le_of_lt (hm d).1 (hm d).2⟩
  refine ⟨hl.accounted, fun d => hl.accounted.err_le (hm d).1, fun t hs hin hout => ?_⟩
  obtain ⟨⟨m', pc'⟩, hr, rfl⟩ := Option.map_eq_some_iff.mp hs
  have hloops := loopStep_loops hr
  obtain ⟨mod, stop, pc⟩ := s
  cases hloops with
  | others hc _ =>
    cases hc with
    | tests isStRunning endTime =>
      dsimp only at hout ⊢
      split at hout
      · rename_i hleaves
        refine hleaves.imp_right fun ⟨hnone, hlate⟩ => ?_
        obtain ⟨before, since, ticks, hlooks, hsince, he⟩ := hl.tested endTime (by rw [hnone])
        have hclock := hl.clock
        dsimp only at hclock hlooks hlate
        exact ⟨before, since, ticks, hlooks, hsince, by omega⟩
      · cases hout
    | enters =>
      dsimp only at hout ⊢
      split at hout
      · rename_i hstop
        exact Or.inl hstop
      · cases hout
    | passes =>
      dsimp only at hout
      split at hout <;> cases hout
    | drained | counts | sees | arms => cases hout
    | _ => cases hin
  | takesOut | drops => cases hin
  | _ => cases hout

/-- Two packets of the first direction: the checksum of the datagram of the first one is 0. -/
def zeroPkt : Skb := ⟨0, List.replicate 6 0 ++ st0Mac ++ List.replicate 6 0 ++ [0xff, 0xff]⟩
def emptyPkt : Skb := ⟨1, List.replicate 6 0 ++ st0Mac ++ List.replicate 6 0⟩

/-- A 32-bit kernel with two ticks a second. -/
def slowKernel : Kernel := { kernel32 with hz := 2, hz_pos := Nat.succ_pos _ }

/-- Both packets come, the second one is an error, and the thread leaves the main loop after the deadline. -/
theorem packets_accounted_two : ∃ (s t : LoopState) (h : Account),
    (loopLts slowKernel (start slowKernel 1000).mod).step s .run = some t ∧ t.pc = .at_ .flush ∧ Waited slowKernel h ∧
    h.received 0 = [zeroPkt, emptyPkt] ∧ (s.mod.stCfg 0).status.pktrcvCount = 2 ∧
    (s.mod.stCfg 0).status.pkterrCount ≤ 2 ∧ s.mod.freed = [zeroPkt, emptyPkt] := by
  have hrun : ((accountLts slowKernel (start slowKernel 1000).mod).runIf (Unwrapped slowKernel)
      ({ mod := (start slowKernel 1000).mod, stop := false, pc := .at_ .entry }, .zero)
      ([LoopEvent.put zeroPkt, .put emptyPkt] ++ List.replicate 17 LoopEvent.run ++ List.replicate 11 LoopEvent.tick ++
        List.replicate 4 LoopEvent.run)).any
      (fun x => x.1.pc == .at_ (.test false 1010) && x.1.stop == false && x.1.mod.jiffies == 1011 &&
        x.2.taken == [zeroPkt, emptyPkt] && x.2.dropped == []) = true := by decide
  obtain ⟨⟨s, h⟩, hr, hp⟩ := Lts.exists_reach_of_runIf hrun ⟨rfl, rfl⟩
  simp only [Bool.and_eq_true, beq_iff_eq] at hp
  obtain ⟨⟨⟨⟨hpc, hstop⟩, hjiffies⟩, htaken⟩, hdropped⟩ := hp
  obtain ⟨⟨-, hfreed, hreceived, hrcv, -, -, -⟩, herr, hleaves⟩ := packets_accounted (K := slowKernel)
    (m := (start slowKernel 1000).mod) (fun _ => ⟨le_rfl, (by decide : 0 < 2 ^ 64)⟩) hr
  have hs : (loopLts slowKernel (start slowKernel 1000).mod).step s .run = some { s with pc := .at_ .flush } := by
    simp [loopLts, LoopState.step, hpc, hstop, hjiffies, loopStep, computeStep]
  have hwaited := (hleaves _ hs (by rw [hpc]; rfl) rfl).resolve_left (by rw [hstop]; decide)
  have hboth : h.received 0 = [zeroPkt, emptyPkt] := by
    have := hreceived 0
    rw [hpc, htaken] at this
    exact (List.append_nil _).symm.trans this
  have htwo : (s.mod.stCfg 0).status.pktrcvCount = 2 := by rw [hrcv, hboth]; rfl
  refine ⟨s, _, h, hs, rfl, hwaited, hboth, htwo, ?_, ?_⟩
  · have := herr 0 (by rw [hboth]; decide)
    rwa [htwo] at this
  · rw [hpc, htaken, hdropped] at hfreed
    exact (List.append_nil _).symm.trans hfreed.symm

section Wraps
variable {K : Kernel} {m : Mod} {s : LoopState}

theorem reach_of_loop (hr : (loopLts K m).Reachable s) {b : Mod × LoopPc}
    (hl : Relation.TransGen (LoopStep K s.stop) (s.mod, s.pc) b) :
    (loopLts K m).Reachable { s with mod := b.1, pc := b.2 } := by
  have hone {s : LoopState} (hr : (loopLts K m).Reachable s) {b : Mod × LoopPc} (hb : LoopStep K s.stop (s.mod, s.pc) b) :
      (loopLts K m).Reachable { s with mod := b.1, pc := b.2 } := by
    have hs : (loopLts K m).step s .run = some { s with mod := b.1, pc := b.2 } := by
      simp only [loopLts, LoopState.step]
      rw [show loopStep K s.stop s.mod s.pc = some b from hb, Option.map_some]
    exact hr.step .run trivial hs
  induction hl with
  | single hb => exact hone hr hb
  | @tail b c _ hb ih => exact hone (s := { s with mod := b.1, pc := b.2 }) ih hb

/-- A packet comes while the queue is empty, and is counted and freed. -/
theorem reach_round (hr : (loopLts K m).Reachable s) (hpc : s.pc = .at_ (.drain 0)) (hq : s.mod.compSkbqueue = [])
    (hroom : 0 < s.mod.fifoSize) (skb : Skb) : ∃ t, (loopLts K m).Reachable t ∧ t.pc = .at_ (.drain 0) ∧
      t.mod.compSkbqueue = [] ∧ 0 < t.mod.fifoSize ∧
      ∀ d, (t.mod.stCfg d).status =
        if skb.dir = some d then countPkt (s.mod.stCfg d).status skb else (s.mod.stCfg d).status := by
  have hput : (loopLts K m).step s (.put skb) = some { s with mod := { s.mod with compSkbqueue := [skb] } } := by
    simp [loopLts, LoopState.step, fastRcvSpeedtestPkt, kfifoIn, hq, hroom]
  have hcounts : computeStep K s.stop { s.mod with compSkbqueue := [skb] } (.drain 0) =
      some (computePkt { s.mod with compSkbqueue := [] } skb, .drain 0) := rfl
  have hrun := computeStep_loop hcounts
  rw [← hpc] at hrun
  refine ⟨_, reach_of_loop (hr.step _ trivial hput) hrun, hpc, ?_, ?_, fun d => computePkt_status _ _ _⟩
  · rw [computePkt_eq]
  · rw [computePkt_eq]
    exact hroom

/-- After a packet with an error and `n` others. -/
theorem reach_counts (n : Nat) : ∃ s, (loopLts slowKernel (start slowKernel 1000).mod).Reachable s ∧
    s.pc = .at_ (.drain 0) ∧ s.mod.compSkbqueue = [] ∧ 0 < s.mod.fifoSize ∧
    (s.mod.stCfg 0).status.pktrcvCount = (n + 1) % 2 ^ 64 ∧ (s.mod.stCfg 0).status.pkterrCount = 1 ∧
    (s.mod.stCfg 0).status.pktCsum = 0 := by
  induction n with
  | zero =>
    have hstart : (loopLts slowKernel (start slowKernel 1000).mod).Reachable
        ⟨(start slowKernel 1000).mod, false, .at_ (.drain 0)⟩ :=
      (Lts.Reach.init rfl).step .run trivial rfl
    obtain ⟨t, ht, hpc, hq, hroom, hstatus⟩ := reach_round hstart rfl rfl (by decide) emptyPkt
    have h₀ := hstatus 0
    rw [if_pos (by decide)] at h₀
    refine ⟨t, ht, hpc, hq, hroom, ?_, ?_, ?_⟩ <;> rw [h₀] <;> decide
  | succ n ih =>
    obtain ⟨s, hs, hpc, hq, hroom, hrcv, herr, hcsum⟩ := ih
    obtain ⟨t, ht, hpc', hq', hroom', hstatus⟩ := reach_round hs hpc hq hroom zeroPkt
    have hsum : ipComputeCsum (zeroPkt.data.drop 18) = 0 := by decide
    have h₀ := hstatus 0
    rw [if_pos (by decide), countPkt, hcsum, hsum, if_neg (not_not_intro rfl)] at h₀
    refine ⟨t, ht, hpc', hq', hroom', ?_, ?_, ?_⟩ <;> rw [h₀]
    · dsimp only
      rw [hrcv]
      omega
    · exact herr

/-- After `2 ^ 64` packets `pktrcv_count` is 0 again, and a deadline that has wrapped is over at once. -/
theorem packets_wrap :
    (∃ s, (loopLts slowKernel (start slowKernel 1000).mod).Reachable s ∧
      (s.mod.stCfg 0).status.pktrcvCount < (s.mod.stCfg 0).status.pkterrCount) ∧
    ∃ (s t : LoopState) (h : Account), (accountLts slowKernel (start slowKernel (2 ^ 32 - 1)).mod).Reachable (s, h) ∧
      (loopLts slowKernel (start slowKernel (2 ^ 32 - 1)).mod).step s .run = some t ∧ s.pc.inLoop = true ∧
      t.pc.inLoop = false ∧ s.stop = false ∧ ¬Waited slowKernel h := by
  constructor
  · obtain ⟨s, hs, -, -, -, hrcv, herr, -⟩ := reach_counts (2 ^ 64 - 1)
    exact ⟨s, hs, by rw [hrcv, herr]; decide⟩
  · have hrun : ((accountLts slowKernel (start slowKernel (2 ^ 32 - 1)).mod).runIf (fun _ _ => True)
        ({ mod := (start slowKernel (2 ^ 32 - 1)).mod, stop := false, pc := .at_ .entry }, .zero)
        (List.replicate 5 LoopEvent.run)).any
        (fun x => x.1.pc == .at_ (.test false 9) && x.1.stop == false && x.1.mod.jiffies == 2 ^ 32 - 1 &&
          x.2.ticks == 0) = true := by decide
    obtain ⟨⟨s, h⟩, hr, hp⟩ := Lts.exists_reach_of_runIf hrun ⟨rfl, rfl⟩
    simp only [Bool.and_eq_true, beq_iff_eq] at hp
    obtain ⟨⟨⟨hpc, hstop⟩, hjiffies⟩, hticks⟩ := hp
    refine ⟨s, { s with pc := .at_ .flush }, h, hr, ?_, by rw [hpc]; rfl, rfl, hstop, ?_⟩
    · simp [loopLts, LoopState.step, hpc, hstop, hjiffies, loopStep, computeStep]
    · rintro ⟨before, since, ticks, -, -, hlate⟩
      rw [hticks] at hlate
      exact Nat.not_lt_zero _ hlate

end Wraps

end QuickStart.Speedtest
