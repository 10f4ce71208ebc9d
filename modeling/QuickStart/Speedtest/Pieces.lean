import Mathlib.Logic.Relation
import QuickStart.Speedtest.Exclusive
import QuickStart.Speedtest.Writes

/-! # The packet in the hand of a compute thread

`computeStep` takes a packet from the queue, counts it and frees it at once. Here each of these statements is a step of
its own, so that a command may clear the status between any two of them. -/

namespace QuickStart.Speedtest
open State Checksum

def stMac (d : Dir) : Mac := if d = 0 then st0Mac else st1Mac

/-- The next statement for a packet that the main loop has taken. -/
inductive PktPc
  -- `memcmp(ethd->h_source, st0_mac, 6)`, or with `st1_mac`
  | compare (d : Dir)
  | receive (d : Dir)
  -- `cfgs[d].status.pkt_csum != ip_compute_csum(..)`
  | check (d : Dir)
  | error (d : Dir)
  | free
  deriving DecidableEq, Repr

/-- `pktrcv_count++`. -/
def Status.received (st : Status) : Status := { st with pktrcvCount := (st.pktrcvCount + 1) % 2 ^ 64 }

/-- `pkterr_count++`. -/
def Status.erred (st : Status) : Status := { st with pkterrCount := (st.pkterrCount + 1) % 2 ^ 64 }

/-- The packet has another checksum than the one the sender has stored. -/
def Status.differs (st : Status) (skb : Skb) : Bool := st.pktCsum ≠ ipComputeCsum (skb.data.drop 18)

def pktStep (m : Mod) (skb : Skb) : PktPc → Mod × Option PktPc
  | .compare d => (m, some (if skb.hSource = stMac d then .receive d else if d = 0 then .compare 1 else .free))
  | .receive d => (m.setStatus d (m.stCfg d).status.received, some (.check d))
  | .check d => (m, some (if (m.stCfg d).status.differs skb then .error d else .free))
  | .error d => (m.setStatus d (m.stCfg d).status.erred, some .free)
  | .free => (devKfreeSkb m skb, none)

/-- The packet belongs to the direction of the statement. -/
def PktPc.Placed (skb : Skb) : PktPc → Prop
  | .compare d => d = 0 ∨ skb.hSource ≠ st0Mac
  | .receive d | .check d | .error d => skb.dir = some d
  | .free => True

theorem compare_cases {skb : Skb} {d : Dir} {p : PktPc} (h : PktPc.Placed skb (.compare d))
    (hp : p = if skb.hSource = stMac d then .receive d else if d = 0 then .compare 1 else .free) :
    (p = .receive d ∧ skb.dir = some d) ∨ (p = .compare 1 ∧ skb.hSource ≠ st0Mac) ∨ (p = .free ∧ skb.dir = none) := by
  split at hp
  · rename_i hmac
    refine Or.inl ⟨hp, ?_⟩
    rcases dir_cases d with rfl | rfl
    · exact if_pos hmac
    · exact (if_neg (h.resolve_left (by decide))).trans (if_pos hmac)
  · rename_i hmac
    split at hp
    · rename_i hd
      subst hd
      exact Or.inr (Or.inl ⟨hp, hmac⟩)
    · rename_i hd
      obtain rfl : d = 1 := (dir_cases d).resolve_left hd
      exact Or.inr (Or.inr ⟨hp, (if_neg (h.resolve_left hd)).trans (if_neg hmac)⟩)

/-- The packet is one of the direction that has not been counted. -/
def uncounted (d : Dir) (a : Skb × PktPc) : Bool := a.1.dir == some d && a.2 != .free

/-! ### The statements in the module -/

/-- For each thread the packet that it has taken and not freed, and the next statement for it. -/
abbrev Hand := Nat → Option (Skb × PktPc)

/-- The next step of the thread takes a packet from the queue. -/
def Body.pops (m : Mod) : Body → Bool
  | .compute (.drain _) | .compute .flush => m.compSkbqueue ≠ []
  | _ => false

/-- The next statement of the thread, if it is one for a packet. -/
def pieceStep (m : Mod) (hand : Option (Skb × PktPc)) (b : Body) : Option (Mod × Option (Skb × PktPc)) :=
  match hand with
  | some (skb, p) => some ((pktStep m skb p).1, (pktStep m skb p).2.map fun p => (skb, p))
  | none =>
    match b, m.compSkbqueue with
    | .compute (.drain _), skb :: rest => some ({ m with compSkbqueue := rest }, some (skb, .compare 0))
    | .compute .flush, skb :: rest => some ({ m with compSkbqueue := rest }, some (skb, .free))
    | _, _ => none

/-- The thread `tid` executes a statement for a packet. -/
def State.piece (s : State) (hand : Hand) (tid : Nat) : Option (State × Hand) :=
  s.threads[tid]?.bind fun th =>
    if th.woken then
      (pieceStep s.mod (hand tid) th.body).map fun r => ({ s with mod := r.1 }, Function.update hand tid r.2)
    else none

/-- `step` with every statement for a packet as a step of its own. -/
def handStep (K : Kernel) (x : State × Hand) (e : Event) : Option (State × Hand) :=
  let other := (step K x.1 e).map fun t => (t, x.2)
  match e with
  | .thread tid _ => (x.1.piece x.2 tid).or other
  | _ => other

def HandStep (K : Kernel) (e : Event) (a b : State × Hand) : Prop := handStep K a e = some b

def handLts (K : Kernel) : Lts (State × Hand) Event where
  init x := (lts K).init x.1 ∧ x.2 = fun _ => none
  step := handStep K

/-- The module and its writers, and the packets in hand. -/
structure Pieces (n : Nat) where
  writers : Writers n
  hand : Hand

namespace Pieces

/-- The module and the process that is at work, and the packets in hand. -/
def whole {n : Nat} (s : Pieces n) : State × Hand := (s.writers.whole, s.hand)

def step {n : Nat} (K : Kernel) (s : Pieces n) (e : Fin n × Event) : Option (Pieces n) :=
  if s.writers.Admits e.1 e.2 then
    (handStep K (s.writers.view e.1, s.hand) e.2).map fun r => ⟨s.writers.put e.1 r.1, r.2⟩
  else none

/-- After `speedtest_init_module`. -/
def start (n : Nat) (K : Kernel) (jiffies : Nat) : Pieces n := ⟨.start n K jiffies, fun _ => none⟩

end Pieces

/-- The module with `n` processes, every statement for a packet a step of its own. -/
def piecesLts (n : Nat) (K : Kernel) : Lts (Pieces n) (Fin n × Event) where
  init s := ∃ jiffies < 2 ^ K.bitsPerLong, s = .start n K jiffies
  step := Pieces.step K

/-! ### The single statements and `computeStep` -/

theorem countPkt_same {st : Status} {skb : Skb} (h : st.pktCsum = ipComputeCsum (skb.data.drop 18)) :
    countPkt st skb = { st with pktrcvCount := (st.pktrcvCount + 1) % 2 ^ 64 } := by
  rw [countPkt, if_neg (not_not_intro h)]

theorem countPkt_differs {st : Status} {skb : Skb} (h : st.pktCsum ≠ ipComputeCsum (skb.data.drop 18)) :
    countPkt st skb =
      { st with pktrcvCount := (st.pktrcvCount + 1) % 2 ^ 64, pkterrCount := (st.pkterrCount + 1) % 2 ^ 64 } := by
  rw [countPkt, if_pos h]

theorem countPkt_eq (st : Status) (skb : Skb) :
    countPkt st skb = if st.differs skb then st.received.erred else st.received := by
  by_cases h : st.pktCsum = ipComputeCsum (skb.data.drop 18)
  · rw [countPkt_same h, if_neg (by simpa [Status.differs] using h), Status.received]
  · rw [countPkt_differs h, if_pos (by simpa [Status.differs] using h), Status.received, Status.erred]

theorem computePkt_status (m : Mod) (skb : Skb) (d : Dir) :
    ((computePkt m skb).stCfg d).status =
      if skb.dir = some d then countPkt (m.stCfg d).status skb else (m.stCfg d).status := by
  simp only [computePkt, devKfreeSkb, Skb.dir]
  split
  · by_cases hd : d = 0
    · subst hd
      rw [if_pos rfl, setStatus_self]
    · rw [if_neg (by simpa using Ne.symm hd), setStatus_of_ne hd]
  · split
    · by_cases hd : d = 1
      · subst hd
        rw [if_pos rfl, setStatus_self]
      · rw [if_neg (by simpa using Ne.symm hd), setStatus_of_ne hd]
    · rw [if_neg (by simp)]

theorem setStatus_setStatus (m : Mod) (d : Dir) (st st' : Status) :
    (m.setStatus d st).setStatus d st' = m.setStatus d st' := by
  simp only [Mod.setStatus, Mod.setCfg, Function.update_self, Function.update_idem]

/-- One statement for the packet. -/
def PktRun (skb : Skb) (a b : Mod × Option PktPc) : Prop := ∃ p, a.2 = some p ∧ b = pktStep a.1 skb p

section Coarse
variable {skb : Skb}

/-- A packet of the direction is counted. -/
theorem receive_run (m : Mod) (d : Dir) : Relation.TransGen (PktRun skb) (m, some (.receive d))
    (m.setStatus d (countPkt (m.stCfg d).status skb), some .free) := by
  have hreceive : PktRun skb (m, some (.receive d)) (m.setStatus d (m.stCfg d).status.received, some (.check d)) :=
    ⟨_, rfl, rfl⟩
  have hcheck (m : Mod) : PktRun skb (m, some (.check d))
      (m, some (if (m.stCfg d).status.differs skb then .error d else .free)) := ⟨_, rfl, rfl⟩
  have herror (m : Mod) : PktRun skb (m, some (.error d)) (m.setStatus d (m.stCfg d).status.erred, some .free) :=
    ⟨_, rfl, rfl⟩
  have hchecked := hcheck (m.setStatus d (m.stCfg d).status.received)
  have herred := herror (m.setStatus d (m.stCfg d).status.received)
  rw [setStatus_self, show (m.stCfg d).status.received.differs skb = (m.stCfg d).status.differs skb from rfl] at hchecked
  rw [setStatus_self, setStatus_setStatus] at herred
  rw [countPkt_eq]
  split
  · rename_i hdiffers
    rw [if_pos hdiffers] at hchecked
    exact .tail (.tail (.single hreceive) hchecked) herred
  · rename_i hsame
    rw [if_neg hsame] at hchecked
    exact .tail (.single hreceive) hchecked

/-- A packet that has been taken is compared with the addresses, counted and freed. -/
theorem pkt_run (m : Mod) : Relation.TransGen (PktRun skb) (m, some (.compare 0)) (computePkt m skb, none) := by
  have hcompare (d : Dir) : PktRun skb (m, some (.compare d)) (m, some
      (if skb.hSource = stMac d then .receive d else if d = 0 then .compare 1 else .free)) := ⟨_, rfl, rfl⟩
  have hfree (m : Mod) : PktRun skb (m, some .free) (devKfreeSkb m skb, none) := ⟨_, rfl, rfl⟩
  have hfirst := hcompare 0
  have hsecond := hcompare 1
  rw [show stMac 0 = st0Mac from rfl, if_pos (show (0 : Dir) = 0 from rfl)] at hfirst
  rw [show stMac 1 = st1Mac from rfl, if_neg (show ¬(1 : Dir) = 0 by decide)] at hsecond
  rw [computePkt]
  split
  · rename_i h₀
    rw [if_pos h₀] at hfirst
    exact .tail (.head hfirst (receive_run m 0)) (hfree _)
  · rename_i h₀
    rw [if_neg h₀] at hfirst
    split
    · rename_i h₁
      rw [if_pos h₁] at hsecond
      exact .tail (.head hfirst (.head hsecond (receive_run m 1))) (hfree _)
    · rename_i h₁
      rw [if_neg h₁] at hsecond
      exact .tail (.tail (.single hfirst) hsecond) (hfree _)

end Coarse

/-! ### What one statement does -/

/-- What a statement for a packet does to the module and to the hand of its thread. -/
inductive Piece (m : Mod) (b : Body) : Option (Skb × PktPc) → Mod → Option (Skb × PktPc) → Prop
  | takes (endTime : Nat) (skb : Skb) (rest : List Skb) (body : b = .compute (.drain endTime))
      (queue : m.compSkbqueue = skb :: rest) : Piece m b none { m with compSkbqueue := rest } (some (skb, .compare 0))
  | takesOut (skb : Skb) (rest : List Skb) (body : b = .compute .flush) (queue : m.compSkbqueue = skb :: rest) :
      Piece m b none { m with compSkbqueue := rest } (some (skb, .free))
  | compares (skb : Skb) (d : Dir) : Piece m b (some (skb, .compare d)) m
      (some (skb, if skb.hSource = stMac d then .receive d else if d = 0 then .compare 1 else .free))
  | receives (skb : Skb) (d : Dir) : Piece m b (some (skb, .receive d)) (m.setStatus d (m.stCfg d).status.received)
      (some (skb, .check d))
  | checks (skb : Skb) (d : Dir) : Piece m b (some (skb, .check d)) m
      (some (skb, if (m.stCfg d).status.differs skb then .error d else .free))
  | errs (skb : Skb) (d : Dir) : Piece m b (some (skb, .error d)) (m.setStatus d (m.stCfg d).status.erred)
      (some (skb, .free))
  | frees (skb : Skb) : Piece m b (some (skb, .free)) (devKfreeSkb m skb) none

theorem pieceStep_piece {m m' : Mod} {a a' : Option (Skb × PktPc)} {b : Body} (h : pieceStep m a b = some (m', a')) :
    Piece m b a m' a' := by
  cases a with
  | some a =>
    obtain ⟨skb, p⟩ := a
    obtain ⟨rfl, rfl⟩ := Prod.mk.inj (Option.some.inj h)
    cases p with
    | compare d => exact .compares skb d
    | receive d => exact .receives skb d
    | check d => exact .checks skb d
    | error d => exact .errs skb d
    | free => exact .frees skb
  | none =>
    simp only [pieceStep] at h
    split at h
    · rename_i endTime skb rest hq
      obtain ⟨rfl, rfl⟩ := Prod.mk.inj (Option.some.inj h)
      exact .takes endTime skb rest rfl hq
    · rename_i skb rest hq
      obtain ⟨rfl, rfl⟩ := Prod.mk.inj (Option.some.inj h)
      exact .takesOut skb rest rfl hq
    · cases h

theorem pieceStep_eq_none {m : Mod} {a : Option (Skb × PktPc)} {b : Body} :
    pieceStep m a b = none ↔ a = none ∧ b.pops m = false := by
  cases a with
  | some a => exact ⟨fun h => (by cases h), fun h => (by cases h.1)⟩
  | none =>
    rcases b with ⟨d, pc⟩ | pc
    · exact ⟨fun _ => ⟨rfl, rfl⟩, fun _ => rfl⟩
    · cases pc with
      | drain | flush => cases hq : m.compSkbqueue <;> simp [pieceStep, Body.pops, hq]
      | _ => exact ⟨fun _ => ⟨rfl, rfl⟩, fun _ => rfl⟩

/-- The event is no statement for a packet. -/
def Handfree (s : State) (hand : Hand) (e : Event) : Prop :=
  ∀ tid x, e = .thread tid x → ∀ th, s.threads[tid]? = some th → hand tid = none ∧ th.body.pops s.mod = false

/-- A step of the module or of a thread for a packet in its hand. -/
inductive Pieced (K : Kernel) (s : State) (hand : Hand) : Event → State → Hand → Prop
  | piece {tid : Nat} {x : Input} {th : Thread} {m : Mod} {a : Option (Skb × PktPc)}
      (thread : s.threads[tid]? = some th) (woken : th.woken = true)
      (piece : pieceStep s.mod (hand tid) th.body = some (m, a)) :
      Pieced K s hand (.thread tid x) { s with mod := m } (Function.update hand tid a)
  | other {e : Event} {t : State} (step : step K s e = some t) (none : Handfree s hand e) : Pieced K s hand e t hand

section Steps
variable {K : Kernel} {s t : State} {hand hand' : Hand} {e : Event}

theorem piece_eq_some {tid : Nat} {th : Thread} {r : Mod × Option (Skb × PktPc)} (hth : s.threads[tid]? = some th)
    (hwoken : th.woken = true) (hp : pieceStep s.mod (hand tid) th.body = some r) :
    s.piece hand tid = some ({ s with mod := r.1 }, Function.update hand tid r.2) := by
  rw [State.piece, hth, Option.bind_some, if_pos hwoken, hp, Option.map_some]

theorem handStep_pieced : handStep K (s, hand) e = some (t, hand') ↔ Pieced K s hand e t hand' := by
  have of_other (h : (step K s e).map (fun t => (t, hand)) = some (t, hand')) : step K s e = some t ∧ hand' = hand := by
    obtain ⟨u, hu, he⟩ := Option.map_eq_some_iff.mp h
    obtain ⟨rfl, rfl⟩ := Prod.mk.inj he
    exact ⟨hu, rfl⟩
  constructor
  · intro h
    cases e with
    | thread tid x =>
      rcases Option.or_eq_some_iff.mp h with hpiece | ⟨hnone, h⟩
      · obtain ⟨th, hth, hpiece⟩ := Option.bind_eq_some_iff.mp hpiece
        obtain ⟨hwoken, hpiece⟩ := Option.ite_none_right_eq_some.mp hpiece
        obtain ⟨⟨m, a⟩, hp, he⟩ := Option.map_eq_some_iff.mp hpiece
        obtain ⟨rfl, rfl⟩ := Prod.mk.inj he
        exact .piece hth hwoken hp
      · obtain ⟨hs, rfl⟩ := of_other h
        refine .other hs ?_
        rintro _ _ ⟨⟩ th hth
        obtain ⟨th', m, b, hr⟩ := threadStep_ran hs
        obtain rfl := Option.some.inj (hth.symm.trans hr.thread)
        refine pieceStep_eq_none.mp (Option.eq_none_iff_forall_ne_some.mpr fun r hp => ?_)
        rw [piece_eq_some hth hr.woken hp] at hnone
        cases hnone
    | _ =>
      obtain ⟨hs, rfl⟩ := of_other h
      exact .other hs fun _ _ he => by cases he
  · rintro (⟨hth, hwoken, hp⟩ | ⟨hs, hnone⟩)
    · exact Option.or_eq_some_iff.mpr (Or.inl (piece_eq_some hth hwoken hp))
    · have hother : (step K s e).map (fun t => (t, hand)) = some (t, hand) := by rw [hs, Option.map_some]
      cases e with
      | thread tid x =>
        refine Option.or_eq_some_iff.mpr (Or.inr ⟨?_, hother⟩)
        obtain ⟨th, m, b, hr⟩ := threadStep_ran hs
        simp only
        rw [State.piece, hr.thread, Option.bind_some, if_pos hr.woken,
          pieceStep_eq_none.mpr (hnone tid x rfl th hr.thread), Option.map_none]
      | _ => exact hother

/-- A thread takes a packet and executes the statements for it. -/
theorem take_run {tid : Nat} {x : Input} {th : Thread} {skb : Skb} {p : PktPc} {m m' : Mod}
    (hth : s.threads[tid]? = some th) (hwoken : th.woken = true) (hhand : hand tid = none)
    (htake : pieceStep s.mod none th.body = some (m, some (skb, p)))
    (hrun : Relation.TransGen (PktRun skb) (m, some p) (m', none)) :
    Relation.TransGen (HandStep K (.thread tid x)) (s, hand) ({ s with mod := m' }, hand) := by
  let at_ (r : Mod × Option PktPc) : State × Hand :=
    ({ s with mod := r.1 }, Function.update hand tid (r.2.map fun p => (skb, p)))
  have hstep (a b : Mod × Option PktPc) (h : PktRun skb a b) : HandStep K (.thread tid x) (at_ a) (at_ b) := by
    obtain ⟨m, _⟩ := a
    obtain ⟨p, rfl, rfl⟩ := h
    have hpiece : pieceStep m (Function.update hand tid (some (skb, p)) tid) th.body =
        some ((pktStep m skb p).1, (pktStep m skb p).2.map fun p => (skb, p)) := by rw [Function.update_self, pieceStep]
    have hone := handStep_pieced (K := K) |>.mpr (.piece (s := { s with mod := m }) (x := x) hth hwoken hpiece)
    rwa [Function.update_idem] at hone
  have hfirst : HandStep K (.thread tid x) (s, hand) (at_ (m, some p)) :=
    handStep_pieced.mpr (.piece hth hwoken (by rw [hhand, htake]; rfl))
  have hlast : at_ (m', none) = ({ s with mod := m' }, hand) := by
    simp only [at_, Option.map_none]
    rw [← hhand, Function.update_eq_self]
  rw [← hlast]
  exact .head hfirst (hrun.lift at_ hstep)

/-- What `step` does in one step is done in one or more statements, when the thread has no packet in hand. -/
theorem step_pieces (hs : step K s e = some t) (hfree : ∀ tid x, e = .thread tid x → hand tid = none) :
    Relation.TransGen (HandStep K e) (s, hand) (t, hand) := by
  have hone (hnone : Handfree s hand e) : Relation.TransGen (HandStep K e) (s, hand) (t, hand) :=
    .single (handStep_pieced.mpr (.other hs hnone))
  cases e with
  | thread tid x =>
    obtain ⟨⟨body, woken, stop⟩, m, b, hth, hwoken, hb, rfl⟩ := threadStep_ran hs
    have hhand := hfree tid x rfl
    have hkeeps (hpops : body.pops s.mod = false) : Handfree s hand (.thread tid x) := by
      rintro _ _ ⟨⟩ th hth'
      obtain rfl := Option.some.inj (hth.symm.trans hth')
      exact ⟨hhand, hpops⟩
    have hset : s.threads.set tid ⟨body, woken, stop⟩ = s.threads := by
      obtain ⟨hlt, heq⟩ := List.getElem?_eq_some_iff.mp hth
      rw [← heq, List.set_getElem_self]
    cases bodyStep_executes hb with
    | sends => exact hone (hkeeps rfl)
    | computes h =>
      cases h with
      | counts endTime skb rest hq =>
        rw [hset]
        exact take_run hth hwoken hhand (by simp only [pieceStep, hq]) (pkt_run _)
      | frees skb rest hq =>
        have hfree : PktRun skb ({ s.mod with compSkbqueue := rest }, some .free) (devKfreeSkb _ skb, none) :=
          ⟨_, rfl, rfl⟩
        rw [hset]
        exact take_run hth hwoken hhand (by simp only [pieceStep, hq]) (.single hfree)
      | drained endTime hq | flushed hq => exact hone (hkeeps (by simp [Body.pops, hq]))
      | _ => exact hone (hkeeps rfl)
  | _ => exact hone fun _ _ he => by cases he

/-- The states of `lts`, with no packet in hand, are reached in single statements as well. -/
theorem reachable_hand (h : (lts K).Reachable s) : (handLts K).Reachable (s, fun _ => none) := by
  have of_run {e : Event} {a b : State × Hand} (hr : Relation.TransGen (HandStep K e) a b)
      (ha : (handLts K).Reachable a) : (handLts K).Reachable b := by
    induction hr with
    | single hs => exact ha.step e trivial hs
    | tail _ hs ih => exact ih.step e trivial hs
  induction h with
  | init h => exact .init ⟨h, rfl⟩
  | step e _ _ hs ih => exact of_run (step_pieces hs fun _ _ _ => rfl) ih

end Steps

/-! ### Several writers -/

namespace Pieces
variable {n : Nat} {K : Kernel} {s t : Pieces n}

/-- While the writers come one at a time, a step is one of the process at work. -/
theorem step_whole {e : Fin n × Event} (ha : s.writers.Alone) (hok : s.writers.OneAtATime e) (hs : s.step K e = some t) :
    t.writers.Alone ∧ handStep K s.whole e.2 = some t.whole := by
  obtain ⟨i, e⟩ := e
  obtain ⟨hadmits, hs⟩ := Option.ite_none_right_eq_some.mp hs
  obtain ⟨⟨u, hand'⟩, hu, rfl⟩ := Option.map_eq_some_iff.mp hs
  cases handStep_pieced.mp hu with
  | @piece tid x th m a hth hwoken hp =>
    have hctls : (s.writers.put i { s.writers.view i with mod := m }).ctls = s.writers.ctls :=
      Function.update_eq_self _ _
    refine ⟨by rw [Writers.Alone, hctls]; exact ha, ?_⟩
    have hbusy : (s.writers.put i { s.writers.view i with mod := m }).busy = s.writers.busy := by
      rw [Writers.busy, hctls, Writers.busy]
    have hwhole := handStep_pieced (K := K) |>.mpr (.piece (s := s.writers.whole) (x := x) hth hwoken hp)
    rw [whole, whole, hwhole, Writers.whole, Writers.whole, hbusy]
    rfl
  | other hstep hnone =>
    have hput : s.writers.step K (i, e) = some (s.writers.put i u) := by
      rw [Writers.step, if_pos hadmits, hstep, Option.map_some]
    obtain ⟨ha', hs'⟩ := Writers.step_whole ha hok hput
    exact ⟨ha', handStep_pieced.mpr (.other hs' hnone)⟩

theorem whole_start (K : Kernel) (j : Nat) : (start n K j).whole = (Speedtest.start K j, fun _ => none) := by
  rw [whole, show (start n K j).writers = .start n K j from rfl, Writers.whole_start]
  rfl

variable {η : Type} {obs : State × Hand → Event → η → η} {h₀ h : η}

/-- A run of writers that come one at a time, with a history, is a run of one process. -/
theorem reach_whole_track (ok : (State × Hand) × η → Event → Prop)
    (hr : ((piecesLts n K).track (fun s e => obs s.whole e.2) h₀).Reach
      (fun x e => x.1.writers.OneAtATime e ∧ ok (x.1.whole, x.2) e.2) (s, h)) :
    s.writers.Alone ∧ ((handLts K).track obs h₀).Reach ok (s.whole, h) := by
  refine hr.map (f := fun x => (x.1.whole, x.2)) (g := Prod.snd) (I := fun x => x.1.writers.Alone) ?_
    fun x e y ha hok hs => ?_
  · rintro ⟨_, _⟩ ⟨⟨j, hj, rfl⟩, rfl⟩
    refine ⟨Writers.alone_start K j, ?_⟩
    rw [whole_start]
    exact ⟨⟨⟨j, hj, rfl⟩, rfl⟩, rfl⟩
  · obtain ⟨hs, hobs⟩ := Lts.track_step.mp hs
    obtain ⟨ha', hs'⟩ := step_whole ha hok.1 hs
    exact ⟨ha', hok.2, Lts.track_step.mpr ⟨hs', hobs⟩⟩

end Pieces

/-! ### Whose packet it is -/

/-- The threads are still there, each at the same statement. -/
def BodiesKept (s t : State) : Prop :=
  ∀ (tid : Nat) (th : Thread), s.threads[tid]? = some th → ∃ th', t.threads[tid]? = some th' ∧ th'.body = th.body

/-- The control changes the statement of no thread. -/
theorem Acts.bodiesKept {s t : State} {ok : Bool} (ha : Acts s ok t) : BodiesKept s t := by
  intro i th hi
  have of_modify {tid : Nat} {f : Thread → Thread} (hth : t.threads = s.threads.modify tid f)
      (hbody : ∀ th, (f th).body = th.body) : ∃ th', t.threads[i]? = some th' ∧ th'.body = th.body := by
    refine ⟨if tid = i then f th else th, by rw [hth, List.getElem?_modify, hi]; rfl, ?_⟩
    split
    · rw [hbody]
    · rfl
  cases ha.managed with
  | quiet hth | fails _ _ _ hth => exact ⟨th, hth ▸ hi, rfl⟩
  | tells _ _ _ _ hth | wakes _ _ _ _ hth => exact of_modify hth fun _ => rfl
  | creates _ _ _ hth =>
    exact ⟨th, by rw [hth, List.getElem?_append_left (List.getElem?_eq_some_iff.mp hi).1, hi], rfl⟩

theorem Piece.ptr {m m' : Mod} {b : Body} {a a' : Option (Skb × PktPc)} (h : Piece m b a m' a') : m'.ptr = m.ptr := by
  cases h with
  | receives | errs => exact ptr_setStatus _ _ _
  | _ => rfl

/-- A packet is in the hand of a thread at the queue, which has come to a statement for the packet's direction. -/
structure Handed (s : State) (hand : Hand) : Prop where
  held : Held s
  reads : ∀ tid a, hand tid = some a → ∃ th, s.threads[tid]? = some th ∧ th.body.reads = true
  placed : ∀ tid skb p, hand tid = some (skb, p) → p.Placed skb

namespace Handed
variable {K : Kernel} {s t : State} {hand hand' : Hand}

theorem start (K : Kernel) (j : Nat) : Handed (start K j) fun _ => none where
  held := Held.start K j
  reads _ _ h := by cases h
  placed _ _ _ h := by cases h

theorem piece (h : Handed s hand) {tid : Nat} {th : Thread} {m : Mod} {a : Option (Skb × PktPc)}
    (hth : s.threads[tid]? = some th) (hp : Piece s.mod th.body (hand tid) m a) :
    Handed { s with mod := m } (Function.update hand tid a) := by
  refine ⟨⟨?_, ?_, ?_⟩, fun i b hi => ?_, fun i skb p hi => ?_⟩
  · rw [hp.ptr]
    exact h.held.names
  · rw [hp.ptr]
    exact h.held.owner
  · rw [hp.ptr]
    exact h.held.vacant
  · rw [Function.update_apply] at hi
    split at hi
    · rename_i hit
      subst hit
      generalize ha : hand i = c at hp
      cases hp with
      | takes endTime skb rest hbody | takesOut skb rest hbody => exact ⟨th, hth, by rw [hbody]; rfl⟩
      | frees => cases hi
      | _ => exact h.reads i _ ha
    · exact h.reads i b hi
  · rw [Function.update_apply] at hi
    split at hi
    · rename_i hit
      subst hit
      generalize ha : hand i = c at hp
      cases hp with
      | takes =>
        cases hi
        exact Or.inl rfl
      | takesOut =>
        cases hi
        trivial
      | compares skb d =>
        cases hi
        rcases compare_cases (h.placed i _ _ ha) rfl with ⟨hp, hdir⟩ | ⟨hp, hmac⟩ | ⟨hp, -⟩ <;> rw [hp]
        · exact hdir
        · exact Or.inr hmac
        · trivial
      | receives skb d =>
        cases hi
        exact (h.placed i _ _ ha : skb.dir = some d)
      | checks skb d =>
        cases hi
        split
        · exact (h.placed i _ _ ha : skb.dir = some d)
        · trivial
      | errs =>
        cases hi
        trivial
      | frees => cases hi
    · exact h.placed i skb p hi

/-- A step of the module, in which no thread with a packet in hand has taken part. -/
theorem other (h : Handed s hand) {e : Event} (hs : Speedtest.step K s e = some t) (hnone : Handfree s hand e) :
    Handed t hand := by
  refine ⟨h.held.step hs, fun i a hi => ?_, h.placed⟩
  obtain ⟨th, hth, hreads⟩ := h.reads i a hi
  rcases step_cases hs with ⟨tid, x, th', m, b, rfl, hr⟩ | ⟨ok, -, ha⟩ | ho
  · obtain ⟨hth', -, -, rfl⟩ := hr
    have hne : tid ≠ i := by
      rintro rfl
      rw [(hnone tid x rfl th' hth').1] at hi
      cases hi
    exact ⟨th, by rw [List.getElem?_set_ne hne, hth], hreads⟩
  · obtain ⟨th', hth', hb⟩ := ha.bodiesKept i th hth
    exact ⟨th', hth', by rw [hb, hreads]⟩
  · exact ⟨th, by rw [ho.threads, hth], hreads⟩

theorem step (h : Handed s hand) {e : Event} (hs : Pieced K s hand e t hand') : Handed t hand' := by
  cases hs with
  | piece hth _ hp => exact h.piece hth (pieceStep_piece hp)
  | other hs hnone => exact h.other hs hnone

/-- A packet in hand is that of the only thread at the queue. -/
theorem unique (h : Handed s hand) {i j : Nat} {a : Skb × PktPc} {th : Thread} (hi : hand i = some a)
    (hj : s.threads[j]? = some th) (hreads : th.body.reads = true) : i = j := by
  obtain ⟨th', hth', hreads'⟩ := h.reads i a hi
  obtain ⟨hh, hsl⟩ := Body.holds_of_reads hreads'
  obtain ⟨hh', hsl'⟩ := Body.holds_of_reads hreads
  exact h.held.unique hth' hj (hsl.trans hsl'.symm) hh hh'

end Handed

end QuickStart.Speedtest
