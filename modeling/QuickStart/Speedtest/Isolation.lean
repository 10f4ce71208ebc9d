import QuickStart.Speedtest.RxHook
import QuickStart.Speedtest.Tally

/-! # Packets of an earlier test

`comp_skbqueue` is first in, first out, so that the packets which were there when a command was called are its
first ones. The command clears the status of a direction while the compute thread of the test before it may still
count for it. -/

namespace QuickStart.Speedtest
open State

/-- The packets that were there at the call of a command: the first ones of the queue, and those in the hands of some
    threads. -/
structure Before where
  queue : Nat
  hand : Nat → Bool

def Before.empty : Before := ⟨0, fun _ => false⟩

/-- The thread `tid` has taken a packet from the queue. -/
def Before.take (b : Before) (tid : Nat) : Before := ⟨b.queue - 1, Function.update b.hand tid (decide (0 < b.queue))⟩

/-- The packets that were there at the latest call of a command, and, for each direction, at the call of the command
    that cleared its status; and how often a packet of the latter kind has been added to a counter of the direction
    since then. -/
structure Past where
  before : Before
  old : Dir → Before
  stale : Dir → Nat

def Past.empty : Past := ⟨.empty, fun _ => .empty, fun _ => 0⟩

/-- The statement adds to a counter of the direction. -/
def PktPc.adds : PktPc → Option Dir
  | .receive d | .error d => some d
  | .compare _ | .check _ | .free => none

/-- After a statement of the thread `tid`, which has `a` in its hand. -/
def Past.after (h : Past) (m : Mod) (tid : Nat) (b : Body) : Option (Skb × PktPc) → Past
  | some (_, p) =>
    match p.adds with
    | some d => if (h.old d).hand tid then { h with stale := Function.update h.stale d (h.stale d + 1) } else h
    | none => h
  | none => if b.pops m then { h with before := h.before.take tid, old := fun d => (h.old d).take tid } else h

def past (s : State × Hand) (e : Event) (h : Past) : Past :=
  match e with
  | .thread tid _ => (s.1.threads[tid]?.map fun th => h.after s.1.mod tid th.body (s.2 tid)).getD h
  | .command _ => { h with before := ⟨s.1.mod.compSkbqueue.length, fun tid => (s.2 tid).isSome⟩ }
  | .ctl _ =>
    if s.1.ctl = .unload .fifoFree then
      { h with before := { h.before with queue := 0 }, old := fun d => { h.old d with queue := 0 } }
    else
      match s.1.zeroes with
      | some d => { h with old := Function.update h.old d h.before, stale := Function.update h.stale d 0 }
      | none => h
  | _ => h

/-- A compute thread has left its counting loop and empties the queue. -/
def State.flushing (s : State) : Bool := s.threads.any fun th => th.body == .compute .flush

/-- The queue has a packet of the direction among its first `n`. -/
def Mod.hasOld (m : Mod) (n : Nat) (d : Dir) : Bool := (m.compSkbqueue.take n).any fun skb => skb.dir == some d

/-- A thread in `b` has in its hand a packet of the direction that it has not counted. -/
def State.hasOldInHand (s : State) (hand : Hand) (b : Nat → Bool) (d : Dir) : Bool :=
  (List.range s.threads.length).any fun tid => b tid && (hand tid).any (uncounted d)

/-- When a command clears the status of a direction, no packet of the direction is left from before the call, unless a
    compute thread is emptying the queue, and none is in hand and not yet counted. -/
def Separated (s : State × Hand) (h : Past) : Event → Prop
  | .ctl _ => ∀ d ∈ s.1.zeroes, (s.1.mod.hasOld h.before.queue d = true → s.1.flushing = true) ∧
    s.1.hasOldInHand s.2 h.before.hand d = false
  | _ => True

instance (s : State × Hand) (h : Past) : ∀ e : Event, Decidable (Separated s h e)
  | .ctl _ => inferInstanceAs (Decidable (∀ d ∈ s.1.zeroes, _))
  | .thread _ _ | .command _ | .unload | .receive _ | .rxHook _ | .transmit _ _ | .timer | .tick =>
    inferInstanceAs (Decidable True)

/-- A statement for no packet leaves the queue as it is, and ends the emptying only when the queue is empty. -/
theorem bodyStep_keeps {K : Kernel} {stop : Bool} {x : Input} {m m' : Mod} {b b' : Body}
    (hs : bodyStep K stop x m b = some (m', b')) (hpops : b.pops m = false) :
    m'.compSkbqueue = m.compSkbqueue ∧ (b = .compute .flush → m.compSkbqueue = []) := by
  cases bodyStep_executes hs with
  | sends d h => exact ⟨rfl, fun h => by cases h⟩
  | computes h =>
    cases h with
    | counts endTime skb rest hq | frees skb rest hq => simp [Body.pops, hq] at hpops
    | flushed hq => exact ⟨rfl, fun _ => hq⟩
    | _ => exact ⟨rfl, fun h => by cases h⟩

theorem flushing_iff {s : State} : s.flushing = true ↔ ∃ th ∈ s.threads, th.body = .compute .flush := by
  simp [State.flushing]

/-- A thread that counts is the only one that takes packets. -/
theorem Held.not_flushing {s : State} (h : Held s) {tid : Nat} {th : Thread} (hth : s.threads[tid]? = some th)
    (hc : th.body.counting = true) : s.flushing = false := by
  by_contra hf
  obtain ⟨th', hm, hb⟩ := flushing_iff.mp (by simpa using hf)
  obtain ⟨i, hi⟩ := List.mem_iff_getElem?.mp hm
  obtain ⟨hholds, hslot⟩ := Body.counting.holds hc
  have hmine := h.names tid th hth hholds
  have hother := h.names i th' hi (by rw [hb]; rfl)
  rw [hslot] at hmine
  rw [hb] at hother
  obtain rfl := Ptr.task.inj (hmine.symm.trans hother)
  rw [hth] at hi
  obtain rfl := Option.some.inj hi
  rw [hb] at hc
  cases hc

/-- The control stops no thread in the middle of its work. -/
theorem Acts.flushing {s t : State} {ok : Bool} (ha : Acts s ok t) (hf : s.flushing = true) : t.flushing = true := by
  obtain ⟨th, hm, hb⟩ := flushing_iff.mp hf
  obtain ⟨i, hi⟩ := List.mem_iff_getElem?.mp hm
  obtain ⟨th', hi', hb'⟩ := ha.bodiesKept i th hi
  exact flushing_iff.mpr ⟨th', List.mem_of_getElem? hi', hb'.trans hb⟩

theorem hasOld_eq_true {m : Mod} {n : Nat} {d : Dir} :
    m.hasOld n d = true ↔ ∃ skb ∈ m.compSkbqueue.take n, skb.dir = some d := by
  simp [Mod.hasOld]

/-- What was not among the first packets before the first was taken is not among them now. -/
theorem hasOld_tail {m m' : Mod} {skb : Skb} (hq : m.compSkbqueue = skb :: m'.compSkbqueue) {n : Nat} {d : Dir}
    (h : m'.hasOld (n - 1) d = true) : m.hasOld n d = true := by
  obtain ⟨skb', hm, hd⟩ := hasOld_eq_true.mp h
  refine hasOld_eq_true.mpr ⟨skb', ?_, hd⟩
  cases n with
  | zero => exact absurd hm List.not_mem_nil
  | succ n =>
    rw [hq, List.take_succ_cons]
    exact List.mem_cons_of_mem _ hm

/-- The receive hook puts packets at the end of the queue. -/
theorem callRxHook_queue (m : Mod) (skb : Skb) (h : RxHook) :
    ∃ new, (callRxHook m skb h).1.compSkbqueue = m.compSkbqueue ++ new := by
  have hnone {q : List Skb} (hq : q = m.compSkbqueue) : ∃ new, q = m.compSkbqueue ++ new :=
    ⟨[], hq.trans (List.append_nil _).symm⟩
  rcases callRxHook_cases m skb h with he | he | ⟨bit, he⟩ <;> rw [he]
  · exact hnone rfl
  · rw [kfifoIn]
    split
    · exact ⟨[skb], rfl⟩
    · exact hnone rfl
  · simp only [freeProbeSkb, devKfreeSkb]
    split <;> exact hnone rfl

/-- No packet of an earlier test has been counted, and none is left to be counted. -/
structure Isolated (s : State) (hand : Hand) (h : Past) : Prop where
  handed : Handed s hand
  before : h.before.queue ≤ s.mod.compSkbqueue.length
  old : ∀ d, (h.old d).queue ≤ s.mod.compSkbqueue.length
  gone : ∀ d, s.mod.hasOld (h.old d).queue d = true → s.flushing = true
  hands : ∀ d tid a, hand tid = some a → (h.old d).hand tid = true → uncounted d a = false
  stale : ∀ d, h.stale d = 0

theorem uncounted_eq_false {d : Dir} {skb : Skb} {p p' : PktPc} (h : uncounted d (skb, p) = false) (hp : p ≠ .free) :
    uncounted d (skb, p') = false := by
  have hdir : skb.dir ≠ some d := by
    rintro hdir
    simp [uncounted, hdir, hp] at h
  simp [uncounted, hdir]

namespace Isolated
variable {K : Kernel} {s t : State} {hand hand' : Hand} {hist : Past}

theorem start (K : Kernel) (j : Nat) : Isolated (start K j) (fun _ => none) .empty where
  handed := Handed.start K j
  before := Nat.zero_le _
  old _ := Nat.zero_le _
  gone _ h := by cases h
  hands _ _ _ h := by cases h
  stale _ := rfl

theorem of_frame (h : Isolated s hand hist) (hheld : Handed t hand) {new : List Skb}
    (hqueue : t.mod.compSkbqueue = s.mod.compSkbqueue ++ new) (hflush : s.flushing = true → t.flushing = true) :
    Isolated t hand hist where
  handed := hheld
  before := by
    rw [hqueue, List.length_append]
    exact Nat.le_add_right_of_le h.before
  old d := by
    rw [hqueue, List.length_append]
    exact Nat.le_add_right_of_le (h.old d)
  gone d hd := by
    rw [Mod.hasOld, hqueue, List.take_append_of_le_length (h.old d)] at hd
    exact hflush (h.gone d hd)
  hands := h.hands
  stale := h.stale

section Pieces
variable {tid : Nat} {th : Thread} {skb : Skb} {m : Mod}

/-- A thread takes a packet, which is not an old one of its direction unless the thread empties the queue. -/
theorem taken (h : Isolated s hand hist) {rest : List Skb} {p : PktPc}
    (hheld : Handed { s with mod := { s.mod with compSkbqueue := rest } } (Function.update hand tid (some (skb, p))))
    (hq : s.mod.compSkbqueue = skb :: rest) (hpops : th.body.pops s.mod = true)
    (hnew : (∀ d, s.mod.hasOld (hist.old d).queue d = false) ∨ p = .free) :
    Isolated { s with mod := { s.mod with compSkbqueue := rest } } (Function.update hand tid (some (skb, p)))
      (hist.after s.mod tid th.body none) := by
  have hafter : hist.after s.mod tid th.body none =
      { hist with before := hist.before.take tid, old := fun d => (hist.old d).take tid } := if_pos hpops
  have hone {n : Nat} (hn : n ≤ s.mod.compSkbqueue.length) : n - 1 ≤ rest.length := by
    rw [hq, List.length_cons] at hn
    omega
  have hqueue : s.mod.compSkbqueue = skb :: ({ s.mod with compSkbqueue := rest } : Mod).compSkbqueue := hq
  rw [hafter]
  refine ⟨hheld, hone h.before, fun d => hone (h.old d), fun d hd => h.gone d (hasOld_tail hqueue hd),
    fun d i a hi hold => ?_, h.stale⟩
  simp only [Before.take, Function.update_apply] at hi hold
  split at hi
  · rename_i hit
    obtain rfl := Option.some.inj hi
    rw [if_pos hit, decide_eq_true_eq] at hold
    rcases hnew with hno | rfl
    · by_contra hun
      have hhead : skb ∈ s.mod.compSkbqueue.take (hist.old d).queue := by
        obtain ⟨n, hn⟩ := Nat.exists_eq_succ_of_ne_zero hold.ne'
        rw [hn, hq, List.take_succ_cons]
        exact List.mem_cons_self
      have hdir : skb.dir = some d := by
        simp only [uncounted, Bool.not_eq_false, Bool.and_eq_true, beq_iff_eq] at hun
        exact hun.1
      have hbad := hno d
      rw [hasOld_eq_true.mpr ⟨skb, hhead, hdir⟩] at hbad
      cases hbad
    · simp [uncounted]
  · rename_i hit
    rw [if_neg hit] at hold
    exact h.hands d i a hi hold

/-- A statement for a packet in hand, which is not counted when it is an old one. -/
theorem works (h : Isolated s hand hist) {p p' : PktPc} {b : Body}
    (hheld : Handed { s with mod := m } (Function.update hand tid (some (skb, p')))) (ha : hand tid = some (skb, p))
    (hp : p ≠ .free) (hq : m.compSkbqueue = s.mod.compSkbqueue) :
    Isolated { s with mod := m } (Function.update hand tid (some (skb, p'))) (hist.after s.mod tid b (some (skb, p))) := by
  have hplaced := h.handed.placed tid skb p ha
  have hnew {d : Dir} (hdir : skb.dir = some d) : (hist.old d).hand tid = false := by
    by_contra hold
    have hun := h.hands d tid _ ha (by simpa using hold)
    simp [uncounted, hdir, hp] at hun
  have hafter : hist.after s.mod tid b (some (skb, p)) = hist := by
    cases p with
    | receive d | error d => exact if_neg (by rw [hnew hplaced]; exact Bool.false_ne_true)
    | _ => rfl
  rw [hafter]
  refine ⟨hheld, ?_, fun d => ?_, fun d hd => ?_, fun d i a hi hold => ?_, h.stale⟩
  · rw [hq]
    exact h.before
  · rw [hq]
    exact h.old d
  · rw [Mod.hasOld, hq] at hd
    exact h.gone d hd
  · rw [Function.update_apply] at hi
    split at hi
    · rename_i hit
      subst hit
      obtain rfl := Option.some.inj hi
      exact uncounted_eq_false (h.hands d i _ ha hold) hp
    · exact h.hands d i a hi hold

theorem piece (h : Isolated s hand hist) {a : Option (Skb × PktPc)} (hth : s.threads[tid]? = some th)
    (hp : Piece s.mod th.body (hand tid) m a) :
    Isolated { s with mod := m } (Function.update hand tid a) (hist.after s.mod tid th.body (hand tid)) := by
  have hheld := h.handed.piece hth hp
  generalize ha : hand tid = c at hp
  cases hp with
  | takes endTime skb rest hbody hq =>
    refine h.taken hheld hq (by simp [hbody, Body.pops, hq]) (Or.inl fun d => ?_)
    by_contra hold
    have hno := h.gone d (by simpa using hold)
    rw [h.handed.held.not_flushing hth (by rw [hbody]; rfl)] at hno
    cases hno
  | takesOut skb rest hbody hq => exact h.taken hheld hq (by simp [hbody, Body.pops, hq]) (Or.inr rfl)
  | compares skb e | checks skb e => exact h.works hheld ha (by rintro ⟨⟩) rfl
  | receives skb e | errs skb e => exact h.works hheld ha (by rintro ⟨⟩) rfl
  | frees skb =>
    refine ⟨hheld, h.before, h.old, h.gone, fun d i a hi hold => ?_, h.stale⟩
    rw [Function.update_apply] at hi
    split at hi
    · cases hi
    · exact h.hands d i a hi hold

end Pieces

/-- A statement of a thread that has no packet in hand and takes none. -/
theorem ran (h : Isolated s hand hist) (hheld : Handed t hand) {tid : Nat} {x : Input} {th : Thread} {m : Mod} {b : Body}
    (hr : Ran K s t tid x th m b) (hpops : th.body.pops s.mod = false) : Isolated t hand hist := by
  obtain ⟨hth, -, hb, rfl⟩ := hr
  obtain ⟨hq, hflush⟩ := bodyStep_keeps hb hpops
  refine ⟨hheld, ?_, fun d => ?_, fun d hd => ?_, h.hands, h.stale⟩
  · rw [hq]
    exact h.before
  · rw [hq]
    exact h.old d
  · rw [Mod.hasOld, hq] at hd
    obtain ⟨th', hm, hb'⟩ := flushing_iff.mp (h.gone d hd)
    obtain ⟨i, hi⟩ := List.mem_iff_getElem?.mp hm
    refine flushing_iff.mpr ⟨th', List.mem_of_getElem? (i := i) ?_, hb'⟩
    rw [List.getElem?_set_ne, hi]
    rintro rfl
    rw [hth] at hi
    obtain rfl := Option.some.inj hi
    rw [hflush hb', List.take_nil] at hd
    cases hd

theorem acts (h : Isolated s hand hist) (hheld : Handed t hand) {ok : Bool}
    (hok : Separated (s, hand) hist (.ctl ok)) (ha : Acts s ok t) : Isolated t hand (past (s, hand) (.ctl ok) hist) := by
  simp only [past]
  by_cases hfree : s.ctl = .unload .fifoFree
  · rw [if_pos hfree]
    exact ⟨hheld, Nat.zero_le _, fun _ => Nat.zero_le _, fun d hd => (by simp [Mod.hasOld] at hd), h.hands, h.stale⟩
  rw [if_neg hfree]
  have hqueue : t.mod.compSkbqueue = s.mod.compSkbqueue := by
    rcases ha.skbs.2 with hsame | ⟨hctl, -⟩
    · exact hsame.queue
    · exact absurd hctl hfree
  have hframe : Isolated t hand hist := h.of_frame hheld (hqueue.trans (List.append_nil _).symm) ha.flushing
  cases hz : s.zeroes with
  | none => exact hframe
  | some d =>
    obtain ⟨hgone, hhands⟩ := hok d hz
    refine ⟨hheld, hframe.before, fun e => ?_, fun e he => ?_, fun e i a hi hold => ?_, fun e => ?_⟩ <;> dsimp only at * <;>
      rw [Function.update_apply] at *
    · split
      · exact hframe.before
      · exact hframe.old e
    · split at he
      · rename_i hed
        subst hed
        rw [Mod.hasOld, hqueue] at he
        exact ha.flushing (hgone he)
      · exact hframe.gone e he
    · split at hold
      · rename_i hed
        subst hed
        by_contra hun
        obtain ⟨th, hth, -⟩ := h.handed.reads i a hi
        have hbad : s.hasOldInHand hand hist.before.hand e = true := by
          refine List.any_eq_true.mpr ⟨i, List.mem_range.mpr (List.getElem?_eq_some_iff.mp hth).1, ?_⟩
          rw [hold, hi]
          simpa using hun
        rw [hhands] at hbad
        cases hbad
      · exact h.hands e i a hi hold
    · split
      · rfl
      · exact h.stale e

theorem step (h : Isolated s hand hist) {e : Event} (hok : Separated (s, hand) hist e) (hs : Pieced K s hand e t hand') :
    Isolated t hand' (past (s, hand) e hist) := by
  have hheld := h.handed.step hs
  cases hs with
  | @piece tid x th m a hth _ hp =>
    rw [past, hth]
    exact h.piece hth (pieceStep_piece hp)
  | other hs hnone =>
    cases step_steps hs with
    | @runs tid x _ th m b hr =>
      obtain ⟨hhand, hpops⟩ := hnone tid x rfl th hr.thread
      have hafter : hist.after s.mod tid th.body none = hist := if_neg (by rw [hpops]; exact Bool.false_ne_true)
      rw [past, hr.thread, Option.map_some, Option.getD_some, show (s, hand).2 tid = none from hhand, hafter]
      exact h.ran hheld hr hpops
    | acts ha => exact h.acts hheld hok ha
    | begins => exact ⟨hheld, le_rfl, h.old, h.gone, h.hands, h.stale⟩
    | unloads | receives | passes | ticks => exact ⟨hheld, h.before, h.old, h.gone, h.hands, h.stale⟩
    | @calls i r =>
      obtain ⟨new, hnew⟩ := callRxHook_queue s.mod r.2 r.1
      exact h.of_frame hheld hnew id
    | transmits data dev =>
      refine h.of_frame hheld (Eq.trans ?_ (List.append_nil _).symm) id
      rcases xmitSpeedtestPkt_skbs { s.mod with nextSkb := s.mod.nextSkb + 1 } (s.mod.newSkb data) dev with
        ⟨-, he⟩ | ⟨-, he⟩ <;> rw [he]
      rfl
    | expires =>
      have hq := (speedtestLoopDetectCb_skbs K { s.mod with loopDetectTimer := none }).queue
      exact h.of_frame hheld (hq.trans (List.append_nil _).symm) id

end Isolated

abbrev pastLts (n : Nat) (K : Kernel) : Lts (Pieces n × Past) (Fin n × Event) :=
  (piecesLts n K).track (fun s e => past s.whole e.2) .empty

/-- In the runs of `Separated` whose commands come one at a time, no packet that was in the queue or in hand when a
    command was called is counted for a direction whose status that command has cleared. -/
theorem tests_isolated {n : Nat} {K : Kernel} {s : Pieces n} {hist : Past}
    (hr : (pastLts n K).Reach (fun x e => x.1.writers.OneAtATime e ∧ Separated x.1.whole x.2 e.2) (s, hist)) (d : Dir) :
    hist.stale d = 0 := by
  obtain ⟨-, hr⟩ := Pieces.reach_whole_track (fun x => Separated x.1 x.2) hr
  have inv : Isolated s.whole.1 s.whole.2 hist := by
    refine hr.track_invariant (I := fun x h => Isolated x.1 x.2 h) ?_ ?_
    · rintro ⟨_, _⟩ ⟨⟨j, -, rfl⟩, rfl⟩
      exact Isolated.start K j
    · rintro ⟨s, hand⟩ h e ⟨t, hand'⟩ hi hok hs
      exact hi.step hok (handStep_pieced.mp hs)
  exact inv.stale d

/-- A test whose two senders have sent one packet each: the compute thread drains. -/
def drainRun : List Event := commandRun ++ [Event.thread 2 ⟨none, true, 0⟩] ++ senderRun 0 ++ senderRun 1

/-- Another process writes the command again; the compute thread of the first test executes `k` statements while the
    second process waits for it. -/
def secondRun (k : Nat) : List (Fin 2 × Event) :=
  (Event.command [1, 0, 100, 42, 1] :: List.replicate 12 (Event.ctl true)).map ((1, ·)) ++
    List.replicate k (0, Event.thread 2 ⟨none, true, 0⟩) ++ List.replicate 7 (1, Event.ctl true)

/-- A packet comes behind the counting loop of the first test, and a second command finds it in the queue. -/
theorem tests_isolated_flush : ∃ (s : Pieces 2) (hist : Past),
    (pastLts 2 kernel32).Reach (fun x e => x.1.writers.OneAtATime e ∧ Separated x.1.whole x.2 e.2) (s, hist) ∧
    s.writers.ctls 1 = .idle ∧ s.writers.threads.length = 6 ∧ s.writers.mod.freed.length = 1 ∧ hist.stale 0 = 0 := by
  have hrun : ((pastLts 2 kernel32).runIf (fun x e => x.1.writers.OneAtATime e ∧ Separated x.1.whole x.2 e.2)
      (.start 2 kernel32 1000, .empty)
      ((drainRun ++ List.replicate 5 (Event.thread 2 ⟨none, true, 0⟩) ++ List.replicate 501 Event.tick ++
        List.replicate 5 (Event.thread 2 ⟨none, true, 0⟩) ++ [Event.receive pkt42, .rxHook 0]).map ((0, ·)) ++
        secondRun 12)).any
      (fun x => x.1.writers.ctls 1 == .idle && x.1.writers.threads.length == 6 &&
        x.1.writers.mod.freed.length == 1) = true := by decide +kernel
  obtain ⟨⟨s, hist⟩, hr, hp⟩ := Lts.exists_reach_of_runIf hrun ⟨⟨1000, by decide, rfl⟩, rfl⟩
  simp only [Bool.and_eq_true, beq_iff_eq] at hp
  exact ⟨s, hist, hr, hp.1.1, hp.1.2, hp.2, tests_isolated hr 0⟩

/-- A packet comes while the compute thread drains, a second command clears the status, and the compute thread of
    the first test counts the packet, as received and as an error: the second test begins with one packet received and none
    sent. -/
theorem old_counted : ∃ (s : Pieces 2) (hist : Past),
    (pastLts 2 kernel32).Reach (fun x e => x.1.writers.OneAtATime e) (s, hist) ∧
    s.writers.ctls 1 = .idle ∧ s.writers.threads.length = 6 ∧ hist.stale 0 = 2 ∧
    (s.writers.mod.stCfg 0).status.pktrcvCount = 1 ∧ (s.writers.mod.stCfg 0).status.pkterrCount = 1 ∧
    (s.writers.mod.stCfg 0).status.pktsendCount = 0 := by
  have hrun : ((pastLts 2 kernel32).runIf (fun x e => x.1.writers.OneAtATime e) (.start 2 kernel32 1000, .empty)
      ((drainRun ++ [Event.receive pkt42, .rxHook 0]).map ((0, ·)) ++ secondRun 19)).any
      (fun x => x.1.writers.ctls 1 == .idle && x.1.writers.threads.length == 6 && x.2.stale 0 == 2 &&
        (x.1.writers.mod.stCfg 0).status.pktrcvCount == 1 && (x.1.writers.mod.stCfg 0).status.pkterrCount == 1 &&
        (x.1.writers.mod.stCfg 0).status.pktsendCount == 0) = true := by decide +kernel
  obtain ⟨⟨s, hist⟩, hr, hp⟩ := Lts.exists_reach_of_runIf hrun ⟨⟨1000, by decide, rfl⟩, rfl⟩
  simp only [Bool.and_eq_true, beq_iff_eq] at hp
  exact ⟨s, hist, hr, hp.1.1.1.1.1, hp.1.1.1.1.2, hp.1.1.1.2, hp.1.1.2, hp.1.2, hp.2⟩

/-- The same with a packet that the compute thread has taken before: the queue is empty when the status is cleared. -/
theorem hand_counted : ∃ (s : Pieces 2) (hist : Past),
    (pastLts 2 kernel32).Reach (fun x e => x.1.writers.OneAtATime e ∧
      ∀ d ∈ x.1.whole.1.zeroes, x.1.writers.mod.compSkbqueue = []) (s, hist) ∧
    hist.stale 0 = 2 ∧ (s.writers.mod.stCfg 0).status.pktrcvCount = 1 ∧ (s.writers.mod.stCfg 0).status.pktsendCount = 0 := by
  have hrun : ((pastLts 2 kernel32).runIf (fun x e => x.1.writers.OneAtATime e ∧
        ∀ d ∈ x.1.whole.1.zeroes, x.1.writers.mod.compSkbqueue = []) (.start 2 kernel32 1000, .empty)
      ((drainRun ++ [Event.receive pkt42, .rxHook 0] ++ List.replicate 2 (Event.thread 2 ⟨none, true, 0⟩)).map ((0, ·)) ++
        secondRun 17)).any
      (fun x => x.2.stale 0 == 2 && (x.1.writers.mod.stCfg 0).status.pktrcvCount == 1 &&
        (x.1.writers.mod.stCfg 0).status.pktsendCount == 0) = true := by decide +kernel
  obtain ⟨⟨s, hist⟩, hr, hp⟩ := Lts.exists_reach_of_runIf hrun ⟨⟨1000, by decide, rfl⟩, rfl⟩
  simp only [Bool.and_eq_true, beq_iff_eq] at hp
  exact ⟨s, hist, hr, hp.1.1, hp.1.2, hp.2⟩

end QuickStart.Speedtest
