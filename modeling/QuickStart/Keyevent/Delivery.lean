import QuickStart.Keyevent.Step

/-! # Delivery to the consumer

Posts as single steps between the statements of the consumer. `poll` clears the readiness, and the read that
follows takes what the slot holds by then: a post in between is read twice, unless the next one comes before
the next read. -/

namespace QuickStart.Keyevent
open State

/-- A post from its call to its return, or a statement of the consumer, whose buffer is always there. -/
inductive Turn
  | post (msg : List Byte)
  | consumer
  deriving DecidableEq, Repr

/-- Posts of up to 255 bytes. -/
def Turn.step (s : State) : Turn → Option State
  | .post msg =>
    if msg.length ≤ recvMaxBufSize then
      let r := setTriggerBoardInputEventHandler s.dev msg msg.length
      some (if r.2 then { s with dev := r.1 }.wakeUp else { s with dev := r.1 })
    else none
  | .consumer => consumerStep s recvMaxBufSize

/-- The device and its consumer with posts as single steps. -/
def turnLts : Lts State Turn where
  init s := ∃ send recv buf, send.length = sendBufSize ∧ recv.length = recvBufSize ∧ buf.length = recvMaxBufSize ∧
    s = .start send recv buf
  step := Turn.step

/-- What has been posted and handled, whether a post has come since the last read, and whether there has ever
    been a read without a post since the one before it. -/
structure Log where
  posted : List (List Byte)
  handled : List (List Byte)
  fresh : Bool
  again : Bool
  deriving DecidableEq, Repr

def Log.empty : Log where
  posted := []
  handled := []
  fresh := false
  again := false

/-- The message that the last read has left in `recv_buf`. -/
def State.message (s : State) : List Byte := s.recvBuf.take s.recvnum.toNat

def record (s : State) : Turn → Log → Log
  | .post msg, l => { l with posted := l.posted ++ [msg], fresh := true }
  | .consumer, l =>
    match s.pc with
    | .read => { l with fresh := false, again := l.again || !l.fresh }
    | .handle => { l with handled := l.handled ++ [s.message] }
    | _ => l

abbrev logLts : Lts (State × Log) Turn := turnLts.track record .empty

/-! ### The invariant -/

/-- The messages handled and the one that is about to be. -/
def taken (s : State) (l : Log) : List (List Byte) :=
  if s.pc = .handle then l.handled ++ [s.message] else l.handled

/-- The slot holds the last post, and what has been taken from it comes from the posts in order. -/
structure Delivered (s : State) (l : Log) : Prop where
  sendSize : s.dev.sendData.data.length = sendBufSize
  recvSize : s.recvBuf.length = recvMaxBufSize
  short : s.dev.sendData.len ≤ recvMaxBufSize
  slot : ∀ msg, l.posted.getLast? = some msg → s.dev.sendData.data.take s.dev.sendData.len = msg
  posted : s.dev.triggerStatus = true ∨ s.pc = .clear ∨ s.pc = .ready ∨ s.pc = .read → l.posted ≠ []
  once : l.again = false → (taken s l).Sublist (if l.fresh then l.posted.dropLast else l.posted)
  last : l.fresh = false → l.posted ≠ [] → (taken s l).getLast? = l.posted.getLast?
  twice : l.again = true → ¬(taken s l).Nodup

namespace Delivered
variable {s t : State} {l : Log}

theorem start {send recv buf : List Byte} (hsend : send.length = sendBufSize) (hbuf : buf.length = recvMaxBufSize) :
    Delivered (.start send recv buf) .empty where
  sendSize := hsend
  recvSize := hbuf
  short := Nat.zero_le _
  slot msg hm := by cases hm
  posted h := by
    rcases h with h | h | h | h <;> cases h
  once _ := List.Sublist.refl _
  last _ h := absurd rfl h
  twice h := by cases h

theorem post (h : Delivered s l) {msg : List Byte} (hlen : msg.length ≤ recvMaxBufSize)
    (hsend : t.dev.sendData.data = memcpy s.dev.sendData.data msg msg.length) (hlen' : t.dev.sendData.len = msg.length)
    (hpc : t.pc = s.pc) (hbuf : t.recvBuf = s.recvBuf) (hnum : t.recvnum = s.recvnum) :
    Delivered t { l with posted := l.posted ++ [msg], fresh := true } := by
  have htaken : taken t { l with posted := l.posted ++ [msg], fresh := true } = taken s l := by
    rw [taken, taken, State.message, State.message, hpc, hbuf, hnum]
  exact
    { sendSize := by rw [hsend, length_memcpy, h.sendSize]
      recvSize := by rw [hbuf, h.recvSize]
      short := by rw [hlen']; exact hlen
      slot := fun m hm => by
        rw [List.getLast?_concat] at hm
        have hroom : msg.length ≤ s.dev.sendData.data.length := by
          rw [h.sendSize]
          exact hlen.trans (by decide)
        rw [hsend, hlen', take_memcpy hroom (Nat.le_refl _), List.take_length]
        exact Option.some.inj hm
      posted := fun _ => List.append_ne_nil_of_right_ne_nil _ (List.cons_ne_nil _ _)
      once := fun hagain => by
        have honce := h.once hagain
        rw [htaken, if_pos rfl, List.dropLast_concat]
        split at honce
        · exact honce.trans (List.dropLast_sublist _)
        · exact honce
      last := fun hfresh => by cases hfresh
      twice := by rw [htaken]; exact h.twice }

/-- A statement of the consumer outside the read and the handling. -/
theorem idle (h : Delivered s l) (hpc : s.pc ≠ .handle) (hpc' : t.pc ≠ .handle)
    (hsend : t.dev.sendData = s.dev.sendData) (hbuf : t.recvBuf = s.recvBuf)
    (hready : t.dev.triggerStatus = true ∨ t.pc = .clear ∨ t.pc = .ready ∨ t.pc = .read →
      s.dev.triggerStatus = true ∨ s.pc = .clear ∨ s.pc = .ready ∨ s.pc = .read) : Delivered t l := by
  have htaken : taken t l = taken s l := by rw [taken, taken, if_neg hpc, if_neg hpc']
  exact
    { sendSize := by rw [hsend]; exact h.sendSize
      recvSize := by rw [hbuf]; exact h.recvSize
      short := by rw [hsend]; exact h.short
      slot := by rw [hsend]; exact h.slot
      posted := fun hr => h.posted (hready hr)
      once := by rw [htaken]; exact h.once
      last := by rw [htaken]; exact h.last
      twice := by rw [htaken]; exact h.twice }

theorem read (h : Delivered s l) (hpc : s.pc = .read) (hs : consumerStep s recvMaxBufSize = some t) :
    Delivered t { l with fresh := false, again := l.again || !l.fresh } := by
  obtain ⟨msg, hlast⟩ : ∃ msg, l.posted.getLast? = some msg :=
    Option.isSome_iff_exists.mp (by simpa using h.posted (Or.inr (Or.inr (Or.inr hpc))))
  have hslot := h.slot msg hlast
  have hposted : l.posted = l.posted.dropLast ++ [msg] := (List.dropLast_append_getLast? msg hlast).symm
  have hread : boardButtonRead s.dev recvMaxBufSize recvMaxBufSize = ((s.dev.sendData.len : Int), msg) := by
    rw [boardButtonRead, if_neg (by decide), if_pos h.short, Nat.min_eq_left h.short, hslot]
  have hlen : msg.length = s.dev.sendData.len := by
    rw [← hslot, List.length_take, h.sendSize]
    exact Nat.min_eq_left (h.short.trans (by decide))
  simp only [consumerStep, hpc, hread, Option.some.injEq] at hs
  subst hs
  have hmessage : (memcpy s.recvBuf msg msg.length).take s.dev.sendData.len = msg := by
    rw [← hlen, take_memcpy (by rw [h.recvSize, hlen]; exact h.short) (Nat.le_refl _), List.take_length]
  have htaken : taken s l = l.handled := by rw [taken, if_neg (by rw [hpc]; simp)]
  have hnow : taken { s with recvBuf := memcpy s.recvBuf msg msg.length, recvnum := s.dev.sendData.len, pc := .handle }
      { l with fresh := false, again := l.again || !l.fresh } = l.handled ++ [msg] := by
    rw [taken, if_pos rfl]
    exact congrArg (fun m => l.handled ++ [m]) hmessage
  refine
    { sendSize := h.sendSize
      recvSize := by rw [length_memcpy]; exact h.recvSize
      short := h.short
      slot := h.slot
      posted := fun _ => h.posted (Or.inr (Or.inr (Or.inr hpc)))
      once := fun hagain => ?_
      last := fun _ _ => ?_
      twice := fun hagain => ?_ }
  · have hboth : l.again = false ∧ l.fresh = true := by simpa using hagain
    have honce := h.once hboth.1
    rw [htaken, if_pos hboth.2] at honce
    rw [hnow, if_neg (by simp), hposted]
    exact honce.append (List.Sublist.refl _)
  · rw [hnow, List.getLast?_concat, hlast]
  · rw [hnow]
    intro hnodup
    rw [List.nodup_append] at hnodup
    rcases Bool.or_eq_true _ _ ▸ hagain with hagain | hfresh
    · have htwice := h.twice hagain
      rw [htaken] at htwice
      exact htwice hnodup.1
    · -- The slot still holds what the read before this one has taken.
      have hprev := h.last (by simpa using hfresh) (by rw [hposted]; simp)
      rw [htaken, hlast] at hprev
      exact hnodup.2.2 msg (List.mem_of_getLast? hprev) msg (List.mem_singleton_self _) rfl

theorem handle (h : Delivered s l) (hpc : s.pc = .handle) :
    Delivered { s with pc := .poll } { l with handled := l.handled ++ [s.message] } := by
  have htaken : taken { s with pc := .poll } { l with handled := l.handled ++ [s.message] } = taken s l := by
    rw [taken, taken, if_pos hpc, if_neg (by simp)]
  exact
    { sendSize := h.sendSize
      recvSize := h.recvSize
      short := h.short
      slot := h.slot
      posted := fun hr => h.posted (hr.imp_right fun hr => by rcases hr with hr | hr | hr <;> cases hr)
      once := by rw [htaken]; exact h.once
      last := by rw [htaken]; exact h.last
      twice := by rw [htaken]; exact h.twice }

theorem consumer (h : Delivered s l) (hs : consumerStep s recvMaxBufSize = some t) :
    Delivered t (record s .consumer l) := by
  cases consumerStep_consumes hs with
  | reads r hpc =>
    simp only [record, hpc]
    exact h.read hpc hs
  | handles hpc =>
    simp only [record, hpc]
    exact h.handle hpc
  | polls hpc =>
    simp only [record, hpc]
    exact h.idle (by simp [hpc]) (by simp) rfl rfl fun hr => Or.inl (by simpa using hr)
  | finds hpc htrigger =>
    simp only [record, hpc]
    exact h.idle (by simp [hpc]) (by simp) rfl rfl fun _ => Or.inl htrigger
  | misses hpc htrigger =>
    simp only [record, hpc]
    exact h.idle (by simp [hpc]) (by simp) rfl rfl fun hr => by simp [htrigger] at hr
  | clears hpc =>
    simp only [record, hpc]
    exact h.idle (by simp [hpc]) (by simp) rfl rfl fun _ => Or.inr (Or.inl hpc)
  | leaves hpc =>
    simp only [record, hpc]
    exact h.idle (by simp [hpc]) (by simp) rfl rfl fun _ => Or.inr (Or.inr (Or.inl hpc))
  | wakes hpc hwoken =>
    simp only [record, hpc]
    exact h.idle (by simp [hpc]) (by simp) rfl rfl fun hr => Or.inl (by simpa using hr)

theorem step (h : Delivered s l) {e : Turn} (hs : e.step s = some t) : Delivered t (record s e l) := by
  cases e with
  | consumer => exact h.consumer hs
  | post msg =>
    simp only [Turn.step] at hs
    split at hs <;> rename_i hlen
    · have hfit : ¬(msg.length : Int) > sendBufSize := by
        have : recvMaxBufSize < sendBufSize := by decide
        omega
      have hsize : sizeT msg.length = msg.length := sizeT_natCast (hlen.trans_lt (by decide))
      simp only [setTriggerBoardInputEventHandler, if_neg hfit, if_true, Option.some.injEq] at hs
      subst hs
      exact h.post hlen (by simp [wakeUp, hsize]) (by simp [wakeUp, hsize]) rfl rfl rfl
    · cases hs

end Delivered

/-- As long as a post has come between any two reads, the messages handled are a subsequence of those posted,
    none of them twice; after a read without one, they are not. -/
theorem delivered_once {s : State} {l : Log} (h : logLts.Reachable (s, l)) (hdistinct : l.posted.Nodup) :
    (l.again = false → l.handled.Sublist l.posted ∧ l.handled.Nodup) ∧
      (s.pc ≠ .handle → (l.handled.Sublist l.posted ∧ l.handled.Nodup ↔ l.again = false)) := by
  have hd : Delivered s l := by
    refine h.track_invariant ?_ fun _ _ _ _ hd _ hs => hd.step hs
    rintro _ ⟨send, recv, buf, hsend, -, hbuf, rfl⟩
    exact .start hsend hbuf
  have hall : (taken s l).Sublist l.posted → l.handled.Sublist l.posted := fun hsub => by
    rw [taken] at hsub
    split at hsub
    · exact (List.sublist_append_left _ _).trans hsub
    · exact hsub
  have hfirst : l.again = false → l.handled.Sublist l.posted ∧ l.handled.Nodup := fun hagain => by
    have honce := hd.once hagain
    have hsub := hall (by split at honce <;> [exact honce.trans (List.dropLast_sublist _); exact honce])
    exact ⟨hsub, hdistinct.sublist hsub⟩
  refine ⟨hfirst, fun hpc => ⟨fun hsub => ?_, hfirst⟩⟩
  by_contra hagain
  have htwice := hd.twice (by simpa using hagain)
  rw [taken, if_neg hpc] at htwice
  exact htwice hsub.2

/-- A device and a consumer with cleared buffers. -/
def cleared : State :=
  .start (List.replicate sendBufSize 0) (List.replicate recvBufSize 0) (List.replicate recvMaxBufSize 0)

theorem cleared_init : logLts.init (cleared, .empty) :=
  ⟨⟨_, _, _, List.length_replicate, List.length_replicate, List.length_replicate, rfl⟩, rfl⟩

/-- The third post comes between the report of the second one and its read. -/
def overtake : List Turn :=
  [Turn.post [0x61]] ++ List.replicate 6 Turn.consumer ++ [Turn.post [0x62]] ++
    List.replicate 3 Turn.consumer ++ [Turn.post [0x63]] ++ List.replicate 3 Turn.consumer

set_option maxRecDepth 4000 in
theorem delivered_once_overtake : ∃ s l, logLts.Reachable (s, l) ∧ l.posted = [[0x61], [0x62], [0x63]] ∧
    l.handled.Sublist l.posted ∧ l.handled.Nodup ∧ l.handled.length = 2 := by
  have hrun : (logLts.runIf (fun _ _ => True) (cleared, .empty) overtake).any
      (fun x => x.2.posted == [[0x61], [0x62], [0x63]] && !x.2.again && x.2.handled.length == 2) = true := by decide
  obtain ⟨⟨s, l⟩, hr, hp⟩ := Lts.exists_reach_of_runIf hrun cleared_init
  simp only [Bool.and_eq_true, beq_iff_eq, Bool.not_eq_true'] at hp
  obtain ⟨⟨hposted, hagain⟩, hlen⟩ := hp
  obtain ⟨hsub, hnodup⟩ := (delivered_once hr (by rw [hposted]; decide)).1 hagain
  exact ⟨s, l, hr, hposted, hsub, hnodup, hlen⟩

set_option maxRecDepth 4000 in
/-- The second post comes between the report of the first one and its read; `poll` reports it, and the same
    message is read and handled again. -/
theorem handled_twice : ∃ s l, logLts.Reachable (s, l) ∧ l.posted = [[0x61], [0x62]] ∧
    l.handled = [[0x62], [0x62]] := by
  have hrun : (logLts.runIf (fun _ _ => True) (cleared, .empty)
      ([Turn.post [0x61]] ++ List.replicate 3 Turn.consumer ++ [Turn.post [0x62]] ++ List.replicate 9 Turn.consumer)).any
      (fun x => x.2.posted == [[0x61], [0x62]] && x.2.handled == [[0x62], [0x62]]) = true := by decide
  obtain ⟨⟨s, l⟩, hr, hp⟩ := Lts.exists_reach_of_runIf hrun cleared_init
  simp only [Bool.and_eq_true, beq_iff_eq] at hp
  exact ⟨s, l, hr, hp.1, hp.2⟩

end QuickStart.Keyevent
