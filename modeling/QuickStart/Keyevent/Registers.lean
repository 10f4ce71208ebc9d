import QuickStart.Keyevent.Device
import QuickStart.Lts

/-! # The device as two registers and an edge

`Registers` says what the device is for: posts and writes each go to a register of their own that keeps the
latest message, and `poll` reports that a post has come since it last reported one. The device with its two
buffers, which keep bytes of older messages behind the recorded length, refines it. -/

namespace QuickStart.Keyevent

/-- A call of an entry point, with its arguments. -/
inductive Op
  /-- `set_trigger_board_input_event_handler(data, len)` -/
  | post (data : List Byte) (len : Int)
  /-- `board_button_poll` -/
  | poll
  /-- `board_button_read` with a buffer of `room` writable bytes -/
  | read (size room : Nat)
  /-- `board_button_write` with `room` readable bytes -/
  | write (buf : List Byte) (count room : Nat)
  /-- `get_trigger_board_input_event_handler(data, len)` -/
  | get (len : Int)
  deriving DecidableEq, Repr

/-- What a call tells its caller. -/
inductive Reply
  | void
  /-- whether `POLLIN` is reported -/
  | mask (pollin : Bool)
  /-- the result, and the bytes copied to the caller -/
  | ret (n : Int) (bytes : List Byte)
  deriving DecidableEq, Repr

/-- A call of an entry point from its call to its return. -/
def Dev.call (d : Dev) : Op → Dev × Reply
  | .post data len => ((setTriggerBoardInputEventHandler d data len).1, .void)
  | .poll => ((boardButtonPoll d).1, .mask (boardButtonPoll d).2)
  | .read size room => (d, .ret (boardButtonRead d size room).1 (boardButtonRead d size room).2)
  | .write buf count room =>
    ((boardButtonWrite d buf count room).1, .ret (boardButtonWrite d buf count room).2.1 [])
  | .get len => (d, .ret (getTriggerBoardInputEventHandler d len).1 (getTriggerBoardInputEventHandler d len).2)

/-- The call passes an `int` where one is asked for and memory that is there, and no user copy faults. -/
def Fair (d : Dev) : Op → Prop
  | .post data len => 0 ≤ len ∧ len < 2 ^ 31 ∧ (len ≤ sendBufSize → len ≤ data.length)
  | .poll => True
  | .read size room => size ≤ sendBufSize → d.sendData.len ≤ room
  | .write buf count room => count ≤ recvBufSize → count ≤ room ∧ count ≤ buf.length
  | .get len => -2 ^ 31 ≤ len ∧ len < 2 ^ 31

instance (d : Dev) : ∀ op : Op, Decidable (Fair d op)
  | .post _ _ => inferInstanceAs (Decidable (_ ∧ _ ∧ (_ → _)))
  | .poll => inferInstanceAs (Decidable True)
  | .read _ _ => inferInstanceAs (Decidable (_ → _))
  | .write _ _ _ => inferInstanceAs (Decidable (_ → _ ∧ _))
  | .get _ => inferInstanceAs (Decidable (_ ∧ _))

/-! ### The abstract device -/

/-- The latest accepted post, the latest accepted write, and whether a post has come since `poll` last
    reported one. -/
structure Registers where
  event : List Byte
  command : List Byte
  edge : Bool
  deriving DecidableEq, Repr

namespace Registers

def empty : Registers where
  event := []
  command := []
  edge := false

/-- A call on the registers; no reply where nothing is promised to the caller: a read into less room than the
    event takes, and a get with a negative length. -/
def call (r : Registers) : Op → Registers × Option Reply
  | .post data len => (if len ≤ sendBufSize then { r with event := data.take len.toNat, edge := true } else r, some .void)
  | .poll => ({ r with edge := false }, some (.mask r.edge))
  | .read size _ =>
    (r, if size > sendBufSize then some (.ret (-efault) [])
      else if r.event.length ≤ size then some (.ret r.event.length r.event) else none)
  | .write buf count _ =>
    if count ≤ recvBufSize then ({ r with command := buf.take count }, some (.ret count []))
    else (r, some (.ret (-efault) []))
  | .get len =>
    (r, if len < 0 then none
      else if r.command.length ≤ len then some (.ret r.command.length r.command) else some (.ret 0 []))

end Registers

def Op.rejected : Op → Bool
  | .post _ len => decide (len > sendBufSize)
  | .read size _ => decide (size > sendBufSize)
  | .write _ count _ => decide (count > recvBufSize)
  | .poll | .get _ => false

/-- The call is one on the register of the posts. -/
def Op.onEvent : Op → Bool
  | .post _ _ | .poll | .read _ _ => true
  | .write _ _ _ | .get _ => false

/-! ### The refinement -/

/-- The registers that a device stands for. -/
structure Registers.Of (d : Dev) (r : Registers) : Prop where
  event : r.event = d.sendData.data.take d.sendData.len
  command : r.command = d.recvData.data.take d.recvData.len
  edge : r.edge = d.triggerStatus
  sendRoom : d.sendData.len ≤ d.sendData.data.length
  recvRoom : d.recvData.len ≤ d.recvData.data.length
  sendSize : d.sendData.data.length = sendBufSize
  recvSize : d.recvData.data.length = recvBufSize

namespace Registers.Of
variable {d : Dev} {r : Registers}

theorem init {send recv : List Byte} (hsend : send.length = sendBufSize) (hrecv : recv.length = recvBufSize) :
    Registers.Of (boardButtonDevInit send recv) .empty where
  event := rfl
  command := rfl
  edge := rfl
  sendRoom := Nat.zero_le _
  recvRoom := Nat.zero_le _
  sendSize := hsend
  recvSize := hrecv

theorem length_event (h : Registers.Of d r) : r.event.length = d.sendData.len := by
  rw [h.event, List.length_take, Nat.min_eq_left h.sendRoom]

theorem length_command (h : Registers.Of d r) : r.command.length = d.recvData.len := by
  rw [h.command, List.length_take, Nat.min_eq_left h.recvRoom]

theorem post (h : Registers.Of d r) {data : List Byte} {len : Int} (hok : Fair d (.post data len)) :
    Registers.Of (d.call (.post data len)).1 (r.call (.post data len)).1 := by
  obtain ⟨h0, h31, hdata⟩ := hok
  simp only [Dev.call, setTriggerBoardInputEventHandler, Registers.call]
  by_cases hlen : len ≤ sendBufSize
  · rw [if_neg (not_lt.mpr hlen), if_pos hlen]
    have hfit : len.toNat ≤ d.sendData.data.length := by
      rw [h.sendSize]
      exact Int.toNat_le.mpr hlen
    have hsrc : len.toNat ≤ data.length := Int.toNat_le.mpr (hdata hlen)
    exact
      { h with
        event := by
          simp only [Dev.setSendLen, Dev.setSendBuf, Dev.setTrigger, sizeT_of_nonneg h0 h31]
          exact (take_memcpy hfit hsrc).symm
        edge := rfl
        sendRoom := by simpa [Dev.setSendLen, Dev.setSendBuf, Dev.setTrigger, sizeT_of_nonneg h0 h31] using hfit
        sendSize := by simpa [Dev.setSendLen, Dev.setSendBuf, Dev.setTrigger] using h.sendSize }
  · rw [if_pos (not_le.mp hlen), if_neg hlen]
    exact h

theorem poll (h : Registers.Of d r) :
    Registers.Of (d.call .poll).1 (r.call .poll).1 ∧ (d.call .poll).2 = .mask r.edge := by
  have hedge := h.edge
  simp only [Dev.call, boardButtonPoll, Registers.call]
  split <;> rename_i htrigger
  · exact ⟨{ h with edge := rfl }, by rw [hedge, htrigger]⟩
  · have hclear : d.triggerStatus = false := by simpa using htrigger
    exact ⟨{ h with edge := hclear.symm }, by rw [hedge, hclear]⟩

theorem read (h : Registers.Of d r) {size room : Nat} (hok : Fair d (.read size room)) {reply : Reply}
    (hr : (r.call (.read size room)).2 = some reply) : (d.call (.read size room)).2 = reply := by
  simp only [Registers.call] at hr
  simp only [Dev.call, boardButtonRead]
  by_cases hsize : size > sendBufSize
  · simp only [hsize, if_true, Option.some.injEq] at hr ⊢
    exact hr
  · have hroom := hok (not_lt.mp hsize)
    simp only [hsize, if_false] at hr ⊢
    split at hr
    · rw [if_pos hroom, Nat.min_eq_left hroom, ← h.event, ← h.length_event]
      exact Option.some.inj hr
    · cases hr

theorem write (h : Registers.Of d r) {buf : List Byte} {count room : Nat} (hok : Fair d (.write buf count room)) :
    Registers.Of (d.call (.write buf count room)).1 (r.call (.write buf count room)).1 ∧
      some (d.call (.write buf count room)).2 = (r.call (.write buf count room)).2 := by
  simp only [Dev.call, boardButtonWrite, Registers.call]
  by_cases hcount : count ≤ recvBufSize
  · obtain ⟨hroom, hbuf⟩ := hok hcount
    simp only [not_lt.mpr hcount, if_false, hcount, if_true, hroom, Nat.min_eq_left hroom]
    have hfit : count ≤ d.recvData.data.length := by
      rw [h.recvSize]
      exact hcount
    refine ⟨{ h with command := ?_, recvRoom := ?_, recvSize := ?_ }, trivial⟩
    · exact (take_memcpy hfit hbuf).symm
    · simpa [Dev.setRecvLen, Dev.setRecvBuf] using hfit
    · simpa [Dev.setRecvLen, Dev.setRecvBuf] using h.recvSize
  · simp only [not_le.mp hcount, if_true, hcount, if_false]
    exact ⟨h, trivial⟩

theorem get (h : Registers.Of d r) {len : Int} (hok : Fair d (.get len)) {reply : Reply}
    (hr : (r.call (.get len)).2 = some reply) : (d.call (.get len)).2 = reply := by
  simp only [Registers.call] at hr
  simp only [Dev.call, getTriggerBoardInputEventHandler]
  by_cases h0 : len < 0
  · rw [if_pos h0] at hr
    cases hr
  · have hlen := h.length_command
    rw [if_neg h0] at hr
    rw [sizeT_of_nonneg (not_lt.mp h0) hok.2]
    split at hr <;> rename_i hle <;> obtain rfl := Option.some.inj hr
    · rw [if_neg (by omega), ← h.command, hlen]
    · rw [if_pos (by omega)]

/-- A call of the device keeps the refinement and answers what the registers promise. -/
theorem call (h : Registers.Of d r) {op : Op} (hok : Fair d op) :
    Registers.Of (d.call op).1 (r.call op).1 ∧ ∀ reply, (r.call op).2 = some reply → (d.call op).2 = reply := by
  cases op with
  | post data len => exact ⟨h.post hok, fun reply hr => Option.some.inj hr⟩
  | poll => exact ⟨h.poll.1, fun reply hr => h.poll.2.trans (Option.some.inj hr)⟩
  | read size room => exact ⟨h, fun reply hr => h.read hok hr⟩
  | write buf count room => exact ⟨(h.write hok).1, fun reply hr => Option.some.inj ((h.write hok).2.trans hr)⟩
  | get len => exact ⟨h, fun reply hr => h.get hok hr⟩

end Registers.Of

/-! ### Independence -/

/-- What a device keeps for the calls on the posts' register, or for those on the other one. -/
def Dev.part (d : Dev) (event : Bool) : BoardButtonData × Bool :=
  if event then (d.sendData, d.triggerStatus) else (d.recvData, false)

/-- An accepted call on the posts' register, or on the other one. -/
def Op.counts (event : Bool) (op : Op) : Bool := op.onEvent == event && !op.rejected

/-- The replies to the accepted calls on one of the registers. -/
def repliesOn (event : Bool) : Dev → List Op → List Reply
  | _, [] => []
  | d, op :: ops =>
    if op.counts event then (d.call op).2 :: repliesOn event (d.call op).1 ops else repliesOn event (d.call op).1 ops

section Independence
variable {d d' : Dev} {event : Bool} {op : Op}

/-- Any other call leaves the part alone. -/
theorem call_part (h : op.counts event = false) : (d.call op).1.part event = d.part event := by
  cases op with
  | post data len =>
    cases event with
    | false =>
      simp only [Dev.call, setTriggerBoardInputEventHandler, Dev.part, Bool.false_eq_true, if_false]
      split <;> rfl
    | true =>
      have hlen : len > sendBufSize := by simpa [Op.counts, Op.onEvent, Op.rejected] using h
      simp only [Dev.call, setTriggerBoardInputEventHandler, if_pos hlen]
  | poll =>
    cases event with
    | false =>
      simp only [Dev.call, boardButtonPoll, Dev.part, Bool.false_eq_true, if_false]
      split <;> rfl
    | true => cases h
  | read size room => rfl
  | write buf count room =>
    cases event with
    | true =>
      simp only [Dev.call, boardButtonWrite, Dev.part, if_true]
      split
      · rfl
      · split <;> rfl
    | false =>
      have hcount : count > recvBufSize := by simpa [Op.counts, Op.onEvent, Op.rejected] using h
      simp only [Dev.call, boardButtonWrite, if_pos hcount]
  | get len => rfl

/-- A call on a register reads and writes only its part. -/
theorem call_congr (h : op.onEvent = event) (hp : d.part event = d'.part event) :
    (d.call op).2 = (d'.call op).2 ∧ (d.call op).1.part event = (d'.call op).1.part event := by
  subst h
  cases op with
  | post data len =>
    simp only [Dev.part, Op.onEvent, if_true, Prod.mk.injEq] at hp
    simp only [Dev.call, setTriggerBoardInputEventHandler, Dev.part, Op.onEvent, if_true]
    split
    · simp [hp.1, hp.2]
    · simp [Dev.setSendLen, Dev.setSendBuf, Dev.setTrigger, hp.1]
  | poll =>
    simp only [Dev.part, Op.onEvent, if_true, Prod.mk.injEq] at hp
    simp only [Dev.call, boardButtonPoll, Dev.part, Op.onEvent, if_true, hp.2]
    split
    · simp [Dev.setTrigger, hp.1]
    · simp [hp.1, hp.2]
  | read size room =>
    have hp' := hp
    simp only [Dev.part, Op.onEvent, if_true, Prod.mk.injEq] at hp'
    exact ⟨by simp only [Dev.call, boardButtonRead, hp'.1], hp⟩
  | write buf count room =>
    simp only [Dev.part, Op.onEvent, Bool.false_eq_true, if_false, Prod.mk.injEq, and_true] at hp
    simp only [Dev.call, boardButtonWrite, Dev.part, Op.onEvent, Bool.false_eq_true, if_false]
    split
    · simp [hp]
    · split <;> simp [Dev.setRecvLen, Dev.setRecvBuf, hp]
  | get len =>
    have hp' := hp
    simp only [Dev.part, Op.onEvent, Bool.false_eq_true, if_false, Prod.mk.injEq, and_true] at hp'
    exact ⟨by simp only [Dev.call, getTriggerBoardInputEventHandler, hp'], hp⟩

/-- The replies on one register are those of a run of its accepted calls alone. -/
theorem repliesOn_filter (event : Bool) : ∀ (ops : List Op) (d d' : Dev), d.part event = d'.part event →
    repliesOn event d ops = repliesOn event d' (ops.filter (Op.counts event))
  | [], _, _, _ => rfl
  | op :: ops, d, d', hp => by
    rw [repliesOn]
    by_cases h : op.counts event = true
    · have hon : op.onEvent = event := by
        rw [Op.counts, Bool.and_eq_true, beq_iff_eq] at h
        exact h.1
      obtain ⟨hreply, hp'⟩ := call_congr hon hp
      rw [if_pos h, List.filter_cons_of_pos h, repliesOn, if_pos h, hreply, repliesOn_filter event ops _ _ hp']
    · have hpart := call_part (d := d) (Bool.eq_false_iff.mpr h)
      rw [if_neg h, List.filter_cons_of_neg h]
      exact repliesOn_filter event ops _ _ (hpart.trans hp)

end Independence

/-- The device under calls that run to completion. -/
def deviceLts : Lts Dev Op where
  init d := ∃ send recv, send.length = sendBufSize ∧ recv.length = recvBufSize ∧ d = boardButtonDevInit send recv
  step d op := some (d.call op).1

/-- The device whose runs carry the registers that its calls have led to. -/
abbrev registersLts : Lts (Dev × Registers) Op := deviceLts.track (fun _ op r => (r.call op).1) .empty

/-- After every sequence of calls the device answers what the two registers promise, and the replies on one
    register are what they would be without the refused calls and the calls on the other one. -/
theorem registers_refined {d : Dev} {r : Registers} (h : registersLts.Reach (fun x op => Fair x.1 op) (d, r)) :
    (∀ op, Fair d op → ∀ reply, (r.call op).2 = some reply → (d.call op).2 = reply) ∧
      ∀ event ops, repliesOn event d ops = repliesOn event d (ops.filter (Op.counts event)) := by
  have hof : Registers.Of d r := by
    refine h.track_invariant ?_ ?_
    · rintro _ ⟨send, recv, hsend, hrecv, rfl⟩
      exact .init hsend hrecv
    · rintro d r op d' hof hok hs
      obtain rfl := Option.some.inj hs
      exact (hof.call hok).1
  exact ⟨fun op hok => (hof.call hok).2, fun event ops => repliesOn_filter event ops d d rfl⟩

/-- A post, a write, a post that is too long, and a shorter post over the first one. -/
def posts : List Op :=
  [.post (List.replicate 40 0x41) 40, .write [0x6f, 0x6e] 2 2, .post (List.replicate 300 0x42) 300,
    .post [0x77, 0x69, 0x66, 0x69] 4]

set_option maxRecDepth 4000 in
theorem registers_refined_posts : ∃ d r, registersLts.Reach (fun x op => Fair x.1 op) (d, r) ∧
    (d.call (.read 255 255)).2 = .ret 4 [0x77, 0x69, 0x66, 0x69] ∧ (d.call (.get 8)).2 = .ret 2 [0x6f, 0x6e] := by
  have hrun : (registersLts.runIf (fun x op => Fair x.1 op)
      (boardButtonDevInit (List.replicate sendBufSize 0) (List.replicate recvBufSize 0), .empty) posts).any
      (fun x => x.2 == { event := [0x77, 0x69, 0x66, 0x69], command := [0x6f, 0x6e], edge := true } &&
        decide (Fair x.1 (.read 255 255))) = true := by decide
  obtain ⟨⟨d, r⟩, hr, hp⟩ := Lts.exists_reach_of_runIf hrun
    ⟨⟨_, _, List.length_replicate, List.length_replicate, rfl⟩, rfl⟩
  simp only [Bool.and_eq_true, beq_iff_eq, decide_eq_true_eq] at hp
  obtain ⟨rfl, hread⟩ := hp
  obtain ⟨hreply, -⟩ := registers_refined hr
  exact ⟨d, _, hr, hreply _ hread _ (by decide), hreply (.get 8) ⟨by decide, by decide⟩ _ (by decide)⟩

end QuickStart.Keyevent
