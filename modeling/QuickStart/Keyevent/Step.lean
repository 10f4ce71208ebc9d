import QuickStart.Calls
import QuickStart.Keyevent.Device
import QuickStart.Lts

/-! # Posters and the consumer of `board_event`

Calls of `set_trigger_board_input_event_handler` and `board_button_write` run statement by statement, next to
the loop of `board_event.c` around `poll`. -/

namespace QuickStart.Keyevent

/-- The next statement of a call of `set_trigger_board_input_event_handler`. -/
inductive PostPc
  | check
  | setLen
  | copy
  | wake
  | trigger
  deriving DecidableEq, Repr

/-- The next statement of a call of `board_button_write`. -/
inductive WritePc
  | check
  | copy
  | setLen
  | wake
  deriving DecidableEq, Repr

inductive Call
  | post (data : List Byte) (len : Int) (pc : PostPc)
  | write (buf : List Byte) (count room : Nat) (pc : WritePc)
  deriving DecidableEq, Repr

/-- The position of the loop of `board_event`. -/
inductive ConsumerPc
  -- `poll(&btnfd, 1, -1)`, up to `poll_wait`
  | poll
  -- `if (trigger_status)`
  | test
  -- `trigger_status = 0`
  | clear
  -- the mask is not 0: `poll` takes the entry off the wait queue and returns
  | ready
  -- the mask is 0: `poll` sleeps until a wake-up reaches the entry
  | sleep
  | read
  | handle
  deriving DecidableEq, Repr

structure State where
  dev : Dev
  calls : List Call
  pc : ConsumerPc
  -- the consumer has an entry on `board_button_wait_queue`
  waiting : Bool
  -- a wake-up has reached that entry since the consumer last slept
  woken : Bool
  recvBuf : List Byte
  recvnum : Int
  deriving DecidableEq, Repr

namespace State

def start (send recv buf : List Byte) : State where
  dev := boardButtonDevInit send recv
  calls := []
  pc := .poll
  waiting := false
  woken := false
  recvBuf := buf
  recvnum := 0

def wakeUp (s : State) : State := { s with woken := s.woken || s.waiting }

end State

def recvMaxBufSize : Nat := 255

/-- One statement of `set_trigger_board_input_event_handler`; no position when it returns. -/
def postStep (s : State) (data : List Byte) (len : Int) : PostPc → State × Option PostPc
  | .check => (s, if len > sendBufSize then none else some .setLen)
  | .setLen => ({ s with dev := s.dev.setSendLen (sizeT len) }, some .copy)
  | .copy =>
    ({ s with dev := s.dev.setSendBuf (memcpy s.dev.sendData.data data s.dev.sendData.len) }, some .wake)
  | .wake => (s.wakeUp, some .trigger)
  | .trigger => ({ s with dev := s.dev.setTrigger true }, none)

/-- One statement of `board_button_write`; no position when it returns. -/
def writeStep (s : State) (buf : List Byte) (count room : Nat) : WritePc → State × Option WritePc
  | .check => (s, if count > recvBufSize then none else some .copy)
  | .copy =>
    ({ s with dev := s.dev.setRecvBuf (memcpy s.dev.recvData.data buf (min count room)) },
      if count ≤ room then some .setLen else none)
  | .setLen => ({ s with dev := s.dev.setRecvLen count }, some .wake)
  | .wake => (s.wakeUp, none)

def callStep (s : State) : Call → State × Option Call
  | .post data len pc => ((postStep s data len pc).1, (postStep s data len pc).2.map (.post data len))
  | .write buf count room pc =>
    ((writeStep s buf count room pc).1, (writeStep s buf count room pc).2.map (.write buf count room))

/-- One statement of the consumer; `copy_to_user` can copy `room` bytes. It cannot step while it sleeps. -/
def consumerStep (s : State) (room : Nat) : Option State :=
  match s.pc with
  | .poll => some { s with waiting := true, woken := false, pc := .test }
  | .test => some { s with pc := if s.dev.triggerStatus then .clear else .sleep }
  | .clear => some { s with dev := s.dev.setTrigger false, pc := .ready }
  | .ready => some { s with waiting := false, pc := .read }
  | .sleep => if s.woken then some { s with woken := false, pc := .test } else none
  | .read =>
    let r := boardButtonRead s.dev recvMaxBufSize room
    some { s with recvBuf := memcpy s.recvBuf r.2 r.2.length, recvnum := r.1, pc := .handle }
  | .handle => some { s with pc := .poll }

inductive Consumes (s : State) (room : Nat) : State → Prop
  | polls (hpc : s.pc = .poll) : Consumes s room { s with waiting := true, woken := false, pc := .test }
  | finds (hpc : s.pc = .test) (htrigger : s.dev.triggerStatus = true) : Consumes s room { s with pc := .clear }
  | misses (hpc : s.pc = .test) (htrigger : s.dev.triggerStatus = false) : Consumes s room { s with pc := .sleep }
  | clears (hpc : s.pc = .clear) : Consumes s room { s with dev := s.dev.setTrigger false, pc := .ready }
  | leaves (hpc : s.pc = .ready) : Consumes s room { s with waiting := false, pc := .read }
  | wakes (hpc : s.pc = .sleep) (hwoken : s.woken = true) : Consumes s room { s with woken := false, pc := .test }
  | reads (r : Int × List Byte) (hpc : s.pc = .read) (hr : r = boardButtonRead s.dev recvMaxBufSize room) :
      Consumes s room { s with recvBuf := memcpy s.recvBuf r.2 r.2.length, recvnum := r.1, pc := .handle }
  | handles (hpc : s.pc = .handle) : Consumes s room { s with pc := .poll }

theorem consumerStep_consumes {s t : State} {room : Nat} (hs : consumerStep s room = some t) : Consumes s room t := by
  unfold consumerStep at hs
  generalize hpc : s.pc = pc at hs
  cases pc with
  | test =>
    cases htrigger : s.dev.triggerStatus <;> rw [htrigger] at hs <;> obtain rfl := Option.some.inj hs
    · exact .misses hpc htrigger
    · exact .finds hpc htrigger
  | sleep =>
    dsimp only at hs
    split at hs
    · rename_i hwoken
      obtain rfl := Option.some.inj hs
      exact .wakes hpc hwoken
    · cases hs
  | poll => exact Option.some.inj hs ▸ .polls hpc
  | clear => exact Option.some.inj hs ▸ .clears hpc
  | ready => exact Option.some.inj hs ▸ .leaves hpc
  | read => exact Option.some.inj hs ▸ .reads _ hpc rfl
  | handle => exact Option.some.inj hs ▸ .handles hpc

inductive Event
  -- a statement of the consumer
  | consumer (room : Nat)
  -- a call of `set_trigger_board_input_event_handler`
  | postEnter (data : List Byte) (len : Int)
  -- a call of `board_button_write`
  | writeEnter (buf : List Byte) (count room : Nat)
  -- a statement of the `i`-th call that has not returned
  | call (i : Nat)
  deriving DecidableEq, Repr

def step (s : State) : Event → Option State
  | .consumer room => consumerStep s room
  | .postEnter data len => some { s with calls := s.calls ++ [.post data len .check] }
  | .writeEnter buf count room => some { s with calls := s.calls ++ [.write buf count room .check] }
  | .call i => s.calls[i]?.map fun c => { (callStep s c).1 with calls := Calls.put s.calls i (callStep s c).2 }

/-- The device with its posters and its consumer, from the initialisation on. -/
def lts (send recv buf : List Byte) : Lts State Event where
  init s := s = .start send recv buf
  step := step

end QuickStart.Keyevent
