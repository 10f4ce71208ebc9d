import Mathlib.Tactic.Simps.Basic
import QuickStart.Checksum

/-! # The device `board_event`

The static data of `board_input_dev.c` and its entry points, each from its call to its return. -/

namespace QuickStart.Keyevent

/-- `BOARD_BUTTON_SEND_BUF_SIZE` and `BOARD_BUTTON_RECV_BUF_SIZE`. -/
def sendBufSize : Nat := 256
def recvBufSize : Nat := 256

/-- `WIFI_ONOFF_KEY`, without its terminator. -/
def wifiOnoffKey : List Byte := [0x77, 0x69, 0x66, 0x69, 0x20, 0x6b, 0x65, 0x79]

def efault : Int := 14

/-- The conversion of an `int` to `size_t`. -/
def sizeT (len : Int) : Nat := (len % 2 ^ 64).toNat

/-- An `int` that is not negative is its own `size_t`. -/
theorem sizeT_of_nonneg {len : Int} (h0 : 0 ≤ len) (h : len < 2 ^ 31) : sizeT len = len.toNat := by
  rw [sizeT, Int.emod_eq_of_lt h0 (by omega)]

theorem sizeT_natCast {n : Nat} (h : n < 2 ^ 31) : sizeT n = n := by
  rw [sizeT_of_nonneg (Int.natCast_nonneg n) (by omega), Int.toNat_natCast]

/-- The contents of the buffer `dst` after `memcpy(dst, src, n)`; what falls behind its end is left out. -/
def memcpy (dst src : List Byte) (n : Nat) : List Byte :=
  (src.take n ++ dst.drop (src.take n).length).take dst.length

@[simp] theorem length_memcpy (dst src : List Byte) (n : Nat) : (memcpy dst src n).length = dst.length := by
  simp only [memcpy, List.length_take, List.length_append, List.length_drop]
  omega

/-- What has been copied within the bounds of both buffers can be read back. -/
theorem take_memcpy {dst src : List Byte} {n : Nat} (hdst : n ≤ dst.length) (hsrc : n ≤ src.length) :
    (memcpy dst src n).take n = src.take n := by
  rw [memcpy, List.take_take, Nat.min_eq_left hdst]
  exact List.take_left' (by rw [List.length_take, Nat.min_eq_left hsrc])

/-- `board_button_data_t`. -/
structure BoardButtonData where
  data : List Byte
  len : Nat
  deriving DecidableEq, Repr

structure Dev where
  sendData : BoardButtonData
  recvData : BoardButtonData
  triggerStatus : Bool
  deriving DecidableEq, Repr

/-- After `board_button_dev_init`: two `kmalloc`ed buffers with arbitrary contents. -/
def boardButtonDevInit (send recv : List Byte) : Dev where
  sendData := { data := send, len := 0 }
  recvData := { data := recv, len := 0 }
  triggerStatus := false

namespace Dev

@[simps] def setSendLen (d : Dev) (n : Nat) : Dev := { d with sendData := { d.sendData with len := n } }
@[simps] def setSendBuf (d : Dev) (b : List Byte) : Dev := { d with sendData := { d.sendData with data := b } }
@[simps] def setRecvLen (d : Dev) (n : Nat) : Dev := { d with recvData := { d.recvData with len := n } }
@[simps] def setRecvBuf (d : Dev) (b : List Byte) : Dev := { d with recvData := { d.recvData with data := b } }
@[simps] def setTrigger (d : Dev) (b : Bool) : Dev := { d with triggerStatus := b }

end Dev

/-- `set_trigger_board_input_event_handler`; `data` is the memory at the pointer. The flag says whether the
    wait queue has been woken. -/
def setTriggerBoardInputEventHandler (d : Dev) (data : List Byte) (len : Int) : Dev × Bool :=
  if len > sendBufSize then (d, false)
  else
    let d := d.setSendLen (sizeT len)
    let d := d.setSendBuf (memcpy d.sendData.data data d.sendData.len)
    (d.setTrigger true, true)

/-- `get_trigger_board_input_event_handler`: the result and the bytes copied to `data`. The comparison is made
    in `size_t`. -/
def getTriggerBoardInputEventHandler (d : Dev) (len : Int) : Int × List Byte :=
  if sizeT len < d.recvData.len then (0, []) else (d.recvData.len, d.recvData.data.take d.recvData.len)

/-- `board_button_poll`, without `poll_wait`: the flag says whether it returns `POLLIN | POLLRDNORM`. -/
def boardButtonPoll (d : Dev) : Dev × Bool :=
  if d.triggerStatus then (d.setTrigger false, true) else (d, false)

/-- `board_button_read`: the result and the bytes copied to the user; `copy_to_user` can copy `room` bytes. -/
def boardButtonRead (d : Dev) (size room : Nat) : Int × List Byte :=
  if size > sendBufSize then (-efault, [])
  else (if d.sendData.len ≤ room then (d.sendData.len : Int) else -efault,
    d.sendData.data.take (min d.sendData.len room))

/-- `board_button_write`: the result, and whether the wait queue has been woken; `copy_from_user` can copy
    `room` bytes of `buf`. -/
def boardButtonWrite (d : Dev) (buf : List Byte) (count room : Nat) : Dev × Int × Bool :=
  if count > recvBufSize then (d, -efault, false)
  else
    let d := d.setRecvBuf (memcpy d.recvData.data buf (min count room))
    if count ≤ room then (d.setRecvLen count, count, true) else (d, count, false)

end QuickStart.Keyevent
