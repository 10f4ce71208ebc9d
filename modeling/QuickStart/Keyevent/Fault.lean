import QuickStart.Keyevent.Device

/-! # Writes that fault

`board_button_write` copies straight into the buffer that `get_trigger_board_input_event_handler` reads, records
the length only of a copy that succeeds, and returns `count` either way. What is read is the last message that
came whole, with the beginnings of the later ones over it. -/

namespace QuickStart.Keyevent

/-- A call of `board_button_write` on `bytes`, of which `copy_from_user` can copy `room`. -/
structure Write where
  bytes : List Byte
  room : Nat
  deriving DecidableEq, Repr

namespace Write

def run (w : Write) (d : Dev) : Dev × Int × Bool := boardButtonWrite d w.bytes w.bytes.length w.room

/-- The copy is made, and all of it. -/
def Whole (w : Write) : Prop := w.bytes.length ≤ recvBufSize ∧ w.bytes.length ≤ w.room

/-- The copy is made and faults. -/
def Faults (w : Write) : Prop := w.bytes.length ≤ recvBufSize ∧ w.room < w.bytes.length

instance (w : Write) : Decidable w.Whole := inferInstanceAs (Decidable (_ ∧ _))
instance (w : Write) : Decidable w.Faults := inferInstanceAs (Decidable (_ ∧ _))

end Write

def afterWrites (d : Dev) (ws : List Write) : Dev := ws.foldl (fun d w => (w.run d).1) d

/-- The last message that was copied whole. -/
def lastWhole (ws : List Write) : List Byte := ws.foldl (fun m w => if w.Whole then w.bytes else m) []

/-- A get with room for the last whole message returns it, and a write that faults returns a negative value. -/
structure MailboxIntact (d : Dev) (ws : List Write) : Prop where
  message : ∀ len : Int, (lastWhole ws).length ≤ len → len < 2 ^ 31 →
    getTriggerBoardInputEventHandler (afterWrites d ws) len = (((lastWhole ws).length : Int), lastWhole ws)
  refused : ∀ before w after, ws = before ++ w :: after → w.Faults → (w.run (afterWrites d before)).2.1 < 0

/-- A message with the beginnings of the copies that have faulted since over it. -/
def Write.overlay (v : List Byte) (w : Write) : List Byte :=
  if w.Whole then w.bytes else if w.Faults then memcpy v w.bytes w.room else v

/-- What the buffer shows up to the recorded length is `v`. -/
structure Shows (d : Dev) (v : List Byte) : Prop where
  len : d.recvData.len = v.length
  data : d.recvData.data.take v.length = v
  size : d.recvData.data.length = recvBufSize

theorem take_memcpy_left {dst src : List Byte} {k n : Nat} (hk : k ≤ dst.length) :
    (memcpy dst src n).take k = memcpy (dst.take k) src n := by
  have hlen : (dst.take k).length = k := by rw [List.length_take, Nat.min_eq_left hk]
  rw [memcpy, memcpy, hlen, List.take_take, Nat.min_eq_left hk, List.take_append, List.take_append,
    List.drop_take, List.take_take, List.take_take, Nat.min_self]

namespace Shows
variable {d : Dev} {v : List Byte} {w : Write}

theorem init {send recv : List Byte} (hrecv : recv.length = recvBufSize) : Shows (boardButtonDevInit send recv) [] where
  len := rfl
  data := List.take_zero
  size := hrecv

/-- A write shows its message, the part of it that was copied, or nothing of it. -/
theorem write (h : Shows d v) : Shows (w.run d).1 (w.overlay v) := by
  rw [Write.run, boardButtonWrite, Write.overlay]
  by_cases hcount : w.bytes.length ≤ recvBufSize
  · rw [if_neg (not_lt.mpr hcount)]
    by_cases hroom : w.bytes.length ≤ w.room
    · have hfit : w.bytes.length ≤ d.recvData.data.length := hcount.trans_eq h.size.symm
      rw [if_pos hroom, if_pos ⟨hcount, hroom⟩, Nat.min_eq_left hroom]
      exact
        { len := rfl
          data := (take_memcpy hfit le_rfl).trans List.take_length
          size := (length_memcpy _ _ _).trans h.size }
    · have hfits : v.length ≤ d.recvData.data.length := by
        rw [← h.data, List.length_take]
        exact Nat.min_le_right _ _
      rw [if_neg hroom, if_neg fun hw => hroom hw.2, if_pos ⟨hcount, not_le.mp hroom⟩,
        Nat.min_eq_right (not_le.mp hroom).le]
      exact
        { len := h.len.trans (length_memcpy _ _ _).symm
          data := by rw [length_memcpy, Dev.setRecvBuf_recvData_data, take_memcpy_left hfits, h.data]
          size := (length_memcpy _ _ _).trans h.size }
  · rw [if_pos (not_le.mp hcount), if_neg fun hw => hcount hw.1, if_neg fun hw => hcount hw.1]
    exact h

theorem writes (h : Shows d v) (ws : List Write) : Shows (afterWrites d ws) (ws.foldl Write.overlay v) := by
  induction ws generalizing d v with
  | nil => exact h
  | cons w ws ih => exact ih h.write

theorem get (h : Shows d v) {len : Int} (hlen : v.length ≤ len) (hint : len < 2 ^ 31) :
    getTriggerBoardInputEventHandler d len = ((v.length : Int), v) := by
  have hsize : ¬sizeT len < d.recvData.len := by
    rw [sizeT_of_nonneg (by omega) hint, h.len]
    omega
  exact (if_neg hsize).trans (by rw [h.len, h.data])

end Shows

/-- After every sequence of writes a get with enough room returns the last whole message with the beginnings of
    the faulted copies since over it. -/
theorem get_afterWrites {send recv : List Byte} (hrecv : recv.length = recvBufSize) (ws : List Write) {len : Int}
    (hlen : (ws.foldl Write.overlay []).length ≤ len) (hint : len < 2 ^ 31) :
    getTriggerBoardInputEventHandler (afterWrites (boardButtonDevInit send recv) ws) len =
      (((ws.foldl Write.overlay []).length : Int), ws.foldl Write.overlay []) :=
  ((Shows.init hrecv).writes ws).get hlen hint

theorem foldl_overlay_of_not_faults {ws : List Write} (h : ∀ w ∈ ws, ¬w.Faults) :
    ws.foldl Write.overlay [] = lastWhole ws := by
  refine List.foldl_ext _ _ _ fun v w hw => ?_
  rw [Write.overlay, if_neg (h w hw)]

/-- A copy that faults goes unreported. -/
theorem run_of_faults {d : Dev} {w : Write} (h : w.Faults) : (w.run d).2.1 = w.bytes.length := by
  rw [Write.run, boardButtonWrite, if_neg (not_lt.mpr h.1)]
  exact congrArg (fun r : Dev × Int × Bool => r.2.1) (if_neg (not_le.mpr h.2))

/-- The mailbox stays intact over a sequence of writes exactly if no copy of them faults. -/
theorem mailbox_intact_iff {send recv : List Byte} (hrecv : recv.length = recvBufSize) (ws : List Write) :
    MailboxIntact (boardButtonDevInit send recv) ws ↔ ∀ w ∈ ws, ¬w.Faults := by
  constructor
  · intro h w hw hfaults
    obtain ⟨before, after, hws⟩ := List.append_of_mem hw
    have hneg := h.refused before w after hws hfaults
    rw [run_of_faults hfaults] at hneg
    omega
  · intro h
    have hoverlay := foldl_overlay_of_not_faults h
    exact
      { message := fun len hlen hint => hoverlay ▸ get_afterWrites hrecv ws (hoverlay ▸ hlen) hint
        refused := fun before w after hws hfaults =>
          absurd hfaults (h w (hws ▸ List.mem_append_right before List.mem_cons_self)) }

set_option maxRecDepth 4000 in
theorem mailbox_intact_whole : (List.replicate recvBufSize (0 : Byte)).length = recvBufSize ∧
    MailboxIntact (boardButtonDevInit [] (List.replicate recvBufSize 0))
      [⟨[0x6f, 0x66, 0x66], 3⟩, ⟨[0x6f, 0x6e], 5⟩, ⟨List.replicate 300 0x41, 0⟩] :=
  ⟨List.length_replicate, (mailbox_intact_iff List.length_replicate _).mpr (by decide)⟩

def torn : List Write := [⟨[0x6f, 0x6e], 2⟩, ⟨[0x78, 0x79, 0x7a], 1⟩]

set_option maxRecDepth 4000 in
/-- The first byte of the copy that faulted stands in the message before it, and the write has returned 3. -/
theorem mailbox_torn : ¬MailboxIntact (boardButtonDevInit [] (List.replicate recvBufSize 0)) torn ∧
    getTriggerBoardInputEventHandler (afterWrites (boardButtonDevInit [] (List.replicate recvBufSize 0)) torn) 8 =
      (2, [0x78, 0x6e]) ∧
    (Write.run ⟨[0x78, 0x79, 0x7a], 1⟩
      (afterWrites (boardButtonDevInit [] (List.replicate recvBufSize 0)) [⟨[0x6f, 0x6e], 2⟩])).2.1 = 3 := by
  have hget : getTriggerBoardInputEventHandler
      (afterWrites (boardButtonDevInit [] (List.replicate recvBufSize 0)) torn) 8 = (2, [0x78, 0x6e]) := by decide
  refine ⟨fun h => ?_, hget, by decide⟩
  have hmessage := h.message 8 (by decide) (by decide)
  rw [hget] at hmessage
  exact absurd hmessage (by decide)

end QuickStart.Keyevent
