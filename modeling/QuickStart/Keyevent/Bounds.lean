import QuickStart.Keyevent.Registers

/-! # The bounds of the transfers

The lengths that the device records, and the bytes that it copies to its callers. A length is an `int` at the
entry points of the kernel and a `size_t` in the device, and `board_button_read` copies what the last post has
recorded, whatever it is asked for. -/

namespace QuickStart.Keyevent

def Dev.Bounded (d : Dev) : Prop := d.sendData.len ≤ sendBufSize ∧ d.recvData.len ≤ recvBufSize

def Reply.bytes : Reply → List Byte
  | .void | .mask _ => []
  | .ret _ bytes => bytes

/-- The call leaves lengths that fit the buffers, and copies no more than it is asked for. -/
def Dev.Within (d : Dev) (op : Op) : Prop :=
  (d.call op).1.Bounded ∧
  match op with
  | .read size _ => (d.call op).2.bytes.length ≤ size
  | .get len => (0 ≤ len → (d.call op).2.bytes.length ≤ len) ∧ (len < 0 → (d.call op).2.bytes = [])
  | _ => True

def Op.Ints : Op → Prop
  | .post _ len | .get len => -2 ^ 31 ≤ len ∧ len < 2 ^ 31
  | _ => True

instance : ∀ op : Op, Decidable op.Ints
  | .post _ _ | .get _ => inferInstanceAs (Decidable (_ ∧ _))
  | .poll | .read _ _ | .write _ _ _ => inferInstanceAs (Decidable True)

instance (d : Dev) : Decidable d.Bounded := inferInstanceAs (Decidable (_ ∧ _))

/-- The length of the last post that was accepted, and that of the last write that was copied whole. -/
structure Lengths where
  post : Nat
  write : Nat
  deriving DecidableEq, Repr

namespace Lengths

def start : Lengths where
  post := 0
  write := 0

def after (l : Lengths) : Op → Lengths
  | .post _ len => if len ≤ sendBufSize then { l with post := len.toNat } else l
  | .write _ count room => if count ≤ recvBufSize ∧ count ≤ room then { l with write := count } else l
  | _ => l

end Lengths

/-- No post with a negative length, no accepted read of less than the last post unless the user's memory ends
    within it, and no get with a negative length after a write of some bytes. -/
def Modest (l : Lengths) : Op → Prop
  | .post _ len => 0 ≤ len
  | .read size room => size ≤ sendBufSize → min l.post room ≤ size
  | .get len => 0 ≤ len ∨ l.write = 0
  | _ => True

instance (l : Lengths) : ∀ op : Op, Decidable (Modest l op)
  | .post _ _ => inferInstanceAs (Decidable (_ ≤ _))
  | .read _ _ => inferInstanceAs (Decidable (_ → _))
  | .get _ => inferInstanceAs (Decidable (_ ∨ _))
  | .poll | .write _ _ _ => inferInstanceAs (Decidable True)

abbrev lengthsLts : Lts (Dev × Lengths) Op := deviceLts.track (fun _ op l => l.after op) .start

/-- The device records the lengths of the calls. -/
structure Sized (d : Dev) (l : Lengths) : Prop where
  post : d.sendData.len = l.post
  write : d.recvData.len = l.write
  bounded : d.Bounded
  sendSize : d.sendData.data.length = sendBufSize
  recvSize : d.recvData.data.length = recvBufSize

/-- A negative `int` is a `size_t` beyond every buffer. -/
theorem lt_sizeT_of_neg {len : Int} (h0 : len < 0) (h : -2 ^ 31 ≤ len) : recvBufSize < sizeT len := by
  have hwrap : len % 2 ^ 64 = len + 2 ^ 64 := by
    rw [← Int.add_emod_right]
    exact Int.emod_eq_of_lt (by omega) (by omega)
  rw [sizeT, hwrap, recvBufSize]
  omega

namespace Sized
variable {d : Dev} {l : Lengths}

theorem init {send recv : List Byte} (hsend : send.length = sendBufSize) (hrecv : recv.length = recvBufSize) :
    Sized (boardButtonDevInit send recv) .start where
  post := rfl
  write := rfl
  bounded := ⟨Nat.zero_le _, Nat.zero_le _⟩
  sendSize := hsend
  recvSize := hrecv

theorem posts (h : Sized d l) {data : List Byte} {len : Int} (h0 : 0 ≤ len) (hint : len < 2 ^ 31) :
    Sized (d.call (.post data len)).1 (l.after (.post data len)) := by
  have hsize : sizeT len = len.toNat := sizeT_of_nonneg h0 hint
  simp only [Dev.call, setTriggerBoardInputEventHandler, Lengths.after]
  by_cases hlen : len ≤ sendBufSize
  · rw [if_neg (not_lt.mpr hlen), if_pos hlen]
    exact
      { h with
        post := hsize
        bounded := ⟨hsize.trans_le (Int.toNat_le.mpr hlen), h.bounded.2⟩
        sendSize := by simpa [Dev.setSendLen, Dev.setSendBuf, Dev.setTrigger] using h.sendSize }
  · rw [if_pos (not_le.mp hlen), if_neg hlen]
    exact h

theorem polls (h : Sized d l) : Sized (d.call .poll).1 (l.after .poll) := by
  simp only [Dev.call, boardButtonPoll, Lengths.after]
  split
  · exact { h with }
  · exact h

theorem writes (h : Sized d l) (buf : List Byte) (count room : Nat) :
    Sized (d.call (.write buf count room)).1 (l.after (.write buf count room)) := by
  simp only [Dev.call, boardButtonWrite, Lengths.after]
  by_cases hcount : count ≤ recvBufSize
  · rw [if_neg (not_lt.mpr hcount)]
    have hcopied : Sized (d.setRecvBuf (memcpy d.recvData.data buf (min count room))) l :=
      { h with recvSize := (length_memcpy _ _ _).trans h.recvSize }
    by_cases hroom : count ≤ room
    · rw [if_pos hroom, if_pos ⟨hcount, hroom⟩]
      exact { hcopied with write := rfl, bounded := ⟨h.bounded.1, hcount⟩ }
    · rw [if_neg hroom, if_neg fun hfit => hroom hfit.2]
      exact hcopied
  · rw [if_pos (not_le.mp hcount), if_neg fun hfit => hcount hfit.1]
    exact h

theorem call (h : Sized d l) {op : Op} (hints : op.Ints) (hok : Modest l op) : Sized (d.call op).1 (l.after op) := by
  cases op with
  | post data len => exact h.posts hok hints.2
  | poll => exact h.polls
  | write buf count room => exact h.writes buf count room
  | read _ _ | get _ => exact h

theorem within_post (h : Sized d l) {data : List Byte} {len : Int} (hints : (Op.post data len).Ints) :
    d.Within (.post data len) ↔ 0 ≤ len := by
  refine ⟨fun hwithin => ?_, fun h0 => ⟨(h.posts h0 hints.2).bounded, trivial⟩⟩
  by_contra h0
  have hsend := hwithin.1.1
  have hrefused : ¬len > sendBufSize := by omega
  simp only [Dev.call, setTriggerBoardInputEventHandler, if_neg hrefused] at hsend
  exact absurd hsend (not_le.mpr (lt_sizeT_of_neg (not_le.mp h0) hints.1))

/-- An accepted read copies the last post, up to the end of the user's memory. -/
theorem within_read (h : Sized d l) {size room : Nat} :
    d.Within (.read size room) ↔ (size ≤ sendBufSize → min l.post room ≤ size) := by
  have hfit := h.bounded.1
  have hdata := h.sendSize
  have hpost := h.post
  simp only [Dev.Within, Dev.call, boardButtonRead, h.bounded, true_and, Reply.bytes]
  by_cases hsize : size > sendBufSize
  · rw [if_pos hsize]
    exact ⟨fun _ hle => absurd hle (not_le.mpr hsize), fun _ => Nat.zero_le _⟩
  · rw [if_neg hsize, List.length_take, imp_iff_right (not_lt.mp hsize)]
    omega

/-- A get with a negative length copies the whole of the last write. -/
theorem within_get (h : Sized d l) {len : Int} (hints : (Op.get len).Ints) :
    d.Within (.get len) ↔ 0 ≤ len ∨ l.write = 0 := by
  have hfit := h.bounded.2
  have hlength : (d.recvData.data.take d.recvData.len).length = l.write := by
    rw [List.length_take, h.recvSize, Nat.min_eq_left hfit, h.write]
  have hbytes : d.Within (.get len) ↔ (0 ≤ len → ((d.call (.get len)).2.bytes.length : Int) ≤ len) ∧
      (len < 0 → (d.call (.get len)).2.bytes = []) := and_iff_right h.bounded
  rw [hbytes]
  simp only [Dev.call, getTriggerBoardInputEventHandler]
  by_cases h0 : 0 ≤ len
  · have hneg : ¬len < 0 := not_lt.mpr h0
    simp only [h0, hneg, true_imp_iff, false_imp_iff, true_or, and_true, iff_true]
    rw [sizeT_of_nonneg h0 hints.2]
    split
    · exact h0
    · rename_i hle
      have hwrite := h.write
      simp only [Reply.bytes, hlength]
      omega
  · have hbig : ¬sizeT len < d.recvData.len :=
      not_lt.mpr (hfit.trans (lt_sizeT_of_neg (not_le.mp h0) hints.1).le)
    simp only [h0, not_le.mp h0, false_imp_iff, true_imp_iff, true_and, false_or, if_neg hbig, Reply.bytes]
    rw [← List.length_eq_zero_iff, hlength]

theorem within_iff (h : Sized d l) {op : Op} (hints : op.Ints) : d.Within op ↔ Modest l op := by
  cases op with
  | post data len => exact h.within_post hints
  | poll => exact ⟨fun _ => trivial, fun _ => ⟨h.polls.bounded, trivial⟩⟩
  | read size room => exact h.within_read
  | write buf count room => exact ⟨fun _ => trivial, fun _ => ⟨(h.writes buf count room).bounded, trivial⟩⟩
  | get len => exact h.within_get hints

end Sized

/-- After every sequence of modest calls the recorded lengths fit the buffers, and the next call stays within
    its bounds exactly if it is modest. -/
theorem transfers_bounded {d : Dev} {l : Lengths}
    (h : lengthsLts.Reach (fun x op => op.Ints ∧ Modest x.2 op) (d, l)) :
    d.Bounded ∧ ∀ op, op.Ints → (d.Within op ↔ Modest l op) := by
  have hsized : Sized d l := by
    refine h.track_invariant ?_ ?_
    · rintro _ ⟨send, recv, hsend, hrecv, rfl⟩
      exact .init hsend hrecv
    · rintro d l op d' hsized ⟨hints, hok⟩ hs
      obtain rfl := Option.some.inj hs
      exact hsized.call hints hok
  exact ⟨hsized.bounded, fun op hints => hsized.within_iff hints⟩

def modestCalls : List Op :=
  [.post [0x77, 0x69, 0x66, 0x69] 4, .write [0x6f, 0x6e] 2 2, .post (List.replicate 300 0x42) 300, .read 255 255,
    .get 8, .read 2 2]

set_option maxRecDepth 4000 in
theorem transfers_bounded_modest : ∃ d, lengthsLts.Reach (fun x op => op.Ints ∧ Modest x.2 op) (d, ⟨4, 2⟩) ∧
    d.Within (.read 4 8) ∧ ¬d.Within (.read 3 8) ∧ ¬d.Within (.get (-1)) ∧ ¬d.Within (.post [] (-1)) := by
  have hrun : (lengthsLts.runIf (fun x op => op.Ints ∧ Modest x.2 op)
      (boardButtonDevInit (List.replicate sendBufSize 0) (List.replicate recvBufSize 0), .start) modestCalls).any
      (fun x => x.2 == ⟨4, 2⟩) = true := by decide
  obtain ⟨⟨d, l⟩, hr, hp⟩ := Lts.exists_reach_of_runIf hrun
    ⟨⟨_, _, List.length_replicate, List.length_replicate, rfl⟩, rfl⟩
  obtain rfl := beq_iff_eq.mp hp
  have hiff := (transfers_bounded hr).2
  exact ⟨d, hr, (hiff _ (by decide)).mpr (by decide), fun hw => absurd ((hiff _ (by decide)).mp hw) (by decide),
    fun hw => absurd ((hiff _ (by decide)).mp hw) (by decide),
    fun hw => absurd ((hiff _ (by decide)).mp hw) (by decide)⟩

set_option maxRecDepth 4000 in
/-- A post of a negative length breaks the bound of `send_data.len`, a read of one byte copies the forty of the
    last post, and a get with a negative length copies what the last write has left. -/
theorem transfers_unbounded :
    (∃ d, deviceLts.Reach (fun _ op => op.Ints) d ∧ ¬d.Bounded) ∧
    (∃ d, deviceLts.Reach (fun _ op => op.Ints) d ∧ (d.call (.read 1 255)).2.bytes.length = 40) ∧
    ∃ d, deviceLts.Reach (fun _ op => op.Ints) d ∧ (d.call (.get (-1))).2.bytes = [0x6f, 0x6e] := by
  have hrun (ops : List Op) (p : Dev → Bool) (hr : (deviceLts.runIf (fun _ op => op.Ints)
      (boardButtonDevInit (List.replicate sendBufSize 0) (List.replicate recvBufSize 0)) ops).any p = true) :
      ∃ d, deviceLts.Reach (fun _ op => op.Ints) d ∧ p d = true :=
    Lts.exists_reach_of_runIf hr ⟨_, _, List.length_replicate, List.length_replicate, rfl⟩
  refine ⟨?_, ?_, ?_⟩
  · obtain ⟨d, hr, hp⟩ := hrun [.post [0x41] (-1)] (fun d => decide ¬d.Bounded) (by decide)
    exact ⟨d, hr, of_decide_eq_true hp⟩
  · obtain ⟨d, hr, hp⟩ := hrun [.post (List.replicate 40 0x41) 40]
      (fun d => (d.call (.read 1 255)).2.bytes.length == 40) (by decide)
    exact ⟨d, hr, beq_iff_eq.mp hp⟩
  · obtain ⟨d, hr, hp⟩ := hrun [.write [0x6f, 0x6e] 2 2]
      (fun d => (d.call (.get (-1))).2.bytes == [0x6f, 0x6e]) (by decide)
    exact ⟨d, hr, beq_iff_eq.mp hp⟩

end QuickStart.Keyevent
