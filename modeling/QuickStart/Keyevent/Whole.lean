import QuickStart.Keyevent.Fault
import QuickStart.Keyevent.Registers
import QuickStart.Keyevent.Step

/-! # The registers, statement by statement

A post stores its length and then copies its message; a write copies its bytes and then stores their number. While
no two posts and no two writes are between these two statements at once, the device stands for its registers at
every statement outside of them, and inside one shows the new length over the old bytes, or the new bytes under
the old length. -/

namespace QuickStart.Keyevent
open State

/-- A post that has stored its length and has not copied its message. -/
def Call.filling : Call → Bool
  | .post _ _ .copy => true
  | _ => false

/-- A write that has copied its bytes and has not stored their number. -/
def Call.measuring : Call → Bool
  | .write _ _ _ .setLen => true
  | _ => false

/-- The next statement is the first of the two. -/
def Call.fills : Call → Bool
  | .post _ _ .setLen => true
  | _ => false

def Call.measures : Call → Bool
  | .write _ _ _ .copy => true
  | _ => false

/-- The calls are fair, and a call comes to the first of its two statements when no other of its kind is between
    them. -/
def Apart (s : State) : Event → Prop
  | .postEnter data len => Fair s.dev (.post data len)
  | .writeEnter buf count room => Fair s.dev (.write buf count room)
  | .call i => ∀ c ∈ s.calls[i]?, (c.fills = true → s.calls.countP Call.filling = 0) ∧
      (c.measures = true → s.calls.countP Call.measuring = 0)
  | .consumer _ => True

instance (s : State) : ∀ e : Event, Decidable (Apart s e)
  | .postEnter data len => inferInstanceAs (Decidable (Fair s.dev (.post data len)))
  | .writeEnter buf count room => inferInstanceAs (Decidable (Fair s.dev (.write buf count room)))
  | .call _ => inferInstanceAs (Decidable (∀ c ∈ _, (_ → _) ∧ (_ → _)))
  | .consumer _ => inferInstanceAs (Decidable True)

/-- The registers after an event. A post counts for the readers from its copy on and for `poll` from its last
    statement on, a write from the store of its length on. -/
def Registers.after (s : State) : Event → Registers → Registers
  | .call i, r =>
    match s.calls[i]? with
    | some (.post data len .copy) => { r with event := data.take len.toNat }
    | some (.post _ _ .trigger) => { r with edge := true }
    | some (.write buf count _ .setLen) => { r with command := buf.take count }
    | _ => r
  | .consumer _, r => if s.pc = .clear then { r with edge := false } else r
  | .postEnter _ _, r | .writeEnter _ _ _, r => r

/-- The statements of the device with the registers that they have led to. -/
abbrev wholeLts (send recv buf : List Byte) : Lts (State × Registers) Event :=
  (lts send recv buf).track Registers.after .empty

/-! ### The invariant -/

/-- A call whose arguments are fair, and fit behind its first statement. -/
def Call.Good : Call → Prop
  | .post data len pc =>
    0 ≤ len ∧ len < 2 ^ 31 ∧ (len ≤ sendBufSize → len ≤ data.length) ∧ (pc ≠ .check → len ≤ sendBufSize)
  | .write buf count room pc =>
    (count ≤ recvBufSize → count ≤ room ∧ count ≤ buf.length) ∧ (pc ≠ .check → count ≤ recvBufSize)

/-- What the device shows of the registers, and what it keeps of them inside a call. -/
structure Stands (s : State) (r : Registers) : Prop where
  good : ∀ c ∈ s.calls, c.Good
  onePost : s.calls.countP Call.filling ≤ 1
  oneWrite : s.calls.countP Call.measuring ≤ 1
  sendSize : s.dev.sendData.data.length = sendBufSize
  recvSize : s.dev.recvData.data.length = recvBufSize
  edge : r.edge = s.dev.triggerStatus
  event : r.event <+: s.dev.sendData.data
  eventLen : s.calls.countP Call.filling = 0 → s.dev.sendData.len = r.event.length
  filled : ∀ data len, Call.post data len .copy ∈ s.calls → s.dev.sendData.len = len.toNat
  commandLen : s.dev.recvData.len = r.command.length
  command : s.calls.countP Call.measuring = 0 → r.command <+: s.dev.recvData.data
  measured : ∀ buf count room, Call.write buf count room .setLen ∈ s.calls →
    buf.take count <+: s.dev.recvData.data ∧
      s.dev.recvData.data.take r.command.length = memcpy r.command buf count

theorem not_mem_of_countP_eq_zero {calls : List Call} {p : Call → Bool} (h : calls.countP p = 0) {c : Call}
    (hp : p c = true) : c ∉ calls := fun hm => List.countP_eq_zero.mp h c hm hp

theorem countP_set {calls : List Call} {i : Nat} {c d : Call} (hi : calls[i]? = some c) (p : Call → Bool) :
    (calls.set i d).countP p + (p c).toNat = calls.countP p + (p d).toNat := by
  have hput := Calls.countP_put hi p (some d)
  cases hc : p c <;> cases hd : p d <;> simpa [Calls.put, hc, hd] using hput

/-- A copy that fits stands at the beginning of the buffer. -/
theorem take_prefix_memcpy {dst src : List Byte} {n : Nat} (hdst : n ≤ dst.length) (hsrc : n ≤ src.length) :
    src.take n <+: memcpy dst src n := by
  rw [← take_memcpy hdst hsrc]
  exact List.take_prefix _ _

namespace Stands
variable {s t : State} {r : Registers}

theorem start {send recv : List Byte} (buf : List Byte) (hsend : send.length = sendBufSize)
    (hrecv : recv.length = recvBufSize) : Stands (.start send recv buf) .empty where
  good c hc := by cases hc
  onePost := Nat.zero_le _
  oneWrite := Nat.zero_le _
  sendSize := hsend
  recvSize := hrecv
  edge := rfl
  event := List.nil_prefix
  eventLen _ := rfl
  filled data len hm := by cases hm
  commandLen := rfl
  command _ := List.nil_prefix
  measured buf count room hm := by cases hm

/-- A step that keeps the buffers, the lengths and the calls between their two statements. -/
theorem of_frame (h : Stands s r) {r' : Registers} (good : ∀ c ∈ t.calls, c.Good)
    (hfilling : t.calls.countP Call.filling = s.calls.countP Call.filling)
    (hmeasuring : t.calls.countP Call.measuring = s.calls.countP Call.measuring)
    (hcalls : ∀ c ∈ t.calls, c.filling = true ∨ c.measuring = true → c ∈ s.calls)
    (hsend : t.dev.sendData = s.dev.sendData) (hrecv : t.dev.recvData = s.dev.recvData)
    (hevent : r'.event = r.event) (hcommand : r'.command = r.command) (edge : r'.edge = t.dev.triggerStatus) :
    Stands t r' where
  good := good
  onePost := hfilling ▸ h.onePost
  oneWrite := hmeasuring ▸ h.oneWrite
  sendSize := hsend ▸ h.sendSize
  recvSize := hrecv ▸ h.recvSize
  edge := edge
  event := by rw [hevent, hsend]; exact h.event
  eventLen h0 := by rw [hevent, hsend]; exact h.eventLen (hfilling ▸ h0)
  filled data len hm := by rw [hsend]; exact h.filled data len (hcalls _ hm (Or.inl rfl))
  commandLen := by rw [hcommand, hrecv]; exact h.commandLen
  command h0 := by rw [hcommand, hrecv]; exact h.command (hmeasuring ▸ h0)
  measured buf count room hm := by
    rw [hcommand, hrecv]
    exact h.measured buf count room (hcalls _ hm (Or.inr rfl))

theorem consumer (h : Stands s r) {room : Nat} (hs : consumerStep s room = some t) :
    Stands t (Registers.after s (.consumer room) r) := by
  rw [Registers.after]
  cases consumerStep_consumes hs with
  | clears hpc =>
    rw [if_pos hpc]
    exact h.of_frame h.good rfl rfl (fun c hc _ => hc) rfl rfl rfl rfl rfl
  | polls hpc | finds hpc | misses hpc | leaves hpc | wakes hpc | reads _ hpc | handles hpc =>
    rw [if_neg (by rw [hpc]; simp)]
    exact h.of_frame h.good rfl rfl (fun c hc _ => hc) rfl rfl rfl rfl h.edge

theorem enter (h : Stands s r) {c : Call} (good : c.Good) (hfilling : c.filling = false)
    (hmeasuring : c.measuring = false) : Stands { s with calls := s.calls ++ [c] } r := by
  refine h.of_frame (fun d hd => ?_) ?_ ?_ (fun d hd hopen => ?_) rfl rfl rfl rfl h.edge
  · rcases List.mem_append.mp hd with hd | hd
    · exact h.good d hd
    · obtain rfl := List.mem_singleton.mp hd
      exact good
  · simp [List.countP_append, hfilling]
  · simp [List.countP_append, hmeasuring]
  · rcases List.mem_append.mp hd with hd | hd
    · exact hd
    · obtain rfl := List.mem_singleton.mp hd
      rw [hfilling, hmeasuring] at hopen
      rcases hopen with hopen | hopen <;> cases hopen

/-- A statement of a call that is neither of the two. -/
theorem outside (h : Stands s r) {r' : Registers} {i : Nat} {c : Call} {o : Option Call} (hi : s.calls[i]? = some c)
    (hcalls : t.calls = Calls.put s.calls i o) (hfilling : c.filling = false) (hmeasuring : c.measuring = false)
    (ho : ∀ d ∈ o, d.Good ∧ d.filling = false ∧ d.measuring = false) (hsend : t.dev.sendData = s.dev.sendData)
    (hrecv : t.dev.recvData = s.dev.recvData) (hevent : r'.event = r.event) (hcommand : r'.command = r.command)
    (edge : r'.edge = t.dev.triggerStatus) : Stands t r' := by
  have count (p : Call → Bool) (hc : p c = false) (hp : ∀ d ∈ o, p d = false) :
      t.calls.countP p = s.calls.countP p := by
    have hput := Calls.countP_put hi p o
    have hany : o.any p = false := by
      cases o with
      | none => rfl
      | some d => exact hp d rfl
    rw [hc, hany] at hput
    simpa [hcalls] using hput
  refine h.of_frame (fun d hd => ?_) (count _ hfilling fun d hd => (ho d hd).2.1)
    (count _ hmeasuring fun d hd => (ho d hd).2.2) (fun d hd hopen => ?_) hsend hrecv hevent hcommand edge
  · rcases Calls.mem_put (hcalls ▸ hd) with hd | hd
    · exact h.good d hd
    · exact (ho d hd).1
  · rcases Calls.mem_put (hcalls ▸ hd) with hd | hd
    · exact hd
    · obtain ⟨-, h1, h2⟩ := ho d hd
      rw [h1, h2] at hopen
      rcases hopen with hopen | hopen <;> cases hopen

section Call
variable {i : Nat} {data buf : List Byte} {len : Int} {count room : Nat}

/-- The length of a post is stored; the message before it stays in the buffer. -/
theorem fills (h : Stands s r) (hi : s.calls[i]? = some (.post data len .setLen))
    (hnone : s.calls.countP Call.filling = 0) :
    Stands { s with dev := s.dev.setSendLen (sizeT len), calls := s.calls.set i (.post data len .copy) } r := by
  obtain ⟨h0, h31, hdata, hfit⟩ := h.good _ (List.mem_of_getElem? hi)
  have hone : (s.calls.set i (.post data len .copy)).countP Call.filling = 1 := by
    have := countP_set (d := .post data len .copy) hi Call.filling
    simpa [Call.filling, hnone] using this
  have hmeasuring : (s.calls.set i (.post data len .copy)).countP Call.measuring = s.calls.countP Call.measuring :=
    countP_set hi Call.measuring
  have hold : ∀ c ∈ s.calls.set i (.post data len .copy), c ∈ s.calls ∨ c = .post data len .copy := fun c hc =>
    List.mem_or_eq_of_mem_set hc
  exact
    { h with
      good := fun c hc => by
        rcases hold c hc with hc | rfl
        · exact h.good c hc
        · exact ⟨h0, h31, hdata, fun _ => hfit (by simp)⟩
      onePost := hone.le
      oneWrite := hmeasuring.trans_le h.oneWrite
      eventLen := fun hzero => absurd (hone.symm.trans hzero) one_ne_zero
      filled := fun data' len' hm => by
        rcases hold _ hm with hm | heq
        · exact absurd hm (not_mem_of_countP_eq_zero hnone rfl)
        · cases heq
          exact sizeT_of_nonneg h0 h31
      command := fun hzero => h.command (hmeasuring.symm.trans hzero)
      measured := fun buf count room hm => by
        rcases hold _ hm with hm | heq
        · exact h.measured buf count room hm
        · cases heq }

/-- The message of a post is copied, with its own length in place. -/
theorem copies (h : Stands s r) (hi : s.calls[i]? = some (.post data len .copy)) :
    Stands { s with
      dev := s.dev.setSendBuf (memcpy s.dev.sendData.data data s.dev.sendData.len)
      calls := s.calls.set i (.post data len .wake) } { r with event := data.take len.toNat } := by
  obtain ⟨h0, h31, hdata, hfit⟩ := h.good _ (List.mem_of_getElem? hi)
  have hlen : s.dev.sendData.len = len.toNat := h.filled data len (List.mem_of_getElem? hi)
  have hsize := hfit (by simp)
  have hsrc : len.toNat ≤ data.length := Int.toNat_le.mpr (hdata hsize)
  have hdst : len.toNat ≤ s.dev.sendData.data.length := by
    rw [h.sendSize]
    exact Int.toNat_le.mpr hsize
  -- This call was the only one between its two statements.
  have hnone : (s.calls.set i (.post data len .wake)).countP Call.filling = 0 := by
    have := countP_set (d := .post data len .wake) hi Call.filling
    have hle := h.onePost
    simp only [Call.filling, Bool.toNat_true, Bool.toNat_false] at this
    omega
  have hmeasuring : (s.calls.set i (.post data len .wake)).countP Call.measuring = s.calls.countP Call.measuring :=
    countP_set hi Call.measuring
  have hold : ∀ c ∈ s.calls.set i (.post data len .wake), c ∈ s.calls ∨ c = .post data len .wake := fun c hc =>
    List.mem_or_eq_of_mem_set hc
  exact
    { good := fun c hc => by
        rcases hold c hc with hc | rfl
        · exact h.good c hc
        · exact ⟨h0, h31, hdata, fun _ => hsize⟩
      onePost := hnone.trans_le zero_le_one
      oneWrite := hmeasuring.trans_le h.oneWrite
      sendSize := (length_memcpy _ _ _).trans h.sendSize
      recvSize := h.recvSize
      edge := h.edge
      event := by
        rw [hlen]
        exact take_prefix_memcpy hdst hsrc
      eventLen := fun _ => by
        rw [List.length_take, Nat.min_eq_left hsrc]
        exact hlen
      filled := fun data' len' hm => by
        exact absurd hm (not_mem_of_countP_eq_zero hnone rfl)
      commandLen := h.commandLen
      command := fun hzero => h.command (hmeasuring.symm.trans hzero)
      measured := fun buf count room hm => by
        rcases hold _ hm with hm | heq
        · exact h.measured buf count room hm
        · cases heq }

/-- The bytes of a write are copied over those of the one before it. -/
theorem measures (h : Stands s r) (hi : s.calls[i]? = some (.write buf count room .copy))
    (hnone : s.calls.countP Call.measuring = 0) :
    Stands { s with
      dev := s.dev.setRecvBuf (memcpy s.dev.recvData.data buf count)
      calls := s.calls.set i (.write buf count room .setLen) } r := by
  obtain ⟨hfair, hfit⟩ := h.good _ (List.mem_of_getElem? hi)
  have hsize := hfit (by simp)
  obtain ⟨hroom, hbuf⟩ := hfair hsize
  have hdst : count ≤ s.dev.recvData.data.length := by
    rw [h.recvSize]
    exact hsize
  have hone : (s.calls.set i (.write buf count room .setLen)).countP Call.measuring = 1 := by
    have := countP_set (d := .write buf count room .setLen) hi Call.measuring
    simpa [Call.measuring, hnone] using this
  have hfilling : (s.calls.set i (.write buf count room .setLen)).countP Call.filling = s.calls.countP Call.filling :=
    countP_set hi Call.filling
  have hold : ∀ c ∈ s.calls.set i (.write buf count room .setLen),
      c ∈ s.calls ∨ c = .write buf count room .setLen := fun c hc => List.mem_or_eq_of_mem_set hc
  have hprefix := h.command hnone
  exact
    { h with
      good := fun c hc => by
        rcases hold c hc with hc | rfl
        · exact h.good c hc
        · exact ⟨hfair, fun _ => hsize⟩
      onePost := hfilling.trans_le h.onePost
      oneWrite := hone.le
      recvSize := (length_memcpy _ _ _).trans h.recvSize
      eventLen := fun hzero => h.eventLen (hfilling.symm.trans hzero)
      filled := fun data len hm => by
        rcases hold _ hm with hm | heq
        · exact h.filled data len hm
        · cases heq
      command := fun hzero => absurd (hone.symm.trans hzero) one_ne_zero
      measured := fun buf' count' room' hm => by
        rcases hold _ hm with hm | heq
        · exact absurd hm (not_mem_of_countP_eq_zero hnone rfl)
        · cases heq
          refine ⟨take_prefix_memcpy hdst hbuf, ?_⟩
          rw [Dev.setRecvBuf_recvData_data, take_memcpy_left hprefix.length_le,
            ← List.prefix_iff_eq_take.mp hprefix] }

/-- The number of the bytes of a write is stored. -/
theorem counts (h : Stands s r) (hi : s.calls[i]? = some (.write buf count room .setLen)) :
    Stands { s with dev := s.dev.setRecvLen count, calls := s.calls.set i (.write buf count room .wake) }
      { r with command := buf.take count } := by
  obtain ⟨hfair, hfit⟩ := h.good _ (List.mem_of_getElem? hi)
  have hsize := hfit (by simp)
  obtain ⟨hroom, hbuf⟩ := hfair hsize
  obtain ⟨hbytes, -⟩ := h.measured buf count room (List.mem_of_getElem? hi)
  have hnone : (s.calls.set i (.write buf count room .wake)).countP Call.measuring = 0 := by
    have := countP_set (d := .write buf count room .wake) hi Call.measuring
    have hle := h.oneWrite
    simp only [Call.measuring, Bool.toNat_true, Bool.toNat_false] at this
    omega
  have hfilling : (s.calls.set i (.write buf count room .wake)).countP Call.filling = s.calls.countP Call.filling :=
    countP_set hi Call.filling
  have hold : ∀ c ∈ s.calls.set i (.write buf count room .wake),
      c ∈ s.calls ∨ c = .write buf count room .wake := fun c hc => List.mem_or_eq_of_mem_set hc
  exact
    { h with
      good := fun c hc => by
        rcases hold c hc with hc | rfl
        · exact h.good c hc
        · exact ⟨hfair, fun _ => hsize⟩
      onePost := hfilling.trans_le h.onePost
      oneWrite := hnone.trans_le zero_le_one
      eventLen := fun hzero => h.eventLen (hfilling.symm.trans hzero)
      filled := fun data len hm => by
        rcases hold _ hm with hm | heq
        · exact h.filled data len hm
        · cases heq
      commandLen := by
        rw [List.length_take, Nat.min_eq_left hbuf]
        rfl
      command := fun _ => hbytes
      measured := fun buf' count' room' hm => by
        exact absurd hm (not_mem_of_countP_eq_zero hnone rfl) }

end Call

theorem call (h : Stands s r) {i : Nat} {c : Call} (hi : s.calls[i]? = some c) (hok : Apart s (.call i)) :
    Stands { (callStep s c).1 with calls := Calls.put s.calls i (callStep s c).2 }
      (Registers.after s (.call i) r) := by
  obtain ⟨hfills, hmeasures⟩ := hok c hi
  have good := h.good c (List.mem_of_getElem? hi)
  simp only [Registers.after, hi]
  cases c with
  | post data len pc =>
    obtain ⟨h0, h31, hdata, hfit⟩ := good
    cases pc with
    | check =>
      refine h.outside hi rfl rfl rfl (fun d hd => ?_) rfl rfl rfl rfl h.edge
      simp only [callStep, postStep] at hd
      split at hd
      · cases hd
      · rename_i hlen
        cases hd
        exact ⟨⟨h0, h31, hdata, fun _ => not_lt.mp hlen⟩, rfl, rfl⟩
    | setLen => exact h.fills hi (hfills rfl)
    | copy => exact h.copies hi
    | wake =>
      refine h.outside (o := some (.post data len .trigger)) hi rfl rfl rfl (fun d hd => ?_) rfl rfl rfl rfl h.edge
      cases hd
      exact ⟨⟨h0, h31, hdata, fun _ => hfit (by simp)⟩, rfl, rfl⟩
    | trigger => exact h.outside (o := none) hi rfl rfl rfl (fun d hd => by cases hd) rfl rfl rfl rfl rfl
  | write buf count room pc =>
    obtain ⟨hfair, hfit⟩ := good
    cases pc with
    | check =>
      refine h.outside hi rfl rfl rfl (fun d hd => ?_) rfl rfl rfl rfl h.edge
      simp only [callStep, writeStep] at hd
      split at hd
      · cases hd
      · rename_i hcount
        cases hd
        exact ⟨⟨hfair, fun _ => not_lt.mp hcount⟩, rfl, rfl⟩
    | copy =>
      obtain ⟨hroom, -⟩ := hfair (hfit (by simp))
      have hs := h.measures hi (hmeasures rfl)
      simpa [callStep, writeStep, hroom, Nat.min_eq_left hroom, Calls.put] using hs
    | setLen => exact h.counts hi
    | wake => exact h.outside (o := none) hi rfl rfl rfl (fun d hd => by cases hd) rfl rfl rfl rfl h.edge

theorem step (h : Stands s r) {e : Event} (hok : Apart s e) (hs : Keyevent.step s e = some t) :
    Stands t (Registers.after s e r) := by
  cases e with
  | consumer room => exact h.consumer hs
  | postEnter data len =>
    obtain rfl := Option.some.inj hs
    exact h.enter ⟨hok.1, hok.2.1, hok.2.2, fun hpc => absurd rfl hpc⟩ rfl rfl
  | writeEnter buf count room =>
    obtain rfl := Option.some.inj hs
    exact h.enter ⟨hok, fun hpc => absurd rfl hpc⟩ rfl rfl
  | call i =>
    obtain ⟨c, hi, rfl⟩ := Option.map_eq_some_iff.mp hs
    exact h.call hi hok

/-! ### What a call sees -/

/-- Outside the two statements of a post the device stands for the event and the edge. -/
theorem ofEvent (h : Stands s r) (h0 : s.calls.countP Call.filling = 0) :
    Registers.Of (s.dev.setRecvLen 0) { r with command := [] } where
  event := by
    rw [Dev.setRecvLen_sendData, h.eventLen h0]
    exact List.prefix_iff_eq_take.mp h.event
  command := rfl
  edge := h.edge
  sendRoom := (h.eventLen h0).trans_le h.event.length_le
  recvRoom := Nat.zero_le _
  sendSize := h.sendSize
  recvSize := h.recvSize

/-- Outside the two statements of a write it stands for the command. -/
theorem ofCommand (h : Stands s r) (h0 : s.calls.countP Call.measuring = 0) :
    Registers.Of (s.dev.setSendLen 0) { r with event := [] } where
  event := rfl
  command := by
    rw [Dev.setSendLen_recvData, h.commandLen]
    exact List.prefix_iff_eq_take.mp (h.command h0)
  edge := h.edge
  sendRoom := Nat.zero_le _
  recvRoom := h.commandLen.trans_le (h.command h0).length_le
  sendSize := h.sendSize
  recvSize := h.recvSize

end Stands

/-- No call on the register of `op` is between its two statements. -/
def Op.Clear (s : State) (op : Op) : Prop :=
  if op.onEvent then s.calls.countP Call.filling = 0 else s.calls.countP Call.measuring = 0

instance (s : State) (op : Op) : Decidable (op.Clear s) := by
  unfold Op.Clear
  infer_instance

namespace Stands
variable {s : State} {r : Registers}

theorem reply (h : Stands s r) {op : Op} (hclear : op.Clear s) (hfair : Fair s.dev op) {reply : Reply}
    (hr : (r.call op).2 = some reply) : (s.dev.call op).2 = reply := by
  unfold Op.Clear at hclear
  split at hclear
  · rename_i hon
    have hpart : s.dev.part true = (s.dev.setRecvLen 0).part true := rfl
    refine (call_congr hon hpart).1.trans (((h.ofEvent hclear).call ?_).2 reply ?_)
    · cases op <;> exact hfair
    · cases op <;> first | exact hr | cases hon
  · rename_i hon
    have hpart : s.dev.part false = (s.dev.setSendLen 0).part false := rfl
    refine (call_congr (Bool.eq_false_iff.mpr hon) hpart).1.trans (((h.ofCommand hclear).call ?_).2 reply ?_)
    · cases op <;> first | exact hfair | exact absurd rfl hon
    · cases op with
      | write buf count room =>
        rw [← hr]
        simp only [Registers.call]
        split <;> rfl
      | get len => exact hr
      | post _ _ | poll | read _ _ => exact absurd rfl hon

end Stands

/-- The statements of the device refine its registers: a call that finds no post or write on its register between
    its two statements answers what the registers promise. A read that finds one gets the length of the new
    message with bytes of the old one, and a get the length of the old message with the new bytes over it. -/
theorem statements_refine_registers {send recv buf : List Byte} (hsend : send.length = sendBufSize)
    (hrecv : recv.length = recvBufSize) {s : State} {r : Registers}
    (h : (wholeLts send recv buf).Reach (fun x e => Apart x.1 e) (s, r)) :
    (∀ op, op.Clear s → Fair s.dev op → ∀ reply, (r.call op).2 = some reply → (s.dev.call op).2 = reply) ∧
      (∀ data len, Call.post data len .copy ∈ s.calls → ∀ size room : Nat, size ≤ sendBufSize → len ≤ room →
        ∃ bytes, boardButtonRead s.dev size room = (len, bytes) ∧
          bytes.take r.event.length = r.event.take len.toNat) ∧
      ∀ buf count room, Call.write buf count room .setLen ∈ s.calls → ∀ len : Int, r.command.length ≤ len →
        len < 2 ^ 31 → getTriggerBoardInputEventHandler s.dev len =
          ((r.command.length : Int), memcpy r.command buf count) := by
  have hstands : Stands s r := by
    refine h.track_invariant ?_ fun _ _ _ _ hstands hok hs => hstands.step hok hs
    rintro _ rfl
    exact .start buf hsend hrecv
  refine ⟨fun op hclear hfair reply hr => hstands.reply hclear hfair hr, ?_, ?_⟩
  · intro data len hm size room hsize hroom
    obtain ⟨h0, -, -, hfit⟩ := hstands.good _ hm
    have hlen := hstands.filled data len hm
    have hle : s.dev.sendData.len ≤ room := by omega
    refine ⟨s.dev.sendData.data.take len.toNat, ?_, ?_⟩
    · rw [boardButtonRead, if_neg (not_lt.mpr hsize), if_pos hle, Nat.min_eq_left hle, hlen]
      exact Prod.ext (Int.toNat_of_nonneg h0) rfl
    · rw [List.take_take, Nat.min_comm, ← List.take_take, ← List.prefix_iff_eq_take.mp hstands.event]
  · intro buf count room hm len hlen hint
    obtain ⟨-, hover⟩ := hstands.measured buf count room hm
    have hsize : ¬sizeT len < s.dev.recvData.len := by
      rw [sizeT_of_nonneg (by omega) hint, hstands.commandLen]
      omega
    rw [getTriggerBoardInputEventHandler, if_neg hsize, hstands.commandLen, hover]

/-- A write, a post up to its copy, and the copy of a shorter write. -/
def postAmongWrites : List Event :=
  Event.writeEnter [0x6f, 0x66, 0x66] 3 3 :: List.replicate 4 (Event.call 0) ++
    [Event.postEnter [0x77, 0x69, 0x66, 0x69] 4, Event.writeEnter [0x6e] 1 1, .call 0, .call 1, .call 0, .call 1, .call 0]

set_option maxRecDepth 4000 in
/-- A read finds the post whole and a get the write half done. -/
theorem statements_refine_registers_among : ∃ s r,
    (wholeLts (List.replicate sendBufSize 0) (List.replicate recvBufSize 0) []).Reach (fun x e => Apart x.1 e) (s, r) ∧
    (s.dev.call (.read 255 255)).2 = .ret 4 [0x77, 0x69, 0x66, 0x69] ∧
    getTriggerBoardInputEventHandler s.dev 8 = (3, [0x6e, 0x66, 0x66]) := by
  have hrun : ((wholeLts (List.replicate sendBufSize 0) (List.replicate recvBufSize 0) []).runIf
      (fun x e => Apart x.1 e) (.start (List.replicate sendBufSize 0) (List.replicate recvBufSize 0) [], .empty)
      postAmongWrites).any (fun x => x.2 == ⟨[0x77, 0x69, 0x66, 0x69], [0x6f, 0x66, 0x66], false⟩ &&
        x.1.calls == [.post [0x77, 0x69, 0x66, 0x69] 4 .wake, .write [0x6e] 1 1 .setLen] &&
        decide (Fair x.1.dev (.read 255 255))) = true := by decide
  obtain ⟨⟨s, r⟩, hr, hp⟩ := Lts.exists_reach_of_runIf hrun ⟨rfl, rfl⟩
  simp only [Bool.and_eq_true, beq_iff_eq, decide_eq_true_eq] at hp
  obtain ⟨⟨rfl, hcalls⟩, hfair⟩ := hp
  obtain ⟨hreply, -, hget⟩ := statements_refine_registers List.length_replicate List.length_replicate hr
  refine ⟨s, _, hr, hreply _ ?_ hfair _ (by decide), ?_⟩
  · unfold Op.Clear
    rw [hcalls]
    decide
  · exact hget [0x6e] 1 1 (by rw [hcalls]; simp) 8 (by decide) (by decide)

end QuickStart.Keyevent
