import Mathlib.Data.List.Basic

/-! # Reading a text piece by piece

`simple_read_from_buffer`, and a reader that calls it again and again. The text is put together for each call anew;
as long as it is the same one, the pieces make up its front. -/

namespace QuickStart.Reader
variable {α : Type*}

def efault : Int := 14

/-- A call: the count that is asked for, the elements that the memory of the reader has room for, and the text at
    that time. -/
structure Call (α : Type*) where
  count : Nat
  room : Nat
  text : List α

/-- `simple_read_from_buffer` at the position `pos`: what it returns, and what it stores. -/
def simpleReadFromBuffer (pos : Nat) (c : Call α) : Int × List α :=
  let count := min c.count (c.text.length - pos)
  if count = 0 then (0, [])
  else if min count c.room = 0 then (-efault, [])
  else ((min count c.room : Nat), (c.text.drop pos).take (min count c.room))

/-- What the calls store, one behind the other, from the position `pos` on, and the position after them. -/
def reads : Nat → List (Call α) → List α × Nat
  | pos, [] => ([], pos)
  | pos, c :: cs =>
    let out := (simpleReadFromBuffer pos c).2
    let r := reads (pos + out.length) cs
    (out ++ r.1, r.2)

section Rules
variable {pos : Nat} {c : Call α} {cs : List (Call α)} {text : List α}

/-- A call stores a piece of the text at the position, of the length that it returns unless it fails. -/
theorem read_piece (pos : Nat) (c : Call α) :
    ∃ n, (simpleReadFromBuffer pos c).2 = (c.text.drop pos).take n ∧ (simpleReadFromBuffer pos c).2.length = n ∧ n ≤ c.count := by
  unfold simpleReadFromBuffer
  dsimp only
  split
  · exact ⟨0, rfl, rfl, Nat.zero_le _⟩
  · split
    · exact ⟨0, rfl, rfl, Nat.zero_le _⟩
    · refine ⟨_, rfl, ?_, Nat.le_trans (Nat.min_le_left _ _) (Nat.min_le_left _ _)⟩
      rw [List.length_take, List.length_drop, Nat.min_eq_left]
      exact Nat.le_trans (Nat.min_le_left _ _) (Nat.min_le_right _ _)

/-- A call that asks for something returns 0 only at the end of the text. -/
theorem read_zero (hcount : 0 < c.count) (h : (simpleReadFromBuffer pos c).1 = 0) : c.text.length ≤ pos := by
  unfold simpleReadFromBuffer efault at h
  dsimp only at h
  split at h
  · omega
  · split at h
    · cases h
    · simp only [Int.natCast_eq_zero] at h
      contradiction

/-- A call with room goes on until the end of the text. -/
theorem read_pos (hcount : 0 < c.count) (hroom : 0 < c.room) (hpos : pos < c.text.length) :
    0 < (simpleReadFromBuffer pos c).2.length := by
  unfold simpleReadFromBuffer
  dsimp only
  rw [if_neg (by omega), if_neg (by omega), List.length_take, List.length_drop]
  omega

/-- The pieces continue the front of the text. -/
theorem reads_front (hcs : ∀ c ∈ cs, c.text = text) :
    text.take pos ++ (reads pos cs).1 = text.take (reads pos cs).2 := by
  induction cs generalizing pos with
  | nil => exact List.append_nil _
  | cons c cs ih =>
    obtain ⟨n, hpiece, hlen, -⟩ := read_piece pos c
    have htext : c.text = text := hcs c List.mem_cons_self
    have hfront : text.take pos ++ (simpleReadFromBuffer pos c).2 = text.take (pos + n) := by
      rw [hpiece, htext, List.take_add]
    rw [reads, ← List.append_assoc, hfront, hlen]
    exact ih fun x hx => hcs x (List.mem_cons_of_mem c hx)

/-- The position does not pass the end, and each call that leaves it in front of the end has moved it. -/
theorem reads_pos (hcs : ∀ c ∈ cs, c.text = text ∧ 0 < c.count ∧ 0 < c.room) :
    min text.length (pos + cs.length) ≤ (reads pos cs).2 := by
  induction cs generalizing pos with
  | nil => exact Nat.min_le_right _ _
  | cons c cs ih =>
    obtain ⟨htext, hcount, hroom⟩ := hcs c List.mem_cons_self
    have hrest : min text.length (pos + (simpleReadFromBuffer pos c).2.length + cs.length) ≤ (reads pos (c :: cs)).2 :=
      ih fun x hx => hcs x (List.mem_cons_of_mem c hx)
    refine Nat.le_trans ?_ hrest
    rw [List.length_cons]
    by_cases hpos : pos < text.length
    · have hmoved := read_pos hcount hroom (htext ▸ hpos)
      omega
    · omega

theorem reads_start (hcs : ∀ c ∈ cs, c.text = text) : (reads 0 cs).1 = text.take (reads 0 cs).2 := by
  rw [← reads_front hcs, List.take_zero, List.nil_append]

/-- A reader that has found the end has read the text. -/
theorem reads_end (hcs : ∀ c ∈ cs, c.text = text) (hc : c.text = text) (hcount : 0 < c.count)
    (hend : (simpleReadFromBuffer (reads 0 cs).2 c).1 = 0) : (reads 0 cs).1 = text := by
  rw [reads_start hcs, List.take_of_length_le (hc ▸ read_zero hcount hend)]

/-- As many calls as the text is long find its end. -/
theorem reads_all (hcs : ∀ c ∈ cs, c.text = text ∧ 0 < c.count ∧ 0 < c.room) (hlen : text.length ≤ cs.length) :
    (reads 0 cs).1 = text := by
  have hpos : min text.length (0 + cs.length) ≤ (reads 0 cs).2 := reads_pos hcs
  rw [reads_start fun c hc => (hcs c hc).1, List.take_of_length_le (by omega)]

end Rules

end QuickStart.Reader
