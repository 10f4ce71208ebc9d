import Mathlib.Data.List.TakeWhile
import QuickStart.Checksum

/-! # Buffers

Arrays with checked reads and writes. A result of `none` is an access outside the array, so that a function
that returns something has stayed inside. -/

namespace QuickStart

/-- Arrays of `n` bytes. -/
abbrev Bytes (n : Nat) := { l : List Byte // l.length = n }

/-- The array after a store of one byte. -/
def Bytes.store {n : Nat} (a : Bytes n) (i : Nat) (b : Byte) : Option (Bytes n) :=
  if i < n then some ⟨a.1.set i b, List.length_set.trans a.2⟩ else none

namespace Buffer
variable {α : Type*}

/-- The array after `src` has been written from `off` on. -/
def write (dst : List α) (off : Nat) (src : List α) : Option (List α) :=
  if off + src.length ≤ dst.length then some (dst.take off ++ (src ++ dst.drop (off + src.length))) else none

/-- The `n` elements from `off` on. -/
def read (src : List α) (off n : Nat) : Option (List α) :=
  if off + n ≤ src.length then some ((src.drop off).take n) else none

def memset (dst : List α) (v : α) (n : Nat) : Option (List α) := write dst 0 (List.replicate n v)

def memcpy (dst : List α) (off : Nat) (src : List α) (n : Nat) : Option (List α) :=
  (read src 0 n).bind (write dst off)

/-- The string at a pointer to `s`: the bytes before the first zero. -/
def cString (s : List Byte) : Option (List Byte) := if 0 ∈ s then some (s.takeWhile (· != 0)) else none

def strlen (s : List Byte) : Option Nat := (cString s).map List.length

theorem cString_append {u rest : List Byte} (h : 0 ∉ u) : cString (u ++ 0 :: rest) = some u := by
  have hall : ∀ b ∈ u, (b != 0) = true := fun b hb => bne_iff_ne.mpr fun (h0 : b = 0) => h (h0 ▸ hb)
  rw [cString, if_pos (List.mem_append_right _ List.mem_cons_self), List.takeWhile_append_of_pos hall]
  simp

theorem isSome_cString {s : List Byte} : (cString s).isSome ↔ 0 ∈ s := by
  rw [cString]
  split <;> simpa

theorem length_lt_of_cString {s t : List Byte} (h : cString s = some t) : t.length < s.length := by
  have h0 : 0 ∈ s := isSome_cString.mp (Option.isSome_of_eq_some h)
  rw [cString, if_pos h0, Option.some.injEq] at h
  subst h
  refine lt_of_le_of_ne (List.takeWhile_prefix _).length_le fun hlen => ?_
  have hall : s.takeWhile (· != 0) = s := (List.takeWhile_prefix _).eq_of_length hlen
  have hne := List.takeWhile_eq_self_iff.mp hall 0 h0
  simp at hne

theorem strlen_append {u rest : List Byte} (h : 0 ∉ u) : strlen (u ++ 0 :: rest) = some u.length := by
  rw [strlen, cString_append h, Option.map_some]

/-! ### What a computation needs -/

/-- `x` returns something exactly if `P`, and then something with `R`. -/
structure Returns {β : Type*} (x : Option β) (P : Prop) (R : β → Prop) : Prop where
  isSome_iff : x.isSome ↔ P
  result : ∀ b, x = some b → R b

namespace Returns
variable {β γ : Type*} {x : Option β} {f : β → Option γ} {P Q : Prop} {R : β → Prop} {S : γ → Prop}

theorem pure {b : β} (hP : P) (hR : R b) : Returns (some b) P R where
  isSome_iff := iff_of_true rfl hP
  result _ hb := Option.some.inj hb ▸ hR

theorem none (hP : ¬P) : Returns none P R where
  isSome_iff := iff_of_false (by simp) hP
  result _ hb := by cases hb

/-- A part that `Q` is enough for; most often that is arithmetic. -/
theorem bind (hx : Returns x P R) (hf : P → ∀ b, R b → Returns (f b) Q S)
    (hQP : Q → P := by intros; first | trivial | omega) : Returns (x.bind f) Q S := by
  cases x with
  | none =>
    have hP : ¬P := fun h => by cases hx.isSome_iff.mpr h
    exact .none fun hQ => hP (hQP hQ)
  | some b => exact hf (hx.isSome_iff.mp rfl) b (hx.result b rfl)

theorem congr (hx : Returns x P R) (h : P ↔ Q) : Returns x Q R := ⟨hx.isSome_iff.trans h, hx.result⟩

end Returns

section Needs
variable {dst src : List α} {n off k : Nat}

theorem write_returns (h : dst.length = n) : Returns (write dst off src) (off + src.length ≤ n) (·.length = n) := by
  subst h
  rw [write]
  split <;> rename_i hfit
  · refine .pure hfit ?_
    simp only [List.length_append, List.length_take, List.length_drop]
    omega
  · exact .none hfit

theorem read_returns (h : src.length = n) : Returns (read src off k) (off + k ≤ n) (·.length = k) := by
  subst h
  rw [read]
  split <;> rename_i hfit
  · refine .pure hfit ?_
    rw [List.length_take, List.length_drop]
    omega
  · exact .none hfit

theorem memset_returns (h : dst.length = n) (v : α) : Returns (memset dst v k) (k ≤ n) (·.length = n) :=
  (write_returns h).congr (by rw [List.length_replicate, Nat.zero_add])

theorem memcpy_returns (hd : dst.length = n) (hs : k ≤ src.length) :
    Returns (memcpy dst off src k) (off + k ≤ n) (·.length = n) := by
  have hread : Returns (read src 0 k) True (·.length = k) := (read_returns rfl).congr (by simpa using hs)
  exact hread.bind (fun _ b hb => (write_returns hd).congr (by rw [hb])) fun _ => trivial

end Needs

/-! ### What an array starts with -/

/-- An array of `n` elements that starts with `p`. -/
structure Starts (buf : List α) (n : Nat) (p : List α) : Prop where
  length : buf.length = n
  front : p <+: buf

namespace Starts
variable {buf p q r src : List α} {n off k : Nat}

theorem nil (h : buf.length = n) : Starts buf n [] := ⟨h, List.nil_prefix⟩

theorem self (p : List α) : Starts p p.length p := ⟨rfl, List.prefix_refl p⟩

theorem mono (h : Starts buf n (p ++ q)) : Starts buf n p := ⟨h.length, (List.prefix_append p q).trans h.front⟩

theorem append_right (h : Starts buf n p) (l : List α) : Starts (buf ++ l) (n + l.length) p :=
  ⟨by rw [List.length_append, h.length], h.front.trans (List.prefix_append buf l)⟩

theorem length_le (h : Starts buf n p) : p.length ≤ n := by
  rw [← h.length]
  exact h.front.length_le

theorem take (h : Starts buf n p) : buf.take p.length = p := List.prefix_iff_eq_take.mp h.front |>.symm

/-- A write over a part of what is known. -/
theorem overwrite (h : Starts buf n (p ++ (q ++ r))) (hp : p.length = off) (hq : src.length = q.length) :
    ∃ b, write buf off src = some b ∧ Starts b n (p ++ (src ++ r)) := by
  obtain ⟨rest, rfl⟩ := h.front
  have hlen := h.length
  simp only [List.length_append] at hlen
  refine ⟨p ++ (src ++ (r ++ rest)), ?_, ?_, rest, ?_⟩
  · rw [write, if_pos (by simp only [List.length_append]; omega)]
    simp only [List.append_assoc]
    rw [List.take_left' hp, ← List.drop_drop, List.drop_left' hp, hq, List.drop_left' rfl]
  · simp only [List.length_append]
    omega
  · simp only [List.append_assoc]

/-- A write behind what is known. -/
theorem append (h : Starts buf n p) (hp : p.length = off) (hn : off + src.length ≤ n) :
    ∃ b, write buf off src = some b ∧ Starts b n (p ++ src) := by
  obtain ⟨rest, rfl⟩ := h.front
  have hlen := h.length
  simp only [List.length_append] at hlen
  have hsplit : Starts (p ++ rest) n (p ++ (rest.take src.length ++ [])) := by
    refine ⟨h.length, rest.drop src.length, ?_⟩
    rw [List.append_nil, List.append_assoc, List.take_append_drop]
  have hq : src.length = (rest.take src.length).length := by
    rw [List.length_take]
    omega
  simpa only [List.append_nil] using hsplit.overwrite hp hq

theorem memset (h : buf.length = n) (v : α) (hk : k ≤ n) :
    ∃ b, Buffer.memset buf v k = some b ∧ Starts b n (List.replicate k v) := by
  have hfit : 0 + (List.replicate k v).length ≤ n := by
    rw [List.length_replicate]
    omega
  exact (Starts.nil h).append rfl hfit

/-- A store behind what is known. -/
theorem set (h : Starts buf n p) (hp : p.length = off) (hn : off < n) (a : α) : Starts (buf.set off a) n (p ++ [a]) := by
  obtain ⟨rest, rfl⟩ := h.front
  have hlen := h.length
  rw [List.length_append] at hlen
  obtain ⟨b, rest, rfl⟩ := List.exists_cons_of_length_pos (show 0 < rest.length by omega)
  subst hp
  refine ⟨List.length_set.trans h.length, rest, ?_⟩
  rw [List.set_append_right _ _ (Nat.le_refl _), Nat.sub_self, List.set_cons_zero, List.append_assoc,
    List.singleton_append]

/-- Nothing is left open. -/
theorem eq_of_length (h : Starts buf n p) (hp : p.length = n) : buf = p :=
  (h.front.eq_of_length (hp.trans h.length.symm)).symm

/-- A read within what is known. -/
theorem read (h : Starts buf n (p ++ (q ++ r))) (hp : p.length = off) (hq : q.length = k) :
    Buffer.read buf off k = some q := by
  obtain ⟨rest, rfl⟩ := h.front
  rw [Buffer.read, if_pos (by simp only [List.length_append]; omega)]
  simp only [List.append_assoc]
  rw [List.drop_left' hp, List.take_left' hq]

theorem getElem? {a : α} (h : Starts buf n (p ++ (a :: r))) (hp : p.length = off) : buf[off]? = some a := by
  obtain ⟨rest, rfl⟩ := h.front
  rw [List.append_assoc, List.getElem?_append_right hp.le, hp, Nat.sub_self]
  rfl

theorem memcpy {m : Nat} {dst : List α} (hd : Starts dst m p) (hs : Starts buf n (q ++ r)) (hp : p.length = off)
    (hq : q.length = k) (hm : off + k ≤ m) : ∃ b, Buffer.memcpy dst off buf k = some b ∧ Starts b m (p ++ q) := by
  have hfit : off + q.length ≤ m := by rw [hq]; exact hm
  obtain ⟨b, hb, hstarts⟩ := hd.append hp hfit
  have hread : Buffer.read buf 0 k = some q := Starts.read (p := []) hs rfl hq
  exact ⟨b, by rw [Buffer.memcpy, hread]; exact hb, hstarts⟩

/-- A copy to the front. -/
theorem memcpy_front {m : Nat} {dst : List α} (hd : dst.length = m) (hs : Starts buf n (q ++ r)) (hq : q.length = k)
    (hm : k ≤ m) : ∃ b, Buffer.memcpy dst 0 buf k = some b ∧ Starts b m q := by
  have hfit : 0 + k ≤ m := by omega
  exact (Starts.nil hd).memcpy hs rfl hq hfit

/-- A copy over a part of what is known. -/
theorem memcpy_over {m : Nat} {dst s t : List α} (hd : Starts dst m (p ++ (q ++ r))) (hs : Starts buf n (s ++ t))
    (hp : p.length = off) (hk : s.length = k) (hq : s.length = q.length) :
    ∃ b, Buffer.memcpy dst off buf k = some b ∧ Starts b m (p ++ (s ++ r)) := by
  obtain ⟨b, hb, hstarts⟩ := hd.overwrite hp hq
  have hread : Buffer.read buf 0 k = some s := Starts.read (p := []) hs rfl hk
  exact ⟨b, by rw [Buffer.memcpy, hread]; exact hb, hstarts⟩

/-- The array starts with a string. -/
theorem cString {buf u : List Byte} (h : Starts buf n (u ++ [0])) (h0 : 0 ∉ u) : Buffer.cString buf = some u := by
  obtain ⟨rest, rfl⟩ := h.front
  rw [List.append_assoc]
  exact cString_append h0

end Starts

/-! ### Arrays made of fields -/

/-- Fields of the lengths `lens`. -/
abbrev Layout (α : Type*) (lens : List Nat) := { fs : List (List α) // fs.map List.length = lens }

section Fields
variable {pre post src : List α} {lens : List Nat} {off k : Nat}

namespace Layout

def set (fs : Layout α lens) (k : Nat) (src : List α) (h : lens[k]? = some src.length) : Layout α lens :=
  ⟨fs.1.set k src, by
    rw [List.map_set, fs.2]
    obtain ⟨hlt, hk⟩ := List.getElem?_eq_some_iff.mp h
    rw [← hk, List.set_getElem_self]⟩

@[simp] theorem val_set (fs : Layout α lens) (h : lens[k]? = some src.length) : (fs.set k src h).1 = fs.1.set k src := rfl

theorem length_flatten (fs : Layout α lens) : fs.1.flatten.length = lens.sum := by
  rw [List.length_flatten, fs.2]

theorem length_flatten_take (fs : Layout α lens) : (fs.1.take k).flatten.length = (lens.take k).sum := by
  rw [List.length_flatten, List.map_take, fs.2]

theorem length_flatten_drop (fs : Layout α lens) {m : Nat} :
    ((fs.1.drop k).take m).flatten.length = ((lens.drop k).take m).sum := by
  rw [List.length_flatten, List.map_take, List.map_drop, fs.2]

end Layout

theorem flatten_split {fs : List (List α)} {f : List α} (hk : fs[k]? = some f) :
    fs.flatten = (fs.take k).flatten ++ (f ++ (fs.drop (k + 1)).flatten) := by
  obtain ⟨hlt, rfl⟩ := List.getElem?_eq_some_iff.mp hk
  conv_lhs => rw [← List.take_append_drop k fs, List.drop_eq_getElem_cons hlt]
  rw [List.flatten_append, List.flatten_cons]

/-- A write of a whole field. -/
theorem write_field (fs : Layout α lens) (h : lens[k]? = some src.length) (hoff : pre.length + (lens.take k).sum = off) :
    write (pre ++ (fs.1.flatten ++ post)) off src = some (pre ++ ((fs.set k src h).1.flatten ++ post)) := by
  have hmap : (fs.1.map List.length)[k]? = some src.length := by rw [fs.2, h]
  rw [List.getElem?_map] at hmap
  obtain ⟨f, hf, hlen⟩ := Option.map_eq_some_iff.mp hmap
  have hlt := (List.getElem?_eq_some_iff.mp hf).1
  have hset : (fs.1.set k src)[k]? = some src := List.getElem?_set_self hlt
  have hp : (pre ++ (fs.1.take k).flatten).length = off := by
    rw [List.length_append, fs.length_flatten_take, hoff]
  rw [Layout.val_set, flatten_split hf, flatten_split hset, List.take_set_of_le (Nat.le_refl k),
    List.drop_set_of_lt (Nat.lt_succ_self k)]
  simp only [List.append_assoc]
  rw [← List.append_assoc pre, ← List.append_assoc pre, write, if_pos]
  · rw [List.take_left' hp, ← List.drop_drop, List.drop_left' hp, List.drop_left' hlen]
  · rw [List.length_append, hp, List.length_append, hlen]
    omega

/-- A read of `m` whole fields from the `k`-th on. -/
theorem read_fields (fs : Layout α lens) {m n : Nat} (hoff : pre.length + (lens.take k).sum = off)
    (hlen : ((lens.drop k).take m).sum = n) :
    read (pre ++ (fs.1.flatten ++ post)) off n = some ((fs.1.drop k).take m).flatten := by
  have hp : (pre ++ (fs.1.take k).flatten).length = off := by
    rw [List.length_append, fs.length_flatten_take, hoff]
  have hq : ((fs.1.drop k).take m).flatten.length = n := by rw [fs.length_flatten_drop, hlen]
  have hsplit : fs.1.flatten =
      (fs.1.take k).flatten ++ (((fs.1.drop k).take m).flatten ++ ((fs.1.drop k).drop m).flatten) := by
    rw [← List.flatten_append, List.take_append_drop, ← List.flatten_append, List.take_append_drop]
  rw [hsplit]
  simp only [List.append_assoc]
  rw [← List.append_assoc pre, read, if_pos, List.drop_left' hp, List.take_left' hq]
  rw [List.length_append, hp, List.length_append, hq]
  omega

end Fields

end Buffer

end QuickStart
