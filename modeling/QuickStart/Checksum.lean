import Mathlib.Data.BitVec
import Mathlib.Data.List.GetD

/-! # The Internet checksum

The one's complement sum of RFC 1071 over the 16-bit words of a byte string, and what storing its complement
in the string does to it. -/

namespace QuickStart

abbrev Byte := BitVec 8

namespace Checksum

/-- One's complement addition of 16-bit words. -/
def onesAdd (a b : Nat) : Nat := if a + b < 65536 then a + b else a + b - 65535

/-- The sum of the words in network order; an odd last byte is the high byte of a word. -/
def onesSum : List Byte → Nat
  | [] => 0
  | [a] => a.toNat * 256
  | a :: b :: rest => onesAdd (a.toNat * 256 + b.toNat) (onesSum rest)

/-- The complement of the sum. -/
def ipComputeCsum (data : List Byte) : BitVec 16 := ~~~BitVec.ofNat 16 (onesSum data)

/-! ### One's complement arithmetic -/

section Arithmetic
variable {a b c : Nat}

theorem onesAdd_le (ha : a ≤ 65535) (hb : b ≤ 65535) : onesAdd a b ≤ 65535 := by
  unfold onesAdd
  split <;> omega

theorem zero_onesAdd (hb : b ≤ 65535) : onesAdd 0 b = b := by
  unfold onesAdd
  split <;> omega

theorem onesAdd_comm : onesAdd a b = onesAdd b a := by
  unfold onesAdd
  rw [Nat.add_comm]

theorem onesAdd_assoc (ha : a ≤ 65535) (hb : b ≤ 65535) (hc : c ≤ 65535) :
    onesAdd (onesAdd a b) c = onesAdd a (onesAdd b c) := by
  unfold onesAdd
  repeat' split
  all_goals omega

theorem onesAdd_left_comm (ha : a ≤ 65535) (hb : b ≤ 65535) (hc : c ≤ 65535) :
    onesAdd a (onesAdd b c) = onesAdd b (onesAdd a c) := by
  rw [← onesAdd_assoc ha hb hc, onesAdd_comm, onesAdd_comm, ← onesAdd_assoc hb ha hc, onesAdd_comm (a := b)]

theorem onesAdd_compl (ha : a ≤ 65535) : onesAdd (65535 - a) a = 65535 := by
  unfold onesAdd
  split <;> omega

end Arithmetic

theorem word_le (a b : Byte) : a.toNat * 256 + b.toNat ≤ 65535 := by
  have := a.isLt
  have := b.isLt
  omega

theorem onesSum_le : ∀ l : List Byte, onesSum l ≤ 65535
  | [] => Nat.zero_le _
  | [a] => by
    have := a.isLt
    rw [onesSum]
    omega
  | a :: b :: rest => onesAdd_le (word_le a b) (onesSum_le rest)

theorem toNat_ipComputeCsum (data : List Byte) : (ipComputeCsum data).toNat = 65535 - onesSum data := by
  have := onesSum_le data
  rw [ipComputeCsum, BitVec.toNat_not, BitVec.toNat_ofNat]
  omega

/-- The sum of a string of whole words and of what follows it. -/
theorem onesSum_append : ∀ {p : List Byte} (q : List Byte), p.length % 2 = 0 →
    onesSum (p ++ q) = onesAdd (onesSum p) (onesSum q)
  | [], q, _ => (zero_onesAdd (onesSum_le q)).symm
  | [_], _, h => by cases h
  | a :: b :: p, q, h => by
    have hp : p.length % 2 = 0 := by
      rw [List.length_cons, List.length_cons] at h
      omega
    rw [List.cons_append, List.cons_append, onesSum, onesSum_append q hp, onesSum,
      onesAdd_assoc (word_le a b) (onesSum_le p) (onesSum_le q)]

/-- A 16-bit word in network order. -/
def be16 (n : Nat) : List Byte := [BitVec.ofNat 8 (n / 256), BitVec.ofNat 8 (n % 256)]

@[simp] theorem length_be16 (n : Nat) : (be16 n).length = 2 := rfl

theorem onesSum_be16 {n : Nat} (h : n ≤ 65535) : onesSum (be16 n) = n := by
  have hhi : (BitVec.ofNat 8 (n / 256)).toNat = n / 256 := by
    rw [BitVec.toNat_ofNat]
    omega
  have hlo : (BitVec.ofNat 8 (n % 256)).toNat = n % 256 := by
    rw [BitVec.toNat_ofNat]
    omega
  rw [be16, onesSum, onesSum, hhi, hlo, onesAdd, if_pos (by omega)]
  omega

/-- A word between two parts of a string adds to the sum of the string with a zero there. -/
theorem onesSum_between {p q : List Byte} {w : Nat} (hp : p.length % 2 = 0) (hw : w ≤ 65535) :
    onesSum (p ++ (be16 w ++ q)) = onesAdd w (onesSum (p ++ (be16 0 ++ q))) := by
  have hsum := onesSum_le q
  rw [onesSum_append _ hp, onesSum_append _ hp, onesSum_append q (by rw [length_be16]),
    onesSum_append q (by rw [length_be16]), onesSum_be16 hw, onesSum_be16 (Nat.zero_le _), zero_onesAdd hsum,
    onesAdd_left_comm hw (onesSum_le p) hsum]

/-- A string with the complement of its sum and of the sum `s` of other words in it. -/
theorem onesSum_complete {p q : List Byte} {s : Nat} (hs : s ≤ 65535) (hp : p.length % 2 = 0) :
    onesAdd s (onesSum (p ++ (be16 (65535 - onesAdd s (onesSum (p ++ (be16 0 ++ q)))) ++ q))) = 65535 := by
  have hsum := onesSum_le (p ++ (be16 0 ++ q))
  rw [onesSum_between hp (Nat.sub_le _ _), onesAdd_left_comm hs (Nat.sub_le _ _) hsum]
  exact onesAdd_compl (onesAdd_le hs hsum)

/-! ### A single word -/

/-- The word from `off` on; behind the end of the string there are zeros. -/
def wordAt (l : List Byte) (off : Nat) : Nat := (l.getD off 0).toNat * 256 + (l.getD (off + 1) 0).toNat

theorem wordAt_le (l : List Byte) (off : Nat) : wordAt l off ≤ 65535 := word_le _ _

theorem wordAt_of_length_le {l : List Byte} {off : Nat} (h : l.length ≤ off) : wordAt l off = 0 := by
  rw [wordAt, List.getD_eq_default _ _ h, List.getD_eq_default _ _ (Nat.le_succ_of_le h)]
  rfl

theorem toNat_be16 {w : Nat} (hw : w ≤ 65535) :
    (BitVec.ofNat 8 (w / 256)).toNat * 256 + (BitVec.ofNat 8 (w % 256)).toNat = w := by
  rw [BitVec.toNat_ofNat, BitVec.toNat_ofNat]
  omega

/-- The first word of a string and the rest, also when the string ends within the word. -/
theorem onesSum_first (l : List Byte) : onesSum l = onesAdd (wordAt l 0) (onesSum (l.drop 2)) := by
  match l with
  | [] => rw [wordAt_of_length_le (Nat.zero_le _), zero_onesAdd (onesSum_le _), List.drop_nil]
  | [a] =>
    have hword : wordAt [a] 0 = a.toNat * 256 := Nat.add_zero _
    rw [hword, onesSum, List.drop_eq_nil_of_le (by simp), onesSum, onesAdd_comm, zero_onesAdd]
    have := a.isLt
    omega
  | a :: b :: rest => rfl

/-- The sum of a string by one of its words. -/
theorem onesSum_at {l : List Byte} {k : Nat} (hk : 2 * k ≤ l.length) :
    onesSum l = onesAdd (onesSum (l.take (2 * k))) (onesAdd (wordAt l (2 * k)) (onesSum (l.drop (2 * k + 2)))) := by
  have hword : wordAt (l.drop (2 * k)) 0 = wordAt l (2 * k) := by
    simp only [wordAt, List.getD_eq_getElem?_getD, List.getElem?_drop, Nat.add_zero, Nat.zero_add]
  have hlen : (l.take (2 * k)).length % 2 = 0 := by
    rw [List.length_take]
    omega
  conv_lhs => rw [← List.take_append_drop (2 * k) l]
  rw [onesSum_append _ hlen, onesSum_first (l.drop (2 * k)), hword, List.drop_drop]

/-- `l'` is `l` with the word `k` changed to any other word, though not from one zero to the other. -/
structure Damaged (l l' : List Byte) (k : Nat) : Prop where
  length : l'.length = l.length
  others : ∀ i, i / 2 ≠ k → l'[i]? = l[i]?
  changed : wordAt l' (2 * k) ≠ wordAt l (2 * k)
  zeros : ¬(wordAt l (2 * k) = 0 ∧ wordAt l' (2 * k) = 65535)
  ones : ¬(wordAt l (2 * k) = 65535 ∧ wordAt l' (2 * k) = 0)

/-- One's complement addition can tell any two words apart but the two zeros. -/
theorem onesAdd_ne {x y v w : Nat} (hx : x ≤ 65535) (hy : y ≤ 65535) (hv : v ≤ 65535) (hw : w ≤ 65535) (hne : v ≠ w)
    (hzeros : ¬(w = 0 ∧ v = 65535)) (hones : ¬(w = 65535 ∧ v = 0)) : onesAdd x (onesAdd v y) ≠ onesAdd x (onesAdd w y) := by
  rw [onesAdd_left_comm hx hv hy, onesAdd_left_comm hx hw hy]
  have := onesAdd_le hx hy
  generalize onesAdd x y = z at this
  unfold onesAdd
  split <;> split <;> omega

/-- The sum of a damaged string is another one. -/
theorem Damaged.onesSum_ne {l l' : List Byte} {k : Nat} (h : Damaged l l' k) : onesSum l' ≠ onesSum l := by
  have hlt : 2 * k < l.length := by
    by_contra hle
    rw [Nat.not_lt] at hle
    exact h.changed ((wordAt_of_length_le (h.length ▸ hle)).trans (wordAt_of_length_le hle).symm)
  have htake : l'.take (2 * k) = l.take (2 * k) := by
    apply List.ext_getElem?
    intro i
    rw [List.getElem?_take, List.getElem?_take]
    split
    · exact h.others i (by omega)
    · rfl
  have hdrop : l'.drop (2 * k + 2) = l.drop (2 * k + 2) := by
    apply List.ext_getElem?
    intro i
    rw [List.getElem?_drop, List.getElem?_drop]
    exact h.others _ (by omega)
  rw [onesSum_at (k := k) (by rw [h.length]; exact hlt.le), onesSum_at (k := k) hlt.le, htake, hdrop]
  exact onesAdd_ne (onesSum_le _) (onesSum_le _) (wordAt_le _ _) (wordAt_le _ _) h.changed h.zeros h.ones

theorem Damaged.ipComputeCsum_ne {l l' : List Byte} {k : Nat} (h : Damaged l l' k) : ipComputeCsum l ≠ ipComputeCsum l' := by
  intro he
  have heq := congrArg BitVec.toNat he
  rw [toNat_ipComputeCsum, toNat_ipComputeCsum] at heq
  have hl := onesSum_le l
  have hl' := onesSum_le l'
  exact h.onesSum_ne (by omega)

/-! ### Bytes stored in a string -/

section Patch
variable {α : Type*} {l src : List α} {off n : Nat}

/-- The bytes `src` from `off` on in the place of those of `l`; what falls behind its end is left out. -/
def patch (l : List α) (off : Nat) (src : List α) : List α :=
  l.mapIdx fun i b => if off ≤ i then src.getD (i - off) b else b

@[simp] theorem length_patch : (patch l off src).length = l.length := List.length_mapIdx

theorem getElem?_patch (i : Nat) : (patch l off src)[i]? =
    l[i]?.map fun b => if off ≤ i then src.getD (i - off) b else b := by
  rw [patch, List.getElem?_mapIdx]

/-- Bytes before the stored ones, or behind them. -/
theorem getElem?_patch_of_lt {i : Nat} (h : i < off ∨ off + src.length ≤ i) : (patch l off src)[i]? = l[i]? := by
  rw [getElem?_patch]
  cases l[i]? with
  | none => rfl
  | some b =>
    rw [Option.map_some]
    split
    · rw [List.getD_eq_default _ _ (by omega)]
    · rfl

/-- The stored bytes. -/
theorem getElem?_patch_of_mem {i : Nat} (h : off ≤ i) (hsrc : i < off + src.length) (hl : i < l.length) :
    (patch l off src)[i]? = src[i - off]? := by
  have hi : i - off < src.length := by omega
  rw [getElem?_patch, List.getElem?_eq_getElem hl, Option.map_some, if_pos h, List.getD_eq_getElem _ _ hi,
    List.getElem?_eq_getElem hi]

theorem patch_cons_succ (a : α) : patch (a :: l) (off + 1) src = a :: patch l off src := by
  rw [patch, List.mapIdx_cons, patch, if_neg (by omega)]
  simp only [Nat.add_le_add_iff_right, Nat.add_sub_add_right]

theorem patch_zero_cons (a b : α) : patch (b :: l) 0 (a :: src) = a :: patch l 0 src := by
  rw [patch, List.mapIdx_cons, patch]
  simp

theorem patch_nil : patch l off [] = l := by
  apply List.ext_getElem?
  intro i
  exact getElem?_patch_of_lt (by rw [List.length_nil]; omega)

theorem take_patch : (patch l off src).take n = patch (l.take n) off src := by
  apply List.ext_getElem?
  intro i
  rw [getElem?_patch, List.getElem?_take, List.getElem?_take]
  split
  · exact getElem?_patch i
  · rfl

theorem take_patch_of_le (h : n ≤ off) : (patch l off src).take n = l.take n := by
  apply List.ext_getElem?
  intro i
  rw [List.getElem?_take, List.getElem?_take]
  split
  · exact getElem?_patch_of_lt (Or.inl (by omega))
  · rfl

theorem drop_patch (h : n ≤ off) : (patch l off src).drop n = patch (l.drop n) (off - n) src := by
  apply List.ext_getElem?
  intro i
  rw [List.getElem?_drop, getElem?_patch, getElem?_patch, List.getElem?_drop, Nat.sub_sub_right _ h, Nat.add_comm n i]
  simp only [Nat.sub_le_iff_le_add]

theorem drop_patch_of_le (h : off + src.length ≤ n) : (patch l off src).drop n = l.drop n := by
  apply List.ext_getElem?
  intro i
  rw [List.getElem?_drop, List.getElem?_drop]
  exact getElem?_patch_of_lt (Or.inr (by omega))

theorem patch_patch {src' : List α} (h : src'.length = src.length) :
    patch (patch l off src) off src' = patch l off src' := by
  apply List.ext_getElem?
  intro i
  rw [getElem?_patch, getElem?_patch, getElem?_patch]
  cases l[i]? with
  | none => rfl
  | some b =>
    simp only [Option.map_some]
    split
    · congr 1
      by_cases hi : i - off < src.length
      · rw [List.getD_eq_getElem _ _ (h ▸ hi), List.getD_eq_getElem _ _ (h ▸ hi)]
      · rw [List.getD_eq_default _ _ (by omega), List.getD_eq_default _ _ (by omega), List.getD_eq_default _ _ (by omega)]
    · rfl

theorem patch_be16 {l : List Byte} (m k : Nat) : patch (patch l off (be16 m)) off (be16 k) = patch l off (be16 k) :=
  patch_patch rfl

end Patch

/-- A word stored at an even place adds to the sum of the string with a zero there. -/
theorem onesSum_patch {w : Nat} (hw : w ≤ 65535) : ∀ (k : Nat) {l : List Byte}, 2 * k + 2 ≤ l.length →
    onesSum (patch l (2 * k) (be16 w)) = onesAdd w (onesSum (patch l (2 * k) (be16 0)))
  | 0, l, hl => by
    match l, hl with
    | a :: b :: rest, _ =>
      have hpatch (n : Nat) : patch (a :: b :: rest) (2 * 0) (be16 n) = be16 n ++ rest := by
        rw [be16, Nat.mul_zero, patch_zero_cons, patch_zero_cons, patch_nil]
        rfl
      rw [hpatch, hpatch, onesSum_append rest (by rw [length_be16]), onesSum_append rest (by rw [length_be16]),
        onesSum_be16 hw, onesSum_be16 (Nat.zero_le _), zero_onesAdd (onesSum_le rest)]
  | k + 1, l, hl => by
    match l, hl with
    | a :: b :: rest, hl =>
      have hpatch (n : Nat) : patch (a :: b :: rest) (2 * (k + 1)) (be16 n) = a :: b :: patch rest (2 * k) (be16 n) := by
        rw [show 2 * (k + 1) = 2 * k + 1 + 1 from by omega, patch_cons_succ, patch_cons_succ]
      have hrest : 2 * k + 2 ≤ rest.length := by
        rw [List.length_cons, List.length_cons] at hl
        omega
      rw [hpatch, hpatch, onesSum, onesSum_patch hw k hrest, onesSum,
        onesAdd_left_comm (word_le a b) hw (onesSum_le _)]

/-- A string with the complement of its sum stored in it, to which the sum `s` of other words belongs. -/
theorem onesSum_store {s k : Nat} {l : List Byte} (hs : s ≤ 65535) (hl : 2 * k + 2 ≤ l.length) :
    onesAdd s (onesSum (patch l (2 * k) (be16 (65535 - onesAdd s (onesSum (patch l (2 * k) (be16 0))))))) = 65535 := by
  have hsum := onesSum_le (patch l (2 * k) (be16 0))
  rw [onesSum_patch (Nat.sub_le _ _) k hl, onesAdd_left_comm hs (Nat.sub_le _ _) hsum]
  exact onesAdd_compl (onesAdd_le hs hsum)

end Checksum

end QuickStart
