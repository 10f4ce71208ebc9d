import Mathlib.Data.Nat.Digits.Lemmas
import QuickStart.Checksum

/-! # Decimal numbers

What `%u` and `%d` print, and the number that digits make. -/

namespace QuickStart.Decimal

def isdigit (b : Byte) : Bool := 0x30 ≤ b ∧ b ≤ 0x39

def digitByte (d : Nat) : Byte := BitVec.ofNat 8 (0x30 + d)

/-- The digits of `n` in front of `acc`, from the last one on; `fuel` bounds their number. -/
def putDec : Nat → Nat → List Byte → List Byte
  | 0, _, acc => acc
  | fuel + 1, n, acc =>
    if n < 10 then digitByte n :: acc else putDec fuel (n / 10) (digitByte (n % 10) :: acc)

/-- `%u`. -/
def decimal (n : Nat) : List Byte := putDec (n + 1) n []

/-- `%d`. -/
def signed (z : Int) : List Byte := if z < 0 then 0x2d :: decimal z.natAbs else decimal z.natAbs

/-- The number that the digits make. -/
def value (digits : List Byte) : Nat := digits.foldl (fun v b => v * 10 + (b.toNat - 0x30)) 0

-- `-107`
example : signed (-107) = [0x2d, 0x31, 0x30, 0x37] := by decide

section Digits
variable {n : Nat} {b : Byte}

theorem toNat_digitByte {d : Nat} (hd : d < 10) : (digitByte d).toNat = 0x30 + d := by
  rw [digitByte, BitVec.toNat_ofNat, Nat.mod_eq_of_lt (by omega)]

theorem isdigit_iff : isdigit b = true ↔ 0x30 ≤ b.toNat ∧ b.toNat ≤ 0x39 := by
  simp only [isdigit, decide_eq_true_eq, BitVec.le_def]
  rfl

theorem isdigit_digitByte {d : Nat} (hd : d < 10) : isdigit (digitByte d) = true := by
  rw [isdigit_iff, toNat_digitByte hd]
  omega

theorem putDec_eq {fuel : Nat} (hn : 0 < n) (hfuel : n < fuel) (acc : List Byte) :
    putDec fuel n acc = ((Nat.digits 10 n).map digitByte).reverse ++ acc := by
  induction fuel generalizing n acc with
  | zero => cases hfuel
  | succ fuel ih =>
    rw [putDec]
    split
    · rename_i hlt
      rw [Nat.digits_of_lt 10 n hn.ne' hlt]
      rfl
    · rename_i hge
      have hdiv : 0 < n / 10 := Nat.div_pos (Nat.le_of_not_lt hge) (by decide)
      have hsmaller : n / 10 < fuel := lt_of_lt_of_le (Nat.div_lt_self hn (by decide)) (Nat.le_of_lt_succ hfuel)
      rw [ih hdiv hsmaller, Nat.digits_def' (by decide) hn, List.map_cons, List.reverse_cons, List.append_assoc,
        List.singleton_append]

theorem decimal_zero : decimal 0 = [0x30] := rfl

theorem decimal_eq (hn : 0 < n) : decimal n = ((Nat.digits 10 n).map digitByte).reverse := by
  rw [decimal, putDec_eq hn (Nat.lt_succ_self n), List.append_nil]

theorem isdigit_of_mem (hb : b ∈ decimal n) : isdigit b = true := by
  rcases Nat.eq_zero_or_pos n with rfl | hn
  · rw [decimal_zero, List.mem_singleton] at hb
    subst hb
    rfl
  · rw [decimal_eq hn, List.mem_reverse, List.mem_map] at hb
    obtain ⟨d, hd, rfl⟩ := hb
    exact isdigit_digitByte (Nat.digits_lt_base (by decide) hd)

theorem decimal_ne_nil (n : Nat) : decimal n ≠ [] := by
  rcases Nat.eq_zero_or_pos n with rfl | hn
  · exact List.cons_ne_nil _ _
  · rw [decimal_eq hn, Ne, List.reverse_eq_nil_iff, List.map_eq_nil_iff]
    exact Nat.digits_ne_nil_iff_ne_zero.mpr hn.ne'

/-- The digits make the number that they have been printed for. -/
theorem value_decimal (n : Nat) : value (decimal n) = n := by
  rcases Nat.eq_zero_or_pos n with rfl | hn
  · rfl
  · have hfold : ∀ ds : List Nat, (∀ d ∈ ds, d < 10) →
        (ds.map digitByte).foldr (fun b v => v * 10 + (b.toNat - 0x30)) 0 = Nat.ofDigits 10 ds := by
      intro ds hds
      induction ds with
      | nil => rfl
      | cons d ds ih =>
        rw [List.map_cons, List.foldr_cons, ih fun x hx => hds x (List.mem_cons_of_mem d hx), Nat.ofDigits_cons,
          toNat_digitByte (hds d List.mem_cons_self), Nat.add_sub_cancel_left, Nat.mul_comm, Nat.add_comm]
    rw [decimal_eq hn, value, List.foldl_reverse, hfold _ fun d hd => Nat.digits_lt_base (by decide) hd,
      Nat.ofDigits_digits]

theorem decimal_injective : Function.Injective decimal := Function.LeftInverse.injective value_decimal

/-- Only the number 0 is printed with a leading zero. -/
theorem decimal_lead (h : (decimal n).head? = some 0x30) : decimal n = [0x30] := by
  rcases Nat.eq_zero_or_pos n with rfl | hn
  · rfl
  · have hne : Nat.digits 10 n ≠ [] := Nat.digits_ne_nil_iff_ne_zero.mpr hn.ne'
    have hlast := Nat.getLast_digit_ne_zero 10 hn.ne'
    have hlt : (Nat.digits 10 n).getLast hne < 10 := Nat.digits_lt_base (by decide) (List.getLast_mem hne)
    rw [decimal_eq hn, List.head?_reverse, List.getLast?_map, List.getLast?_eq_getLast_of_ne_nil hne, Option.map_some,
      Option.some.injEq] at h
    have hzero : 0x30 + (Nat.digits 10 n).getLast hne = 0x30 := toNat_digitByte hlt ▸ congrArg BitVec.toNat h
    omega

theorem length_decimal_le {k : Nat} (hk : 0 < k) (hn : n < 10 ^ k) : (decimal n).length ≤ k := by
  rcases Nat.eq_zero_or_pos n with rfl | hpos
  · exact hk
  · rw [decimal_eq hpos, List.length_reverse, List.length_map]
    exact (Nat.digits_length_le_iff (by decide) n).mpr hn

end Digits

/-! ### Signed numbers -/

theorem length_signed_le {z : Int} {k : Nat} (hk : 0 < k) (hz : z.natAbs < 10 ^ k) : (signed z).length ≤ k + 1 := by
  have hle := length_decimal_le hk hz
  rw [signed]
  split
  · exact Nat.succ_le_succ hle
  · exact Nat.le_succ_of_le hle

/-- A number begins with its sign or a digit. -/
theorem head_signed (z : Int) : ∃ b ∈ (signed z).head?, b = 0x2d ∨ isdigit b = true := by
  rw [signed]
  split
  · exact ⟨0x2d, rfl, Or.inl rfl⟩
  · obtain ⟨b, bs, hb⟩ := List.exists_cons_of_ne_nil (decimal_ne_nil z.natAbs)
    exact ⟨b, by rw [hb]; rfl, Or.inr (isdigit_of_mem (by rw [hb]; exact List.mem_cons_self))⟩

theorem mem_signed {z : Int} {b : Byte} (hb : b ∈ signed z) : b = 0x2d ∨ isdigit b = true := by
  rw [signed] at hb
  split at hb
  · exact (List.mem_cons.mp hb).imp_right isdigit_of_mem
  · exact Or.inr (isdigit_of_mem hb)

theorem signed_injective : Function.Injective signed := by
  intro x y h
  have hminus (n : Nat) : (decimal n).head? ≠ some 0x2d := by
    intro hn
    have := isdigit_of_mem (List.mem_of_mem_head? hn)
    cases this
  rw [signed, signed] at h
  split at h <;> split at h
  · have := decimal_injective (List.cons.inj h).2
    omega
  · exact absurd (by rw [← h]; rfl) (hminus y.natAbs)
  · exact absurd (by rw [h]; rfl) (hminus x.natAbs)
  · have := decimal_injective h
    omega

end QuickStart.Decimal
