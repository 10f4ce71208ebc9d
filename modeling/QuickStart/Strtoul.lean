import Mathlib.Data.List.Basic
import QuickStart.Checksum

/-! # Numbers in a memory

`simple_strtoul` of the kernel with base 0. It has no end but the first byte that is no digit of the base, so that it
is run on the memory from its argument on; a result of `none` is a read behind that memory. -/

namespace QuickStart.Strtoul

def digitVal (c : Byte) : Option Nat :=
  let lc := c ||| 0x20
  if 0x30 ≤ c ∧ c ≤ 0x39 then some (c.toNat - 0x30)
  else if 0x61 ≤ lc ∧ lc ≤ 0x66 then some (lc.toNat - 0x61 + 10)
  else none

def digit (base : Nat) (c : Byte) : Option Nat := (digitVal c).filter (· < base)

def isX (c : Byte) : Bool := c ||| 0x20 == 0x78

/-- The base that `_parse_integer_fixup_radix` finds. -/
def radix (s : List Byte) : Option Nat := do
  let c ← s[0]?
  if c = 0x30 then
    let x ← s[1]?
    if isX x then
      let d ← s[2]?
      return if (digitVal d).isSome then 16 else 8
    else return 8
  else return 10

/-- The memory behind the `0x` of a base of 16. -/
def fixup (base : Nat) (s : List Byte) : List Byte := if base = 16 then s.drop 2 else s

/-- `_parse_integer` behind digits with the value `acc`, in 64 bits. -/
def parseInteger (base acc : Nat) : List Byte → Option Nat
  | [] => none
  | c :: s =>
    match digit base c with
    | some v => parseInteger base ((acc * base + v) % 2 ^ 64) s
    | none => some acc

def simpleStrtoul (s : List Byte) : Option Nat := (radix s).bind fun base => parseInteger base 0 (fixup base s)

section Reads
variable {base acc : Nat} {s t : List Byte}

/-! ### Where the reads end -/

theorem parseInteger_isSome : (parseInteger base acc s).isSome = true ↔ ∃ c ∈ s, digit base c = none := by
  induction s generalizing acc with
  | nil => simp [parseInteger]
  | cons c s ih =>
    rw [parseInteger]
    cases hd : digit base c with
    | some v => simp [ih, hd]
    | none => simp [hd]

/-- A number that ends in the memory ends there whatever follows. -/
theorem parseInteger_append {n : Nat} (h : parseInteger base acc s = some n) :
    parseInteger base acc (s ++ t) = some n := by
  induction s generalizing acc with
  | nil => cases h
  | cons c s ih =>
    rw [List.cons_append, parseInteger]
    rw [parseInteger] at h
    split at h
    · exact ih h
    · exact h

theorem radix_cons (c : Byte) (s : List Byte) : radix (c :: s) =
    if c = 0x30 then s[0]?.bind fun x =>
      if isX x then s[1]?.map fun d => if (digitVal d).isSome then 16 else 8 else some 8
    else some 10 := by
  simp only [radix, List.getElem?_cons_zero, List.getElem?_cons_succ, Option.bind_eq_bind, Option.bind_some,
    Option.pure_def, Option.map_eq_bind]
  rfl

theorem radix_append (h : radix s = some base) : radix (s ++ t) = some base := by
  have hget {i : Nat} {c : Byte} {s : List Byte} (hi : s[i]? = some c) : (s ++ t)[i]? = some c := by
    rw [List.getElem?_append_left (List.getElem?_eq_some_iff.mp hi).1, hi]
  cases s with
  | nil => cases h
  | cons c s =>
    rw [List.cons_append, radix_cons]
    rw [radix_cons] at h
    split at h
    · rename_i hc
      obtain ⟨x, hx, h⟩ := Option.bind_eq_some_iff.mp h
      rw [if_pos hc, hget hx, Option.bind_some]
      split at h
      · rename_i hisX
        obtain ⟨d, hd, h⟩ := Option.map_eq_some_iff.mp h
        rw [if_pos hisX, hget hd, Option.map_some, h]
      · rename_i hisX
        rw [if_neg hisX, h]
    · rename_i hc
      rw [if_neg hc, h]

theorem fixup_append (h : radix s = some base) : fixup base (s ++ t) = fixup base s ++ t := by
  rw [fixup, fixup]
  split
  · rename_i hbase
    subst hbase
    refine List.drop_append_of_le_length ?_
    cases s with
    | nil => cases h
    | cons c s =>
      rw [radix_cons] at h
      split at h
      · obtain ⟨x, hx, -⟩ := Option.bind_eq_some_iff.mp h
        have := (List.getElem?_eq_some_iff.mp hx).1
        simp only [List.length_cons]
        omega
      · cases h
  · rfl

/-- A number that ends in the memory is the same whatever follows. -/
theorem simpleStrtoul_append {n : Nat} (h : simpleStrtoul s = some n) : simpleStrtoul (s ++ t) = some n := by
  obtain ⟨base, hbase, hn⟩ := Option.bind_eq_some_iff.mp h
  rw [simpleStrtoul, radix_append hbase, Option.bind_some, fixup_append hbase]
  exact parseInteger_append hn

/-- The base of the number can be told, and a byte of the memory is no digit of it. -/
def Ends (s : List Byte) : Prop := ∃ base ∈ radix s, ∃ c ∈ fixup base s, digit base c = none

theorem simpleStrtoul_isSome : (simpleStrtoul s).isSome = true ↔ Ends s := by
  rw [simpleStrtoul, Ends]
  cases radix s with
  | none => simp
  | some base => simp [parseInteger_isSome]

end Reads

/-! ### Numerals -/

/-- A decimal numeral without leading zeros. -/
structure Numeral where
  digits : List Byte
  decimal : ∀ c ∈ digits, 0x30 ≤ c ∧ c ≤ 0x39
  nonempty : digits ≠ []
  lead : digits.head? = some 0x30 → digits = [0x30]

namespace Numeral

def value (n : Numeral) : Nat := n.digits.foldl (fun v c => v * 10 + (c.toNat - 0x30)) 0

theorem digit_decimal {c : Byte} (hc : 0x30 ≤ c ∧ c ≤ 0x39) : digit 10 c = some (c.toNat - 0x30) := by
  have hle : c.toNat ≤ 0x39 := hc.2
  rw [digit, digitVal, if_pos hc, Option.filter_some, if_pos]
  simp only [decide_eq_true_eq]
  omega

theorem parseInteger_digits {ds : List Byte} (hds : ∀ c ∈ ds, 0x30 ≤ c ∧ c ≤ 0x39) {b : Byte} (hb : digit 10 b = none)
    (acc : Nat) (t : List Byte) : parseInteger 10 (acc % 2 ^ 64) (ds ++ b :: t) =
      some (ds.foldl (fun v c => v * 10 + (c.toNat - 0x30)) acc % 2 ^ 64) := by
  induction ds generalizing acc with
  | nil => rw [List.nil_append, parseInteger, hb, List.foldl_nil]
  | cons c ds ih =>
    obtain ⟨hc, hds⟩ := List.forall_mem_cons.mp hds
    have hstep : (acc % 2 ^ 64 * 10 + (c.toNat - 0x30)) % 2 ^ 64 = (acc * 10 + (c.toNat - 0x30)) % 2 ^ 64 := by omega
    rw [List.cons_append, parseInteger, digit_decimal hc]
    dsimp only
    rw [hstep, ih hds, List.foldl_cons]

/-- `simple_strtoul` of a numeral up to a byte that continues no number. -/
theorem simpleStrtoul_append (n : Numeral) (hn : n.value < 2 ^ 64) {b : Byte} (hb : digitVal b = none)
    (hx : isX b = false) (t : List Byte) : simpleStrtoul (n.digits ++ b :: t) = some n.value := by
  have hdigit (base : Nat) : digit base b = none := by rw [digit, hb]; rfl
  by_cases h0 : n.digits = [0x30]
  · have hbase : radix (0x30 :: b :: t) = some 8 := by
      rw [radix_cons, if_pos rfl, List.getElem?_cons_zero, Option.bind_some, hx, if_neg Bool.false_ne_true]
    rw [Numeral.value, h0, List.singleton_append, Strtoul.simpleStrtoul, hbase, Option.bind_some, fixup,
      if_neg (by decide), parseInteger, show digit 8 0x30 = some 0 from rfl]
    dsimp only
    rw [parseInteger, hdigit]
    rfl
  · have hlead : n.digits.head? ≠ some 0x30 := fun h => h0 (n.lead h)
    have hparse := parseInteger_digits n.decimal (hdigit 10) 0 t
    rw [Nat.zero_mod, ← Numeral.value, Nat.mod_eq_of_lt hn] at hparse
    have hbase : radix (n.digits ++ b :: t) = some 10 := by
      cases hds : n.digits with
      | nil => exact absurd hds n.nonempty
      | cons c ds =>
        rw [hds, List.head?_cons] at hlead
        rw [List.cons_append, radix_cons, if_neg fun hc => hlead (by rw [hc])]
    rw [Strtoul.simpleStrtoul, hbase, Option.bind_some]
    exact hparse

/-- Where no number begins, the result is 0. -/
theorem simpleStrtoul_none {b : Byte} (hb : digitVal b = none) (t : List Byte) : simpleStrtoul (b :: t) = some 0 := by
  have hne : b ≠ 0x30 := by
    rintro rfl
    cases hb
  have hdigit : digit 10 b = none := by rw [digit, hb]; rfl
  rw [Strtoul.simpleStrtoul, radix_cons, if_neg hne, Option.bind_some, fixup, if_neg (by decide), parseInteger, hdigit]

end Numeral

end QuickStart.Strtoul
