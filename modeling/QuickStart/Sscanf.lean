import Mathlib.Data.List.DropRight
import QuickStart.Decimal

/-! # Formatted input

`sscanf` of the kernel and `sprintf` for formats with the conversions `%d` and `%s`. A format that keeps its fields
apart reads back what it has printed. -/

namespace QuickStart.Sscanf
open Decimal

/-- A part of a format. -/
inductive Directive
  /-- white space, printed as one blank -/
  | space
  | lit (b : Byte)
  /-- `%d` -/
  | int
  /-- `%s` -/
  | word
  deriving DecidableEq, Repr

/-- What a conversion stores. -/
inductive Value
  | int (v : BitVec 32)
  | word (s : List Byte)
  deriving DecidableEq, Repr

def isspace (b : Byte) : Bool := b = 0x20 ∨ (0x09 ≤ b ∧ b ≤ 0x0d) ∨ b = 0xa0

def skipSpaces (s : List Byte) : List Byte := s.dropWhile isspace

/-- `%d` behind the white space: the number as an `int`, and the rest. -/
def scanInt (s : List Byte) : Option (BitVec 32 × List Byte) :=
  let minus := s.head? = some 0x2d
  let digits := if minus then s.tail else s
  if digits.head?.any isdigit then
    let v := BitVec.ofNat 32 (value (digits.takeWhile isdigit))
    some (if minus then -v else v, digits.dropWhile isdigit)
  else none

/-- `SHRT_MAX`, the field width of a `%s` without one. -/
def shrtMax : Nat := 32767

/-- `%s` behind the white space. -/
def scanWord (s : List Byte) : List Byte := (s.takeWhile fun b => !isspace b).take shrtMax

/-- The values that `sscanf` stores, in their order, for the string `s`, given without the NUL behind it. -/
def vsscanf : List Directive → List Byte → List Value
  | [], _ => []
  | .space :: fmt, s => vsscanf fmt (skipSpaces s)
  | .lit b :: fmt, s => if s.head? = some b then vsscanf fmt s.tail else []
  | .int :: fmt, s =>
    match scanInt (skipSpaces s) with
    | some (v, rest) => .int v :: vsscanf fmt rest
    | none => []
  | .word :: fmt, s =>
    if s = [] then []
    else .word (scanWord (skipSpaces s)) :: vsscanf fmt ((skipSpaces s).drop (scanWord (skipSpaces s)).length)

def sprintf : List Directive → List Value → List Byte
  | .space :: fmt, vs => 0x20 :: sprintf fmt vs
  | .lit b :: fmt, vs => b :: sprintf fmt vs
  | .int :: fmt, .int v :: vs => signed v.toInt ++ sprintf fmt vs
  | .word :: fmt, .word w :: vs => w ++ sprintf fmt vs
  | _, _ => []

/-! ### What `sscanf` skips -/

section Skip
variable {s t : List Byte}

theorem isdigit_not_isspace {b : Byte} (hb : isdigit b = true) : isspace b = false := by
  revert b
  decide

theorem skipSpaces_of_head (h : s.head?.any isspace = false) : skipSpaces s = s := by
  cases s with
  | nil => rfl
  | cons b s => exact List.dropWhile_cons_of_neg (by simpa using h)

theorem skipSpaces_idem (s : List Byte) : skipSpaces (skipSpaces s) = skipSpaces s := List.dropWhile_idempotent _ _

theorem skipSpaces_suffix (s : List Byte) : skipSpaces s <:+ s := List.dropWhile_suffix _

theorem scanInt_suffix {v : BitVec 32} (h : scanInt s = some (v, t)) : t <:+ s := by
  have htail : (if s.head? = some 0x2d then s.tail else s) <:+ s := by
    split
    · exact List.tail_suffix s
    · exact List.suffix_refl s
  unfold scanInt at h
  dsimp only at h
  generalize (if s.head? = some 0x2d then s.tail else s) = digits at h htail
  split at h
  · obtain ⟨-, rfl⟩ := Prod.mk.inj (Option.some.inj h)
    exact (List.dropWhile_suffix _).trans htail
  · cases h

theorem prefix_scanWord (s : List Byte) : scanWord s <+: s :=
  (List.take_prefix _ _).trans (List.takeWhile_prefix _)

/-- A word that `sscanf` stores is a part of the text. -/
theorem infix_of_mem_vsscanf {fmt : List Directive} {w : List Byte} (h : .word w ∈ vsscanf fmt s) : w <:+: s := by
  induction fmt generalizing s with
  | nil => cases h
  | cons d fmt ih =>
    cases d with
    | space => exact (ih h).trans (skipSpaces_suffix s).isInfix
    | lit b =>
      rw [vsscanf] at h
      split at h
      · exact (ih h).trans (List.tail_suffix s).isInfix
      · cases h
    | int =>
      rw [vsscanf] at h
      split at h
      · rename_i v rest hscan
        rcases List.mem_cons.mp h with h | h
        · cases h
        · exact (ih h).trans ((scanInt_suffix hscan).trans (skipSpaces_suffix s)).isInfix
      · cases h
    | word =>
      rw [vsscanf] at h
      split at h
      · cases h
      · rcases List.mem_cons.mp h with h | h
        · obtain rfl := Value.word.inj h
          exact (prefix_scanWord _).isInfix.trans (skipSpaces_suffix s).isInfix
        · exact (ih h).trans ((List.drop_suffix _ _).trans (skipSpaces_suffix s)).isInfix

/-- A word of a text: it has no white space and fits into the field of a `%s`. -/
structure Word (w : List Byte) : Prop where
  nonempty : w ≠ []
  solid : ∀ b ∈ w, isspace b = false
  short : w.length ≤ shrtMax

theorem Word.head {w : List Byte} (hw : Word w) (s : List Byte) : (w ++ s).head?.any isspace = false := by
  obtain ⟨b, bs, rfl⟩ := List.exists_cons_of_ne_nil hw.nonempty
  exact hw.solid b List.mem_cons_self

/-- A word ends at white space. -/
theorem scanWord_append {w : List Byte} (hw : Word w) (hs : s.head?.all isspace = true) : scanWord (w ++ s) = w := by
  have hstop : s.takeWhile (fun b => !isspace b) = [] := by
    cases s with
    | nil => rfl
    | cons b s => exact List.takeWhile_cons_of_neg (by simpa using hs)
  rw [scanWord, List.takeWhile_append_of_pos fun b hb => by rw [hw.solid b hb]; rfl, hstop, List.append_nil,
    List.take_of_length_le hw.short]

theorem head_signed_any (z : Int) (s : List Byte) : (signed z ++ s).head?.any isspace = false := by
  obtain ⟨b, hb, hor⟩ := head_signed z
  rw [List.head?_append, hb, Option.some_or, Option.any_some]
  rcases hor with rfl | hdigit
  · rfl
  · exact isdigit_not_isspace hdigit

theorem takeWhile_decimal (n : Nat) (hs : s.head?.any isdigit = false) :
    (decimal n ++ s).takeWhile isdigit = decimal n ∧ (decimal n ++ s).dropWhile isdigit = s := by
  have hall : ∀ b ∈ decimal n, isdigit b = true := fun b hb => isdigit_of_mem hb
  cases s with
  | nil =>
    rw [List.append_nil]
    exact ⟨List.takeWhile_eq_self_iff.mpr hall, List.dropWhile_eq_nil_iff.mpr hall⟩
  | cons b s =>
    have hb : ¬isdigit b = true := by simpa using hs
    rw [List.takeWhile_append_of_pos hall, List.dropWhile_append_of_pos hall, List.takeWhile_cons_of_neg hb,
      List.dropWhile_cons_of_neg hb, List.append_nil]
    exact ⟨rfl, rfl⟩

/-- A number ends where no digit follows. -/
theorem scanInt_signed (v : BitVec 32) (hs : s.head?.any isdigit = false) :
    scanInt (signed v.toInt ++ s) = some (v, s) := by
  obtain ⟨htake, hdrop⟩ := takeWhile_decimal v.toInt.natAbs hs
  obtain ⟨b, bs, hcons⟩ := List.exists_cons_of_ne_nil (decimal_ne_nil v.toInt.natAbs)
  have hdigit : isdigit b = true := isdigit_of_mem (by rw [hcons]; exact List.mem_cons_self)
  have hhead : (decimal v.toInt.natAbs ++ s).head?.any isdigit = true := by
    rw [hcons]
    exact hdigit
  by_cases hneg : v.toInt < 0
  · have hv : -BitVec.ofNat 32 v.toInt.natAbs = v := by
      rw [← BitVec.ofInt_natCast, ← BitVec.ofInt_neg, Int.ofNat_natAbs_of_nonpos hneg.le, neg_neg, BitVec.ofInt_toInt]
    rw [signed, if_pos hneg, scanInt]
    simp only [List.cons_append, List.head?_cons, if_true, List.tail_cons, hhead, htake, hdrop, value_decimal, hv]
  · have hv : BitVec.ofNat 32 v.toInt.natAbs = v := by
      rw [← BitVec.ofInt_natCast, Int.natAbs_of_nonneg (Int.not_lt.mp hneg), BitVec.ofInt_toInt]
    have hminus : (decimal v.toInt.natAbs ++ s).head? ≠ some 0x2d := by
      rw [hcons]
      intro hb
      rw [Option.some.inj hb] at hdigit
      cases hdigit
    rw [signed, if_neg hneg, scanInt]
    simp only [hminus, if_false, hhead, if_true, htake, hdrop, value_decimal, hv]

end Skip

/-! ### Formats that keep their fields apart -/

/-- Nothing that the format prints first meets `p`. -/
def Breaks (p : Byte → Bool) : List Directive → Prop
  | [] => True
  | .space :: _ => p 0x20 = false
  | .lit b :: _ => p b = false
  | .int :: _ | .word :: _ => False

/-- The values are of the kinds that the format asks for, and what follows a number or a word in the format ends
    it. -/
inductive Fits : List Directive → List Value → Prop
  | nil : Fits [] []
  | space {fmt : List Directive} {vs : List Value} : Fits fmt vs → Fits (.space :: fmt) vs
  | lit {b : Byte} {fmt : List Directive} {vs : List Value} : isspace b = false → Fits fmt vs → Fits (.lit b :: fmt) vs
  | int {v : BitVec 32} {fmt : List Directive} {vs : List Value} : Breaks isdigit fmt → Fits fmt vs →
      Fits (.int :: fmt) (.int v :: vs)
  | word {w : List Byte} {fmt : List Directive} {vs : List Value} : Word w → Breaks (fun b => !isspace b) fmt →
      Fits fmt vs → Fits (.word :: fmt) (.word w :: vs)

namespace Fits
variable {fmt : List Directive} {vs : List Value} {t : List Byte}

theorem head {p : Byte → Bool} (hb : Breaks p fmt) (ht : t.head?.any p = false) :
    (sprintf fmt vs ++ t).head?.any p = false := by
  match fmt, hb with
  | [], _ => exact ht
  | .space :: fmt, hb => exact hb
  | .lit b :: fmt, hb => exact hb

/-- White space in front of the text is the same as none. -/
theorem vsscanf_skipSpaces (h : Fits fmt vs) (t : List Byte) :
    vsscanf fmt (skipSpaces (sprintf fmt vs ++ t)) = vsscanf fmt (sprintf fmt vs ++ t) := by
  cases h with
  | nil => rfl
  | space => rw [vsscanf, vsscanf, skipSpaces_idem]
  | lit hb => rw [skipSpaces_of_head (by rw [sprintf, List.cons_append, List.head?_cons, Option.any_some, hb])]
  | int => rw [skipSpaces_of_head (by rw [sprintf, List.append_assoc]; exact head_signed_any _ _)]
  | word hw => rw [skipSpaces_of_head (by rw [sprintf, List.append_assoc]; exact hw.head _)]

/-- What has been printed is read back, up to the white space behind it. -/
theorem vsscanf_sprintf (h : Fits fmt vs) (ht : t.head?.all isspace = true) : vsscanf fmt (sprintf fmt vs ++ t) = vs := by
  have hdigit : t.head?.any isdigit = false := by
    cases t with
    | nil => rfl
    | cons b t =>
      rw [List.head?_cons, Option.any_some, Bool.eq_false_iff]
      intro hb
      exact absurd ht (by simp [isdigit_not_isspace hb])
  have hsolid : t.head?.any (fun b => !isspace b) = false := by
    cases t with
    | nil => rfl
    | cons b t => simpa using ht
  induction h with
  | nil => rfl
  | space h ih =>
    have hskip := h.vsscanf_skipSpaces t
    rw [ih] at hskip
    exact hskip
  | lit hb h ih =>
    rw [sprintf, List.cons_append, vsscanf, List.head?_cons, if_pos rfl]
    exact ih
  | int hbreak h ih =>
    rw [sprintf, List.append_assoc, vsscanf, skipSpaces_of_head (head_signed_any _ _),
      scanInt_signed _ (head hbreak hdigit)]
    dsimp only
    rw [ih]
  | @word w fmt vs hw hbreak h ih =>
    have hend : (sprintf fmt vs ++ t).head?.all isspace = true := by
      have : (sprintf fmt vs ++ t).head?.any (fun b => !isspace b) = false := head hbreak hsolid
      cases hh : (sprintf fmt vs ++ t).head? with
      | none => rfl
      | some b => simpa [hh] using this
    rw [sprintf, List.append_assoc, vsscanf, skipSpaces_of_head (hw.head _), scanWord_append hw hend,
      if_neg (List.append_ne_nil_of_left_ne_nil hw.nonempty _), List.drop_left, ih]

end Fits

end QuickStart.Sscanf
