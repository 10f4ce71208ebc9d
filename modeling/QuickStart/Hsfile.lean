import Mathlib.Tactic.Common
import QuickStart.Checksum

/-! # The file scripts

`hsfilecry.py` adds 0x11 to every byte of a file and `hsfiledecry.py` takes it off again. Neither reduces the sum
to a byte, so that `struct.pack` raises an error at a byte that leaves the range. -/

namespace QuickStart.Hsfile

/-- `struct.pack('B', x)`, without a result where it raises `struct.error`. -/
def structPack (x : Int) : Option Byte := if 0 ≤ x ∧ x ≤ 255 then some (BitVec.ofInt 8 x) else none

/-- `struct.unpack('B', c)[0]`. -/
def structUnpack (c : Byte) : Int := c.toNat

/-- The end of a script, with the contents of its output file. -/
inductive Outcome
  | finished (fo : List Byte)
  | raised (fo : List Byte)
  deriving DecidableEq, Repr

/-- The loop of a script: `fi` is still to be read and `fo` has been written. -/
def copyLoop (shift : Int) : List Byte → List Byte → Outcome
  -- `c == b''`
  | [], fo => .finished fo
  | c :: fi, fo =>
    match structPack (structUnpack c + shift) with
    | some b => copyLoop shift fi (fo ++ [b])
    | none => .raised fo

def hsfilecry (fi : List Byte) : Outcome := copyLoop 0x11 fi []

def hsfiledecry (fi : List Byte) : Outcome := copyLoop (-0x11) fi []

/-! ### What the loop writes -/

section Loop
variable {shift : Int}

/-- The byte that the loop writes for `c`. -/
def shifted (shift : Int) (c : Byte) : Option Byte := structPack (structUnpack c + shift)

/-- The loop ends when it can write every byte; an error leaves the file as it was before the byte. -/
theorem copyLoop_eq (fi fo : List Byte) : copyLoop shift fi fo =
    if fi.all (fun c => (shifted shift c).isSome) then .finished (fo ++ fi.filterMap (shifted shift))
    else .raised (fo ++ (fi.takeWhile fun c => (shifted shift c).isSome).filterMap (shifted shift)) := by
  induction fi generalizing fo with
  | nil => simp [copyLoop]
  | cons c fi ih =>
    cases hc : shifted shift c with
    | none =>
      have hpack : structPack (structUnpack c + shift) = none := hc
      simp [copyLoop, hpack, hc]
    | some b =>
      have hpack : structPack (structUnpack c + shift) = some b := hc
      simp [copyLoop, hpack, ih, hc]

theorem structPack_eq_some {x : Int} {b : Byte} : structPack x = some b ↔ x = b.toNat := by
  have := b.isLt
  rw [structPack]
  constructor
  · intro h
    split at h
    · rw [← Option.some.inj h, BitVec.toNat_ofInt]
      omega
    · cases h
  · rintro rfl
    rw [if_pos (by omega)]
    congr 1
    apply BitVec.eq_of_toNat_eq
    rw [BitVec.toNat_ofInt]
    omega

theorem shifted_eq_some {c b : Byte} : shifted shift c = some b ↔ (c.toNat : Int) + shift = b.toNat :=
  structPack_eq_some

/-- The other script takes a byte back. -/
theorem shifted_symm {c b : Byte} (h : shifted shift c = some b) : shifted (-shift) b = some c := by
  rw [shifted_eq_some] at h ⊢
  omega

theorem isSome_shifted_cry {c : Byte} : (shifted 0x11 c).isSome = true ↔ c.toNat < 0xef := by
  rw [Option.isSome_iff_exists]
  constructor
  · rintro ⟨b, hb⟩
    have := b.isLt
    rw [shifted_eq_some] at hb
    omega
  · intro h
    refine ⟨BitVec.ofNat 8 (c.toNat + 0x11), shifted_eq_some.mpr ?_⟩
    rw [BitVec.toNat_ofNat]
    omega

/-- A file that one script copies to its end is what the other script makes of the copy. -/
theorem copyLoop_back {fi fo : List Byte} (h : copyLoop shift fi [] = .finished fo) :
    fo.length = fi.length ∧ copyLoop (-shift) fo [] = .finished fi := by
  rw [copyLoop_eq] at h
  split at h
  · rename_i hall
    obtain rfl := Outcome.finished.inj h
    rw [List.nil_append]
    clear h
    have back : ∀ fi : List Byte, fi.all (fun c => (shifted shift c).isSome) = true →
        (fi.filterMap (shifted shift)).length = fi.length ∧
          ∀ fo, copyLoop (-shift) (fi.filterMap (shifted shift)) fo = .finished (fo ++ fi) := by
      intro fi
      induction fi with
      | nil => simp [copyLoop]
      | cons c fi ih =>
        intro hall
        rw [List.all_cons, Bool.and_eq_true] at hall
        obtain ⟨b, hb⟩ := Option.isSome_iff_exists.mp hall.1
        obtain ⟨hlen, hloop⟩ := ih hall.2
        rw [List.filterMap_cons_some hb]
        refine ⟨by rw [List.length_cons, hlen, List.length_cons], fun fo => ?_⟩
        rw [copyLoop, show structPack (structUnpack b + -shift) = some c from shifted_symm hb]
        dsimp only
        rw [hloop, List.append_assoc, List.singleton_append]
    exact ⟨(back fi hall).1, (back fi hall).2 []⟩
  · cases h

end Loop

/-- The scripts are inverse on the files without a byte from 0xef on. -/
theorem hsfile_inverse (content : List Byte) :
    (∃ fo, hsfilecry content = .finished fo ∧ fo.length = content.length ∧ hsfiledecry fo = .finished content) ↔
      ∀ c ∈ content, c.toNat < 0xef := by
  constructor
  · rintro ⟨fo, hcry, -⟩ c hc
    rw [hsfilecry, copyLoop_eq] at hcry
    split at hcry
    · rename_i hall
      exact isSome_shifted_cry.mp (List.all_eq_true.mp hall c hc)
    · cases hcry
  · intro h
    have hcry : hsfilecry content = .finished (content.filterMap (shifted 0x11)) := by
      rw [hsfilecry, copyLoop_eq, if_pos, List.nil_append]
      exact List.all_eq_true.mpr fun c hc => isSome_shifted_cry.mpr (h c hc)
    exact ⟨_, hcry, copyLoop_back hcry⟩

/-- `hsfilecry` stops at the last byte of this file. -/
theorem hsfile_not_inverse : hsfilecry [0x41, 0xef] = .raised [0x52] ∧
    ¬ ∃ fo, hsfilecry [0x41, 0xef] = .finished fo := by
  refine ⟨by decide, ?_⟩
  rintro ⟨fo, h⟩
  rw [show hsfilecry [0x41, 0xef] = .raised [0x52] from by decide] at h
  cases h

end QuickStart.Hsfile
