import QuickStart.Maclimit.Proc

/-! # Configuration lines

What `write_maclimit_proc` makes of a line with one numeral or two. Its first option is the first byte of the line,
and the second one is looked for from the second byte on. -/

namespace QuickStart.Maclimit
open Strtoul

def spaces (n : Nat) : List Byte := List.replicate n 0x20

/-- `a` spaces, a numeral, `c` spaces and a newline. -/
def oneNumeral (a : Nat) (n : Numeral) (c : Nat) : List Byte := spaces a ++ (n.digits ++ (spaces c ++ [0x0a]))

/-- A line with a second numeral behind `b` spaces. -/
def twoNumerals (a : Nat) (n : Numeral) (b : Nat) (m : Numeral) (c : Nat) : List Byte :=
  spaces a ++ (n.digits ++ (spaces b ++ (m.digits ++ (spaces c ++ [0x0a]))))

/-! ### Options of a line -/

theorem nextOption_skip {ds s : List Byte} (hds : ∀ c ∈ ds, c ≠ 0x20) : nextOption (ds ++ s) = nextOption s := by
  induction ds with
  | nil => rfl
  | cons d ds ih =>
    obtain ⟨hd, hds⟩ := List.forall_mem_cons.mp hds
    rw [← ih hds, List.cons_append]
    cases h : ds ++ s with
    | nil => rfl
    | cons c s => rw [nextOption, if_neg fun hb => hd hb.1]

/-- The last of the spaces begins an option. -/
theorem nextOption_spaces {n : Nat} {c : Byte} (hc : c ≠ 0 ∧ c ≠ 0x20) (s : List Byte) :
    nextOption (spaces (n + 1) ++ c :: s) = some (c :: s) := by
  induction n with
  | zero => exact if_pos ⟨rfl, hc⟩
  | succ n ih =>
    rw [spaces, List.replicate_succ, List.cons_append, List.replicate_succ, List.cons_append, nextOption,
      if_neg fun h => h.2.2 rfl, ← List.cons_append, ← List.replicate_succ]
    exact ih

/-- What a line has behind spaces and a numeral. -/
inductive Follows : List Byte → Prop
  | space (s : List Byte) : Follows (0x20 :: s)
  | newline : Follows [0x0a]

theorem follows_spaces (c : Nat) {s : List Byte} (h : Follows s) : Follows (spaces c ++ s) := by
  cases c with
  | zero => exact h
  | succ c => exact .space _

theorem digit_ne {n : Numeral} {c : Byte} (hc : c ∈ n.digits) : c ≠ 0 ∧ c ≠ 0x20 := by
  have hle : (0x30 : Byte).toNat ≤ c.toNat := (n.decimal c hc).1
  constructor <;> rintro rfl <;> exact absurd hle (by decide)

theorem simpleStrtoul_follows {n : Numeral} (hn : n.value < 2 ^ 64) {s : List Byte} (h : Follows s) :
    simpleStrtoul (n.digits ++ s) = some n.value := by
  cases h with
  | space s => exact n.simpleStrtoul_append hn rfl rfl s
  | newline => exact n.simpleStrtoul_append hn rfl rfl []

/-- Behind spaces the number of a numeral is not found. -/
theorem simpleStrtoul_spaces (a : Nat) {n : Numeral} (hn : n.value < 2 ^ 64) {s : List Byte} (h : Follows s) :
    simpleStrtoul (spaces a ++ (n.digits ++ s)) = some (if a = 0 then n.value else 0) := by
  cases a with
  | zero => exact simpleStrtoul_follows hn h
  | succ a => exact Numeral.simpleStrtoul_none rfl _

/-- The second option of a line is the first numeral, when two spaces are before it. -/
theorem nextOption_line (a : Nat) (n : Numeral) (s : List Byte) :
    nextOption (spaces a ++ (n.digits ++ s)).tail = if a ≤ 1 then nextOption s else some (n.digits ++ s) := by
  have hskip : nextOption (n.digits ++ s) = nextOption s := nextOption_skip fun c hc => (digit_ne hc).2
  obtain ⟨d, ds, hds⟩ := List.exists_cons_of_ne_nil n.nonempty
  match a with
  | 0 =>
    have htail : nextOption (ds ++ s) = nextOption s :=
      nextOption_skip fun c hc => (digit_ne (hds ▸ List.mem_cons_of_mem d hc)).2
    rw [if_pos (Nat.zero_le _), hds]
    exact htail
  | 1 =>
    rw [if_pos (le_refl _)]
    exact hskip
  | a + 2 =>
    have hd : d ≠ 0 ∧ d ≠ 0x20 := digit_ne (hds ▸ List.mem_cons_self)
    rw [if_neg (by omega), hds]
    exact nextOption_spaces hd (ds ++ s)

section Write
variable {w : Nat} {cfg : MaclimitCfg} {n m : Numeral} {a b c : Nat} {s stack : List Byte}

theorem write_line (hlen : (spaces a ++ (n.digits ++ s)).length ≤ procReceveBufSize) (hn : n.value < 2 ^ 64)
    (hs : Follows s) (hlast : s.getLast? = some 0x0a) {cfg' : MaclimitCfg}
    (h : (if a ≤ 1 then (nextOption s).elim (some (cfg.setLimitNum w (if a = 0 then n.value else 0)))
        fun t => (simpleStrtoul t).map (cfg.setLimitNum w (if a = 0 then n.value else 0)).setEnable
      else some ((cfg.setLimitNum w 0).setEnable n.value)) = some cfg') :
    writeMaclimitProc w true (spaces a ++ (n.digits ++ s)) stack cfg =
      some (((spaces a ++ (n.digits ++ s)).length : Int), cfg') := by
  have hne : s ≠ [] := by
    rintro rfl
    cases hlast
  have hend : (spaces a ++ (n.digits ++ s)).getLast? = some 0x0a := by
    rw [List.getLast?_append_of_ne_nil _ (List.append_ne_nil_of_right_ne_nil _ hne),
      List.getLast?_append_of_ne_nil _ hne, hlast]
  have hloop : optionLoop w true 0 cfg (spaces a ++ (n.digits ++ s)) (spaces a ++ (n.digits ++ s)).length = some cfg' := by
    rw [optionLoop_first (List.append_ne_nil_of_right_ne_nil _ (List.append_ne_nil_of_right_ne_nil _ hne)), hend,
      if_neg (by decide), simpleStrtoul_spaces a hn hs, Option.bind_some, nextOption_line]
    split at h
    · rw [if_pos ‹_›]
      exact h
    · rw [if_neg ‹_›, Option.elim_some, simpleStrtoul_follows hn hs, if_neg (by omega)]
      exact h
  rw [writeMaclimitProc, if_neg (Nat.not_lt.mpr hlen), if_pos rfl, optionLoop_append hloop, Option.map_some]

theorem write_twoNumerals (hlen : (twoNumerals a n (b + 1) m c).length ≤ procReceveBufSize) (hn : n.value < 2 ^ 64)
    (hm : m.value < 2 ^ 64) : writeMaclimitProc w true (twoNumerals a n (b + 1) m c) stack cfg =
      some (((twoNumerals a n (b + 1) m c).length : Int),
        (cfg.setLimitNum w (if a = 0 then n.value else 0)).setEnable (if a ≤ 1 then m.value else n.value)) := by
  refine write_line hlen hn (.space _) ?_ ?_
  · simp [List.getLast?_append]
  · obtain ⟨d, ds, hds⟩ := List.exists_cons_of_ne_nil m.nonempty
    have hnext : nextOption (spaces (b + 1) ++ (m.digits ++ (spaces c ++ [0x0a]))) =
        some (m.digits ++ (spaces c ++ [0x0a])) := by
      rw [hds]
      exact nextOption_spaces (digit_ne (hds ▸ List.mem_cons_self)) _
    split
    · rw [hnext, Option.elim_some, simpleStrtoul_follows hm (follows_spaces c .newline), Option.map_some]
    · rw [if_neg (by omega)]

theorem write_oneNumeral (hlen : (oneNumeral a n c).length ≤ procReceveBufSize) (hn : n.value < 2 ^ 64) :
    writeMaclimitProc w true (oneNumeral a n c) stack cfg = some (((oneNumeral a n c).length : Int),
      if a ≤ 1 ∧ c = 0 then cfg.setLimitNum w (if a = 0 then n.value else 0)
      else (cfg.setLimitNum w (if a = 0 then n.value else 0)).setEnable (if a ≤ 1 then 0 else n.value)) := by
  refine write_line hlen hn (follows_spaces c .newline) (by simp [List.getLast?_append]) ?_
  by_cases ha : a ≤ 1
  · cases c with
    | zero =>
      rw [if_pos ha, if_pos (c := a ≤ 1 ∧ 0 = 0) ⟨ha, rfl⟩]
      rfl
    | succ c =>
      rw [if_pos ha, if_pos ha, if_neg (c := a ≤ 1 ∧ c + 1 = 0) fun h => absurd h.2 (Nat.succ_ne_zero c),
        nextOption_spaces (by decide), Option.elim_some, Numeral.simpleStrtoul_none rfl, Option.map_some]
  · rw [if_neg ha, if_neg ha, if_neg (c := a ≤ 1 ∧ c = 0) fun h => ha h.1, if_neg (by omega)]

/-! ### Lines that mean what they say -/

/-- A number in the range of a signed field of `k` bits is stored as it is. -/
theorem toInt_ofNat {k v : Nat} (hk : 0 < k) (hv : v < 2 ^ (k - 1)) : (BitVec.ofNat k v).toInt = v := by
  have hpow : 2 * 2 ^ (k - 1) = 2 ^ k := by rw [← Nat.pow_succ', Nat.succ_eq_add_one, Nat.sub_add_cancel hk]
  have hmod : (BitVec.ofNat k v).toNat = v := by rw [BitVec.toNat_ofNat, Nat.mod_eq_of_lt (by omega)]
  rw [BitVec.toInt_eq_toNat_of_lt (by rw [hmod]; omega), hmod]

theorem limitNum_eq (h0 : 0 < w) (hn : n.value < 2 ^ (w - 1)) :
    (BitVec.ofNat w (if a = 0 then n.value else 0)).toInt = n.value ↔ a = 0 ∨ n.value = 0 := by
  split
  · rename_i ha
    exact iff_of_true (toInt_ofNat h0 hn) (Or.inl ha)
  · rename_i ha
    rw [toInt_ofNat h0 (Nat.two_pow_pos _), or_iff_right ha]
    omega

theorem twoNumerals_meant (h0 : 0 < w) (hlong : n.value < 2 ^ 64) (hn : n.value < 2 ^ (w - 1)) (hm : m.value < 2 ^ 31)
    (hlen : (twoNumerals a n (b + 1) m c).length ≤ procReceveBufSize) :
    (∀ stack, writeMaclimitProc w true (twoNumerals a n (b + 1) m c) stack cfg =
        some (((twoNumerals a n (b + 1) m c).length : Int), ⟨m.value, n.value⟩)) ↔
      a = 0 ∨ (a = 1 ∧ n.value = 0) ∨ (n.value = 0 ∧ m.value = 0) := by
  simp only [write_twoNumerals hlen hlong (by omega : m.value < 2 ^ 64), Option.some.injEq, Prod.mk.injEq, true_and,
    forall_const, MaclimitCfg.setEnable, MaclimitCfg.setLimitNum, MaclimitCfg.mk.injEq, limitNum_eq h0 hn]
  by_cases ha : a ≤ 1
  · rw [if_pos ha, toInt_ofNat (by decide) hm]
    omega
  · rw [if_neg ha]
    constructor
    · -- The first numeral is 0, and `enable` is set to it.
      rintro ⟨henable, hlimit⟩
      have hzero : n.value = 0 := by omega
      rw [hzero, show (BitVec.ofNat 32 0).toInt = 0 from rfl] at henable
      omega
    · intro h
      have hzero : n.value = 0 ∧ m.value = 0 := by omega
      rw [hzero.1, hzero.2]
      exact ⟨rfl, Or.inr rfl⟩

theorem oneNumeral_meant (h0 : 0 < w) (hlong : n.value < 2 ^ 64) (hn : n.value < 2 ^ (w - 1))
    (hlen : (oneNumeral a n c).length ≤ procReceveBufSize) :
    (∀ stack, writeMaclimitProc w true (oneNumeral a n c) stack cfg =
        some (((oneNumeral a n c).length : Int), ⟨cfg.enable, n.value⟩)) ↔
      (a = 0 ∨ n.value = 0) ∧ ((a ≤ 1 ∧ c = 0) ∨ cfg.enable = 0) := by
  have hzero : (BitVec.ofNat 32 0).toInt = 0 := rfl
  simp only [write_oneNumeral hlen hlong, Option.some.injEq, Prod.mk.injEq, true_and, forall_const]
  by_cases hc : a ≤ 1 ∧ c = 0
  · rw [if_pos hc, MaclimitCfg.setLimitNum, MaclimitCfg.mk.injEq, limitNum_eq h0 hn]
    exact ⟨fun h => ⟨h.2, Or.inl hc⟩, fun h => ⟨rfl, h.1⟩⟩
  · rw [if_neg hc, MaclimitCfg.setEnable, MaclimitCfg.setLimitNum, MaclimitCfg.mk.injEq, limitNum_eq h0 hn, and_comm,
      or_iff_right hc]
    refine and_congr_right fun h => ?_
    by_cases ha : a ≤ 1
    · rw [if_pos ha, hzero, eq_comm]
    · rw [if_neg ha, show n.value = 0 by omega, hzero, eq_comm]

/-- A line sets what it says if and only if no space is in front of it, unless its numbers are those that it sets
    nevertheless; and a line with one numeral has no space behind it either, unless `enable` is 0. -/
theorem lines_meant (hw : w = 32 ∨ w = 64) (hn : n.value < 2 ^ (w - 1)) :
    (∀ b m c, 0 < b → m.value < 2 ^ 31 → (twoNumerals a n b m c).length ≤ procReceveBufSize →
      ((∀ stack, writeMaclimitProc w true (twoNumerals a n b m c) stack cfg =
          some (((twoNumerals a n b m c).length : Int), ⟨m.value, n.value⟩)) ↔
        a = 0 ∨ (a = 1 ∧ n.value = 0) ∨ (n.value = 0 ∧ m.value = 0))) ∧
    ∀ c, (oneNumeral a n c).length ≤ procReceveBufSize →
      ((∀ stack, writeMaclimitProc w true (oneNumeral a n c) stack cfg =
          some (((oneNumeral a n c).length : Int), ⟨cfg.enable, n.value⟩)) ↔
        (a = 0 ∨ n.value = 0) ∧ ((a ≤ 1 ∧ c = 0) ∨ cfg.enable = 0)) := by
  have h0 : 0 < w := by rcases hw with rfl | rfl <;> decide
  have hlong : n.value < 2 ^ 64 := by rcases hw with rfl | rfl <;> omega
  refine ⟨fun b m c hb hm hlen => ?_, fun c hlen => oneNumeral_meant h0 hlong hn hlen⟩
  obtain ⟨b, rfl⟩ := Nat.exists_eq_succ_of_ne_zero hb.ne'
  exact twoNumerals_meant h0 hlong hn hm hlen

def oneDigit (d : Fin 10) : Numeral where
  digits := [BitVec.ofNat 8 (0x30 + d)]
  decimal := by revert d; decide
  nonempty := List.cons_ne_nil _ _
  lead h := by rw [Option.some.inj h]

theorem lines_meant_plain :
    writeMaclimitProc 64 true (twoNumerals 0 (oneDigit 2) 1 (oneDigit 1) 0) [] maclimitCfg = some (4, ⟨1, 2⟩) ∧
      writeMaclimitProc 64 true (oneNumeral 0 (oneDigit 2) 0) [] ⟨1, 7⟩ = some (2, ⟨1, 2⟩) :=
  ⟨(((lines_meant (Or.inr rfl) (by decide)).1 1 (oneDigit 1) 0 (by decide) (by decide) (by decide)).mpr (Or.inl rfl)) [],
    (((lines_meant (Or.inr rfl) (by decide)).2 0 (by decide)).mpr ⟨Or.inl rfl, Or.inl ⟨Nat.zero_le _, rfl⟩⟩) []⟩

/-- `" 2 1\n"` sets `limit_num` to 0, `"  2 1\n"` also `enable` to 2, and `"2 \n"` sets `enable` to 0. -/
theorem lines_not_meant :
    writeMaclimitProc 64 true (twoNumerals 1 (oneDigit 2) 1 (oneDigit 1) 0) [] maclimitCfg = some (5, ⟨1, 0⟩) ∧
      writeMaclimitProc 64 true (twoNumerals 2 (oneDigit 2) 1 (oneDigit 1) 0) [] maclimitCfg = some (6, ⟨2, 0⟩) ∧
      writeMaclimitProc 64 true (oneNumeral 0 (oneDigit 2) 1) [] ⟨1, 7⟩ = some (3, ⟨0, 2⟩) := by
  decide +kernel

end Write

end QuickStart.Maclimit
