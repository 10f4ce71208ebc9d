import QuickStart.Maclimit.Step
import QuickStart.Strtoul

/-! # Writing the configuration

`write_maclimit_proc` looks for options in the bytes that have been written: a space is followed by one unless a
space or a NUL follows, and the first byte always begins one. It looks one byte ahead, and the numbers have no end
but the first byte that is no digit. The array is run on the memory behind the bytes; a result of `none` is a read
behind that memory. -/

namespace QuickStart.Maclimit
open Strtoul

/-- `PROC_RECEVE_BUF_SIZE`. -/
def procReceveBufSize : Nat := 20

def efault : Int := 14

/-- The condition at `buf[i]`, where the memory `mem` begins; `first` is `i == 0`. -/
def beginsOption (first : Bool) (mem : List Byte) : Option Bool := do
  let c ← mem[0]?
  if c = 0x20 then
    let next ← mem[1]?
    return (next ≠ 0 ∧ next ≠ 0x20) ∨ first
  else return first

/-- `limit_num` is a `long` of `w` bits, and `enable` an `int`. -/
def MaclimitCfg.setLimitNum (w : Nat) (cfg : MaclimitCfg) (v : Nat) : MaclimitCfg :=
  { cfg with limitNum := (BitVec.ofNat w v).toInt }

def MaclimitCfg.setEnable (cfg : MaclimitCfg) (v : Nat) : MaclimitCfg := { cfg with enable := (BitVec.ofNat 32 v).toInt }

/-- `switch(opt_num)`. -/
def storeOption (w : Nat) (cfg : MaclimitCfg) (mem : List Byte) : Nat → Option MaclimitCfg
  | 0 => (simpleStrtoul mem).map (cfg.setLimitNum w)
  | 1 => (simpleStrtoul (mem.drop 1)).map cfg.setEnable
  | _ => some cfg

/-- `n` rounds of the loop, up to the end of the bytes. -/
def optionLoop (w : Nat) (first : Bool) (optNum : Nat) (cfg : MaclimitCfg) (mem : List Byte) : Nat → Option MaclimitCfg
  | 0 => some cfg
  | n + 1 => do
    if ← beginsOption first mem then
      let cfg ← storeOption w cfg mem optNum
      optionLoop w false (optNum + 1) cfg (mem.drop 1) n
    else optionLoop w false optNum cfg (mem.drop 1) n

/-- `write_maclimit_proc` for the bytes `buffer`, with the memory `stack` behind them in `buf` and on the stack;
    `copied` is the outcome of `copy_from_user`. -/
def writeMaclimitProc (w : Nat) (copied : Bool) (buffer stack : List Byte) (cfg : MaclimitCfg) :
    Option (Int × MaclimitCfg) :=
  if procReceveBufSize < buffer.length then some (-efault, cfg)
  else if copied then
    (optionLoop w true 0 cfg (buffer ++ stack) buffer.length).map fun cfg => (buffer.length, cfg)
  else some (-efault, cfg)

-- `"2 1\n"`
example : writeMaclimitProc 64 true [0x32, 0x20, 0x31, 0x0a] [] maclimitCfg = some (4, ⟨1, 2⟩) := by decide

section Loop
variable {w k n : Nat} {first : Bool} {cfg : MaclimitCfg} {mem t : List Byte}

theorem optionLoop_succ : optionLoop w first k cfg mem (n + 1) = (beginsOption first mem).bind fun begins =>
    if begins then (storeOption w cfg mem k).bind fun cfg => optionLoop w false (k + 1) cfg (mem.drop 1) n
    else optionLoop w false k cfg (mem.drop 1) n := rfl

/-! ### The stores are steps of the module -/

section Reach
variable {c cfg' : MaclimitCfg} {s : State}

theorem storeOption_reach (hs : (lts c).Reachable s) (h : storeOption w s.cfg mem k = some cfg) :
    (lts c).Reachable { s with cfg := cfg } := by
  match k with
  | 0 =>
    obtain ⟨v, -, rfl⟩ := Option.map_eq_some_iff.mp h
    exact hs.step (.setLimitNum (BitVec.ofNat w v).toInt) trivial rfl
  | 1 =>
    obtain ⟨v, -, rfl⟩ := Option.map_eq_some_iff.mp h
    exact hs.step (.setEnable (BitVec.ofNat 32 v).toInt) trivial rfl
  | k + 2 =>
    obtain rfl := Option.some.inj h
    exact hs

theorem optionLoop_reach (hs : (lts c).Reachable s) (h : optionLoop w first k s.cfg mem n = some cfg) :
    (lts c).Reachable { s with cfg := cfg } := by
  induction n generalizing first k s mem with
  | zero =>
    obtain rfl := Option.some.inj h
    exact hs
  | succ n ih =>
    rw [optionLoop_succ] at h
    obtain ⟨begins, -, h⟩ := Option.bind_eq_some_iff.mp h
    split at h
    · obtain ⟨cfg₁, hstore, h⟩ := Option.bind_eq_some_iff.mp h
      have hstored := storeOption_reach hs hstore
      exact ih (s := { s with cfg := cfg₁ }) hstored h
    · exact ih hs h

/-- A write of the configuration is a run of the module. -/
theorem writeMaclimitProc_reach {copied : Bool} {buffer stack : List Byte} {ret : Int} (hs : (lts c).Reachable s)
    (h : writeMaclimitProc w copied buffer stack s.cfg = some (ret, cfg)) : (lts c).Reachable { s with cfg := cfg } := by
  rw [writeMaclimitProc] at h
  split at h
  · obtain ⟨-, rfl⟩ := Prod.mk.inj (Option.some.inj h)
    exact hs
  · split at h
    · obtain ⟨cfg₁, hloop, he⟩ := Option.map_eq_some_iff.mp h
      obtain ⟨-, rfl⟩ := Prod.mk.inj he
      exact optionLoop_reach hs hloop
    · obtain ⟨-, rfl⟩ := Prod.mk.inj (Option.some.inj h)
      exact hs

end Reach

/-! ### What the loop reads -/

theorem beginsOption_space (first : Bool) (mem : List Byte) :
    beginsOption first (0x20 :: mem) = mem[0]?.map fun next => decide ((next ≠ 0 ∧ next ≠ 0x20) ∨ first = true) := by
  cases mem <;> rfl

theorem beginsOption_other {b : Byte} (hb : b ≠ 0x20) : beginsOption first (b :: mem) = some first := by
  simp only [beginsOption, List.getElem?_cons_zero, Option.bind_eq_bind, Option.bind_some]
  rw [if_neg hb]
  rfl

theorem beginsOption_append {b : Bool} (h : beginsOption first mem = some b) :
    beginsOption first (mem ++ t) = some b := by
  cases mem with
  | nil => cases h
  | cons c mem =>
    by_cases hc : c = 0x20
    · subst hc
      rw [beginsOption_space] at h
      obtain ⟨next, hnext, rfl⟩ := Option.map_eq_some_iff.mp h
      rw [List.cons_append, beginsOption_space,
        List.getElem?_append_left (List.getElem?_eq_some_iff.mp hnext).1, hnext, Option.map_some]
    · rw [beginsOption_other hc] at h
      rw [List.cons_append, beginsOption_other hc, h]

theorem storeOption_append {cfg' : MaclimitCfg} (h : storeOption w cfg mem k = some cfg') (hmem : mem ≠ []) :
    storeOption w cfg (mem ++ t) k = some cfg' := by
  match k with
  | 0 =>
    obtain ⟨v, hv, rfl⟩ := Option.map_eq_some_iff.mp h
    rw [storeOption, simpleStrtoul_append hv, Option.map_some]
  | 1 =>
    obtain ⟨v, hv, rfl⟩ := Option.map_eq_some_iff.mp h
    rw [storeOption, List.drop_append_of_le_length (List.length_pos_iff.mpr hmem), simpleStrtoul_append hv,
      Option.map_some]
  | k + 2 => exact h

/-- A loop that reads the bytes only does the same whatever follows. -/
theorem optionLoop_append {cfg' : MaclimitCfg} (h : optionLoop w first k cfg mem n = some cfg') :
    optionLoop w first k cfg (mem ++ t) n = some cfg' := by
  induction n generalizing first k cfg mem with
  | zero => exact h
  | succ n ih =>
    rw [optionLoop_succ] at h
    obtain ⟨begins, hbegins, h⟩ := Option.bind_eq_some_iff.mp h
    have hmem : mem ≠ [] := by
      rintro rfl
      cases hbegins
    have hdrop : (mem ++ t).drop 1 = mem.drop 1 ++ t := List.drop_append_of_le_length (List.length_pos_iff.mpr hmem)
    rw [optionLoop_succ, beginsOption_append hbegins, Option.bind_some, hdrop]
    split at h
    · obtain ⟨cfg₁, hstore, h⟩ := Option.bind_eq_some_iff.mp h
      rw [if_pos ‹_›, storeOption_append hstore hmem, Option.bind_some]
      exact ih h
    · rw [if_neg ‹_›]
      exact ih h

/-! ### What the loop does -/

/-- The bytes behind the first space that begins an option. -/
def nextOption : List Byte → Option (List Byte)
  | [] => none
  | [_] => none
  | b :: c :: s => if b = 0x20 ∧ c ≠ 0 ∧ c ≠ 0x20 then some (c :: s) else nextOption (c :: s)

theorem beginsOption_false (b c : Byte) (s : List Byte) :
    beginsOption false (b :: c :: s) = some (decide (b = 0x20 ∧ c ≠ 0 ∧ c ≠ 0x20)) := by
  by_cases hb : b = 0x20
  · subst hb
    rw [beginsOption_space, List.getElem?_cons_zero, Option.map_some]
    simp
  · rw [beginsOption_other hb, decide_eq_false fun h => hb h.1]

theorem optionLoop_last (b : Byte) : optionLoop w false k cfg [b] 1 = if b = 0x20 then none else some cfg := by
  rw [optionLoop_succ]
  split
  · rename_i hb
    rw [hb, beginsOption_space]
    rfl
  · rename_i hb
    rw [beginsOption_other hb]
    rfl

/-- Behind two options the loop only looks for more. -/
theorem optionLoop_done {bytes : List Byte} (hk : 2 ≤ k) : optionLoop w false k cfg bytes bytes.length =
    if bytes.getLast? = some 0x20 then none else some cfg := by
  induction bytes generalizing k with
  | nil => rfl
  | cons b bytes ih =>
    cases bytes with
    | nil => simpa using optionLoop_last b
    | cons c s =>
      have hstore : storeOption w cfg (b :: c :: s) k = some cfg := by
        match k, hk with
        | k + 2, _ => rfl
      rw [List.length_cons, optionLoop_succ, beginsOption_false, Option.bind_some, hstore, Option.bind_some,
        List.drop_one, List.tail_cons, ih (Nat.le_succ_of_le hk), ih hk, ite_self, List.getLast?_cons_cons]

/-- Behind the first option the loop stores the next one, if there is one. -/
theorem optionLoop_next {bytes : List Byte} : optionLoop w false 1 cfg bytes bytes.length =
    if bytes.getLast? = some 0x20 then none
    else (nextOption bytes).elim (some cfg) fun s => (simpleStrtoul s).map cfg.setEnable := by
  induction bytes with
  | nil => rfl
  | cons b bytes ih =>
    cases bytes with
    | nil => simpa [nextOption] using optionLoop_last b
    | cons c s =>
      rw [List.length_cons, optionLoop_succ, beginsOption_false, Option.bind_some, List.drop_one, List.tail_cons,
        ih, List.getLast?_cons_cons, nextOption]
      by_cases hbegins : b = 0x20 ∧ c ≠ 0 ∧ c ≠ 0x20
      · rw [if_pos (decide_eq_true hbegins), if_pos hbegins, Option.elim_some, storeOption, List.drop_one,
          List.tail_cons]
        cases simpleStrtoul (c :: s) with
        | none => simp
        | some v => rw [Option.map_some, Option.bind_some, optionLoop_done (le_refl _)]
      · rw [if_neg (by simpa using hbegins), if_neg hbegins]

/-- The bytes from the first one on are the first option, and the next one is behind a space that is not the first
    byte. -/
theorem optionLoop_first {bytes : List Byte} (hne : bytes ≠ []) : optionLoop w true 0 cfg bytes bytes.length =
    if bytes.getLast? = some 0x20 then none
    else (simpleStrtoul bytes).bind fun v =>
      (nextOption bytes.tail).elim (some (cfg.setLimitNum w v)) fun s =>
        (simpleStrtoul s).map (cfg.setLimitNum w v).setEnable := by
  obtain ⟨b, s, rfl⟩ := List.exists_cons_of_ne_nil hne
  rw [List.length_cons, optionLoop_succ, List.drop_one, List.tail_cons]
  by_cases hbegins : b = 0x20 ∧ s = []
  · obtain ⟨rfl, rfl⟩ := hbegins
    rfl
  · have htrue : beginsOption true (b :: s) = some true := by
      by_cases hb : b = 0x20
      · subst hb
        obtain ⟨c, s, rfl⟩ := List.exists_cons_of_ne_nil fun h => hbegins ⟨rfl, h⟩
        rw [beginsOption_space, List.getElem?_cons_zero, Option.map_some]
        simp
      · exact beginsOption_other hb
    have hlast : (b :: s).getLast? = some 0x20 ↔ s.getLast? = some 0x20 := by
      cases s with
      | nil => simpa using hbegins
      | cons c s => rw [List.getLast?_cons_cons]
    rw [htrue, Option.bind_some, if_pos rfl, storeOption, Option.bind_map]
    simp only [Function.comp_def, Nat.zero_add, optionLoop_next, hlast]
    split
    · cases simpleStrtoul (b :: s) <;> rfl
    · rfl

/-! ### Which bytes matter -/

/-- The configuration is that of the bytes alone if and only if the last byte is no space and both numbers that are
    read end in the bytes. -/
theorem config_of_bytes {buffer : List Byte} (hlen : buffer.length ≤ procReceveBufSize) :
    ((∀ stack stack', writeMaclimitProc w true buffer stack cfg = writeMaclimitProc w true buffer stack' cfg) ∧
      (writeMaclimitProc w true buffer [] cfg).isSome = true) ↔
    (buffer ≠ [] → buffer.getLast? ≠ some 0x20 ∧ Ends buffer ∧ ∀ s ∈ nextOption buffer.tail, Ends s) := by
  have hwrite (stack : List Byte) : writeMaclimitProc w true buffer stack cfg =
      (optionLoop w true 0 cfg (buffer ++ stack) buffer.length).map fun cfg => ((buffer.length : Int), cfg) := by
    rw [writeMaclimitProc, if_neg (Nat.not_lt.mpr hlen), if_pos rfl]
  have hsame (hsome : (writeMaclimitProc w true buffer [] cfg).isSome = true) (stack : List Byte) :
      writeMaclimitProc w true buffer stack cfg = writeMaclimitProc w true buffer [] cfg := by
    rw [hwrite, List.append_nil, Option.isSome_map] at hsome
    obtain ⟨cfg', hcfg⟩ := Option.isSome_iff_exists.mp hsome
    rw [hwrite, hwrite, optionLoop_append hcfg, List.append_nil, hcfg]
  have hreads : (writeMaclimitProc w true buffer [] cfg).isSome = true ↔
      (buffer ≠ [] → buffer.getLast? ≠ some 0x20 ∧ Ends buffer ∧ ∀ s ∈ nextOption buffer.tail, Ends s) := by
    rw [hwrite, List.append_nil, Option.isSome_map]
    by_cases hne : buffer = []
    · subst hne
      simp [optionLoop]
    · rw [optionLoop_first hne]
      by_cases hlast : buffer.getLast? = some 0x20
      · rw [if_pos hlast]
        exact iff_of_false Bool.false_ne_true fun h => (h hne).1 hlast
      · rw [if_neg hlast, forall_prop_of_true hne, and_iff_right hlast, ← simpleStrtoul_isSome]
        cases simpleStrtoul buffer with
        | none => exact iff_of_false Bool.false_ne_true fun h => Bool.false_ne_true h.1
        | some v =>
          rw [Option.bind_some, and_iff_right Option.isSome_some]
          cases nextOption buffer.tail with
          | none => simp
          | some s => simp [← simpleStrtoul_isSome]
  rw [← hreads]
  exact ⟨fun h => h.2, fun h => ⟨fun stack stack' => (hsame h stack).trans (hsame h stack').symm, h⟩⟩

theorem config_of_bytes_line : writeMaclimitProc 32 true [0x32, 0x20, 0x31, 0x0a] [] maclimitCfg =
    writeMaclimitProc 32 true [0x32, 0x20, 0x31, 0x0a] [0x37] maclimitCfg := by
  refine ((config_of_bytes (by decide)).mpr fun _ => ⟨by decide, simpleStrtoul_isSome.mp (by decide), ?_⟩).1 [] [0x37]
  intro s hs
  obtain rfl := Option.some.inj hs
  exact simpleStrtoul_isSome.mp (by decide)

/-- A number without a newline behind it. -/
theorem config_of_stack : writeMaclimitProc 32 true [0x35] [0x0a] maclimitCfg = some (1, ⟨0, 5⟩) ∧
    writeMaclimitProc 32 true [0x35] [0x30, 0x0a] maclimitCfg = some (1, ⟨0, 50⟩) ∧
    writeMaclimitProc 32 true [0x35] [] maclimitCfg = none := by
  decide

end Loop

end QuickStart.Maclimit
