import QuickStart.Buffer
import QuickStart.Sscanf
import QuickStart.Speedtest.Command

/-! # The line of a command

`speedtest_proc_write` copies what is written into an array on its stack and ends it with a NUL. A line of five
numbers comes out of it as the numbers that it has been printed for. -/

namespace QuickStart.Speedtest

/-- The size of `data`. -/
def dataSize : Nat := 256

def efault : Int := 14

/-- `speedtest_proc_write` on the bytes `buffer`, with the array `data` as it is found on the stack: what it returns,
    and the string that it runs, if it does. `copied` is the outcome of `copy_from_user`. -/
def speedtestProcWrite (data : Bytes dataSize) (copied : Bool) (buffer : List Byte) : Option (Int × Option (List Byte)) :=
  if copied then do
    let filled ← Buffer.write data.1 0 buffer
    let ended ← Buffer.write filled buffer.length [0]
    let cmd ← Buffer.cString ended
    some (buffer.length, some cmd)
  else some (-efault, none)

/-- `n` conversions `%d`, with blanks between them. -/
def cmdFormat : Nat → List Sscanf.Directive
  | 0 => []
  | 1 => [.int]
  | n + 2 => .int :: .space :: cmdFormat (n + 1)

/-- What stands behind the NUL is of no account. -/
theorem cString_end (buffer rest : List Byte) :
    Buffer.cString (buffer ++ [0] ++ rest) = some (buffer.takeWhile (· != 0)) := by
  have hstop : (buffer ++ ([0] ++ rest)).takeWhile (· != 0) = buffer.takeWhile (· != 0) := by
    induction buffer with
    | nil => rfl
    | cons b buffer ih => rw [List.cons_append, List.takeWhile_cons, List.takeWhile_cons, ih]
  rw [Buffer.cString, if_pos (List.mem_append_left _ (List.mem_append_right _ (List.mem_singleton_self _))),
    List.append_assoc, hstop]

/-- A write keeps to the array exactly if it leaves room for the NUL; what was in the array is of no account. -/
theorem speedtestProcWrite_eq (data : Bytes dataSize) (buffer : List Byte) : speedtestProcWrite data true buffer =
    if buffer.length < dataSize then some ((buffer.length : Int), some (buffer.takeWhile (· != 0))) else none := by
  unfold speedtestProcWrite
  rw [if_pos rfl]
  split
  · rename_i hfit
    have hcopy : ∃ b, Buffer.write data.1 0 buffer = some b ∧ Buffer.Starts b dataSize buffer :=
      (Buffer.Starts.nil data.2).append rfl (by simpa using hfit.le)
    obtain ⟨filled, hfilled, hstarts⟩ := hcopy
    have hend : ∃ b, Buffer.write filled buffer.length [0] = some b ∧ Buffer.Starts b dataSize (buffer ++ [0]) :=
      hstarts.append rfl hfit
    obtain ⟨ended, hended, -, rest, rfl⟩ := hend
    rw [hfilled, Option.bind_eq_bind, Option.bind_some, hended, Option.bind_some, cString_end, Option.bind_some]
  · rename_i hfit
    cases hfilled : Buffer.write data.1 0 buffer with
    | none => rfl
    | some filled =>
      have hlen : filled.length = dataSize := (Buffer.write_returns data.2).result filled hfilled
      rw [Option.bind_eq_bind, Option.bind_some, Buffer.write, if_neg (by rw [hlen]; exact hfit)]
      rfl

theorem vsscanf_cmdFormat_skipSpaces (n : Nat) (s : List Byte) :
    Sscanf.vsscanf (cmdFormat n) (Sscanf.skipSpaces s) = Sscanf.vsscanf (cmdFormat n) s := by
  match n with
  | 0 => rfl
  | 1 | n + 2 => rw [cmdFormat, Sscanf.vsscanf, Sscanf.vsscanf, Sscanf.skipSpaces_idem]

/-- The numbers of a command are those that its format stores. -/
theorem sscanf_eq (n : Nat) (s : List Byte) : (sscanf n s).map .int = Sscanf.vsscanf (cmdFormat n) s := by
  induction n generalizing s with
  | zero => rfl
  | succ n ih =>
    have hscan : scanInt (s.dropWhile isspace) = Sscanf.scanInt (Sscanf.skipSpaces s) := rfl
    have hnext (rest : List Byte) : (sscanf n rest).map .int = Sscanf.vsscanf (cmdFormat (n + 1)).tail rest := by
      rw [ih]
      cases n with
      | zero => rfl
      | succ n => exact (vsscanf_cmdFormat_skipSpaces (n + 1) rest).symm
    have hcons : cmdFormat (n + 1) = .int :: (cmdFormat (n + 1)).tail := by
      cases n <;> rfl
    rw [hcons, sscanf, Sscanf.vsscanf, hscan]
    cases Sscanf.scanInt (Sscanf.skipSpaces s) with
    | none => rfl
    | some r => rw [List.map_cons, hnext]

/-! ### Lines -/

/-- The numbers with a blank between them. -/
def fields (nums : List (BitVec 32)) : List Byte := Sscanf.sprintf (cmdFormat nums.length) (nums.map .int)

theorem fields_singleton (v : BitVec 32) : fields [v] = Decimal.signed v.toInt := List.append_nil _

theorem fields_cons (v w : BitVec 32) (nums : List (BitVec 32)) :
    fields (v :: w :: nums) = Decimal.signed v.toInt ++ 0x20 :: fields (w :: nums) := rfl

theorem fits_cmdFormat (nums : List (BitVec 32)) : Sscanf.Fits (cmdFormat nums.length) (nums.map .int) := by
  match nums with
  | [] => exact .nil
  | [v] => exact .int trivial .nil
  | v :: w :: nums => exact .int rfl (.space (fits_cmdFormat (w :: nums)))

/-- A line is read back as its numbers, whatever white space ends it. -/
theorem sscanf_fields (nums : List (BitVec 32)) {t : List Byte} (ht : t.head?.all Sscanf.isspace = true) :
    sscanf nums.length (fields nums ++ t) = nums := by
  have hmap : Function.Injective (Sscanf.Value.int) := fun _ _ => Sscanf.Value.int.inj
  refine List.map_injective_iff.mpr hmap ?_
  rw [sscanf_eq, fields, (fits_cmdFormat nums).vsscanf_sprintf ht]

theorem length_signed_int (v : BitVec 32) : (Decimal.signed v.toInt).length ≤ 11 := by
  refine Decimal.length_signed_le (k := 10) (by decide) ?_
  have hlt := v.toInt_lt
  have hle := v.le_toInt
  omega

theorem length_fields_lt {nums : List (BitVec 32)} (hne : nums ≠ []) : (fields nums).length < 12 * nums.length := by
  match nums with
  | [v] =>
    rw [fields_singleton]
    exact Nat.lt_succ_of_le (length_signed_int v)
  | v :: w :: nums =>
    have hfirst := length_signed_int v
    have hrest : (fields (w :: nums)).length < 12 * (w :: nums).length := length_fields_lt (List.cons_ne_nil w nums)
    rw [fields_cons, List.length_append, List.length_cons, List.length_cons]
    omega

theorem nul_not_mem_signed (z : Int) : 0 ∉ Decimal.signed z := by
  intro h
  rcases Decimal.mem_signed h with h | h <;> cases h

theorem nul_not_mem_fields (nums : List (BitVec 32)) : 0 ∉ fields nums := by
  match nums with
  | [] => exact List.not_mem_nil
  | [v] =>
    rw [fields_singleton]
    exact nul_not_mem_signed _
  | v :: w :: nums =>
    intro h
    rcases List.mem_append.mp h with h | h
    · exact nul_not_mem_signed _ h
    · rcases List.mem_cons.mp h with h | h
      · cases h
      · exact nul_not_mem_fields (w :: nums) h

/-- A line of five numbers, with white space behind it that leaves the array room for all of it, is run as the command
    of these numbers, whatever was in the array. -/
theorem line_runs (data : Bytes dataSize) {nums : List (BitVec 32)} (hfive : nums.length = 5) {t : List Byte}
    (ht : ∀ b ∈ t, Sscanf.isspace b = true) (hroom : t.length ≤ 196) :
    ∃ cmd, speedtestProcWrite data true (fields nums ++ t) = some (((fields nums ++ t).length : Int), some cmd) ∧
      sscanf 5 cmd = nums := by
  have hne : nums ≠ [] := List.ne_nil_of_length_eq_add_one hfive
  have hfit : (fields nums ++ t).length < dataSize := by
    have hlt := length_fields_lt hne
    rw [List.length_append, dataSize]
    omega
  have hall : ∀ b ∈ fields nums ++ t, (b != 0) = true := by
    intro b hb
    refine bne_iff_ne.mpr ?_
    rintro rfl
    rcases List.mem_append.mp hb with hb | hb
    · exact nul_not_mem_fields nums hb
    · cases ht 0 hb
  have hhead : t.head?.all Sscanf.isspace = true := by
    cases t with
    | nil => rfl
    | cons b t => exact ht b List.mem_cons_self
  refine ⟨fields nums ++ t, ?_, ?_⟩
  · rw [speedtestProcWrite_eq, if_pos hfit, List.takeWhile_eq_self_iff.mpr hall]
  · rw [← hfive]
    exact sscanf_fields nums hhead

/-- `"-1 30 400 1700 0\n"`. -/
theorem line_runs_minus : ∃ cmd, speedtestProcWrite ⟨List.replicate dataSize 0xff, List.length_replicate⟩ true
    (fields [-1, 30, 400, 1700, 0] ++ [0x0a]) = some (17, some cmd) ∧ sscanf 5 cmd = [-1, 30, 400, 1700, 0] :=
  line_runs ⟨List.replicate dataSize 0xff, List.length_replicate⟩ (rfl : [(-1 : BitVec 32), 30, 400, 1700, 0].length = 5)
    (by decide) (by decide)

end QuickStart.Speedtest
