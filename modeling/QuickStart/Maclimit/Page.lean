import QuickStart.Buffer
import QuickStart.Decimal
import QuickStart.Reader
import QuickStart.Maclimit.Lines

/-! # Reading the configuration

`read_maclimit_proc` prints the configuration anew for each call and gives its reader the part at its position. -/

namespace QuickStart.Maclimit
open Strtoul Decimal Reader

/-- `PROC_SEND_BUF_SIZE`. -/
def procSendBufSize : Nat := 255

/-- `"config: limit_num: "`. -/
def limitNumText : List Byte :=
  [0x63, 0x6f, 0x6e, 0x66, 0x69, 0x67, 0x3a, 0x20, 0x6c, 0x69, 0x6d, 0x69, 0x74, 0x5f, 0x6e, 0x75, 0x6d, 0x3a, 0x20]

/-- `", enable: "`, behind the comma. -/
def enableText : List Byte := [0x20, 0x65, 0x6e, 0x61, 0x62, 0x6c, 0x65, 0x3a, 0x20]

/-- What `sprintf` prints. -/
def configText (cfg : MaclimitCfg) : List Byte :=
  limitNumText ++ (signed cfg.limitNum ++ 0x2c :: (enableText ++ (signed cfg.enable ++ [0x0a])))

/-- A call of `read_maclimit_proc`: what its reader asks for and has room for, the configuration at that time, and
    what is on the stack at the place of `page`. -/
structure PageRead where
  count : Nat
  room : Nat
  cfg : MaclimitCfg
  stack : Bytes procSendBufSize

/-- `read_maclimit_proc`: what it returns and what it stores, unless the text is too long for `page`. -/
def readMaclimitProc (pos : Nat) (r : PageRead) : Option (Int × List Byte) := do
  let page ← Buffer.write r.stack.1 0 (configText r.cfg ++ [0])
  some (simpleReadFromBuffer pos ⟨r.count, r.room, page.take (configText r.cfg).length⟩)

/-- What the calls store, one behind the other, from the position `pos` on, and the position after them. -/
def readPage : Nat → List PageRead → Option (List Byte × Nat)
  | pos, [] => some ([], pos)
  | pos, r :: rs => do
    let call ← readMaclimitProc pos r
    let rest ← readPage (pos + call.2.length) rs
    some (call.2 ++ rest.1, rest.2)

/-- A `long` of at most 64 bits and an `int`. -/
structure MaclimitCfg.Typed (cfg : MaclimitCfg) : Prop where
  limitNum : -2 ^ 63 ≤ cfg.limitNum ∧ cfg.limitNum < 2 ^ 63
  enable : -2 ^ 31 ≤ cfg.enable ∧ cfg.enable < 2 ^ 31

/-! ### The text -/

theorem length_configText {cfg : MaclimitCfg} (h : cfg.Typed) : (configText cfg).length < 63 := by
  have hlimit : (signed cfg.limitNum).length ≤ 19 + 1 := by
    refine length_signed_le (by decide) ?_
    have := h.limitNum
    omega
  have henable : (signed cfg.enable).length ≤ 10 + 1 := by
    refine length_signed_le (by decide) ?_
    have := h.enable
    omega
  have hfront : limitNumText.length = 19 := rfl
  have hback : enableText.length = 9 := rfl
  simp only [configText, List.length_append, List.length_cons, List.length_nil]
  omega

theorem comma_not_mem_signed (z : Int) : 0x2c ∉ signed z := by
  intro h
  rcases mem_signed h with h | h <;> cases h

/-- Different configurations are shown by different texts. -/
theorem configText_injective : Function.Injective configText := by
  intro cfg cfg' h
  have hrest : (0x2c : Byte) ∉ enableText ++ (signed cfg.enable ++ [0x0a]) := by
    intro hc
    rcases List.mem_append.mp hc with hc | hc
    · revert hc
      decide
    · rcases List.mem_append.mp hc with hc | hc
      · exact comma_not_mem_signed _ hc
      · cases List.mem_singleton.mp hc
  obtain ⟨hlimit, -, h⟩ := (List.append_cons_inj_of_notMem (comma_not_mem_signed _) hrest).mp (List.append_cancel_left h)
  have henable := List.append_cancel_right (List.append_cancel_left h)
  obtain ⟨e, l⟩ := cfg
  obtain ⟨e', l'⟩ := cfg'
  obtain rfl : l = l' := signed_injective hlimit
  obtain rfl : e = e' := signed_injective henable
  rfl

/-! ### The calls -/

/-- The call on the text. -/
def PageRead.call (r : PageRead) : Call Byte where
  count := r.count
  room := r.room
  text := configText r.cfg

/-- The text has room in `page`. -/
theorem readMaclimitProc_eq (pos : Nat) {r : PageRead} (h : r.cfg.Typed) :
    readMaclimitProc pos r = some (simpleReadFromBuffer pos r.call) := by
  have hlen := length_configText h
  have hfit : 0 + (configText r.cfg ++ [0]).length ≤ procSendBufSize := by
    rw [List.length_append, List.length_singleton, procSendBufSize]
    omega
  have hprint : ∃ page, Buffer.write r.stack.1 0 (configText r.cfg ++ [0]) = some page ∧
      Buffer.Starts page procSendBufSize (configText r.cfg ++ [0]) := (Buffer.Starts.nil r.stack.2).append rfl hfit
  obtain ⟨page, hpage, hstarts⟩ := hprint
  have htext : page.take (configText r.cfg).length = configText r.cfg := hstarts.mono.take
  rw [readMaclimitProc, hpage, Option.bind_eq_bind, Option.bind_some, htext]
  rfl

theorem readPage_eq (pos : Nat) {rs : List PageRead} (h : ∀ r ∈ rs, r.cfg.Typed) :
    readPage pos rs = some (reads pos (rs.map PageRead.call)) := by
  induction rs generalizing pos with
  | nil => rfl
  | cons r rs ih =>
    rw [readPage, readMaclimitProc_eq pos (h r List.mem_cons_self), Option.bind_eq_bind, Option.bind_some,
      ih _ fun x hx => h x (List.mem_cons_of_mem r hx)]
    rfl

/-- Calls that ask for something and have room find the end after as many as the text is long. -/
theorem readPage_all {cfg : MaclimitCfg} (hcfg : cfg.Typed) {rs : List PageRead}
    (hrs : ∀ r ∈ rs, r.cfg = cfg ∧ 0 < r.count ∧ 0 < r.room) (hlen : (configText cfg).length ≤ rs.length) :
    ∃ pos, readPage 0 rs = some (configText cfg, pos) := by
  have hall : (reads 0 (rs.map PageRead.call)).1 = configText cfg := by
    refine reads_all (fun c hc => ?_) (by rwa [List.length_map])
    obtain ⟨r, hr, rfl⟩ := List.mem_map.mp hc
    exact ⟨congrArg configText (hrs r hr).1, (hrs r hr).2⟩
  refine ⟨(reads 0 (rs.map PageRead.call)).2, ?_⟩
  rw [readPage_eq 0 fun r hr => (hrs r hr).1 ▸ hcfg, ← hall]

/-- While the configuration stays as it is, what is read is the front of its text, up to the position. A reader that
    asks for something and gets nothing has read all of it, and one that asks for something and has room each time
    has done so after as many calls as the text is long. -/
theorem config_read {cfg : MaclimitCfg} (hcfg : cfg.Typed) {rs : List PageRead} (hrs : ∀ r ∈ rs, r.cfg = cfg) :
    ∃ out pos, readPage 0 rs = some (out, pos) ∧ out = (configText cfg).take pos ∧
      (∀ r stored, r.cfg = cfg → 0 < r.count → readMaclimitProc pos r = some (0, stored) → out = configText cfg) ∧
      ((∀ r ∈ rs, 0 < r.count ∧ 0 < r.room) → (configText cfg).length ≤ rs.length → out = configText cfg) := by
  have hcalls : ∀ c ∈ rs.map PageRead.call, c.text = configText cfg := by
    intro c hc
    obtain ⟨r, hr, rfl⟩ := List.mem_map.mp hc
    exact congrArg configText (hrs r hr)
  have hread : readPage 0 rs = some (reads 0 (rs.map PageRead.call)) := readPage_eq 0 fun r hr => hrs r hr ▸ hcfg
  refine ⟨_, _, hread, reads_start hcalls, fun r stored hr hcount hend => ?_, fun hgo hlen => ?_⟩
  · rw [readMaclimitProc_eq _ (hr ▸ hcfg)] at hend
    have htext : r.call.text = configText cfg := congrArg configText hr
    exact reads_end hcalls htext hcount (congrArg Prod.fst (Option.some.inj hend))
  · obtain ⟨pos, hall⟩ := readPage_all hcfg (fun r hr => ⟨hrs r hr, hgo r hr⟩) hlen
    exact congrArg Prod.fst (Option.some.inj (hread.symm.trans hall))

/-- Reads of 20 bytes each. -/
def twenties (k : Nat) : List PageRead :=
  List.replicate k ⟨20, 20, maclimitCfg, ⟨List.replicate procSendBufSize 0xff, List.length_replicate⟩⟩

/-- The 32 bytes of the first configuration in two reads, and a third one that finds the end. -/
theorem config_read_twenties : ∃ out pos, readPage 0 (twenties 2) = some (out, pos) ∧ out = configText maclimitCfg := by
  have hcfg : maclimitCfg.Typed := ⟨by decide, by decide⟩
  have hsame : ∀ r ∈ twenties 2, r.cfg = maclimitCfg := fun r hr => by rw [List.eq_of_mem_replicate hr]
  obtain ⟨out, pos, hread, -, hend, -⟩ := config_read hcfg hsame
  have hpos : (readPage 0 (twenties 2)).map Prod.snd = some 32 := by decide +kernel
  rw [hread, Option.map_some, Option.some.injEq] at hpos
  obtain rfl : pos = 32 := hpos
  exact ⟨out, 32, hread, hend ⟨20, 20, maclimitCfg, ⟨List.replicate procSendBufSize 0xff, List.length_replicate⟩⟩ []
    rfl (by decide) (by decide +kernel)⟩

/-- The configuration changes from 1 to 25 behind the first digit of a reader: it finds 15, which has never been set. -/
theorem page_torn : ∃ rs : List PageRead, (∀ r ∈ rs, r.cfg = ⟨0, 1⟩ ∨ r.cfg = ⟨0, 25⟩) ∧
    (readPage 0 rs).map Prod.fst = some (configText ⟨0, 15⟩) :=
  ⟨[⟨20, 20, ⟨0, 1⟩, ⟨List.replicate procSendBufSize 0, List.length_replicate⟩⟩,
      ⟨20, 20, ⟨0, 25⟩, ⟨List.replicate procSendBufSize 0, List.length_replicate⟩⟩],
    by simp, by decide +kernel⟩

/-! ### Writing and reading -/

/-- A number as it is printed. -/
def printed (n : Nat) : Numeral where
  digits := decimal n
  decimal c hc := by simpa [isdigit] using isdigit_of_mem hc
  nonempty := decimal_ne_nil n
  lead := decimal_lead

theorem value_printed (n : Nat) : (printed n).value = n := value_decimal n

theorem signed_natCast (n : Nat) : signed n = decimal n := by
  rw [signed, if_neg (by omega), Int.natAbs_natCast]

/-- Two numbers and a newline. -/
def configLine (n m : Nat) : List Byte := decimal n ++ 0x20 :: (decimal m ++ [0x0a])

/-- A written line is shown: the reader finds its two numbers in the text, whatever the configuration was before, and
    no other configuration has this text. -/
theorem written_shown {w : Nat} (hw : w = 32 ∨ w = 64) {n m : Nat} (hn : n < 2 ^ (w - 1)) (hm : m < 2 ^ 31)
    (hlen : (configLine n m).length ≤ procReceveBufSize) (stack : List Byte) (cfg : MaclimitCfg) :
    ∃ cfg', writeMaclimitProc w true (configLine n m) stack cfg = some (((configLine n m).length : Int), cfg') ∧
      (∀ rs : List PageRead, (∀ r ∈ rs, r.cfg = cfg' ∧ 0 < r.count ∧ 0 < r.room) → (configText cfg').length ≤ rs.length →
        ∃ pos, readPage 0 rs =
          some (limitNumText ++ (decimal n ++ 0x2c :: (enableText ++ (decimal m ++ [0x0a]))), pos)) ∧
      ∀ other, configText other = limitNumText ++ (decimal n ++ 0x2c :: (enableText ++ (decimal m ++ [0x0a]))) →
        other = cfg' := by
  have hbits : 2 ^ (w - 1) ≤ 2 ^ 63 := Nat.pow_le_pow_right (by decide) (by omega)
  have htext : configText ⟨m, n⟩ = limitNumText ++ (decimal n ++ 0x2c :: (enableText ++ (decimal m ++ [0x0a]))) := by
    rw [configText, signed_natCast, signed_natCast]
  have htyped : MaclimitCfg.Typed ⟨m, n⟩ := by
    constructor <;> dsimp only <;> omega
  refine ⟨⟨m, n⟩, ?_, fun rs hrs hlen => ?_, fun other hother => configText_injective (hother.trans htext.symm)⟩
  · -- The line has no space in front of it.
    have hline : configLine n m = twoNumerals 0 (printed n) 1 (printed m) 0 := rfl
    have hset : ∀ stack, writeMaclimitProc w true (twoNumerals 0 (printed n) 1 (printed m) 0) stack cfg =
        some (((twoNumerals 0 (printed n) 1 (printed m) 0).length : Int), ⟨(printed m).value, (printed n).value⟩) :=
      (twoNumerals_meant (by omega) (by rw [value_printed]; omega) (by rwa [value_printed]) (by rwa [value_printed])
        (hline ▸ hlen)).mpr (Or.inl rfl)
    rw [hline, hset stack, value_printed, value_printed]
  · rw [← htext]
    exact readPage_all htyped hrs hlen

/-- `"3 1\n"`. -/
theorem written_shown_three : ∃ cfg', writeMaclimitProc 64 true (configLine 3 1) [] maclimitCfg = some (4, cfg') ∧
    ∀ rs : List PageRead, (∀ r ∈ rs, r.cfg = cfg' ∧ 0 < r.count ∧ 0 < r.room) → (configText cfg').length ≤ rs.length →
      ∃ pos, readPage 0 rs =
        some (limitNumText ++ (decimal 3 ++ 0x2c :: (enableText ++ (decimal 1 ++ [0x0a]))), pos) := by
  obtain ⟨cfg', hwrite, hread, -⟩ := written_shown (Or.inr rfl) (by decide : 3 < 2 ^ (64 - 1)) (by decide : 1 < 2 ^ 31)
    (by decide) [] maclimitCfg
  exact ⟨cfg', hwrite, hread⟩

end QuickStart.Maclimit
