import QuickStart.Buffer
import QuickStart.Calls
import QuickStart.Lts
import QuickStart.Sscanf
import QuickStart.Httpredirect.Callback

/-! # Setting the redirection

`test_conntrack_fs_write` lets `sscanf` store the number and the bytes of the URL one after the other in the
variables that the callback reads, and `%s` has no field width. Any number of writes may be in progress when a
packet comes. -/

namespace QuickStart.Httpredirect
open Sscanf

/-- `URL_SIZE`. -/
def urlSize : Nat := 128

/-- The string at `buf`; nothing says that it ends within `size`. -/
abbrev UserString := { s : List Byte // 0 ∉ s }

/-- A store of `sscanf`. -/
inductive Store
  | enable (v : BitVec 32)
  | url (i : Nat) (b : Byte)
  deriving DecidableEq, Repr

/-- `"%d %s"`. -/
def procFormat : List Directive := [.int, .space, .word]

/-- The bytes of a word from the position `i` on, and the NUL. -/
def wordStores : Nat → List Byte → List Store
  | i, [] => [.url i 0]
  | i, b :: w => .url i b :: wordStores (i + 1) w

def stores : List Value → List Store
  | [] => []
  | .int v :: vs => .enable v :: stores vs
  | .word w :: vs => wordStores 0 w ++ stores vs

/-- `test_conntrack_fs_write`: the stores of the call. -/
def testConntrackFsWrite (size : Nat) (buf : UserString) : List Store :=
  if urlSize < size then [] else stores (vsscanf procFormat buf.1)

/-- The static data of the module, with the stores to come of the writes that have not returned. -/
structure Proc where
  http404redirectEnable : BitVec 32
  http404redirectUrl : Bytes urlSize
  writes : List (List Store)
  deriving DecidableEq

inductive ProcEvent
  | write (size : Nat) (buf : UserString)
  /-- the next store of the `i`-th write, or its return -/
  | store (i : Nat)
  deriving DecidableEq

namespace Proc

def start : Proc where
  http404redirectEnable := 0
  http404redirectUrl := ⟨List.replicate urlSize 0, List.length_replicate⟩
  writes := []

/-- A store; none is possible outside the array. -/
def apply (s : Proc) : Store → Option Proc
  | .enable v => some { s with http404redirectEnable := v }
  | .url i b => (s.http404redirectUrl.store i b).map fun url => { s with http404redirectUrl := url }

def step (s : Proc) : ProcEvent → Option Proc
  | .write size buf => some { s with writes := s.writes ++ [testConntrackFsWrite size buf] }
  | .store i =>
    match s.writes[i]? with
    | some (st :: sts) => (s.apply st).map fun t => { t with writes := Calls.put s.writes i (some sts) }
    | some [] => some { s with writes := Calls.put s.writes i none }
    | none => none

end Proc

def procLts : Lts Proc ProcEvent where
  init s := s = Proc.start
  step := Proc.step

theorem nul_not_mem_cString {s t : List Byte} (h : Buffer.cString s = some t) : 0 ∉ t := by
  rw [Buffer.cString, if_pos (Buffer.isSome_cString.mp (Option.isSome_of_eq_some h)), Option.some.injEq] at h
  subst h
  exact fun h0 => by simpa using List.mem_takeWhile_imp h0

theorem length_cString_le {a : Bytes urlSize} {t : List Byte} (h : Buffer.cString a.1 = some t) : t.length ≤ 127 := by
  have hlt := Buffer.length_lt_of_cString h
  rw [a.2] at hlt
  exact Nat.le_of_lt_succ hlt

/-- The string in the array, if it has one. -/
def Url.ofArray (a : Bytes urlSize) : Option Url :=
  match h : Buffer.cString a.1 with
  | some t => some { text := t, nul := nul_not_mem_cString h, short := length_cString_le h }
  | none => none

theorem Url.ofArray_eq_some {a : Bytes urlSize} {t : List Byte} (h : Buffer.cString a.1 = some t) :
    ∃ url, Url.ofArray a = some url ∧ url.text = t := by
  unfold Url.ofArray
  split
  · rename_i t' h'
    rw [h] at h'
    exact ⟨_, rfl, (Option.some.inj h').symm⟩
  · rename_i h'
    rw [h] at h'
    cases h'

/-- What the callback reads. -/
def Proc.config (s : Proc) : Option Config := (Url.ofArray s.http404redirectUrl).map fun url =>
  { http404redirectUrl := url, http404redirectEnable := s.http404redirectEnable.toInt }

/-- The bytes of a word. -/
def Value.length : Value → Nat
  | .int _ => 0
  | .word w => w.length

/-- The word of the write fits into the array. -/
def ProcEvent.Short : ProcEvent → Prop
  | .write size buf => size ≤ urlSize → ∀ w, .word w ∈ vsscanf procFormat buf.1 → w.length < urlSize
  | .store _ => True

instance : ∀ e : ProcEvent, Decidable e.Short
  | .write size buf =>
    decidable_of_iff (size ≤ urlSize → ∀ v ∈ vsscanf procFormat buf.1, Value.length v < urlSize)
      ⟨fun h hsize w hw => h hsize (.word w) hw, fun h hsize v hv => by
        cases v with
        | int v => exact Nat.two_pow_pos 7
        | word w => exact h hsize w hv⟩
  | .store _ => inferInstanceAs (Decidable True)

/-! ### The stores of a write -/

def Store.Inside : Store → Prop
  | .enable _ => True
  | .url i _ => i < urlSize

/-- The store leaves a NUL at the end of the array. -/
def Store.Safe : Store → Prop
  | .enable _ => True
  | .url i b => i + 1 < urlSize ∨ (i + 1 = urlSize ∧ b = 0)

theorem Store.Safe.inside {st : Store} (h : st.Safe) : st.Inside := by
  cases st with
  | enable v => trivial
  | url i b =>
    rcases h with h | ⟨h, -⟩
    · exact Nat.lt_of_succ_lt h
    · exact Nat.lt_of_succ_le h.le

theorem Proc.apply_url {s : Proc} {i : Nat} (hi : i < urlSize) (b : Byte) : s.apply (.url i b) = some
    { s with http404redirectUrl := ⟨s.http404redirectUrl.1.set i b, List.length_set.trans s.http404redirectUrl.2⟩ } := by
  rw [Proc.apply, Bytes.store, if_pos hi, Option.map_some]

theorem wordStores_safe {i : Nat} {w : List Byte} (h : i + w.length < urlSize) : ∀ st ∈ wordStores i w, st.Safe := by
  induction w generalizing i with
  | nil =>
    intro st hst
    obtain rfl := List.mem_singleton.mp hst
    exact (Nat.lt_or_eq_of_le (Nat.succ_le_of_lt h)).imp_right fun he => ⟨he, rfl⟩
  | cons b w ih =>
    rw [List.length_cons] at h
    intro st hst
    rcases List.mem_cons.mp hst with rfl | hst
    · exact Or.inl (by omega)
    · exact ih (by omega) st hst

theorem nul_mem_wordStores (i : Nat) (w : List Byte) : Store.url (i + w.length) 0 ∈ wordStores i w := by
  induction w generalizing i with
  | nil => exact List.mem_singleton_self _
  | cons b w ih =>
    rw [List.length_cons, Nat.add_comm w.length, ← Nat.add_assoc]
    exact List.mem_cons_of_mem _ (ih (i + 1))

theorem stores_safe {vs : List Value} (h : ∀ w, .word w ∈ vs → w.length < urlSize) : ∀ st ∈ stores vs, st.Safe := by
  induction vs with
  | nil => exact fun st hst => by cases hst
  | cons v vs ih =>
    have htail := ih fun w hw => h w (List.mem_cons_of_mem v hw)
    intro st hst
    cases v with
    | int v =>
      rcases List.mem_cons.mp hst with rfl | hst
      · trivial
      · exact htail st hst
    | word w =>
      rcases List.mem_append.mp hst with hst | hst
      · exact wordStores_safe (by rw [Nat.zero_add]; exact h w List.mem_cons_self) st hst
      · exact htail st hst

theorem nul_mem_stores {vs : List Value} {w : List Byte} (h : .word w ∈ vs) : Store.url w.length 0 ∈ stores vs := by
  induction vs with
  | nil => cases h
  | cons v vs ih =>
    rcases List.mem_cons.mp h with rfl | hvs
    · refine List.mem_append_left _ ?_
      have hmem := nul_mem_wordStores 0 w
      rwa [Nat.zero_add] at hmem
    · cases v with
      | int v => exact List.mem_cons_of_mem _ (ih hvs)
      | word x => exact List.mem_append_right _ (ih hvs)

theorem testConntrackFsWrite_safe {size : Nat} {buf : UserString} (h : (ProcEvent.write size buf).Short) :
    ∀ st ∈ testConntrackFsWrite size buf, st.Safe := by
  rw [testConntrackFsWrite]
  split
  · exact fun st hst => by cases hst
  · exact stores_safe (h (Nat.le_of_not_lt ‹_›))

/-- A write keeps to the array if and only if its word leaves room for the NUL. -/
theorem inside_iff_short (size : Nat) (buf : UserString) :
    (∀ st ∈ testConntrackFsWrite size buf, st.Inside) ↔ (ProcEvent.write size buf).Short := by
  constructor
  · intro h hsize w hw
    rw [testConntrackFsWrite, if_neg (Nat.not_lt.mpr hsize)] at h
    exact h _ (nul_mem_stores hw)
  · exact fun h st hst => (testConntrackFsWrite_safe h st hst).inside

/-- A string that ends within the size of the write is short enough. -/
theorem short_of_ends {size : Nat} {buf : UserString} (h : buf.1.length < size) : (ProcEvent.write size buf).Short :=
  fun hsize _ hw => (infix_of_mem_vsscanf hw).length_le.trans_lt (h.trans_le hsize)

/-! ### The array between the stores -/

/-- The last byte of the array is a NUL that no store changes. -/
structure Terminated (s : Proc) : Prop where
  last : s.http404redirectUrl.1[urlSize - 1]? = some 0
  safe : ∀ sts ∈ s.writes, ∀ st ∈ sts, st.Safe

namespace Terminated
variable {s t : Proc}

theorem start : Terminated .start where
  last := by decide
  safe sts hsts := by cases hsts

theorem apply {st : Store} (h : Terminated s) (hst : st.Safe) :
    ∃ t, s.apply st = some t ∧ t.writes = s.writes ∧ t.http404redirectUrl.1[urlSize - 1]? = some 0 := by
  cases st with
  | enable v => exact ⟨_, rfl, rfl, h.last⟩
  | url i b =>
    have hin : i < urlSize := hst.inside
    refine ⟨_, Proc.apply_url hin b, rfl, ?_⟩
    show (s.http404redirectUrl.1.set i b)[urlSize - 1]? = some 0
    rcases hst with hlt | ⟨hlast, rfl⟩
    · rw [List.getElem?_set_ne (by omega)]
      exact h.last
    · obtain rfl : i = urlSize - 1 := by omega
      rw [List.getElem?_set_self (by rw [s.http404redirectUrl.2]; exact hin)]

/-- Every store of a write in progress is possible. -/
theorem goes (h : Terminated s) {i : Nat} (hi : i < s.writes.length) : (s.step (.store i)).isSome = true := by
  rw [Proc.step, List.getElem?_eq_getElem hi]
  cases hsts : s.writes[i] with
  | nil => rfl
  | cons st sts =>
    obtain ⟨t, ht, -⟩ := h.apply (h.safe _ (List.getElem_mem hi) st (by rw [hsts]; exact List.mem_cons_self))
    simp [ht]

theorem step (h : Terminated s) {e : ProcEvent} (hok : e.Short) (hs : s.step e = some t) : Terminated t := by
  cases e with
  | write size buf =>
    obtain rfl := Option.some.inj hs
    refine ⟨h.last, fun sts hsts => ?_⟩
    rcases List.mem_append.mp hsts with hsts | hsts
    · exact h.safe sts hsts
    · obtain rfl := List.mem_singleton.mp hsts
      exact testConntrackFsWrite_safe hok
  | store i =>
    unfold Proc.step at hs
    dsimp only at hs
    split at hs
    · rename_i st sts hi
      have hmem : st :: sts ∈ s.writes := List.mem_of_getElem? hi
      obtain ⟨u, hu, hwrites, hlast⟩ := h.apply (h.safe _ hmem st List.mem_cons_self)
      rw [hu, Option.map_some] at hs
      obtain rfl := Option.some.inj hs
      refine ⟨hlast, fun l (hl : l ∈ Calls.put s.writes i (some sts)) => ?_⟩
      rcases Calls.mem_put hl with hl | hl
      · exact h.safe l hl
      · obtain rfl := Option.some.inj hl
        exact fun x hx => h.safe _ hmem x (List.mem_cons_of_mem st hx)
    · obtain rfl := Option.some.inj hs
      refine ⟨h.last, fun l (hl : l ∈ Calls.put s.writes i none) => ?_⟩
      rcases Calls.mem_put hl with hl | hl
      · exact h.safe l hl
      · cases hl
    · cases hs

end Terminated

/-- As long as the word of every write leaves room for its NUL: between any two stores of any number of writes the
    array holds a string of at most 127 bytes, so that the callback finds a configuration, and every further store
    is inside the array. -/
theorem url_always_string {s : Proc} (h : procLts.Reach (fun _ e => e.Short) s) :
    s.config.isSome = true ∧ ∀ i < s.writes.length, (s.step (.store i)).isSome = true := by
  have hterm : Terminated s := by
    refine h.invariant (I := Terminated) ?_ fun s e t hs hok hstep => hs.step hok hstep
    rintro _ rfl
    exact .start
  refine ⟨?_, fun i hi => hterm.goes hi⟩
  have hmem : 0 ∈ s.http404redirectUrl.1 := List.mem_of_getElem? hterm.last
  obtain ⟨t, ht⟩ := Option.isSome_iff_exists.mp (Buffer.isSome_cString.mpr hmem)
  obtain ⟨url, hurl, -⟩ := Url.ofArray_eq_some ht
  rw [Proc.config, hurl]
  rfl

/-- `"1 aa\n"`, and `"1 bb\n"` up to its first byte: the callback would redirect to `ba`. -/
def mixedWrites : List ProcEvent :=
  ProcEvent.write 6 ⟨[0x31, 0x20, 0x61, 0x61, 0x0a], by decide⟩ :: List.replicate 5 (.store 0) ++
    [.write 6 ⟨[0x31, 0x20, 0x62, 0x62, 0x0a], by decide⟩, .store 0, .store 0]

theorem url_always_string_mixed : ∃ s, procLts.Reach (fun _ e => e.Short) s ∧ s.config.isSome = true ∧
    Buffer.cString s.http404redirectUrl.1 = some [0x62, 0x61] := by
  have hrun : (procLts.runIf (fun _ e => e.Short) .start mixedWrites).any
      (fun s => Buffer.cString s.http404redirectUrl.1 == some [0x62, 0x61]) = true := by decide +kernel
  obtain ⟨s, hr, hp⟩ := Lts.exists_reach_of_runIf hrun rfl
  exact ⟨s, hr, (url_always_string hr).1, beq_iff_eq.mp hp⟩

/-- A write of four bytes with a word of 128 bytes in the memory from its buffer on: the NUL goes behind the array. -/
theorem url_overrun : ∃ s, procLts.Reachable s ∧ s.writes ≠ [] ∧ ∀ i < s.writes.length, s.step (.store i) = none := by
  have hrun : (procLts.runIf (fun _ _ => True) .start
      (ProcEvent.write 4 ⟨[0x31, 0x20] ++ List.replicate 128 0x61, by decide +kernel⟩ :: List.replicate 129 (.store 0))).any
      (fun s => s.writes == [[.url 128 0]]) = true := by decide +kernel
  obtain ⟨s, hr, hp⟩ := Lts.exists_reach_of_runIf hrun rfl
  have hwrites : s.writes = [[.url 128 0]] := by simpa using hp
  refine ⟨s, hr, by rw [hwrites]; simp, fun i hi => ?_⟩
  obtain rfl : i = 0 := by simpa [hwrites] using hi
  rw [Proc.step, hwrites]
  rfl

/-! ### A write without another one -/

/-- The stores of one write, one after the other. -/
def Proc.applyAll (s : Proc) (sts : List Store) : Option Proc := sts.foldlM Proc.apply s

theorem run_stores {s u : Proc} {sts : List Store} (hu : s.applyAll sts = some u) :
    procLts.runIf (fun _ _ => True) { s with writes := [sts] } (List.replicate (sts.length + 1) (.store 0)) =
      some { u with writes := [] } := by
  induction sts generalizing s with
  | nil =>
    obtain rfl := Option.some.inj hu
    rfl
  | cons st sts ih =>
    rw [Proc.applyAll, List.foldlM_cons] at hu
    obtain ⟨t, ht, hu⟩ := Option.bind_eq_some_iff.mp hu
    have hstep : procLts.step { s with writes := [st :: sts] } (.store 0) = some { t with writes := [sts] } := by
      have happly : ({ s with writes := [st :: sts] } : Proc).apply st = some { t with writes := [st :: sts] } := by
        cases st with
        | enable v =>
          obtain rfl := Option.some.inj ht
          rfl
        | url i b =>
          obtain ⟨url, hurl, rfl⟩ := Option.map_eq_some_iff.mp ht
          rw [Proc.apply, hurl, Option.map_some]
      show (({ s with writes := [st :: sts] } : Proc).apply st).map _ = _
      rw [happly, Option.map_some]
      rfl
    rw [List.length_cons, List.replicate_succ, Lts.runIf, if_pos trivial, hstep, Option.bind_some]
    exact ih hu

/-- The bytes of a word and its NUL come to stand behind what the array starts with. -/
theorem applyAll_wordStores {s : Proc} {w p : List Byte} (hp : Buffer.Starts s.http404redirectUrl.1 urlSize p)
    (hlen : p.length + w.length < urlSize) : ∃ u, s.applyAll (wordStores p.length w) = some u ∧
      Buffer.Starts u.http404redirectUrl.1 urlSize (p ++ (w ++ [0])) ∧
      u.http404redirectEnable = s.http404redirectEnable := by
  induction w generalizing s p with
  | nil =>
    have hin : p.length < urlSize := by simpa using hlen
    have hset := hp.set rfl hin 0
    refine ⟨{ s with http404redirectUrl := ⟨_, hset.length⟩ }, ?_, hset, rfl⟩
    rw [wordStores, Proc.applyAll, List.foldlM_cons, Proc.apply_url hin]
    rfl
  | cons b w ih =>
    rw [List.length_cons] at hlen
    have hin : p.length < urlSize := by omega
    have hset := hp.set rfl hin b
    obtain ⟨u, hu, hstarts, hen⟩ := ih (s := { s with http404redirectUrl := ⟨_, hset.length⟩ }) hset
      (by rw [List.length_append, List.length_singleton]; omega)
    refine ⟨u, ?_, by rwa [List.append_assoc] at hstarts, hen⟩
    rw [List.length_append, List.length_singleton] at hu
    rw [wordStores, Proc.applyAll, List.foldlM_cons, Proc.apply_url hin]
    exact hu

/-- A write of at most 128 bytes that begins with a line as `sprintf` prints it, with white space or the end of the
    string behind the line, sets what the line says: without another write in between, the callback then reads its
    number and its URL. -/
theorem line_configures {s : Proc} (hidle : s.writes = []) (v : BitVec 32) {w t : List Byte} (hw : Word w)
    (ht : t.head?.all isspace = true) {size : Nat} (hline : (sprintf procFormat [.int v, .word w]).length ≤ size)
    (hsize : size ≤ urlSize) (h0 : 0 ∉ sprintf procFormat [.int v, .word w] ++ t) :
    ∃ u cfg, procLts.runIf (fun _ _ => True) s
        (.write size ⟨sprintf procFormat [.int v, .word w] ++ t, h0⟩ :: List.replicate (w.length + 3) (.store 0)) = some u ∧
      u.writes = [] ∧ u.config = some cfg ∧ cfg.http404redirectUrl.text = w ∧ cfg.http404redirectEnable = v.toInt := by
  have hfits : Fits procFormat [.int v, .word w] := .int rfl (.space (.word hw trivial .nil))
  have hshort : w.length < urlSize := by
    refine Nat.lt_of_lt_of_le ?_ (hline.trans hsize)
    simp only [procFormat, sprintf, List.length_append, List.length_cons, List.length_nil]
    omega
  have hnul : 0 ∉ w := fun h =>
    h0 (List.mem_append_left _ (List.mem_append_right _ (List.mem_cons_of_mem _ (List.mem_append_left _ h))))
  have hstores : testConntrackFsWrite size ⟨sprintf procFormat [.int v, .word w] ++ t, h0⟩ =
      .enable v :: wordStores 0 w := by
    rw [testConntrackFsWrite, if_neg (Nat.not_lt.mpr hsize), hfits.vsscanf_sprintf ht, stores, stores, stores,
      List.append_nil]
  have hcount : (Store.enable v :: wordStores 0 w).length + 1 = w.length + 3 := by
    have hlen : ∀ i, (wordStores i w).length = w.length + 1 := by
      clear hw hline hshort h0 hnul hfits hstores
      induction w with
      | nil => exact fun i => rfl
      | cons b w ih => exact fun i => by rw [wordStores, List.length_cons, ih, List.length_cons]
    rw [List.length_cons, hlen]
  obtain ⟨u, hu, hstarts, hen⟩ := applyAll_wordStores (s := { s with http404redirectEnable := v }) (p := []) (w := w)
    (.nil s.http404redirectUrl.2) (by simpa using hshort)
  have hall : s.applyAll (.enable v :: wordStores 0 w) = some u := hu
  have hrun := run_stores hall
  have hstring : Buffer.cString u.http404redirectUrl.1 = some w := hstarts.cString hnul
  obtain ⟨url, hurl, htext⟩ := Url.ofArray_eq_some hstring
  refine ⟨{ u with writes := [] }, _, ?_, rfl, by rw [Proc.config, hurl, Option.map_some], htext,
    congrArg BitVec.toInt hen⟩
  rw [hcount] at hrun
  rw [Lts.runIf, if_pos trivial]
  show (some { s with writes := s.writes ++ [_] }).bind _ = _
  rw [hstores, hidle, List.nil_append, Option.bind_some]
  exact hrun

/-- `"-1 http://a\n"`. -/
theorem line_configures_minus : ∃ u cfg, procLts.runIf (fun _ _ => True) .start
    (.write 12 ⟨sprintf procFormat [.int (-1), .word [0x68, 0x74, 0x74, 0x70, 0x3a, 0x2f, 0x2f, 0x61]] ++ [0x0a], by decide⟩ ::
      List.replicate 11 (.store 0)) = some u ∧ u.config = some cfg ∧ cfg.http404redirectEnable = -1 := by
  obtain ⟨u, cfg, hrun, -, hcfg, -, hen⟩ := line_configures (s := .start) rfl (-1)
    (w := [0x68, 0x74, 0x74, 0x70, 0x3a, 0x2f, 0x2f, 0x61]) (t := [0x0a])
    ⟨by decide, by decide, by decide⟩ rfl (by decide) (by decide : 12 ≤ urlSize) (by decide)
  exact ⟨u, cfg, hrun, hcfg, hen⟩

end QuickStart.Httpredirect
