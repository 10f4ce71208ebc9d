import QuickStart.Lts
import QuickStart.Sscanf

/-! # Watching one source address

The hooks of the module log the packets whose source is the address that was last written to its file, given there as
a dotted quad. -/

namespace QuickStart.Pktconntrack
open Sscanf

/-- An address as its bytes stand in a header. -/
structure Ipv4 where
  a : Byte
  b : Byte
  c : Byte
  d : Byte
  deriving DecidableEq, Repr

/-- `ntohl(iph->saddr)`. -/
def ntohl (x : Ipv4) : BitVec 32 := x.a ++ x.b ++ x.c ++ x.d

inductive Verdict
  | accept
  deriving DecidableEq, Repr

/-- A line of the log: `__FUNCTION__` and `__LINE__`, or also the address that has been set. -/
inductive Line
  | passed (function : String) (line : Nat)
  | address (function : String) (line : Nat) (v : BitVec 32)
  deriving DecidableEq, Repr

/-- A hook function: its verdict and what it logs, for the address to compare with and for the source of the packet,
    if it is called with one. -/
abbrev HookFn := BitVec 32 → Option Ipv4 → Verdict × List Line

def testNf (function : String) (line : Nat) : HookFn
  | _, none => (.accept, [])
  | cmpSrcIp, some saddr => (.accept, if ntohl saddr = cmpSrcIp then [.passed function line] else [])

def testNfPreRouting : HookFn := testNf "test_nf_pre_routing" 26
def testNfLocalIn : HookFn := testNf "test_nf_local_in" 41
def testNfForward : HookFn := testNf "test_nf_forward" 56
def testNfLocalOut : HookFn := testNf "test_nf_local_out" 71
def testNfPostRouting : HookFn := testNf "test_nf_post_routing" 85

inductive Hooknum
  | preRouting
  | localIn
  | forward
  | localOut
  | postRouting
  deriving DecidableEq, Repr

def testNfOps : List (Hooknum × HookFn) :=
  [(.preRouting, testNfPreRouting), (.localIn, testNfLocalIn), (.forward, testNfForward), (.localOut, testNfLocalOut),
    (.postRouting, testNfPostRouting)]

/-- `"%d.%d.%d.%d"`. -/
def ipFormat : List Directive := [.int, .lit 0x2e, .int, .lit 0x2e, .int, .lit 0x2e, .int]

/-- The `i`-th variable that `sscanf` stores to, which is 0 before. -/
def stored (vs : List Value) (i : Nat) : BitVec 32 :=
  match vs[i]? with
  | some (.int v) => v
  | _ => 0

def ipStrToNum (buf : List Byte) : BitVec 32 :=
  let tmpip (i : Nat) := stored (vsscanf ipFormat buf) (3 - i)
  tmpip 3 <<< 24 ||| tmpip 2 <<< 16 ||| tmpip 1 <<< 8 ||| tmpip 0

structure State where
  cmpSrcIp : BitVec 32
  log : List Line
  deriving DecidableEq

inductive Event
  /-- `test_conntrack_fs_write`; nothing says that the string at `buf` ends within the size. -/
  | write (buf : List Byte)
  /-- A packet comes to the hooks with this number. -/
  | packet (hooknum : Hooknum) (skb : Option Ipv4)
  deriving DecidableEq

namespace State

def start : State where
  cmpSrcIp := 0
  log := []

def testConntrackFsWrite (s : State) (buf : List Byte) : State where
  cmpSrcIp := ipStrToNum buf
  log := s.log ++ [.address "test_conntrack_fs_write" 150 (ipStrToNum buf)]

/-- The functions of the table that belong to a hook, one after the other; a packet goes on as long as it is
    accepted. -/
def nfHook (s : State) (hooknum : Hooknum) (skb : Option Ipv4) : State :=
  (testNfOps.filter fun op => op.1 = hooknum).foldl
    (fun s op => match op.2 s.cmpSrcIp skb with
      | (.accept, lines) => { s with log := s.log ++ lines }) s

def step (s : State) : Event → Option State
  | .write buf => some (s.testConntrackFsWrite buf)
  | .packet hooknum skb => some (s.nfHook hooknum skb)

end State

def lts : Lts State Event where
  init s := s = State.start
  step := State.step

/-! ### Addresses and texts -/

def Ipv4.values (x : Ipv4) : List Value := [x.a, x.b, x.c, x.d].map fun b => .int (b.setWidth 32)

/-- The address as a dotted quad. -/
def dotted (x : Ipv4) : List Byte := sprintf ipFormat x.values

theorem fits_dotted (x : Ipv4) : Fits ipFormat x.values :=
  .int rfl (.lit rfl (.int rfl (.lit rfl (.int rfl (.lit rfl (.int trivial .nil))))))

theorem append_inj {v w : Nat} {x x' : BitVec v} {y y' : BitVec w} (h : x ++ y = x' ++ y') : x = x' ∧ y = y' := by
  have hx := congrArg (BitVec.extractLsb' w v) h
  have hy := congrArg (BitVec.extractLsb' 0 w) h
  rw [BitVec.extractLsb'_append_eq_left, BitVec.extractLsb'_append_eq_left] at hx
  rw [BitVec.extractLsb'_append_eq_right, BitVec.extractLsb'_append_eq_right] at hy
  exact ⟨hx, hy⟩

theorem ntohl_injective : Function.Injective ntohl := by
  rintro ⟨a, b, c, d⟩ ⟨a', b', c', d'⟩ h
  obtain ⟨h, rfl⟩ := append_inj h
  obtain ⟨h, rfl⟩ := append_inj h
  obtain ⟨rfl, rfl⟩ := append_inj h
  rfl

/-- The four numbers are put together as `ntohl` does it with the bytes of a header. -/
theorem ntohl_eq (x : Ipv4) : ntohl x =
    x.a.setWidth 32 <<< 24 ||| x.b.setWidth 32 <<< 16 ||| x.c.setWidth 32 <<< 8 ||| x.d.setWidth 32 := by
  obtain ⟨a, b, c, d⟩ := x
  unfold ntohl
  apply BitVec.eq_of_getLsbD_eq
  intro i hi
  simp only [BitVec.getLsbD_append, BitVec.getLsbD_or, BitVec.getLsbD_shiftLeft, BitVec.getLsbD_setWidth]
  grind

/-- A dotted quad stands for its address, whatever white space follows it. -/
theorem ipStrToNum_dotted (x : Ipv4) {t : List Byte} (ht : t.head?.all isspace = true) :
    ipStrToNum (dotted x ++ t) = ntohl x := by
  rw [ipStrToNum, dotted, (fits_dotted x).vsscanf_sprintf ht, ntohl_eq]
  rfl

/-! ### Runs -/

/-- What a run does: an address is set by a dotted quad with white space behind it, or a packet comes. -/
inductive Action
  | watch (x : Ipv4) (t : List Byte) (ht : t.head?.all isspace = true)
  | packet (hooknum : Hooknum) (skb : Option Ipv4)

def Action.event : Action → Event
  | .watch x t _ => .write (dotted x ++ t)
  | .packet hooknum skb => .packet hooknum skb

/-- The line of the function that is called at a hook. -/
def Hooknum.line : Hooknum → Line
  | .preRouting => .passed "test_nf_pre_routing" 26
  | .localIn => .passed "test_nf_local_in" 41
  | .forward => .passed "test_nf_forward" 56
  | .localOut => .passed "test_nf_local_out" 71
  | .postRouting => .passed "test_nf_post_routing" 85

/-- What is logged while `x` is the address that was set last. -/
def watched (x : Ipv4) : List Action → List Line
  | [] => []
  | .watch y _ _ :: acts => .address "test_conntrack_fs_write" 150 (ntohl y) :: watched y acts
  | .packet hooknum skb :: acts => if skb = some x then hooknum.line :: watched x acts else watched x acts

/-- The one function that the table has for a hook. -/
theorem nfHook_eq (s : State) (hooknum : Hooknum) (skb : Option Ipv4) : s.nfHook hooknum skb =
    { s with log := s.log ++ if skb.any (fun saddr => ntohl saddr = s.cmpSrcIp) then [hooknum.line] else [] } := by
  have hone : ∃ f n, testNfOps.filter (fun op => op.1 = hooknum) = [(hooknum, testNf f n)] ∧ hooknum.line = .passed f n := by
    cases hooknum <;> exact ⟨_, _, rfl, rfl⟩
  obtain ⟨f, n, hops, hline⟩ := hone
  rw [State.nfHook, hops, hline]
  cases skb <;> simp [testNf]

theorem run_watched {s : State} {x : Ipv4} (hx : s.cmpSrcIp = ntohl x) (acts : List Action) :
    ∃ t, lts.runIf (fun _ _ => True) s (acts.map Action.event) = some t ∧ t.log = s.log ++ watched x acts := by
  induction acts generalizing s x with
  | nil => exact ⟨s, rfl, (List.append_nil _).symm⟩
  | cons act acts ih =>
    cases act with
    | watch y t ht =>
      have hnum := ipStrToNum_dotted y ht
      obtain ⟨u, hu, hlog⟩ := ih (s := s.testConntrackFsWrite (dotted y ++ t)) (x := y) hnum
      refine ⟨u, hu, ?_⟩
      rw [hlog, State.testConntrackFsWrite, hnum, List.append_assoc]
      rfl
    | packet hooknum skb =>
      have hstep := nfHook_eq s hooknum skb
      obtain ⟨u, hu, hlog⟩ := ih (s := s.nfHook hooknum skb) (x := x) (by rw [hstep]; exact hx)
      refine ⟨u, hu, ?_⟩
      -- The comparison of the numbers is one of the addresses.
      have hiff : skb.any (fun saddr => ntohl saddr = s.cmpSrcIp) = true ↔ skb = some x := by
        cases skb with
        | none => simp
        | some saddr => simp [hx, ntohl_injective.eq_iff]
      rw [hlog, hstep, watched, List.append_assoc]
      congr 1
      by_cases hskb : skb = some x
      · rw [if_pos (hiff.mpr hskb), if_pos hskb]
        rfl
      · rw [if_neg (fun h => hskb (hiff.mp h)), if_neg hskb]
        rfl

/-- From the start on, the log shows what has been set and the packets from the address that was set last, each at the
    hooks that it comes to, and no other packet. -/
theorem log_watched (acts : List Action) :
    ∃ t, lts.runIf (fun _ _ => True) .start (acts.map Action.event) = some t ∧ t.log = watched ⟨0, 0, 0, 0⟩ acts := by
  obtain ⟨t, ht, hlog⟩ := run_watched (s := .start) (x := ⟨0, 0, 0, 0⟩) rfl acts
  exact ⟨t, ht, hlog⟩

end QuickStart.Pktconntrack
