import QuickStart.Speedtest.Packet

/-! # The packets of the timer callback

A callback that finds no task running makes a packet for each direction and sends a clone of it. The packets are
numbered in the order in which they are allocated or cloned; a packet is live until the driver has accepted it or it
has been freed. -/

namespace QuickStart.Speedtest

/-- What a round of the loop takes from outside: `__dev_get_by_name`, the outcomes of `alloc_skb` and of `skb_clone`,
    and whether `ndo_start_xmit` returns 0. -/
structure Attempt where
  devGetByName : String → Option Room
  alloc : Bool
  clone : Bool
  xmit : Bool

/-- A call of `send_speedtest_pkt`: its argument, and the packet that has been built in the same round. -/
structure Send where
  stSkb : Option Nat
  made : Option Nat
  deriving DecidableEq, Repr

/-- The packets that have been allocated or cloned, and what has become of them. -/
structure Skbs where
  allocated : Nat
  accepted : List Nat
  freed : List Nat
  sends : List Send
  settled_lt : ∀ i ∈ accepted ++ freed, i < allocated

namespace Skbs

def empty : Skbs := ⟨0, [], [], [], fun _ h => absurd h List.not_mem_nil⟩

def alloc (l : Skbs) : Skbs :=
  { l with allocated := l.allocated + 1, settled_lt := fun i hi => Nat.lt_succ_of_lt (l.settled_lt i hi) }

/-- A clone, which the driver accepts or `send_speedtest_pkt` frees. -/
def clone (l : Skbs) (xmit : Bool) : Skbs where
  allocated := l.allocated + 1
  accepted := if xmit then l.accepted ++ [l.allocated] else l.accepted
  freed := if xmit then l.freed else l.freed ++ [l.allocated]
  sends := l.sends
  settled_lt := by
    intro i hi
    have hsplit : i ∈ l.accepted ++ l.freed ∨ i = l.allocated := by
      cases xmit <;> simp at hi ⊢ <;> tauto
    rcases hsplit with h | rfl
    · exact Nat.lt_succ_of_lt (l.settled_lt i h)
    · exact Nat.lt_succ_self _

def log (l : Skbs) (s : Send) : Skbs := { l with sends := l.sends ++ [s] }

/-- The packets that are still the module's. -/
def live (l : Skbs) : List Nat := (List.range l.allocated).filter fun i => i ∉ l.accepted ++ l.freed

end Skbs

/-- `send_speedtest_pkt`; `none` when `skb_clone` reads a `NULL` argument. -/
def sendSpeedtestPkt (a : Attempt) (l : Skbs) (stSkb : Option Nat) : Option (Skbs × Int) :=
  stSkb.map fun _ =>
    if a.clone then (l.clone a.xmit, if a.xmit then 1 else 0) else (l, 0)

/-- The packet that `make_speedtest_pkt` builds for the direction, if it builds one. -/
def Attempt.made (K : Kernel) (a : Attempt) (d : Dir) (l : Skbs) : Option Nat :=
  if (makeSpeedtestPkt K a.devGetByName a.alloc (getSpeedtestPortByIndex d) (1280 : Nat)).join.isSome then
    some l.allocated
  else none

/-- A round of the loop with the value of `probe_skb`, which stays when no packet is built. -/
def probeRound (K : Kernel) (a : Attempt) (d : Dir) (l : Skbs) (probeSkb : Option Nat) :
    Skbs × Option (Option Nat) :=
  let made := a.made K d l
  let l := if made.isSome then l.alloc else l
  let probeSkb := made.or probeSkb
  let l := l.log ⟨probeSkb, made⟩
  match sendSpeedtestPkt a l probeSkb with
  | none => (l, none)
  | some (l, _) => (l, some probeSkb)

/-- A call of the callback: the data of the module, and what the two rounds find. -/
structure ProbeCall where
  mod : Mod
  attempt : Dir → Attempt

/-- `speedtest_loop_detect_cb` with the packets it sends; `none` when it has ended in an exception. -/
def loopDetectCb (K : Kernel) (c : ProbeCall) (l : Skbs) : Skbs × Option Mod :=
  if isSpeedtestTaskRunning c.mod then (l, some c.mod)
  else
    match probeRound K (c.attempt 0) 0 l none with
    | (l, none) => (l, none)
    | (l, some probeSkb) =>
      match probeRound K (c.attempt 1) 1 l probeSkb with
      | (l, none) => (l, none)
      | (l, some _) => (l, some (speedtestLoopDetectCb K c.mod))

/-- The callbacks `cs`, one after the other. -/
def probeCalls (K : Kernel) : List ProbeCall → Skbs → Skbs
  | [], l => l
  | c :: cs, l =>
    match loopDetectCb K c l with
    | (l, none) => l
    | (l, some _) => probeCalls K cs l

/-- Every packet sent has been built in the same round, and no packet is live. -/
structure Skbs.Balanced (l : Skbs) : Prop where
  sends : ∀ s ∈ l.sends, s.made ≠ none ∧ s.stSkb = s.made
  live : l.live = []

/-- The callback ends in an exception, or leaves the data of the module as `speedtestLoopDetectCb` says. -/
theorem loopDetectCb_mod {K : Kernel} {c : ProbeCall} {l : Skbs} {m : Mod} (h : (loopDetectCb K c l).2 = some m) :
    m = speedtestLoopDetectCb K c.mod := by
  simp only [loopDetectCb] at h
  split at h
  · rename_i hrun
    rw [speedtestLoopDetectCb, if_pos hrun]
    exact (Option.some.inj h).symm
  · split at h
    · cases h
    · split at h
      · cases h
      · exact (Option.some.inj h).symm

/-! ### What becomes of the packets -/

section Live
variable {K : Kernel} {a : Attempt} {d : Dir} {l l' : Skbs} {probeSkb : Option Nat}

theorem allocated_not_settled (l : Skbs) : l.allocated ∉ l.accepted ++ l.freed := fun h =>
  Nat.lt_irrefl _ (l.settled_lt _ h)

theorem live_alloc (l : Skbs) : l.alloc.live = l.live ++ [l.allocated] := by
  rw [Skbs.live, Skbs.alloc, List.range_succ, List.filter_append]
  congr 1
  simpa using allocated_not_settled l

theorem live_clone (l : Skbs) (xmit : Bool) : (l.clone xmit).live = l.live := by
  have hmem (i : Nat) : i ∈ (l.clone xmit).accepted ++ (l.clone xmit).freed ↔
      i ∈ l.accepted ++ l.freed ∨ i = l.allocated := by
    cases xmit <;> simp [Skbs.clone] <;> tauto
  rw [Skbs.live, show (l.clone xmit).allocated = l.allocated + 1 from rfl, List.range_succ, List.filter_append]
  have hlast : [l.allocated].filter (fun i => i ∉ (l.clone xmit).accepted ++ (l.clone xmit).freed) = [] := by
    simp [hmem]
  rw [hlast, List.append_nil, Skbs.live]
  refine List.filter_congr fun i hi => ?_
  have hne : i ≠ l.allocated := (List.mem_range.mp hi).ne
  simp only [hmem, hne, or_false]

theorem sendSpeedtestPkt_live {ret : Int} (h : sendSpeedtestPkt a l probeSkb = some (l', ret)) :
    l'.live = l.live ∧ l'.sends = l.sends := by
  obtain ⟨-, -, he⟩ := Option.map_eq_some_iff.mp h
  split at he <;> obtain ⟨rfl, -⟩ := Prod.mk.inj he
  · exact ⟨live_clone l a.xmit, rfl⟩
  · exact ⟨rfl, rfl⟩

/-- A round keeps the packet it builds. -/
theorem probeRound_live (l : Skbs) (probeSkb : Option Nat) :
    (probeRound K a d l probeSkb).1.live = l.live ++ (a.made K d l).toList ∧
      (probeRound K a d l probeSkb).1.sends = l.sends ++ [⟨(a.made K d l).or probeSkb, a.made K d l⟩] := by
  have hmade : (if (a.made K d l).isSome = true then l.alloc else l).live = l.live ++ (a.made K d l).toList ∧
      (if (a.made K d l).isSome = true then l.alloc else l).sends = l.sends := by
    rw [Attempt.made]
    split
    · exact ⟨live_alloc l, rfl⟩
    · exact ⟨(List.append_nil _).symm, rfl⟩
  simp only [probeRound]
  split
  · refine ⟨hmade.1, ?_⟩
    rw [Skbs.log, hmade.2]
  · rename_i l' ret hsend
    obtain ⟨hlive, hsends⟩ := sendSpeedtestPkt_live hsend
    refine ⟨hlive.trans hmade.1, hsends.trans ?_⟩
    rw [Skbs.log, hmade.2]

/-- A packet is built if and only if there is a device and memory. -/
theorem Attempt.made_isSome : (a.made K d l).isSome = true ↔
    (a.devGetByName ("eth0." ++ toString (getSpeedtestPortByIndex d).toNat)).isSome = true ∧ a.alloc = true := by
  rw [Attempt.made]
  cases hdev : a.devGetByName ("eth0." ++ toString (getSpeedtestPortByIndex d).toNat) with
  | none =>
    have hmade : makeSpeedtestPkt K a.devGetByName a.alloc (getSpeedtestPortByIndex d) (1280 : Nat) = some none := by
      simp only [makeSpeedtestPkt, hdev]
    rw [hmade]
    simp
  | some dev =>
    cases halloc : a.alloc with
    | false =>
      have hmade : makeSpeedtestPkt K a.devGetByName false (getSpeedtestPortByIndex d) (1280 : Nat) = some none := by
        simp only [makeSpeedtestPkt, hdev, Bool.false_eq_true, if_false]
      rw [hmade]
      simp
    | true =>
      obtain ⟨skb, hmade, -⟩ := makeSpeedtestPkt_frame K hdev (n := 1280) (by decide) (by decide) rfl rfl
      rw [hmade]
      simp

end Live

/-! ### Runs of the callback -/

/-- What has been sent and what is live stays so. -/
structure Skbs.Grows (l l' : Skbs) : Prop where
  sends : l.sends <+: l'.sends
  live : l.live <+: l'.live

namespace Skbs.Grows
variable {K : Kernel} {l l' l'' : Skbs}

theorem refl (l : Skbs) : l.Grows l := ⟨List.prefix_refl _, List.prefix_refl _⟩

theorem trans (h : l.Grows l') (h' : l'.Grows l'') : l.Grows l'' := ⟨h.sends.trans h'.sends, h.live.trans h'.live⟩

theorem balanced (h : l.Grows l') (hb : l'.Balanced) : l.Balanced where
  sends s hs := hb.sends s (h.sends.subset hs)
  live := List.prefix_nil.mp (hb.live ▸ h.live)

theorem probeRound (a : Attempt) (d : Dir) (l : Skbs) (probeSkb : Option Nat) :
    l.Grows (probeRound K a d l probeSkb).1 := by
  obtain ⟨hlive, hsends⟩ := probeRound_live (K := K) (a := a) (d := d) l probeSkb
  exact ⟨hsends ▸ List.prefix_append _ _, hlive ▸ List.prefix_append _ _⟩

/-- Behind the first round. -/
theorem loopDetectCb {c : ProbeCall} (hrun : isSpeedtestTaskRunning c.mod = false) (l : Skbs) :
    (Speedtest.probeRound K (c.attempt 0) 0 l none).1.Grows (loopDetectCb K c l).1 := by
  simp only [Speedtest.loopDetectCb, hrun, Bool.false_eq_true, if_false]
  split
  · rename_i hfirst
    rw [hfirst]
    exact refl _
  · rename_i l₁ probeSkb hfirst
    rw [hfirst]
    have hsecond := probeRound (K := K) (c.attempt 1) 1 l₁ probeSkb
    split <;> rename_i hround <;> rw [hround] at hsecond <;> exact hsecond

theorem probeCalls (cs : List ProbeCall) (l : Skbs) : l.Grows (probeCalls K cs l) := by
  induction cs generalizing l with
  | nil => exact refl l
  | cons c cs ih =>
    have hfirst : l.Grows (Speedtest.loopDetectCb K c l).1 := by
      cases hrun : isSpeedtestTaskRunning c.mod with
      | true =>
        rw [Speedtest.loopDetectCb, if_pos hrun]
        exact refl l
      | false => exact (probeRound _ _ _ _).trans (loopDetectCb hrun l)
    rw [Speedtest.probeCalls]
    split <;> rename_i hcb <;> rw [hcb] at hfirst
    · exact hfirst
    · exact hfirst.trans (ih _)

end Skbs.Grows

/-- The first round sends a packet that it keeps, or none. -/
theorem probeRound_unbalanced {K : Kernel} {a : Attempt} {d : Dir} {l : Skbs} :
    ¬ (probeRound K a d l none).1.Balanced := by
  obtain ⟨hlive, hsends⟩ := probeRound_live (K := K) (a := a) (d := d) l none
  intro hb
  cases hmade : a.made K d l with
  | none =>
    rw [hmade] at hsends
    exact (hb.sends _ (by rw [hsends]; exact List.mem_append_right _ (List.mem_singleton_self _))).1 rfl
  | some skb =>
    have hnil := hb.live
    rw [hlive, hmade] at hnil
    simp at hnil

/-- The callbacks balance their packets if and only if each of them finds a task running. -/
theorem probe_balanced (K : Kernel) (cs : List ProbeCall) :
    (probeCalls K cs .empty).Balanced ↔ ∀ c ∈ cs, isSpeedtestTaskRunning c.mod = true := by
  have hempty : Skbs.empty.Balanced := ⟨fun s hs => absurd hs List.not_mem_nil, rfl⟩
  generalize Skbs.empty = l at hempty
  induction cs with
  | nil => exact ⟨fun _ c hc => absurd hc List.not_mem_nil, fun _ => hempty⟩
  | cons c cs ih =>
    rw [List.forall_mem_cons, probeCalls]
    cases hrun : isSpeedtestTaskRunning c.mod with
    | true =>
      rw [loopDetectCb, if_pos hrun]
      exact ih.trans (by simp)
    | false =>
      refine iff_of_false (fun hb => ?_) (by simp)
      have hfirst : (loopDetectCb K c l).1.Balanced := by
        revert hb
        split <;> rename_i hcb <;> rw [hcb]
        · exact id
        · exact (Skbs.Grows.probeCalls cs _).balanced
      exact probeRound_unbalanced ((Skbs.Grows.loopDetectCb hrun l).balanced hfirst)

def probeAll : ProbeCall := ⟨(start kernel32 1000).mod, fun _ => ⟨fun _ => some ⟨16, 0⟩, true, true, true⟩⟩

def probeNone : ProbeCall := ⟨(start kernel32 1000).mod, fun _ => ⟨fun _ => none, true, true, true⟩⟩

/-- Where all calls succeed, both packets built stay live; without a device the first call sends `NULL`. -/
theorem probe_unbalanced : (probeCalls kernel32 [probeAll] .empty).live = [0, 2] ∧
    (probeCalls kernel32 [probeNone] .empty).sends = [⟨none, none⟩] ∧
    ¬ ∀ cs, (probeCalls kernel32 cs .empty).Balanced := by
  have hlive : (probeCalls kernel32 [probeAll] .empty).live = [0, 2] := by decide +kernel
  refine ⟨hlive, by decide +kernel, fun h => ?_⟩
  have hnil := (h [probeAll]).live
  rw [hlive] at hnil
  cases hnil

end QuickStart.Speedtest
