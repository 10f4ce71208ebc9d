import QuickStart.Speedtest.Status
import QuickStart.Speedtest.Window

/-! # What the script waits for

`speedtest.sh` starts a test when it finds `READY_3` in what `speedtest_proc_show` prints. The rest of the page does
not get in its way, and behind the number stand the probes that have come back since the last test was started. -/

namespace QuickStart.Speedtest
open State

/-- `grep "READY_3"` finds a line of the page. -/
def GrepReady (page : String) : Prop := "READY_3".toList <:+: page.toList

instance (page : String) : Decidable (GrepReady page) :=
  inferInstanceAs (Decidable ("READY_3".toList <:+: page.toList))

/-- The next statement is `st_ready = 0` of a command. -/
def Ctl.clearsReady : Ctl → Bool
  | .cmd _ .ready => true
  | _ => false

/-- When the latest probe of each direction was taken, since the last command that started a test. -/
def returned (s : State) (e : Event) (h : Probes) : Probes :=
  match e with
  | .rxHook i =>
    match s.rxCalls[i]? with
    | some (.rcvSpeedtestProbePkt, skb) =>
      if isSpeedtestTaskRunning s.mod then h else skb.dir.elim h fun d => Function.update h d (some s.mod.jiffies)
    | _ => h
  | .ctl _ => if s.ctl.clearsReady then fun _ => none else h
  | _ => h

/-! ### The page -/

/-- The string has no `Y`, which `READY_` alone has. -/
def Plain (s : String) : Prop := 'Y' ∉ s.toList

instance (s : String) : Decidable (Plain s) := inferInstanceAs (Decidable ('Y' ∉ s.toList))

theorem plain_append {s t : String} : Plain (s ++ t) ↔ Plain s ∧ Plain t := by
  unfold Plain
  rw [String.toList_append, List.mem_append, not_or]

theorem plain_repr (n : Nat) : Plain n.repr := by
  unfold Plain
  rw [Nat.toList_repr]
  intro h
  exact absurd (Nat.isDigit_of_mem_toDigits (by decide) (by decide) h) (by decide)

theorem plain_nat (n : Nat) : Plain (toString n) := plain_repr n

theorem plain_int (z : Int) : Plain (toString z) := by
  rw [Int.toString_eq_repr, Int.repr_eq_if]
  split
  · exact plain_repr _
  · exact plain_append.mpr ⟨by decide, plain_repr _⟩

theorem mem_toDigits {n : Nat} {c : Char} (h : c ∈ Nat.toDigits 16 n) : ∃ d < 16, c = Nat.digitChar d := by
  induction n using Nat.strong_induction_on with
  | _ n ih =>
    rw [Nat.toDigits_eq_if (by decide)] at h
    split at h
    · exact ⟨n, ‹_›, List.mem_singleton.mp h⟩
    · rcases List.mem_append.mp h with h | h
      · exact ih (n / 16) (by omega) h
      · exact ⟨n % 16, Nat.mod_lt n (by decide), List.mem_singleton.mp h⟩

theorem plain_hex4 (n : Nat) : Plain (hex4 n) := by
  have hdigit : ∀ d < 16, Nat.digitChar d ≠ 'Y' := by decide
  refine plain_append.mpr ⟨by decide, ?_⟩
  unfold Plain
  rw [String.toList_ofList, List.leftpad, List.mem_append]
  rintro (h | h)
  · exact absurd (List.eq_of_mem_replicate h) (by decide)
  · obtain ⟨d, hd, he⟩ := mem_toDigits h
    exact hdigit d hd he.symm

theorem plain_str (st : RunningState) : Plain st.str := by
  cases st <;> decide

theorem plain_configLines (m : Mod) (d : Dir) : Plain (configLines m d) := by
  have henable := plain_int (m.stCfg d).enable.toInt
  unfold configLines
  dsimp only
  generalize toString (m.stCfg d).enable.toInt = enable at henable ⊢
  simp only [plain_append, plain_nat, henable, and_true]
  decide

theorem plain_statusLines {K : Kernel} {m : Mod} {d : Dir} {t : String} (h : statusLines K m d = some t) : Plain t := by
  unfold statusLines at h
  dsimp only at h
  split at h
  · cases h
  · obtain rfl := Option.some.inj h
    simp only [plain_append, plain_nat, plain_str, plain_hex4, and_true]
    decide

/-- Behind the first line the page is plain. -/
theorem speedtestProcShow_eq {K : Kernel} {m : Mod} {page : String} (h : speedtestProcShow K m = some page) :
    ∃ rest, page.toList = "SPEEDTEST STATUS: READ".toList ++ 'Y' :: '_' :: (Nat.toDigits 10 m.stReady ++ '\n' :: rest) ∧
      'Y' ∉ rest := by
  unfold speedtestProcShow at h
  obtain ⟨s0, hs0, h⟩ := Option.bind_eq_some_iff.mp h
  obtain ⟨s1, hs1, h⟩ := Option.bind_eq_some_iff.mp h
  obtain rfl := Option.some.inj h
  have hrest : Plain (s0 ++ s1 ++ "\n\n" ++ configLines m 0 ++ configLines m 1) := by
    simp only [plain_append, plain_statusLines hs0, plain_statusLines hs1, plain_configLines, and_true]
    decide
  refine ⟨_, ?_, hrest⟩
  have hhead : "SPEEDTEST STATUS: READY_".toList = "SPEEDTEST STATUS: READ".toList ++ ['Y', '_'] := by decide
  have hend : "\n".toList = ['\n'] := by decide
  simp only [String.toList_append, hhead, hend, Nat.toString_eq_repr, Nat.toList_repr, List.append_assoc,
    List.cons_append, List.nil_append]

/-- The page has a `READY_3` if and only if the number behind its `READY_` begins with a 3. -/
theorem grepReady_iff {K : Kernel} {m : Mod} {page : String} (h : speedtestProcShow K m = some page)
    (hready : m.stReady ≤ 3) : GrepReady page ↔ m.stReady = 3 := by
  obtain ⟨rest, hpage, hrest⟩ := speedtestProcShow_eq h
  have hdigit : Nat.toDigits 10 m.stReady = [Nat.digitChar m.stReady] := Nat.toDigits_of_lt_base (by omega)
  rw [hdigit] at hpage
  have hneedle : "READY_3".toList = "READ".toList ++ 'Y' :: ['_', '3'] := by decide
  have hfront : 'Y' ∉ "SPEEDTEST STATUS: READ".toList := by decide
  unfold GrepReady
  rw [hpage, hneedle]
  constructor
  · rintro ⟨a, b, hab⟩
    -- The only `Y` of the page is the one in front of the number.
    have hrest' : 'Y' ∉ '_' :: ([Nat.digitChar m.stReady] ++ '\n' :: rest) := by
      have hnumber : Nat.digitChar m.stReady ≠ 'Y' :=
        (by decide : ∀ n ≤ 3, Nat.digitChar n ≠ 'Y') m.stReady hready
      simp [hrest, hnumber.symm]
    have hsplit : (a ++ "READ".toList) ++ 'Y' :: (['_', '3'] ++ b) =
        "SPEEDTEST STATUS: READ".toList ++ 'Y' :: '_' :: ([Nat.digitChar m.stReady] ++ '\n' :: rest) := by
      rw [← hab]
      simp only [List.append_assoc, List.cons_append]
    obtain ⟨-, -, hback⟩ := (List.append_cons_inj_of_notMem hfront hrest').mp hsplit.symm
    have hthree : Nat.digitChar m.stReady = '3' := (List.cons.inj (List.cons.inj hback).2).1
    exact (by decide : ∀ n ≤ 3, Nat.digitChar n = '3' → n = 3) m.stReady hready hthree
  · intro h3
    refine ⟨"SPEEDTEST STATUS: ".toList, '\n' :: rest, ?_⟩
    rw [h3]
    have hsplit : "SPEEDTEST STATUS: READ".toList = "SPEEDTEST STATUS: ".toList ++ "READ".toList := by decide
    rw [hsplit]
    simp only [List.append_assoc, List.cons_append, List.nil_append]
    rfl

/-! ### The probes behind it -/

/-- The bits of `st_ready` are bits of directions that have been probed. -/
def Backed (s : State) (h : Probes) : Prop := s.mod.stReady ||| h.bits = h.bits

theorem bits_le (h : Probes) : h.bits ≤ 3 := by
  cases h₀ : (h 0).isSome <;> cases h₁ : (h 1).isSome <;> simp [Probes.bits, h₀, h₁]

theorem Backed.le {s : State} {h : Probes} (hb : Backed s h) : s.mod.stReady ≤ 3 := by
  have hle : s.mod.stReady ≤ s.mod.stReady ||| h.bits := Nat.left_le_or
  rw [hb] at hle
  exact hle.trans (bits_le h)

theorem Backed.all {s : State} {h : Probes} (hb : Backed s h) (hready : s.mod.stReady = 3) : ∀ d, h d ≠ none := by
  have hle : s.mod.stReady ≤ s.mod.stReady ||| h.bits := Nat.left_le_or
  rw [hb, hready] at hle
  exact bits_eq_three.mp (le_antisymm (bits_le h) hle)

/-- What has cleared `st_ready` or left it. -/
theorem Backed.of_ready {s t : State} {h : Probes} (hb : Backed s h)
    (hready : t.mod.stReady = s.mod.stReady ∨ t.mod.stReady = 0) : Backed t h := by
  unfold Backed at *
  rcases hready with he | he <;> rw [he]
  · exact hb
  · exact Nat.zero_or _

theorem speedtestLoopDetectCb_clears (K : Kernel) (m : Mod) :
    (speedtestLoopDetectCb K m).stReady = m.stReady ∨ (speedtestLoopDetectCb K m).stReady = 0 := by
  unfold speedtestLoopDetectCb armLoopDetectTimer
  dsimp only
  split
  · exact Or.inl rfl
  · split <;> split
    · exact Or.inr rfl
    · exact Or.inl rfl
    · exact Or.inr rfl
    · exact Or.inl rfl

theorem computePkt_ready (m : Mod) (skb : Skb) : (computePkt m skb).stReady = m.stReady := by
  rw [computePkt_eq]

theorem bodyStep_ready {K : Kernel} {stop : Bool} {x : Input} {m m' : Mod} {b b' : Body}
    (hs : bodyStep K stop x m b = some (m', b')) : m'.stReady = m.stReady ∨ m'.stReady = 0 := by
  cases bodyStep_executes hs with
  | sends d h => exact Or.inl rfl
  | computes h =>
    cases h with
    | counts => exact Or.inl (computePkt_ready _ _)
    | clearsReady => exact Or.inr rfl
    | _ => exact Or.inl rfl

theorem clearsReady_of_stopping {ctl : Ctl} {sl : Slot} {p : StopPc} (h : ctl.stopping = some (sl, p)) :
    ctl.clearsReady = false := by
  rcases ctl with _ | ⟨c, pc⟩ | pc | _ | _ <;> try cases h
  · cases pc <;> cases h <;> rfl
  · rfl

theorem clearsReady_of_wakes {ctl : Ctl} {sl : Slot} (h : ctl.wakes = some sl) : ctl.clearsReady = false := by
  generalize h' : ctl.afterWake = ctl'
  cases afterWake_wakes h h' <;> rfl

theorem Acts.ready {s t : State} {ok : Bool} (ha : Acts s ok t) :
    t.mod.stReady = if s.ctl.clearsReady then 0 else s.mod.stReady := by
  cases ha with
  | readies c hctl =>
    rw [hctl]
    rfl
  | leaves sl hstop | stays sl hstop | faults sl hstop =>
    rw [clearsReady_of_stopping hstop]
    rfl
  | tells sl tid hstop | waited sl tid hstop =>
    rw [clearsReady_of_stopping hstop]
    rfl
  | wakes sl tid hwakes =>
    rw [clearsReady_of_wakes hwakes]
    rfl
  | wakesNone sl hwakes =>
    rw [clearsReady_of_wakes hwakes]
    rfl
  | parses c d hctl | rejects c d hctl | clears c d hctl | skips c d hctl | creates c d hctl | fails c d hctl =>
    rw [hctl]
    rfl
  | installs c hctl | createsComp c hctl | failsComp c hctl =>
    rw [hctl]
    rfl
  | returns c ret hctl =>
    rw [hctl]
    rfl
  | delTimer hctl | removeProc hctl | rxNull hctl | txNull hctl | fifoFree hctl =>
    rw [hctl]
    rfl

theorem or_backed {a b : Nat} (h : a ||| b = b) (r : Nat) : (a ||| r) ||| (b ||| r) = b ||| r := by
  calc (a ||| r) ||| (b ||| r) = (a ||| b) ||| (r ||| r) := by ac_rfl
    _ = b ||| r := by rw [h, Nat.or_self]

theorem Backed.step {K : Kernel} {s t : State} {h : Probes} (hb : Backed s h) {e : Event} (hs : step K s e = some t) :
    Backed t (returned s e h) := by
  cases step_steps hs with
  | runs hr =>
    obtain ⟨-, -, hbody, rfl⟩ := hr
    exact hb.of_ready (bodyStep_ready hbody)
  | acts ha =>
    have hready := ha.ready
    unfold returned
    dsimp only
    split at hready
    · unfold Backed
      rw [hready, Nat.zero_or]
    · rename_i hctl
      rw [if_neg hctl]
      exact hb.of_ready (Or.inl hready)
  | calls hcall =>
    rename_i i r
    obtain ⟨hook, skb⟩ := r
    cases hook with
    | null =>
      have hhist : returned s (.rxHook i) h = h := by simp only [returned, hcall]
      rw [hhist]
      exact hb.of_ready (Or.inl rfl)
    | fastRcvSpeedtestPkt =>
      have hhist : returned s (.rxHook i) h = h := by simp only [returned, hcall]
      rw [hhist]
      refine hb.of_ready (Or.inl ?_)
      show (kfifoIn s.mod skb).stReady = s.mod.stReady
      unfold kfifoIn
      split <;> rfl
    | rcvSpeedtestProbePkt =>
      cases hrun : isSpeedtestTaskRunning s.mod with
      | true =>
        have hhist : returned s (.rxHook i) h = h := by simp only [returned, hcall, hrun, if_true]
        rw [hhist]
        refine hb.of_ready (Or.inl ?_)
        show (rcvSpeedtestProbePkt s.mod skb).1.stReady = s.mod.stReady
        rw [rcvSpeedtestProbePkt, hrun, if_pos rfl]
      | false =>
        have hready : (rcvSpeedtestProbePkt s.mod skb).1.stReady = _ := rcvSpeedtestProbePkt_ready hrun skb
        unfold Backed
        show (rcvSpeedtestProbePkt s.mod skb).1.stReady ||| _ = _
        rw [hready]
        simp only [returned, hcall, hrun, Bool.false_eq_true, if_false]
        cases skb.dir with
        | none => exact hb
        | some d =>
          rw [Option.elim_some, Option.elim_some, bits_update]
          exact or_backed hb (readyBit d)
  | transmits data dev => exact hb.of_ready (Or.inl (xmitSpeedtestPkt_ready _ _ _))
  | expires => exact hb.of_ready (speedtestLoopDetectCb_clears K _)
  | begins | unloads | receives | passes | ticks => exact hb.of_ready (Or.inl rfl)

/-- Whenever the page can be printed, `grep` finds `READY_3` in it exactly if both directions count as detected, and
    then a probe of each direction has been taken since the last command that started a test, or since the module was
    loaded. -/
theorem ready_shown {K : Kernel} {s : State} {h : Probes}
    (hr : ((lts K).track returned fun _ => none).Reachable (s, h)) {page : String}
    (hpage : speedtestProcShow K s.mod = some page) :
    (GrepReady page ↔ s.mod.stReady = 3) ∧ (GrepReady page → ∀ d, h d ≠ none) := by
  have hb : Backed s h := by
    refine hr.track_invariant (I := Backed) ?_ fun s h e t hb _ hs => hb.step hs
    rintro _ ⟨j, -, rfl⟩
    rfl
  have hiff := grepReady_iff hpage hb.le
  exact ⟨hiff, fun hg => hb.all (hiff.mp hg)⟩

/-- A probe of each direction, ten seconds after the counter was 0. -/
def probeRun : List Event :=
  [.receive pkt42, .rxHook 0, .receive (List.replicate 6 0x80 ++ st1Mac ++ [0x08, 0x00]), .rxHook 0]

theorem ready_shown_probeRun : ∃ s h page, ((lts kernel32).track returned fun _ => none).Reachable (s, h) ∧
    speedtestProcShow kernel32 s.mod = some page ∧ GrepReady page ∧ ∀ d, h d ≠ none := by
  have hrun : (((lts kernel32).track returned fun _ => none).runIf (fun _ _ => True)
      (Speedtest.start kernel32 1000, fun _ => none) probeRun).any
      (fun x => x.1.mod.stReady == 3 && decide (∀ d, divisor kernel32 x.1.mod d ≠ 0)) = true := by decide +kernel
  obtain ⟨⟨s, h⟩, hr, hp⟩ := Lts.exists_reach_of_runIf hrun ⟨⟨1000, by decide, rfl⟩, rfl⟩
  simp only [Bool.and_eq_true, beq_iff_eq, decide_eq_true_eq] at hp
  obtain ⟨page, hpage⟩ := Option.isSome_iff_exists.mp (speedtestProcShow_isSome.mpr hp.2)
  obtain ⟨hiff, hprobes⟩ := ready_shown hr hpage
  exact ⟨s, h, page, hr, hpage, hiff.mpr hp.1, hprobes (hiff.mpr hp.1)⟩

end QuickStart.Speedtest
