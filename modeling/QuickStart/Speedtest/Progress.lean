import QuickStart.Speedtest.Manned
import QuickStart.Speedtest.Writes

/-! # The progress of a command that starts a test

What such a command has reached at each of its statements: the numbers are stored, the statuses are cleared, the
senders are there and waiting, and then they are woken. -/

namespace QuickStart.Speedtest
open State

/-! ### The phases of a command -/

namespace CmdPc

/-- A command that starts a test is never elsewhere. -/
def straight : CmdPc → Bool
  | .stop _ p | .stopComp p => p == .test
  | .abort _ _ => false
  | .out ret => ret == 0
  | _ => true

/-- The numbers are in the configuration of the direction. -/
def parsed : CmdPc → Dir → Bool
  | .parse e, d => d < e
  | _, _ => true

/-- `if(st_cfg[i].enable)` is still to come for the direction. -/
def untested : CmdPc → Dir → Bool
  | .parse _, _ | .stop _ _, _ => true
  | .clear e, d => e ≤ d
  | .create e, d => e < d
  | _, _ => false

/-- The status of the direction has been cleared. -/
def cleared : CmdPc → Dir → Bool
  | .parse _, _ | .stop _ _, _ => false
  | .clear e, d => d < e
  | .create e, d => d ≤ e
  | _, _ => true

/-- The sender of the direction has been created. -/
def created : CmdPc → Dir → Bool
  | .parse _, _ | .stop _ _, _ => false
  | .clear e, d | .create e, d => d < e
  | _, _ => true

/-- The statements before the command returns, when it starts a test. -/
def left : CmdPc → Nat
  | .parse d => 15 - d
  | .stop d _ => 13 - d
  | .clear d => 11 - 2 * d
  | .create d => 10 - 2 * d
  | .hook => 7
  | .ready => 6
  | .stopComp _ => 5
  | .createComp => 4
  | .wakeComp => 3
  | .start d => 2 - d
  | .abort _ _ | .out _ => 0

/-- The compute thread has been created. -/
def counted : CmdPc → Bool
  | .wakeComp | .start _ | .abort _ _ | .out _ => true
  | _ => false

/-- The sender of the direction has been woken. -/
def started : CmdPc → Dir → Bool
  | .start e, d => d < e
  | .out _, _ => true
  | _, _ => false

end CmdPc

/-- What a command with five numbers and `enable` set has reached. -/
structure Progress (s : State) (c : Command) (pc : CmdPc) : Prop where
  params : ∀ d, pc.parsed d = true → (s.mod.stCfg d).durTime = c.nums.getD 1 0 ∧
    (s.mod.stCfg d).speed = c.nums.getD 2 0 ∧ (s.mod.stCfg d).pktSize = c.nums.getD 3 0
  enabled : ∀ d, pc.parsed d = true → pc.untested d = true → (s.mod.stCfg d).enable = c.nums.getD 0 0 ∧
    ∀ th ∈ s.threads, th.body.willDisable d = false
  clean : ∀ d, pc.cleared d = true → ∀ (i : Nat) (th : Thread), s.threads[i]? = some th → i < c.base →
    th.body.willWrite d = false
  zero : ∀ d, pc.cleared d = true →
    (∀ (i : Nat) (th : Thread), s.threads[i]? = some th → c.base ≤ i →
      th.body.slot = .sender d ∨ th.body.slot = .compute → th.body.begun = false) → (s.mod.stCfg d).status = .zero
  made : ∀ d, pc.created d = true → ∃ (i : Nat) (th : Thread), s.threads[i]? = some th ∧ c.base ≤ i ∧
    th.body.slot = .sender d ∧ (th.body.begun = false → s.mod.ptr (.sender d) = .task i) ∧
    (pc.started d = false → th = ⟨.fresh (.sender d), false, false⟩) ∧ (pc.started d = true → th.woken = true)
  comp : pc = .wakeComp → ∃ i : Nat, s.threads[i]? = some ⟨.fresh .compute, false, false⟩
  senders : pc.counted = false → ∀ (i : Nat) (th : Thread), s.threads[i]? = some th → c.base ≤ i →
    th.body.slot ≠ .compute
  straight : pc.straight = true

namespace Progress
variable {K : Kernel} {s t : State} {c : Command} {pc : CmdPc} {d : Dir}

theorem ran (h : Progress s c pc) (hheld : Held s) {tid : Nat} {x : Input} {th : Thread} {m : Mod} {b : Body}
    (hr : Ran K s t tid x th m b) : Progress t c pc := by
  obtain ⟨hth, hwoken, hb, rfl⟩ := hr
  have hmem := List.mem_of_getElem? hth
  have kept (d : Dir) : CfgKept d s.mod m th.body b := bodyStep_kept d hb
  constructor
  · intro d hd
    obtain ⟨hdur, hspeed, hsize⟩ := h.params d hd
    exact ⟨(kept d).durTime.trans hdur, (kept d).speed.trans hspeed, (kept d).pktSize.trans hsize⟩
  · intro d hd hu
    obtain ⟨hen, hnone⟩ := h.enabled d hd hu
    refine ⟨((kept d).enable (hnone th hmem)).trans hen, fun th' hm => ?_⟩
    rcases List.mem_or_eq_of_mem_set hm with hm | rfl
    · exact hnone th' hm
    · by_contra hdis
      have := (kept d).disable (by simpa using hdis)
      rw [hnone th hmem] at this
      cases this
  · intro d hd i th' hi hlt
    rcases Calls.getElem?_set_cases hi with ⟨rfl, rfl⟩ | ⟨-, hi⟩
    · by_contra hw
      have := (kept d).write (by simpa using hw)
      rw [h.clean d hd i th hth hlt] at this
      cases this
    · exact h.clean d hd i th' hi hlt
  · intro d hd hnew
    have hset : (s.threads.set tid { th with body := b })[tid]? = some { th with body := b } :=
      List.getElem?_set_self (List.getElem?_eq_some_iff.mp hth).1
    -- A thread of this test that counts for the direction would have begun with the step.
    have hother : c.base ≤ tid → ¬ (th.body.slot = .sender d ∨ th.body.slot = .compute) := by
      intro hge hsl
      have := hnew tid _ hset hge (by rw [(bodyStep_ptr hb).1]; exact hsl)
      rw [show ({ th with body := b } : Thread).body = b from rfl, bodyStep_begun hb] at this
      cases this
    have hkeep : th.body.willWrite d = false := by
      by_cases hlt : tid < c.base
      · exact h.clean d hd tid th hth hlt
      · obtain ⟨hsend, hcomp⟩ := not_or.mp (hother (Nat.le_of_not_lt hlt))
        exact not_willWrite hsend hcomp
    rw [(kept d).status hkeep]
    refine h.zero d hd fun i th' hi hge hsl => ?_
    by_cases hit : i = tid
    · subst hit
      rw [hth] at hi
      obtain rfl := Option.some.inj hi
      exact absurd hsl (hother hge)
    · exact hnew i th' (by rw [List.getElem?_set_ne (Ne.symm hit)]; exact hi) hge hsl
  · intro d hd
    obtain ⟨i, th', hi, hge, hsl, hptr, hfresh, hstarted⟩ := h.made d hd
    by_cases hit : i = tid
    · subst hit
      rw [hth] at hi
      obtain rfl := Option.some.inj hi
      refine ⟨i, { th with body := b }, List.getElem?_set_self (List.getElem?_eq_some_iff.mp hth).1, hge,
        (bodyStep_ptr hb).1.trans hsl, fun hbegun => ?_, fun hno => ?_, fun _ => hwoken⟩
      · rw [show ({ th with body := b } : Thread).body = b from rfl, bodyStep_begun hb] at hbegun
        cases hbegun
      · rw [hfresh hno] at hwoken
        cases hwoken
    · refine ⟨i, th', by rw [List.getElem?_set_ne (Ne.symm hit)]; exact hi, hge, hsl, fun hbegun => ?_, hfresh, hstarted⟩
      rcases (bodyStep_ptr hb).2 with ⟨hp, -⟩ | ⟨hholds, -, hp⟩
      · rw [hp]
        exact hptr hbegun
      · rw [hp, Function.update_of_ne]
        · exact hptr hbegun
        · intro he
          have := hheld.names tid th hth hholds
          rw [← he, hptr hbegun] at this
          exact hit (Ptr.task.inj this)
  · intro hpc
    obtain ⟨i, hi⟩ := h.comp hpc
    refine ⟨i, ?_⟩
    rw [List.getElem?_set_ne]
    · exact hi
    · rintro rfl
      rw [hth] at hi
      obtain rfl := Option.some.inj hi
      cases hwoken
  · intro hc i th' hi hge
    rcases Calls.getElem?_set_cases hi with ⟨rfl, rfl⟩ | ⟨-, hi⟩
    · rw [(bodyStep_ptr hb).1]
      exact h.senders hc i th hth hge
    · exact h.senders hc i th' hi hge
  · exact h.straight

/-- A step of the control that touches neither the configuration nor the threads, within a phase. -/
theorem of_phase (h : Progress s c pc) {pc' : CmdPc} (hcfg : t.mod.stCfg = s.mod.stCfg) (hth : t.threads = s.threads)
    (hparsed : ∀ d, pc'.parsed d = true → pc.parsed d = true)
    (huntested : ∀ d, pc'.untested d = true → pc.untested d = true)
    (hcleared : ∀ d, pc'.cleared d = true → pc.cleared d = true)
    (hcreated : ∀ d, pc'.created d = true → pc.created d = true)
    (hstarted : ∀ d, pc'.started d = pc.started d) (hcounted : pc'.counted = false) (hpc : pc.counted = false)
    (hstraight : pc'.straight = true) : Progress t c pc' where
  params d hd := by
    rw [hcfg]
    exact h.params d (hparsed d hd)
  enabled d hd hu := by
    rw [hcfg, hth]
    exact h.enabled d (hparsed d hd) (huntested d hu)
  clean d hd i th hi := h.clean d (hcleared d hd) i th (hth ▸ hi)
  zero d hd hnew := by
    rw [hcfg]
    exact h.zero d (hcleared d hd) fun i th hi => hnew i th (hth ▸ hi)
  made d hd := by
    rw [hth, hstarted, Mod.ptr, hcfg]
    exact h.made d (hcreated d hd)
  comp he := by
    rw [he] at hcounted
    cases hcounted
  senders _ i th hi := h.senders hpc i th (hth ▸ hi)
  straight := hstraight

theorem parses (h : Progress s c (.parse d)) (hnone : ∀ th ∈ s.threads, th.body.willDisable d = false)
    (hdur : (t.mod.stCfg d).durTime = c.nums.getD 1 0) (hspeed : (t.mod.stCfg d).speed = c.nums.getD 2 0)
    (hsize : (t.mod.stCfg d).pktSize = c.nums.getD 3 0) (hen : (t.mod.stCfg d).enable = c.nums.getD 0 0)
    (hold : ∀ e, e ≠ d → t.mod.stCfg e = s.mod.stCfg e) (hth : t.threads = s.threads) :
    Progress t c (if d = 0 then .parse 1 else .stop 0 .test) := by
  have hcases (e : Dir) (he : (if d = 0 then CmdPc.parse 1 else .stop 0 .test).parsed e = true) :
      e = d ∨ (e ≠ d ∧ (CmdPc.parse d).parsed e = true) := by
    rcases dir_cases d with rfl | rfl <;> rcases dir_cases e with rfl | rfl
    · exact Or.inl rfl
    · cases he
    · exact Or.inr ⟨by decide, rfl⟩
    · exact Or.inl rfl
  constructor
  · intro e he
    rcases hcases e he with rfl | ⟨hne, he⟩
    · exact ⟨hdur, hspeed, hsize⟩
    · rw [hold e hne]
      exact h.params e he
  · intro e he _
    rw [hth]
    rcases hcases e he with rfl | ⟨hne, he⟩
    · exact ⟨hen, hnone⟩
    · rw [hold e hne]
      exact h.enabled e he rfl
  · intro e he
    rcases dir_cases d with rfl | rfl <;> cases he
  · intro e he
    rcases dir_cases d with rfl | rfl <;> cases he
  · intro e he
    rcases dir_cases d with rfl | rfl <;> cases he
  · intro he
    rcases dir_cases d with rfl | rfl <;> cases he
  · intro _ i th hi
    exact h.senders rfl i th (hth ▸ hi)
  · rcases dir_cases d with rfl | rfl <;> rfl

theorem clears (h : Progress s c (.clear d)) (hnone : ∀ th ∈ s.threads, th.body.willWrite d = false)
    (hself : t.mod.stCfg d = { s.mod.stCfg d with status := .zero }) (hold : ∀ e, e ≠ d → t.mod.stCfg e = s.mod.stCfg e)
    (hth : t.threads = s.threads) : Progress t c (.create d) := by
  have hcleared {e : Dir} (he : (CmdPc.create d).cleared e = true) (hne : e ≠ d) : (CmdPc.clear d).cleared e = true := by
    simp only [CmdPc.cleared, decide_eq_true_eq] at he ⊢
    exact lt_of_le_of_ne he hne
  constructor
  · intro e _
    by_cases hne : e = d
    · subst hne
      rw [hself]
      exact h.params e rfl
    · rw [hold e hne]
      exact h.params e rfl
  · intro e _ hu
    have hlt : d < e := by simpa [CmdPc.untested] using hu
    rw [hold e hlt.ne', hth]
    exact h.enabled e rfl (by simpa [CmdPc.untested] using hlt.le)
  · intro e he i th hi hlt
    rw [hth] at hi
    by_cases hne : e = d
    · subst hne
      exact hnone th (List.mem_of_getElem? hi)
    · exact h.clean e (hcleared he hne) i th hi hlt
  · intro e he hnew
    by_cases hne : e = d
    · subst hne
      rw [hself]
    · rw [hold e hne]
      exact h.zero e (hcleared he hne) fun i th hi => hnew i th (hth ▸ hi)
  · intro e he
    have hne : e ≠ d := by
      simp only [CmdPc.created, decide_eq_true_eq] at he
      exact he.ne
    rw [hth, Mod.ptr, hold e hne]
    exact h.made e he
  · intro he
    cases he
  · intro _ i th hi
    exact h.senders rfl i th (hth ▸ hi)
  · rfl

/-- A new thread waits to be woken, for the direction `d` or to count. -/
theorem append (h : Progress s c pc) {c' : Command} {pc' : CmdPc} {sl : Slot} (hnums : c'.nums = c.nums)
    (hbase : c'.base = c.base) (hlen : c.base ≤ s.threads.length)
    (hth : t.threads = s.threads ++ [⟨.fresh sl, false, false⟩])
    (hptr : t.mod.ptr = Function.update s.mod.ptr sl (.task s.threads.length))
    (hcfg : ∀ d, ∃ p, t.mod.stCfg d = { s.mod.stCfg d with task := p })
    (hparsed : ∀ d, pc'.parsed d = true → pc.parsed d = true)
    (huntested : ∀ d, pc'.untested d = true → pc.untested d = true ∧ sl ≠ .sender d)
    (hcleared : ∀ d, pc'.cleared d = true → pc.cleared d = true)
    (hcreated : ∀ d, pc'.created d = true → sl = .sender d ∨ (sl ≠ .sender d ∧ pc.created d = true))
    (hstarted : ∀ d, pc.started d = false ∧ pc'.started d = false)
    (hcomp : pc' = .wakeComp → sl = .compute) (hpc : pc.counted = false) (hcounted : pc'.counted = false → sl ≠ .compute)
    (hstraight : pc'.straight = true) : Progress t c' pc' := by
  have hnew : t.threads[s.threads.length]? = some ⟨.fresh sl, false, false⟩ := by
    rw [hth, List.getElem?_concat_length]
  have hold {i : Nat} {th : Thread} (hi : s.threads[i]? = some th) : t.threads[i]? = some th := by
    rw [hth, List.getElem?_append_left (List.getElem?_eq_some_iff.mp hi).1, hi]
  constructor
  · intro d hd
    obtain ⟨p, hp⟩ := hcfg d
    rw [hp, hnums]
    exact h.params d (hparsed d hd)
  · intro d hd hu
    obtain ⟨p, hp⟩ := hcfg d
    obtain ⟨hu, hne⟩ := huntested d hu
    obtain ⟨hen, hnone⟩ := h.enabled d (hparsed d hd) hu
    rw [hp, hnums, hth]
    refine ⟨hen, fun th hm => ?_⟩
    rcases List.mem_append.mp hm with hm | hm
    · exact hnone th hm
    · obtain rfl := List.mem_singleton.mp hm
      cases sl with
      | compute => rfl
      | sender e =>
        have hde : e ≠ d := fun he => hne (by rw [he])
        simp [Body.willDisable, Body.fresh, hde]
  · intro d hd i th hi hlt
    rw [hbase] at hlt
    rw [hth] at hi
    rcases Calls.getElem?_concat_cases hi with hi | ⟨rfl, -⟩
    · exact h.clean d (hcleared d hd) i th hi hlt
    · omega
  · intro d hd hall
    obtain ⟨p, hp⟩ := hcfg d
    rw [hp]
    exact h.zero d (hcleared d hd) fun i th hi hge => hall i th (hold hi) (hbase ▸ hge)
  · intro d hd
    rcases hcreated d hd with rfl | ⟨hne, hd⟩
    · refine ⟨s.threads.length, _, hnew, hbase ▸ hlen, rfl, fun _ => ?_, fun _ => rfl, fun hs => ?_⟩
      · rw [hptr, Function.update_self]
      · rw [(hstarted d).2] at hs
        cases hs
    · obtain ⟨i, th, hi, hge, hsl, hp, hfresh, -⟩ := h.made d hd
      refine ⟨i, th, hold hi, hbase ▸ hge, hsl, fun hb => ?_, fun _ => hfresh (hstarted d).1, fun hs => ?_⟩
      · rw [hptr, Function.update_of_ne (Ne.symm hne)]
        exact hp hb
      · rw [(hstarted d).2] at hs
        cases hs
  · intro he
    obtain rfl := hcomp he
    exact ⟨_, hnew⟩
  · intro hc i th hi hge
    rw [hth] at hi
    rcases Calls.getElem?_concat_cases hi with hi | ⟨-, rfl⟩
    · exact h.senders hpc i th hi (hbase ▸ hge)
    · rw [slot_fresh]
      exact hcounted hc
  · exact hstraight

/-- A thread of the slot `sl` is woken or told to stop; it is a new sender only when that one is to be started. -/
theorem modify (h : Progress s c pc) {pc' : CmdPc} {sl : Slot} {tid : Nat} {f : Thread → Thread} (hmod : t.mod = s.mod)
    (hth : t.threads = s.threads.modify tid f) (hbody : ∀ th, (f th).body = th.body)
    (hslot : ∃ th, s.threads[tid]? = some th ∧ th.body.slot = sl)
    (hparsed : ∀ d, pc'.parsed d = true → pc.parsed d = true)
    (huntested : ∀ d, pc'.untested d = true → pc.untested d = true)
    (hcleared : ∀ d, pc'.cleared d = true → pc.cleared d = true)
    (hcreated : ∀ d, pc'.created d = true → pc.created d = true ∧ ((sl ≠ .sender d ∧ pc'.started d = pc.started d) ∨
      (sl = .sender d ∧ s.mod.ptr sl = .task tid ∧ pc.started d = false ∧ pc'.started d = true ∧
        ∀ th, (f th).woken = true)))
    (hcomp : pc' ≠ .wakeComp) (hcounted : pc'.counted = false → pc.counted = false) (hstraight : pc'.straight = true) :
    Progress t c pc' := by
  have hbodies : SameBodies s t := .of_modify hth hbody
  have hthread {i : Nat} {th : Thread} (hi : s.threads[i]? = some th) :
      t.threads[i]? = some (if tid = i then f th else th) := by
    rw [hth, List.getElem?_modify, hi]
    rfl
  constructor
  · intro d hd
    rw [hmod]
    exact h.params d (hparsed d hd)
  · intro d hd hu
    obtain ⟨hen, hnone⟩ := h.enabled d (hparsed d hd) (huntested d hu)
    rw [hmod]
    refine ⟨hen, fun th hm => ?_⟩
    obtain ⟨i, hi⟩ := List.mem_iff_getElem?.mp hm
    obtain ⟨th', hi', hb⟩ := hbodies i th hi
    exact hb ▸ hnone th' (List.mem_of_getElem? hi')
  · intro d hd i th hi hlt
    obtain ⟨th', hi', hb⟩ := hbodies i th hi
    exact hb ▸ h.clean d (hcleared d hd) i th' hi' hlt
  · intro d hd hall
    rw [hmod]
    refine h.zero d (hcleared d hd) fun i th hi hge hsl => ?_
    have := hall i _ (hthread hi) hge
    split at this
    · rw [hbody] at this
      exact this hsl
    · exact this hsl
  · intro d hd
    obtain ⟨hd, hcase⟩ := hcreated d hd
    obtain ⟨i, th, hi, hge, hsl, hp, hfresh, hstarted⟩ := h.made d hd
    rw [hmod]
    rcases hcase with ⟨hne, hsame⟩ | ⟨rfl, hptr, hno, hyes, hwoken⟩
    · have hit : tid ≠ i := by
        rintro rfl
        obtain ⟨th', hi', hsl'⟩ := hslot
        rw [hi] at hi'
        obtain rfl := Option.some.inj hi'
        exact hne (hsl'.symm.trans hsl)
      refine ⟨i, th, by rw [hthread hi, if_neg hit], hge, hsl, hp, ?_, ?_⟩
      · rw [hsame]
        exact hfresh
      · rw [hsame]
        exact hstarted
    · have hth' := hfresh hno
      have hit : tid = i := Ptr.task.inj (hptr.symm.trans (hp (by rw [hth']; rfl)))
      refine ⟨i, f th, by rw [hthread hi, if_pos hit], hge, (hbody th).symm ▸ hsl, ?_, ?_, fun _ => hwoken th⟩
      · rw [hbody]
        exact hp
      · rw [hyes]
        intro hc
        cases hc
  · intro he
    exact absurd he hcomp
  · intro hc i th hi hge
    obtain ⟨th', hi', hb⟩ := hbodies i th hi
    exact hb ▸ h.senders (hcounted hc) i th' hi' hge
  · exact hstraight

end Progress

end QuickStart.Speedtest
