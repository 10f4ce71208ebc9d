import QuickStart.Speedtest.Truth

/-! # Pointers while no creation and no sender fails

A pointer that is set names a thread that has still to clear it, unless a stop loop turns on it: the loop may
have told the thread to stop before its function began. A command that starts a test runs through its stop
loops without turning. -/

namespace QuickStart.Speedtest
open State

/-- Five numbers with `enable` different from 0. -/
def Command.full (c : Command) : Prop := c.nums.length = 5 ∧ c.nums.getD 0 0 ≠ 0

instance (c : Command) : Decidable c.full := inferInstanceAs (Decidable (_ ∧ _))

/-- The process runs a command that starts a test. -/
def Ctl.starts : Ctl → Bool
  | .cmd c _ => decide c.full
  | _ => false

/-- The control turns in the stop loop of the slot. -/
def Ctl.loops (ctl : Ctl) (sl : Slot) : Prop := (∃ p, ctl.stopping = some (sl, p)) ∧ ctl.starts = false

theorem starts_stopAt {ctl : Ctl} {p : StopPc} : (ctl.stopAt p).starts = ctl.starts := by
  rcases ctl with _ | ⟨c, pc⟩ | pc | _ | _ <;> try rfl
  all_goals cases pc <;> rfl

theorem Ctl.loops.at {ctl : Ctl} {sl : Slot} {p : StopPc} (h : ctl.loops sl) : (ctl.stopAt p).loops sl := by
  obtain ⟨⟨q, hq⟩, hno⟩ := h
  exact ⟨⟨p, stopping_stopAt hq⟩, starts_stopAt.trans hno⟩

structure Manned (s : State) : Prop where
  named : ∀ sl, s.mod.ptr sl = .null ∨ ∃ tid, s.mod.ptr sl = .task tid ∧
    ((∃ th, s.threads[tid]? = some th ∧ th.body.slot = sl ∧ th.body.holds = true) ∨ s.ctl.loops sl)
  told : ∀ (tid : Nat) (th : Thread), s.threads[tid]? = some th → th.stop = true → th.body.holds = true →
    s.ctl.loops th.body.slot

namespace Manned
variable {K : Kernel} {s t : State}

theorem start (K : Kernel) (j : Nat) : Manned (start K j) where
  named sl := by cases sl <;> exact Or.inl rfl
  told tid th hth := by simp [Speedtest.start] at hth

theorem ran (h : Manned s) {tid : Nat} {x : Input} {th : Thread} {m : Mod} {b : Body} (hr : Ran K s t tid x th m b)
    (hfails : th.body.fails x s.mod = false) : Manned t := by
  obtain ⟨hth, -, hb, rfl⟩ := hr
  have hself : (s.threads.set tid { th with body := b })[tid]? = some { th with body := b } :=
    List.getElem?_set_self (List.getElem?_eq_some_iff.mp hth).1
  obtain ⟨hslot, hcase⟩ := bodyStep_ptr hb
  constructor
  · intro sl
    by_cases hsl : sl = th.body.slot
    · subst hsl
      rcases hcase with ⟨hp, hsame⟩ | ⟨-, -, hp⟩
      · rw [hp]
        refine (h.named _).imp_right ?_
        rintro ⟨i, hi, ⟨th', hth', hsl', hholds⟩ | hloop⟩
        · refine ⟨i, hi, ?_⟩
          by_cases hit : i = tid
          · subst hit
            rw [hth] at hth'
            obtain rfl := Option.some.inj hth'
            rcases hsame with hsame | ⟨hquits, -⟩
            · exact Or.inl ⟨_, hself, hslot, hsame.trans hholds⟩
            · -- The thread was told to stop before its function began.
              rcases Body.quits_cases hquits with hf | ⟨hstop, -⟩
              · rw [hfails] at hf
                cases hf
              · exact Or.inr (h.told i th hth hstop hholds)
          · exact Or.inl ⟨th', by rw [List.getElem?_set_ne (Ne.symm hit)]; exact hth', hsl', hholds⟩
        · exact ⟨i, hi, Or.inr hloop⟩
      · exact Or.inl (by rw [hp, Function.update_self])
    · have hp : m.ptr sl = s.mod.ptr sl := by
        rcases hcase with ⟨hp, -⟩ | ⟨-, -, hp⟩
        · rw [hp]
        · rw [hp, Function.update_of_ne hsl]
      rw [hp]
      refine (h.named sl).imp_right ?_
      rintro ⟨i, hi, ⟨th', hth', hsl', hholds⟩ | hloop⟩
      · refine ⟨i, hi, Or.inl ⟨th', ?_, hsl', hholds⟩⟩
        rw [List.getElem?_set_ne]
        · exact hth'
        · rintro rfl
          rw [hth] at hth'
          obtain rfl := Option.some.inj hth'
          exact hsl hsl'.symm
      · exact ⟨i, hi, Or.inr hloop⟩
  · intro i th' hi hstop hholds
    rcases Calls.getElem?_set_cases hi with ⟨rfl, rfl⟩ | ⟨-, hi⟩
    · have hheld : th.body.holds = true := by
        rcases hcase with ⟨-, hsame | ⟨-, hno⟩⟩ | ⟨-, hno, -⟩
        · exact hsame.symm.trans hholds
        · rw [hno] at hholds
          cases hholds
        · rw [hno] at hholds
          cases hholds
      rw [hslot]
      exact h.told i th hth hstop hheld
    · exact h.told i th' hi hstop hholds

/-- The threads and the pointers are the same, and a stop loop is left only when its pointer is `NULL`. -/
theorem of_frame (h : Manned s) (hheld : Held s) (hth : t.threads = s.threads) (hptr : t.mod.ptr = s.mod.ptr)
    (hloops : ∀ sl, s.ctl.loops sl → s.mod.ptr sl = .null ∨ t.ctl.loops sl) : Manned t := by
  constructor
  · intro sl
    rw [hptr, hth]
    rcases h.named sl with hnull | ⟨tid, hp, hthread | hloop⟩
    · exact Or.inl hnull
    · exact Or.inr ⟨tid, hp, Or.inl hthread⟩
    · rcases hloops sl hloop with hnull | hloop
      · exact Or.inl hnull
      · exact Or.inr ⟨tid, hp, Or.inr hloop⟩
  · intro tid th hi hstop hholds
    rw [hth] at hi
    rcases hloops _ (h.told tid th hi hstop hholds) with hnull | hloop
    · rw [hheld.not_holds hi hnull] at hholds
      cases hholds
    · exact hloop

theorem of_modify (h : Manned s) {tid : Nat} {f : Thread → Thread} (hth : t.threads = s.threads.modify tid f)
    (hptr : t.mod.ptr = s.mod.ptr) (hbody : ∀ th, (f th).body = th.body) (hloops : ∀ sl, s.ctl.loops sl → t.ctl.loops sl)
    (hstop : ∀ th, s.threads[tid]? = some th → (f th).stop = true → th.stop = true ∨ t.ctl.loops th.body.slot) :
    Manned t := by
  constructor
  · intro sl
    rw [hptr]
    refine (h.named sl).imp_right ?_
    rintro ⟨i, hi, ⟨th, hth', hsl, hholds⟩ | hloop⟩
    · refine ⟨i, hi, Or.inl ⟨if tid = i then f th else th, by rw [hth, List.getElem?_modify, hth']; rfl, ?_, ?_⟩⟩
      · split
        · rw [hbody, hsl]
        · exact hsl
      · split
        · rw [hbody, hholds]
        · exact hholds
    · exact ⟨i, hi, Or.inr (hloops sl hloop)⟩
  · intro i th hi hs hholds
    rw [hth, List.getElem?_modify] at hi
    obtain ⟨th', hth', rfl⟩ := Option.map_eq_some_iff.mp hi
    by_cases hit : tid = i
    · subst hit
      rw [if_pos rfl] at hs hholds ⊢
      rw [hbody] at hholds ⊢
      rcases hstop th' hth' hs with hold | hloop
      · exact hloops _ (h.told tid th' hth' hold hholds)
      · exact hloop
    · rw [if_neg hit] at hs hholds ⊢
      exact hloops _ (h.told i th' hth' hs hholds)

theorem of_concat (h : Manned s) {sl : Slot} (hth : t.threads = s.threads ++ [⟨.fresh sl, false, false⟩])
    (hptr : t.mod.ptr = Function.update s.mod.ptr sl (.task s.threads.length)) (hno : ∀ sl, ¬ s.ctl.loops sl) :
    Manned t := by
  constructor
  · intro sl'
    rw [hptr, hth]
    by_cases hsl : sl' = sl
    · subst hsl
      rw [Function.update_self]
      exact Or.inr ⟨_, rfl, Or.inl ⟨_, List.getElem?_concat_length, slot_fresh sl', holds_fresh sl'⟩⟩
    · rw [Function.update_of_ne hsl]
      refine (h.named sl').imp_right ?_
      rintro ⟨i, hi, ⟨th, hth', hthread⟩ | hloop⟩
      · refine ⟨i, hi, Or.inl ⟨th, ?_, hthread⟩⟩
        rw [List.getElem?_append_left (List.getElem?_eq_some_iff.mp hth').1]
        exact hth'
      · exact absurd hloop (hno sl')
  · intro i th hi hstop hholds
    rw [hth] at hi
    rcases Calls.getElem?_concat_cases hi with hi | ⟨-, rfl⟩
    · exact absurd (h.told i th hi hstop hholds) (hno _)
    · cases hstop

theorem acts (h : Manned s) (hheld : Held s) {ok : Bool} (hok : s.ctl.creates.isSome = true → ok = true)
    (hcall : ∀ sl, s.ctl.stopping = some (sl, .call) → s.ctl.starts = false) (ha : Acts s ok t) : Manned t := by
  -- Outside the stop loops nothing is left of them.
  have away (hnone : s.ctl.stopping = none) (sl : Slot) : ¬ s.ctl.loops sl := by
    rintro ⟨⟨p, hp⟩, -⟩
    rw [hnone] at hp
    cases hp
  have quiet (hnone : s.ctl.stopping = none) (hth : t.threads = s.threads) (hptr : t.mod.ptr = s.mod.ptr) : Manned t :=
    h.of_frame hheld hth hptr fun sl hl => absurd hl (away hnone sl)
  cases ha with
  | leaves sl hstop hnull =>
    refine h.of_frame hheld rfl rfl fun sl' ⟨⟨p, hp⟩, _⟩ => Or.inl ?_
    cases hp.symm.trans hstop
    exact hnull
  | stays sl hstop | waited sl tid hstop => exact h.of_frame hheld rfl rfl fun sl' hl => Or.inr hl.at
  | tells sl tid hstop hptr =>
    refine h.of_modify rfl rfl (fun _ => rfl) (fun sl' hl => hl.at) fun th hth _ => Or.inr ?_
    obtain ⟨th', hth', hsl⟩ := hheld.owner sl tid hptr
    rw [hth] at hth'
    obtain rfl := Option.some.inj hth'
    exact hsl ▸ Ctl.loops.at ⟨⟨_, hstop⟩, hcall sl hstop⟩
  | faults sl hstop hnone =>
    refine h.of_frame hheld rfl rfl fun sl' ⟨⟨p, hp⟩, _⟩ => Or.inl ?_
    cases hp.symm.trans hstop
    refine (h.named sl).resolve_right ?_
    rintro ⟨tid, hp, -⟩
    exact hnone tid hp
  | creates c d hctl hyes => exact h.of_concat rfl (ptr_setCfg _ _ _) (away (by rw [hctl]; rfl))
  | createsComp c hctl hyes => exact h.of_concat rfl (ptr_computeTask _ _) (away (by rw [hctl]; rfl))
  | fails c d hctl hno | failsComp c hctl hno =>
    rw [hok (by rw [hctl]; rfl)] at hno
    cases hno
  | wakes sl tid hwakes hptr =>
    have hnone := stopping_of_wakes hwakes
    exact h.of_modify rfl rfl (fun _ => rfl) (fun sl' hl => absurd hl (away hnone sl')) fun th hth hs => Or.inl hs
  | wakesNone sl hwakes hnames =>
    have hnone := stopping_of_wakes hwakes
    exact quiet hnone rfl rfl
  | parses c d hctl => exact quiet (by rw [hctl]; rfl) rfl ((ptr_setPort _ d).trans (ptr_sscanfCmd _ _ _))
  | rejects c d hctl => exact quiet (by rw [hctl]; rfl) rfl (ptr_sscanfCmd _ _ _)
  | clears c d hctl => exact quiet (by rw [hctl]; rfl) rfl (ptr_setStatus _ _ _)
  | skips c d hctl => exact quiet (by rw [hctl]; rfl) rfl rfl
  | returns c ret hctl => exact quiet (by rw [hctl]; rfl) rfl rfl
  | installs c hctl | readies c hctl => exact quiet (by rw [hctl]; rfl) rfl (by funext sl; cases sl <;> rfl)
  | delTimer hctl | removeProc hctl | rxNull hctl | txNull hctl | fifoFree hctl =>
    exact quiet (by rw [hctl]; rfl) rfl (by funext sl; cases sl <;> rfl)

theorem outside (h : Manned s) (hheld : Held s) (ho : Outside s t) : Manned t := by
  refine h.of_frame hheld ho.threads ho.mod.ptr fun sl hl => Or.inr ?_
  rcases ho.ctl with hc | ⟨hidle, -⟩ | ⟨hidle, -⟩
  · exact hc ▸ hl
  all_goals
    obtain ⟨⟨p, hp⟩, -⟩ := hl
    rw [hidle] at hp
    cases hp

end Manned

end QuickStart.Speedtest
