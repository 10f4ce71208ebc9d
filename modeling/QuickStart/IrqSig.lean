import QuickStart.Calls
import QuickStart.Checksum
import QuickStart.Lts

/-! # The key of `irq_sig.c`

`eint9_interrupt` stores the state of the key and sets `ev_press`; `key_read` copies the value to its user and
clears the flag in a statement of its own. An interrupt between the two is not reported any more. -/

namespace QuickStart.IrqSig

def einval : Int := 22

def pollin : Nat := 0x1
def pollrdnorm : Nat := 0x40

/-- The next statement of a call of `key_read`. -/
inductive ReadPc
  | copy
  | clear
  deriving DecidableEq, Repr

/-- The static data, the reads in progress, and the last value that one of them has copied to its user. -/
structure State where
  keyVal : Byte
  evPress : Bool
  reads : List ReadPc
  copied : Option Byte
  deriving DecidableEq, Repr

/-- The module as it is loaded. -/
def State.start : State where
  keyVal := 0
  evPress := false
  reads := []
  copied := none

/-! ### The functions -/

/-- The `switch` of `eint9_interrupt`. -/
def keyOf : Nat → Byte
  | 0 => 0
  | 1 => 1
  | _ => 100

/-- `eint9_interrupt`, without the signal, when the pin reads `pinStatus`. -/
def eint9Interrupt (s : State) (pinStatus : Nat) : State := { s with keyVal := keyOf pinStatus, evPress := true }

/-- `key_poll`: the mask. -/
def keyPoll (s : State) : Nat := if s.evPress then pollin ||| pollrdnorm else 0

/-- `key_read` up to its first access: its result or its next statement. -/
def keyRead (size : Nat) : Int ⊕ ReadPc := if size ≠ 1 then .inl (-einval) else .inr .copy

/-- A statement of `key_read`, with what comes next; the result of `copy_to_user`, which fails where the user's
    memory is not writable, is not looked at. -/
def keyReadStep (s : State) (writable : Bool) : ReadPc → State × (Int ⊕ ReadPc)
  | .copy => (if writable then { s with copied := some s.keyVal } else s, .inr .clear)
  | .clear => ({ s with evPress := false }, .inl 1)

inductive Event
  | interrupt (pinStatus : Nat)
  | read (size : Nat)
  -- the next statement of the `i`-th read
  | statement (i : Nat) (writable : Bool)
  | poll
  deriving DecidableEq, Repr

def Event.step (s : State) : Event → Option State
  | .interrupt pinStatus => some (eint9Interrupt s pinStatus)
  | .read size => some { s with reads := s.reads ++ (keyRead size).getRight?.toList }
  | .statement i writable => do
    let pc ← s.reads[i]?
    let (t, next) := keyReadStep s writable pc
    return { t with reads := Calls.put s.reads i next.getRight? }
  | .poll => some s

def keyLts : Lts State Event where
  init s := s = .start
  step := Event.step

/-- Whether an interrupt has come, and the values that interrupts have stored since the last copy that reached
    its user. -/
structure History where
  interrupted : Bool
  since : List Byte
  deriving DecidableEq, Repr

def History.start : History where
  interrupted := false
  since := []

def History.after (s : State) (e : Event) (h : History) : History :=
  match e with
  | .interrupt pinStatus => { interrupted := true, since := h.since ++ [keyOf pinStatus] }
  | .statement i writable => if s.reads[i]? = some .copy ∧ writable = true then { h with since := [] } else h
  | _ => h

abbrev historyLts : Lts (State × History) Event := keyLts.track History.after .start

/-- No read is in progress and `key_poll` reports nothing, but the reader does not have the state of the key. -/
def Stale (s : State) (h : History) : Prop :=
  s.reads = [] ∧ keyPoll s = 0 ∧ h.interrupted = true ∧ s.copied ≠ some s.keyVal

/-- The clear of the only read in progress comes when no interrupt has come since the last copy that reached its
    user, or the last of them found the value that was copied. -/
def Prompt (x : State × History) : Event → Prop
  | .statement _ _ => x.1.reads = [.clear] → x.2.since = [] ∨ x.2.since.getLast? = x.1.copied
  | _ => True

instance (s : State) (h : History) : Decidable (Stale s h) := inferInstanceAs (Decidable (_ ∧ _))

instance (x : State × History) : ∀ e : Event, Decidable (Prompt x e)
  | .statement _ _ => inferInstanceAs (Decidable (_ → _))
  | .interrupt _ | .read _ | .poll => inferInstanceAs (Decidable True)

/-! ### What the history says -/

theorem statement_cases {s t : State} {i : Nat} {writable : Bool} (hs : (Event.statement i writable).step s = some t) :
    (s.reads[i]? = some .copy ∧ t = { s with
      copied := if writable then some s.keyVal else s.copied
      reads := Calls.put s.reads i (some .clear) }) ∨
    (s.reads[i]? = some .clear ∧ t = { s with evPress := false, reads := Calls.put s.reads i none }) := by
  obtain ⟨pc, hpc, ht⟩ := Option.bind_eq_some_iff.mp hs
  obtain rfl := Option.some.inj ht
  cases pc with
  | copy => exact Or.inl ⟨hpc, by cases writable <;> rfl⟩
  | clear => exact Or.inr ⟨hpc, rfl⟩

theorem after_clear {s : State} {i : Nat} {writable : Bool} (hpc : s.reads[i]? = some .clear) (h : History) :
    h.after s (.statement i writable) = h := by
  simp [History.after, hpc]

/-- The last interrupt since the copy has stored the value of the key; where none has come since, the copy has it. -/
structure Recorded (s : State) (h : History) : Prop where
  last : ∀ v, h.since.getLast? = some v → v = s.keyVal
  came : h.since ≠ [] → h.interrupted = true
  copied : h.since = [] → h.interrupted = true → s.copied = some s.keyVal

namespace Recorded
variable {s t : State} {h : History}

theorem start : Recorded .start .start where
  last v hv := by cases hv
  came hne := absurd rfl hne
  copied _ hi := by cases hi

theorem of_eq (hr : Recorded s h) (hkey : t.keyVal = s.keyVal) (hcopied : t.copied = s.copied) : Recorded t h where
  last v hv := (hr.last v hv).trans hkey.symm
  came := hr.came
  copied hnil hi := by rw [hcopied, hkey, hr.copied hnil hi]

theorem interrupt (s : State) (h : History) (pinStatus : Nat) :
    Recorded (eint9Interrupt s pinStatus) (h.after s (.interrupt pinStatus)) where
  last v hv := by
    rw [History.after, List.getLast?_concat] at hv
    exact (Option.some.inj hv).symm
  came _ := rfl
  copied hnil _ := absurd hnil (List.append_ne_nil_of_right_ne_nil _ (List.cons_ne_nil _ _))

theorem copy (hcopied : t.copied = some t.keyVal) : Recorded t { h with since := [] } where
  last v hv := by cases hv
  came hne := absurd rfl hne
  copied _ _ := hcopied

theorem step (hr : Recorded s h) {e : Event} (hs : e.step s = some t) : Recorded t (h.after s e) := by
  cases e with
  | interrupt pinStatus =>
    obtain rfl := Option.some.inj hs
    exact interrupt s h pinStatus
  | read size =>
    obtain rfl := Option.some.inj hs
    exact hr.of_eq rfl rfl
  | poll =>
    obtain rfl := Option.some.inj hs
    exact hr
  | statement i writable =>
    rcases statement_cases hs with ⟨hpc, rfl⟩ | ⟨hpc, rfl⟩
    · cases writable with
      | false =>
        have hafter : h.after s (.statement i false) = h := if_neg (by simp)
        rw [hafter]
        exact hr.of_eq rfl rfl
      | true =>
        have hafter : h.after s (.statement i true) = { h with since := [] } := if_pos ⟨hpc, rfl⟩
        rw [hafter]
        exact copy rfl
    · rw [after_clear hpc]
      exact hr.of_eq rfl rfl

/-- The reader has the value unless the last interrupt since the copy has stored another one. -/
theorem stale_iff (hr : Recorded s h) (hreads : s.reads = []) (hpoll : keyPoll s = 0) :
    Stale s h ↔ ¬(h.since = [] ∨ h.since.getLast? = s.copied) := by
  cases hlast : h.since.getLast? with
  | none =>
    have hnil := List.getLast?_eq_none_iff.mp hlast
    exact ⟨fun hstale => absurd (hr.copied hnil hstale.2.2.1) hstale.2.2.2, fun hnot => absurd (Or.inl hnil) hnot⟩
  | some v =>
    obtain rfl := hr.last v hlast
    have hne : h.since ≠ [] := fun hnil => by
      rw [hnil] at hlast
      cases hlast
    constructor
    · rintro ⟨-, -, -, hcopied⟩ (hnil | heq)
      · exact hne hnil
      · exact hcopied heq.symm
    · exact fun hnot => ⟨hreads, hpoll, hr.came hne, fun heq => hnot (Or.inr heq.symm)⟩

/-- Only a clear leaves the reader with a stale value. -/
theorem prompt_iff (hr : Recorded s h) (hfresh : ¬Stale s h) {e : Event} (hs : e.step s = some t) :
    Prompt (s, h) e ↔ ¬Stale t (h.after s e) := by
  cases e with
  | interrupt pinStatus =>
    obtain rfl := Option.some.inj hs
    have hpoll : keyPoll (eint9Interrupt s pinStatus) ≠ 0 := by simp [keyPoll, eint9Interrupt, pollin]
    exact ⟨fun _ hstale => hpoll hstale.2.1, fun _ => trivial⟩
  | read size =>
    obtain rfl := Option.some.inj hs
    exact ⟨fun _ hstale => hfresh ⟨(List.append_eq_nil_iff.mp hstale.1).1, hstale.2⟩, fun _ => trivial⟩
  | poll =>
    obtain rfl := Option.some.inj hs
    exact ⟨fun _ => hfresh, fun _ => trivial⟩
  | statement i writable =>
    have hkeep := hr.step hs
    rcases statement_cases hs with ⟨hpc, rfl⟩ | ⟨hpc, rfl⟩
    · -- The read is still in progress, and it is not the clear that comes next.
      refine ⟨fun _ hstale => ?_, fun _ hone => ?_⟩
      · have hnil : Calls.put s.reads i (some .clear) = [] := hstale.1
        cases ((Calls.put_eq_nil hpc).mp hnil).1
      · have hmem : ReadPc.copy ∈ [ReadPc.clear] := (show s.reads = [.clear] from hone) ▸ List.mem_of_getElem? hpc
        cases List.mem_singleton.mp hmem
    · rw [after_clear hpc] at hkeep ⊢
      by_cases hone : s.reads = [.clear]
      · rw [hkeep.stale_iff ((Calls.put_eq_nil hpc).mpr ⟨rfl, hone⟩) rfl, not_not]
        exact imp_iff_right hone
      · refine ⟨fun _ hstale => hone ?_, fun _ honly => absurd honly hone⟩
        have hnil : Calls.put s.reads i none = [] := hstale.1
        exact ((Calls.put_eq_nil hpc).mp hnil).2

end Recorded

/-- In a run whose clears are prompt the reader is never left with a stale value, and the next step leaves it with
    one exactly if it is a clear that is not. -/
theorem key_not_stale {s : State} {h : History} (hr : historyLts.Reach Prompt (s, h)) :
    ¬Stale s h ∧ ∀ e t, e.step s = some t → (Prompt (s, h) e ↔ ¬Stale t (h.after s e)) := by
  have hinv : Recorded s h ∧ ¬Stale s h := by
    refine hr.track_invariant (I := fun s h => Recorded s h ∧ ¬Stale s h) ?_ ?_
    · rintro _ rfl
      exact ⟨.start, fun hstale => by cases hstale.2.2.1⟩
    · rintro s h e t ⟨hrec, hfresh⟩ hok hs
      exact ⟨hrec.step hs, (hrec.prompt_iff hfresh hs).mp hok⟩
  exact ⟨hinv.2, fun e t hs => hinv.1.prompt_iff hinv.2 hs⟩

/-- A key that goes down and up, with a read after each interrupt and a poll at the end. -/
def servedKey : List Event :=
  [.interrupt 0, .poll, .read 1, .statement 0 true, .statement 0 true, .interrupt 1, .read 1, .statement 0 true,
    .statement 0 true, .poll]

theorem key_not_stale_served : ∃ s h, historyLts.Reach Prompt (s, h) ∧ s.keyVal = 1 ∧ s.copied = some 1 ∧
    keyPoll s = 0 ∧ ¬Stale s h := by
  have hrun : (historyLts.runIf Prompt (.start, .start) servedKey).any
      (fun x => x.1.keyVal == 1 && x.1.copied == some 1 && keyPoll x.1 == 0) = true := by decide
  obtain ⟨⟨s, h⟩, hr, hp⟩ := Lts.exists_reach_of_runIf hrun ⟨rfl, rfl⟩
  simp only [Bool.and_eq_true, beq_iff_eq] at hp
  exact ⟨s, h, hr, hp.1.1, hp.1.2, hp.2, (key_not_stale hr).1⟩

/-- The key goes up between the copy and the clear of the read that was to report that it went down; or the copy
    of a read fails. -/
theorem key_stale :
    (∃ s h, historyLts.Reachable (s, h) ∧ Stale s h ∧ s.copied = some 0 ∧ s.keyVal = 1) ∧
    ∃ s h, historyLts.Reachable (s, h) ∧ Stale s h ∧ s.copied = none := by
  have hrun (es : List Event) (p : State × History → Bool)
      (hr : (historyLts.runIf (fun _ _ => True) (.start, .start) es).any p = true) :
      ∃ x, historyLts.Reachable x ∧ p x = true := Lts.exists_reach_of_runIf hr ⟨rfl, rfl⟩
  constructor
  · obtain ⟨⟨s, h⟩, hr, hp⟩ := hrun
      [.interrupt 0, .read 1, .statement 0 true, .interrupt 1, .statement 0 true]
      (fun x => decide (Stale x.1 x.2 ∧ x.1.copied = some 0 ∧ x.1.keyVal = 1)) (by decide)
    exact ⟨s, h, hr, of_decide_eq_true hp⟩
  · obtain ⟨⟨s, h⟩, hr, hp⟩ := hrun [.interrupt 1, .read 1, .statement 0 false, .statement 0 true]
      (fun x => decide (Stale x.1 x.2 ∧ x.1.copied = none)) (by decide)
    exact ⟨s, h, hr, of_decide_eq_true hp⟩

end QuickStart.IrqSig
