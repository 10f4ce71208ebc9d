import QuickStart.Calls
import QuickStart.IrqSig

/-! # The key of `irq_poll.c`

`key_read` sleeps until `ev_press` is set, and `eint9_interrupt` wakes it; but nothing sets the flag. Each open file
has put the handler on the line once more, if `request_irq` has not failed, and takes it off once. -/

namespace QuickStart.IrqPoll
open IrqSig (einval pollin pollrdnorm)

/-- The next statement of a call of `key_read`. -/
inductive ReadPc
  /-- in `wait_event_interruptible` -/
  | wait
  | copy
  deriving DecidableEq, Repr

/-- A call of `key_read`: whether it has been woken since it went to sleep, and whether a signal has come for its
    process. -/
structure Read where
  pc : ReadPc
  woken : Bool
  signalled : Bool
  deriving DecidableEq, Repr

/-- A call that has returned 1, with the byte that has reached its user. -/
structure Returned where
  copied : Option Byte
  signalled : Bool
  deriving DecidableEq, Repr

structure State where
  keyVal : Byte
  evPress : BitVec 32
  /-- How often the handler is on the line of the key. -/
  actions : Nat
  files : Nat
  reads : List Read
  returned : List Returned
  /-- The calls of `free_irq` that have found no handler. -/
  warnings : Nat
  deriving DecidableEq, Repr

namespace State

def start : State where
  keyVal := 0
  evPress := 0
  actions := 0
  files := 0
  reads := []
  returned := []
  warnings := 0

/-- `key_open`; `ok` is the outcome of `request_irq`, which is not looked at. -/
def keyOpen (s : State) (ok : Bool) : State :=
  { s with files := s.files + 1, actions := if ok then s.actions + 1 else s.actions }

/-- `key_release`. -/
def keyRelease (s : State) : State :=
  if s.actions = 0 then { s with files := s.files - 1, warnings := s.warnings + 1 }
  else { s with files := s.files - 1, actions := s.actions - 1 }

/-- `eint9_interrupt`: `wake_up_interruptible(&button_waitq)`. -/
def eint9Interrupt (s : State) : State := { s with reads := s.reads.map fun r => { r with woken := true } }

/-- `key_poll`: the mask. -/
def keyPoll (s : State) : Nat := if s.evPress ≠ 0 then pollin ||| pollrdnorm else 0

/-- `key_read` up to its sleep: its result or the call. -/
def keyRead (size : Nat) : Int ⊕ Read :=
  if size ≠ 1 then .inl (-einval) else .inr { pc := .wait, woken := true, signalled := false }

/-- A statement of a call that is not asleep: a look at the condition, after which it sleeps again unless the flag is
    set or there is a signal, or the copy to its user, whose memory may not be writable. -/
def keyReadStep (s : State) (r : Read) (writable : Bool) : Read ⊕ Returned :=
  match r.pc with
  | .wait =>
    if s.evPress ≠ 0 ∨ r.signalled then .inl { r with pc := .copy } else .inl { r with woken := false }
  | .copy => .inr { copied := if writable then some s.keyVal else none, signalled := r.signalled }

end State

inductive Event
  | open (ok : Bool)
  | release
  | interrupt
  | read (size : Nat)
  | statement (i : Nat) (writable : Bool)
  /-- a signal for the process of the `i`-th read -/
  | signal (i : Nat)
  | poll
  deriving DecidableEq, Repr

/-- The line calls the handler as long as it is there. -/
def Event.step (s : State) : Event → Option State
  | .open ok => some (s.keyOpen ok)
  | .release => if 0 < s.files then some s.keyRelease else none
  | .interrupt => some (if 0 < s.actions then s.eint9Interrupt else s)
  | .read size => some { s with reads := s.reads ++ (State.keyRead size).getRight?.toList }
  | .statement i writable =>
    match s.reads[i]? with
    | some r =>
      if r.woken then
        match s.keyReadStep r writable with
        | .inl r => some { s with reads := Calls.put s.reads i (some r) }
        | .inr v => some { s with reads := Calls.put s.reads i none, returned := s.returned ++ [v] }
      else none
    | none => none
  | .signal i =>
    some { s with reads := s.reads.modify i fun r => { r with woken := true, signalled := true } }
  | .poll => some s

def keyLts : Lts State Event where
  init s := s = .start
  step := Event.step

/-! ### The flag that nothing sets -/

/-- The flag and the value are as they were at the start, and a read has left its sleep only for a signal. -/
structure Deaf (s : State) : Prop where
  evPress : s.evPress = 0
  keyVal : s.keyVal = 0
  reads : ∀ r ∈ s.reads, r.pc = .copy → r.signalled = true
  returned : ∀ v ∈ s.returned, v.signalled = true ∧ (v.copied = none ∨ v.copied = some 0)

namespace Deaf
variable {s t : State}

theorem start : Deaf .start where
  evPress := rfl
  keyVal := rfl
  reads r hr := by cases hr
  returned v hv := by cases hv

/-- What has come to the handlers and the files is of no account. -/
theorem of_eq (h : Deaf s) (hflag : t.evPress = s.evPress) (hval : t.keyVal = s.keyVal) (hreads : t.reads = s.reads)
    (hret : t.returned = s.returned) : Deaf t where
  evPress := hflag.trans h.evPress
  keyVal := hval.trans h.keyVal
  reads r hr := h.reads r (hreads ▸ hr)
  returned v hv := h.returned v (hret ▸ hv)

/-- The flag is not set, so that only a signal lets a read go on. -/
theorem waits (h : Deaf s) {r : Read} (hpc : r.pc = .wait) (writable : Bool) : s.keyReadStep r writable =
    .inl (if r.signalled then { r with pc := .copy } else { r with woken := false }) := by
  rw [State.keyReadStep, hpc]
  dsimp only
  rw [h.evPress]
  cases r.signalled <;> rfl

theorem step (h : Deaf s) {e : Event} (hs : e.step s = some t) : Deaf t := by
  cases e with
  | «open» ok =>
    obtain rfl := Option.some.inj hs
    exact h.of_eq rfl rfl rfl rfl
  | release =>
    obtain ⟨-, he⟩ := Option.ite_none_right_eq_some.mp hs
    obtain rfl := Option.some.inj he
    unfold State.keyRelease
    split <;> exact h.of_eq rfl rfl rfl rfl
  | poll =>
    obtain rfl := Option.some.inj hs
    exact h
  | interrupt =>
    obtain rfl := Option.some.inj hs
    split
    · refine { h with reads := fun r hr => ?_ }
      obtain ⟨r₀, hr₀, rfl⟩ := List.mem_map.mp hr
      exact h.reads r₀ hr₀
    · exact h
  | read size =>
    obtain rfl := Option.some.inj hs
    refine { h with reads := fun r hr => ?_ }
    rcases List.mem_append.mp hr with hr | hr
    · exact h.reads r hr
    · unfold State.keyRead at hr
      split at hr
      · cases hr
      · obtain rfl := List.mem_singleton.mp hr
        intro hcopy
        cases hcopy
  | signal i =>
    obtain rfl := Option.some.inj hs
    refine { h with reads := fun r hr => ?_ }
    obtain ⟨j, hj⟩ := List.mem_iff_getElem?.mp hr
    rw [List.getElem?_modify] at hj
    obtain ⟨r₀, hr₀, rfl⟩ := Option.map_eq_some_iff.mp hj
    split
    · exact fun _ => rfl
    · exact h.reads r₀ (List.mem_of_getElem? hr₀)
  | statement i writable =>
    unfold Event.step at hs
    dsimp only at hs
    split at hs
    · rename_i r hi
      have hr : r ∈ s.reads := List.mem_of_getElem? hi
      split at hs
      · cases hpc : r.pc with
        | wait =>
          rw [h.waits hpc] at hs
          obtain rfl := Option.some.inj hs
          refine { h with reads := fun x (hx : x ∈ Calls.put s.reads i (some _)) => ?_ }
          rcases Calls.mem_put hx with hx | hx
          · exact h.reads x hx
          · obtain rfl := Option.some.inj hx
            split
            · exact fun _ => ‹_›
            · exact h.reads r hr
        | copy =>
          simp only [State.keyReadStep, hpc] at hs
          obtain rfl := Option.some.inj hs
          refine { h with
            reads := fun x (hx : x ∈ Calls.put s.reads i none) => ?_
            returned := fun v (hv : v ∈ s.returned ++ [_]) => ?_ }
          · rcases Calls.mem_put hx with hx | hx
            · exact h.reads x hx
            · cases hx
          · rcases List.mem_append.mp hv with hv | hv
            · exact h.returned v hv
            · obtain rfl := List.mem_singleton.mp hv
              refine ⟨h.reads r hr hpc, ?_⟩
              dsimp only
              rw [h.keyVal]
              cases writable
              · exact Or.inl rfl
              · exact Or.inr rfl
      · cases hs
    · cases hs

end Deaf

/-- In every run, however often the key is pressed: `key_poll` reports nothing, and a `key_read` returns 1 only after a
    signal has come for its process, with nothing else than 0 for its user. -/
theorem key_never_reported {s : State} (h : keyLts.Reachable s) :
    s.keyPoll = 0 ∧ ∀ v ∈ s.returned, v.signalled = true ∧ (v.copied = none ∨ v.copied = some 0) := by
  have hdeaf : Deaf s := by
    refine h.invariant (I := Deaf) ?_ fun s e t hd _ hs => hd.step hs
    rintro _ rfl
    exact .start
  exact ⟨by rw [State.keyPoll, hdeaf.evPress]; rfl, hdeaf.returned⟩

/-- A read that an interrupt wakes in vain and a signal ends. -/
def signalledRead : List Event :=
  [.open true, .read 1, .statement 0 true, .interrupt, .statement 0 true, .signal 0, .statement 0 true,
    .statement 0 true]

theorem key_never_reported_signalled : ∃ s v, keyLts.Reachable s ∧ s.returned = [v] ∧ v.signalled = true ∧
    (v.copied = none ∨ v.copied = some 0) ∧ s.keyPoll = 0 := by
  have hrun : (keyLts.runIf (fun _ _ => True) .start signalledRead).any (fun s => s.returned.length == 1) = true := by
    decide
  obtain ⟨s, hr, hp⟩ := Lts.exists_reach_of_runIf hrun rfl
  obtain ⟨v, hv⟩ := List.length_eq_one_iff.mp (beq_iff_eq.mp hp)
  obtain ⟨hpoll, hreturned⟩ := key_never_reported hr
  obtain ⟨hsignalled, hcopied⟩ := hreturned v (by rw [hv]; exact List.mem_singleton_self v)
  exact ⟨s, v, hr, hv, hsignalled, hcopied, hpoll⟩

/-! ### The handlers on the line -/

/-- How many calls of `request_irq` have failed. -/
def failures (_ : State) (e : Event) (n : Nat) : Nat :=
  match e with
  | .open false => n + 1
  | _ => n

/-- Every file stands for a handler or for a failure that has not cost one yet. -/
structure Lined (s : State) (n : Nat) : Prop where
  balance : s.files + s.warnings = s.actions + n
  actions : s.actions ≤ s.files

theorem Lined.step {s t : State} {n : Nat} (h : Lined s n) {e : Event} (hs : e.step s = some t) :
    Lined t (failures s e n) := by
  obtain ⟨hbalance, hactions⟩ := h
  have hkeep (hf : t.files = s.files) (ha : t.actions = s.actions) (hw : t.warnings = s.warnings) : Lined t n :=
    ⟨by rw [hf, ha, hw]; exact hbalance, by rw [hf, ha]; exact hactions⟩
  cases e with
  | «open» ok =>
    obtain rfl := Option.some.inj hs
    cases ok
    · refine ⟨?_, Nat.le_succ_of_le hactions⟩
      show s.files + 1 + s.warnings = s.actions + (n + 1)
      omega
    · refine ⟨?_, Nat.succ_le_succ hactions⟩
      show s.files + 1 + s.warnings = s.actions + 1 + n
      omega
  | release =>
    obtain ⟨hfiles, he⟩ := Option.ite_none_right_eq_some.mp hs
    obtain rfl := Option.some.inj he
    unfold State.keyRelease
    split
    · exact ⟨by simp only [failures]; omega, by simp only; omega⟩
    · exact ⟨by simp only [failures]; omega, by simp only; omega⟩
  | interrupt =>
    obtain rfl := Option.some.inj hs
    refine hkeep ?_ ?_ ?_ <;> split <;> rfl
  | read size | signal i | poll =>
    obtain rfl := Option.some.inj hs
    exact hkeep rfl rfl rfl
  | statement i writable =>
    unfold Event.step at hs
    dsimp only at hs
    split at hs
    · split at hs
      · split at hs <;> obtain rfl := Option.some.inj hs <;> exact hkeep rfl rfl rfl
      · cases hs
    · cases hs

/-- In every run there are never more handlers on the line than open files, none when no file is open, and as many as
    files where no `request_irq` has failed; each failure leaves in the end a file without its handler or a `free_irq`
    that finds none. -/
theorem key_line_balanced {s : State} {n : Nat} (h : (keyLts.track failures 0).Reachable (s, n)) :
    s.files + s.warnings = s.actions + n ∧ s.actions ≤ s.files := by
  have hlined : Lined s n := by
    refine h.track_invariant (I := Lined) ?_ fun s n e t hl _ hs => hl.step hs
    rintro _ rfl
    exact ⟨rfl, Nat.le_refl _⟩
  exact ⟨hlined.balance, hlined.actions⟩

/-- The first of two files has a handler, and the release of the second one takes it off the line. -/
theorem key_line_balanced_taken : ∃ s, (keyLts.track failures 0).Reachable (s, 1) ∧ s.files = 1 ∧ s.actions = 0 ∧
    s.files + s.warnings = s.actions + 1 := by
  have hrun : ((keyLts.track failures 0).runIf (fun _ _ => True) (.start, 0) [.open true, .open false, .release]).any
      (fun x => x.1.files == 1 && x.1.actions == 0 && x.2 == 1) = true := by decide
  obtain ⟨⟨s, n⟩, hr, hp⟩ := Lts.exists_reach_of_runIf hrun ⟨rfl, rfl⟩
  simp only [Bool.and_eq_true, beq_iff_eq] at hp
  obtain ⟨⟨hfiles, hactions⟩, rfl⟩ := hp
  exact ⟨s, hr, hfiles, hactions, (key_line_balanced hr).1⟩

end QuickStart.IrqPoll
