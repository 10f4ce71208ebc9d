import Mathlib.Algebra.BigOperators.Group.List.Basic
import QuickStart.IrqSig

/-! # The signals of `irq_sig.c`

The files on `key_async` get a signal after each interrupt, and their processes read the key when it comes. The
flag `ev_press` plays no part in this. An edge of the key is kept by the line until the handlers that `key_open` has
put on it run, one after the other. -/

namespace QuickStart.IrqSig.Fasync

/-- The next statement of `eint9_interrupt`. -/
inductive HandlerPc
  /-- `gpio_get_value` -/
  | sample
  | store (pinStatus : Nat)
  | press
  | kill
  deriving DecidableEq, Repr

/-- The handler that runs, and how many are to run after it. -/
structure Handler where
  pc : HandlerPc
  left : Nat
  deriving DecidableEq, Repr

/-- An open file with the process that reads it when `SIGIO` comes. -/
structure Client where
  /-- on `key_async` -/
  listed : Bool
  pending : Bool
  read : Option ReadPc
  got : Option Byte
  /-- whether the key has moved since the file is on the list -/
  moved : Bool
  deriving DecidableEq, Repr

structure State where
  pin : Nat
  edge : Bool
  handler : Option Handler
  keyVal : Byte
  evPress : Bool
  /-- how often the handler is on the line -/
  actions : Nat
  clients : List Client
  deriving DecidableEq, Repr

namespace State

def start (pin : Nat) : State where
  pin := pin
  edge := false
  handler := none
  keyVal := 0
  evPress := false
  actions := 0
  clients := []

/-- `key_open`; `ok` is the outcome of `request_irq`, which is not looked at. -/
def keyOpen (s : State) (ok : Bool) : State :=
  { s with actions := if ok then s.actions + 1 else s.actions, clients := s.clients ++ [⟨false, false, none, none, false⟩] }

/-- The end of the `i`-th file: it leaves the list, and `key_release` takes one handler off the line. -/
def keyRelease (s : State) (i : Nat) : State :=
  { s with actions := s.actions - 1, clients := s.clients.eraseIdx i }

/-- A statement of `eint9_interrupt`; behind the last one comes the next handler of the line. -/
def handle (s : State) (h : Handler) : State :=
  match h.pc with
  | .sample => { s with handler := some { h with pc := .store s.pin } }
  | .store pinStatus => { s with keyVal := keyOf pinStatus, handler := some { h with pc := .press } }
  | .press => { s with evPress := true, handler := some { h with pc := .kill } }
  | .kill =>
    { s with
      clients := s.clients.map fun c => if c.listed then { c with pending := true } else c
      handler := if h.left = 0 then none else some ⟨.sample, h.left - 1⟩ }

end State

/-- `key_fasync`. -/
def Client.keyFasync (c : Client) (on : Bool) : Client := { c with listed := on, moved := on && c.listed && c.moved }

/-- A statement of `key_read`. -/
def State.keyReadStep (s : State) (c : Client) : Option (State × Client) :=
  match c.read with
  | some .copy => some (s, { c with got := some s.keyVal, read := some .clear })
  | some .clear => some ({ s with evPress := false }, { c with read := none })
  | none => none

inductive Event
  | open (ok : Bool)
  | release (i : Nat)
  | fasync (i : Nat) (on : Bool)
  /-- the key comes to another state -/
  | move (pin : Nat)
  /-- the line calls its handlers -/
  | enter
  | handle
  /-- the signal reaches the `i`-th process, which reads one byte -/
  | signal (i : Nat)
  | read (i : Nat) (size : Nat)
  | statement (i : Nat)
  deriving DecidableEq, Repr

/-- `free_irq` waits for the handlers that run, and a process closes its file after its read. -/
def Event.step (s : State) : Event → Option State
  | .open ok => some (s.keyOpen ok)
  | .release i =>
    match s.clients[i]? with
    | some c => if s.handler = none ∧ c.read = none then some (s.keyRelease i) else none
    | none => none
  | .fasync i on => (s.clients[i]?).map fun c => { s with clients := s.clients.set i (c.keyFasync on) }
  | .move pin =>
    if s.actions = 0 then some { s with pin }
    else some { s with
      pin, edge := true
      clients := s.clients.map fun c => if c.listed then { c with moved := true } else c }
  | .enter =>
    if s.edge = true ∧ s.handler = none ∧ s.actions ≠ 0 then
      some { s with edge := false, handler := some ⟨.sample, s.actions - 1⟩ }
    else none
  | .handle => s.handler.map s.handle
  | .signal i =>
    match s.clients[i]? with
    | some c =>
      if c.pending = true ∧ c.read = none then
        some { s with clients := s.clients.set i { c with pending := false, read := (keyRead 1).getRight? } }
      else none
    | none => none
  | .read i size =>
    match s.clients[i]? with
    | some c =>
      if c.read = none then some { s with clients := s.clients.set i { c with read := (keyRead size).getRight? } } else none
    | none => none
  | .statement i => do
    let c ← s.clients[i]?
    let (t, c) ← s.keyReadStep c
    return { t with clients := t.clients.set i c }

/-- The line with the key in any state. -/
def fasyncLts : Lts State Event where
  init s := ∃ pin, s = .start pin
  step := Event.step

/-- `request_irq` does not fail. -/
def Granted (_ : State) (e : Event) : Prop := e ≠ .open false

instance (s : State) (e : Event) : Decidable (Granted s e) := inferInstanceAs (Decidable (_ ≠ _))

/-! ### The way of the key to a client -/

/-- The handlers have the state of the key, or are going to. -/
def State.Sampled (s : State) : Prop :=
  match s.handler with
  | some ⟨.sample, _⟩ => True
  | some ⟨.store pinStatus, _⟩ => pinStatus = s.pin
  | some ⟨.press, _⟩ | some ⟨.kill, _⟩ | none => s.keyVal = keyOf s.pin

/-- The state of the key is on its way to the client, or has come to it. -/
def State.Due (s : State) (c : Client) : Prop :=
  s.edge = true ∨ s.Sampled ∧
    (s.handler ≠ none ∨ c.pending = true ∨ c.read = some .copy ∨ c.got = some s.keyVal)

/-- There are as many handlers on the line as files, and each client whose key has moved gets to know of it. -/
structure Told (s : State) : Prop where
  actions : s.actions = s.clients.length
  clients : ∀ c ∈ s.clients, c.listed = true → c.moved = true → s.Due c

namespace Told
variable {s t : State}

theorem start (pin : Nat) : Told (.start pin) where
  actions := rfl
  clients c hc := by cases hc

/-- A step of one client. -/
theorem set (h : Told s) {i : Nat} {c c' : Client} (hc : s.clients[i]? = some c) (hcl : t.clients = s.clients.set i c')
    (hact : t.actions = s.actions) (hkeep : ∀ d, s.Due d → t.Due d)
    (hnew : c'.listed = true → c'.moved = true → (c.listed = true → c.moved = true → s.Due c) → t.Due c') : Told t where
  actions := by rw [hact, hcl, List.length_set, h.actions]
  clients d hd hl hm := by
    rw [hcl] at hd
    rcases List.mem_or_eq_of_mem_set hd with hd | rfl
    · exact hkeep d (h.clients d hd hl hm)
    · exact hnew hl hm (h.clients c (List.mem_of_getElem? hc))

/-- A statement of a handler that does not send the signals. -/
theorem of_handler (h : Told s) (hcl : t.clients = s.clients) (hact : t.actions = s.actions) (hedge : t.edge = s.edge)
    (hrun : t.handler ≠ none) (hsampled : s.Sampled → t.Sampled) : Told t where
  actions := by rw [hact, hcl, h.actions]
  clients c hc hl hm := by
    rw [hcl] at hc
    rcases h.clients c hc hl hm with he | ⟨hs, -⟩
    · exact Or.inl (hedge.trans he)
    · exact Or.inr ⟨hsampled hs, Or.inl hrun⟩

theorem handle (h : Told s) {r : Handler} (hr : s.handler = some r) : Told (s.handle r) := by
  obtain ⟨pc, left⟩ := r
  cases pc with
  | sample => exact h.of_handler rfl rfl rfl (by simp [State.handle]) fun _ => rfl
  | store v =>
    refine h.of_handler rfl rfl rfl (by simp [State.handle]) fun hs => ?_
    rw [State.Sampled, hr] at hs
    exact congrArg keyOf hs
  | press =>
    refine h.of_handler rfl rfl rfl (by simp [State.handle]) fun hs => ?_
    rw [State.Sampled, hr] at hs
    exact hs
  | kill =>
    -- The signals are sent after the store, and the next handler reads the key anew.
    have hnext : s.Sampled → (s.handle ⟨.kill, left⟩).Sampled := by
      intro hs
      rw [State.Sampled, hr] at hs
      cases left with
      | zero => exact hs
      | succ n => exact trivial
    refine ⟨h.actions.trans (List.length_map _).symm, fun d hd hl hm => ?_⟩
    obtain ⟨c, hc, rfl⟩ := List.mem_map.mp hd
    by_cases hlisted : c.listed = true
    · rw [if_pos hlisted] at hm ⊢
      rcases h.clients c hc hlisted hm with he | ⟨hs, -⟩
      · exact Or.inl he
      · exact Or.inr ⟨hnext hs, Or.inr (Or.inl rfl)⟩
    · rw [if_neg hlisted] at hl
      exact absurd hl hlisted

theorem step (h : Told s) {e : Event} (hok : Granted s e) (hs : e.step s = some t) : Told t := by
  cases e with
  | «open» ok =>
    obtain rfl := Option.some.inj hs
    cases ok with
    | false => exact absurd rfl hok
    | true =>
      refine ⟨?_, fun c hc hl hm => ?_⟩
      · show s.actions + 1 = (s.clients ++ [_]).length
        rw [List.length_append, h.actions]
        rfl
      · rcases List.mem_append.mp hc with hc | hc
        · exact h.clients c hc hl hm
        · rw [List.mem_singleton.mp hc] at hl
          cases hl
  | release i =>
    unfold Event.step at hs
    dsimp only at hs
    split at hs
    · rename_i c hc
      obtain ⟨-, he⟩ := Option.ite_none_right_eq_some.mp hs
      obtain rfl := Option.some.inj he
      obtain ⟨hlt, -⟩ := List.getElem?_eq_some_iff.mp hc
      refine ⟨?_, fun d hd => h.clients d (List.mem_of_mem_eraseIdx hd)⟩
      exact (congrArg (· - 1) h.actions).trans (List.length_eraseIdx_of_lt hlt).symm
    · cases hs
  | fasync i on =>
    obtain ⟨c, hc, rfl⟩ := Option.map_eq_some_iff.mp hs
    refine h.set hc rfl rfl (fun _ hd => hd) fun _ hm hold => ?_
    simp only [Client.keyFasync, Bool.and_eq_true] at hm
    exact hold hm.1.2 hm.2
  | move pin =>
    unfold Event.step at hs
    dsimp only at hs
    split at hs <;> obtain rfl := Option.some.inj hs
    · -- Without a handler on the line there is no client.
      have hnil : s.clients = [] := List.length_eq_zero_iff.mp (h.actions.symm.trans ‹_›)
      exact ⟨h.actions, fun c hc => by rw [show s.clients = [] from hnil] at hc; cases hc⟩
    · exact ⟨h.actions.trans (List.length_map _).symm, fun c _ _ _ => Or.inl rfl⟩
  | enter =>
    obtain ⟨-, he⟩ := Option.ite_none_right_eq_some.mp hs
    obtain rfl := Option.some.inj he
    exact ⟨h.actions, fun c _ _ _ => Or.inr ⟨trivial, Or.inl (by simp)⟩⟩
  | handle =>
    obtain ⟨r, hr, rfl⟩ := Option.map_eq_some_iff.mp hs
    exact h.handle hr
  | signal i =>
    unfold Event.step at hs
    dsimp only at hs
    split at hs
    · rename_i c hc
      obtain ⟨-, he⟩ := Option.ite_none_right_eq_some.mp hs
      obtain rfl := Option.some.inj he
      refine h.set hc rfl rfl (fun _ hd => hd) fun hl hm hold => ?_
      rcases hold hl hm with he | ⟨hsampled, -⟩
      · exact Or.inl he
      · exact Or.inr ⟨hsampled, Or.inr (Or.inr (Or.inl rfl))⟩
    · cases hs
  | read i size =>
    unfold Event.step at hs
    dsimp only at hs
    split at hs
    · rename_i c hc
      obtain ⟨hnone, he⟩ := Option.ite_none_right_eq_some.mp hs
      obtain rfl := Option.some.inj he
      refine h.set hc rfl rfl (fun _ hd => hd) fun hl hm hold => ?_
      rcases hold hl hm with he | ⟨hsampled, hway⟩
      · exact Or.inl he
      · rw [hnone] at hway
        refine Or.inr ⟨hsampled, hway.imp_right fun hway => hway.imp_right fun hway => Or.inr ?_⟩
        exact hway.resolve_left nofun
    · cases hs
  | statement i =>
    obtain ⟨c, hc, hs⟩ := Option.bind_eq_some_iff.mp hs
    obtain ⟨⟨u, c'⟩, hstep, hs⟩ := Option.bind_eq_some_iff.mp hs
    obtain rfl := Option.some.inj hs
    unfold State.keyReadStep at hstep
    split at hstep
    · obtain ⟨rfl, rfl⟩ := Prod.mk.inj (Option.some.inj hstep)
      refine h.set hc rfl rfl (fun _ hd => hd) fun hl hm hold => ?_
      rcases hold hl hm with he | ⟨hsampled, -⟩
      · exact Or.inl he
      · exact Or.inr ⟨hsampled, Or.inr (Or.inr (Or.inr rfl))⟩
    · rename_i hclear
      obtain ⟨rfl, rfl⟩ := Prod.mk.inj (Option.some.inj hstep)
      refine h.set hc rfl rfl (fun _ hd => hd) fun hl hm hold => ?_
      rcases hold hl hm with he | ⟨hsampled, hway⟩
      · exact Or.inl he
      · rw [hclear] at hway
        refine Or.inr ⟨hsampled, hway.imp_right fun hway => hway.imp_right fun hway => Or.inr ?_⟩
        exact hway.resolve_left nofun
    · cases hstep

end Told

/-! ### How long it takes -/

/-- A step of the line, of a handler, or of a process that a signal has come for. -/
def Event.inner : Event → Bool
  | .enter | .handle | .signal _ | .statement _ => true
  | .open _ | .release _ | .fasync _ _ | .move _ | .read _ _ => false

/-- The steps until the process has cleared the flag. -/
def Client.weight (c : Client) : Nat :=
  3 * c.pending.toNat +
    match c.read with
    | none => 0
    | some .clear => 1
    | some .copy => 2

/-- The statements of a handler and what its signals cause. -/
def run (clients : List Client) : Nat := 3 * clients.length + 4

def Handler.weight (clients : List Client) (h : Handler) : Nat :=
  h.left * run clients + match h.pc with
    | .sample => 3 * clients.length + 4
    | .store _ => 3 * clients.length + 3
    | .press => 3 * clients.length + 2
    | .kill => 3 * clients.length + 1

/-- A bound of the steps to come while the key stands still. -/
def State.weight (s : State) : Nat :=
  s.edge.toNat * (s.actions * run s.clients + 1) +
    ((s.handler.map (Handler.weight s.clients)).getD 0 + (s.clients.map Client.weight).sum)

/-- Nothing is under way. -/
structure State.Quiet (s : State) : Prop where
  edge : s.edge = false
  handler : s.handler = none
  clients : ∀ c ∈ s.clients, c.pending = false ∧ c.read = none

section Weight
variable {s t : State} {e : Event}

theorem sum_weight_set {l : List Client} {i : Nat} {c d : Client} (hi : l[i]? = some c) :
    ((l.set i d).map Client.weight).sum + c.weight = (l.map Client.weight).sum + d.weight := by
  obtain ⟨hlt, rfl⟩ := List.getElem?_eq_some_iff.mp hi
  have hset := ((List.set_perm_cons_eraseIdx hlt d).map Client.weight).sum_eq
  have hget := ((List.getElem_cons_eraseIdx_perm hlt).map Client.weight).sum_eq
  rw [List.map_cons, List.sum_cons] at hset hget
  omega

/-- A step of one client. -/
theorem weight_set {i : Nat} {c d : Client} (hi : s.clients[i]? = some c) (hcl : t.clients = s.clients.set i d)
    (hedge : t.edge = s.edge) (hhandler : t.handler = s.handler) (hact : t.actions = s.actions)
    (hlt : d.weight < c.weight) : t.weight < s.weight := by
  have hrun : run t.clients = run s.clients := by rw [run, run, hcl, List.length_set]
  have hweight : Handler.weight t.clients = Handler.weight s.clients := by
    funext h
    rw [Handler.weight, Handler.weight, hrun, hcl, List.length_set]
  have hsum := sum_weight_set (d := d) hi
  rw [State.weight, State.weight, hedge, hhandler, hact, hrun, hweight, hcl]
  omega

theorem sum_weight_signal (l : List Client) :
    ((l.map fun c => if c.listed then { c with pending := true } else c).map Client.weight).sum ≤
      (l.map Client.weight).sum + 3 * l.length := by
  induction l with
  | nil => exact Nat.le_refl 0
  | cons c l ih =>
    have hone : (if c.listed then { c with pending := true } else c).weight ≤ c.weight + 3 := by
      split
      · simp only [Client.weight, Bool.toNat_true]
        omega
      · exact Nat.le_add_right _ _
    simp only [List.map_cons, List.sum_cons, List.length_cons]
    omega

theorem weight_handle {r : Handler} (hr : s.handler = some r) : (s.handle r).weight < s.weight := by
  obtain ⟨pc, left⟩ := r
  cases pc with
  | sample | store v | press =>
    simp only [State.weight, State.handle, hr, Option.map_some, Option.getD_some, Handler.weight]
    omega
  | kill =>
    have hsignal := sum_weight_signal s.clients
    have hlen : (s.clients.map fun c => if c.listed then { c with pending := true } else c).length = s.clients.length :=
      List.length_map _
    cases left with
    | zero =>
      simp only [State.weight, State.handle, hr, run, hlen, Option.map_some, Option.getD_some, Handler.weight, if_true,
        Option.map_none, Option.getD_none]
      omega
    | succ n =>
      have hmul : (n + 1) * run s.clients = n * run s.clients + (3 * s.clients.length + 4) := Nat.succ_mul n _
      rw [run] at hmul
      simp only [State.weight, State.handle, hr, run, hlen, Option.map_some, Option.getD_some, Handler.weight,
        Nat.succ_ne_zero, if_false, Nat.add_sub_cancel]
      omega

/-- An inner step brings the end nearer. -/
theorem weight_lt (he : e.inner = true) (hs : e.step s = some t) : t.weight < s.weight := by
  cases e with
  | «open» | release | fasync | move | read => cases he
  | enter =>
    obtain ⟨⟨hedge, hnone, hact⟩, hs⟩ := Option.ite_none_right_eq_some.mp hs
    obtain rfl := Option.some.inj hs
    obtain ⟨n, hn⟩ := Nat.exists_eq_succ_of_ne_zero hact
    have hmul : (n + 1) * run s.clients = n * run s.clients + (3 * s.clients.length + 4) := Nat.succ_mul n _
    simp only [State.weight, hedge, hnone, hn, Option.map_some, Option.getD_some, Option.map_none, Option.getD_none,
      Handler.weight, Nat.succ_eq_add_one, Nat.add_sub_cancel, hmul, Bool.toNat_true, Bool.toNat_false]
    omega
  | handle =>
    obtain ⟨r, hr, rfl⟩ := Option.map_eq_some_iff.mp hs
    exact weight_handle hr
  | signal i =>
    unfold Event.step at hs
    dsimp only at hs
    split at hs
    · rename_i c hc
      obtain ⟨⟨hpending, hnone⟩, hs⟩ := Option.ite_none_right_eq_some.mp hs
      obtain rfl := Option.some.inj hs
      refine weight_set hc rfl rfl rfl rfl ?_
      have hread : (keyRead 1).getRight? = some .copy := rfl
      simp only [Client.weight, hpending, hnone, hread, Bool.toNat_true, Bool.toNat_false]
      omega
    · cases hs
  | statement i =>
    obtain ⟨c, hc, hs⟩ := Option.bind_eq_some_iff.mp hs
    obtain ⟨⟨u, c'⟩, hstep, hs⟩ := Option.bind_eq_some_iff.mp hs
    obtain rfl := Option.some.inj hs
    unfold State.keyReadStep at hstep
    split at hstep
    · rename_i hread
      obtain ⟨rfl, rfl⟩ := Prod.mk.inj (Option.some.inj hstep)
      refine weight_set hc rfl rfl rfl rfl ?_
      simp only [Client.weight, hread]
      omega
    · rename_i hread
      obtain ⟨rfl, rfl⟩ := Prod.mk.inj (Option.some.inj hstep)
      refine weight_set hc rfl rfl rfl rfl ?_
      simp only [Client.weight, hread]
      omega
    · cases hstep

theorem length_le_weight {es : List Event} (hes : ∀ e ∈ es, e.inner = true)
    (hrun : fasyncLts.runIf Granted s es = some t) : es.length ≤ s.weight := by
  induction es generalizing s with
  | nil => exact Nat.zero_le _
  | cons e es ih =>
    obtain ⟨-, hrun⟩ := Option.ite_none_right_eq_some.mp hrun
    obtain ⟨u, hu, hrest⟩ := Option.bind_eq_some_iff.mp hrun
    have hlt : u.weight < s.weight := weight_lt (hes e List.mem_cons_self) hu
    have hle := ih (fun x hx => hes x (List.mem_cons_of_mem e hx)) hrest
    rw [List.length_cons]
    omega

/-- Where something is under way, there is a step that brings it on. -/
theorem Told.goes_on (h : Told s) (hne : s.clients ≠ []) : s.Quiet ∨ ∃ e : Event, e.inner = true ∧ (e.step s).isSome = true := by
  by_cases hhandler : s.handler = none
  · by_cases hedge : s.edge = true
    · have hact : s.actions ≠ 0 := fun h0 => hne (List.length_eq_zero_iff.mp (h.actions.symm.trans h0))
      refine Or.inr ⟨.enter, rfl, ?_⟩
      simp only [Event.step, hedge, hhandler, hact, ne_eq, not_false_eq_true, and_self, if_true, Option.isSome_some]
    · by_cases hall : ∀ c ∈ s.clients, c.pending = false ∧ c.read = none
      · exact Or.inl ⟨Bool.eq_false_iff.mpr hedge, hhandler, hall⟩
      · obtain ⟨c, hc, hbusy⟩ := not_forall₂.mp hall
        obtain ⟨i, hi⟩ := List.mem_iff_getElem?.mp hc
        refine Or.inr ?_
        cases hread : c.read with
        | none =>
          have hpending : c.pending = true := Bool.eq_true_of_not_eq_false fun hf => hbusy ⟨hf, hread⟩
          exact ⟨.signal i, rfl, by simp [Event.step, hi, hpending, hread]⟩
        | some pc => exact ⟨.statement i, rfl, by cases pc <;> simp [Event.step, hi, State.keyReadStep, hread]⟩
  · obtain ⟨r, hr⟩ := Option.ne_none_iff_exists'.mp hhandler
    exact Or.inr ⟨.handle, rfl, by simp [Event.step, hr]⟩

end Weight

/-- In every run in which `request_irq` does not fail: when nothing is under way, each client whose key has moved has
    the present state of the key; and while the key stands still and no one opens, closes, lists or reads a file, at
    most `weight` steps are taken until nothing is under way. -/
theorem key_told {s : State} (hr : fasyncLts.Reach Granted s) :
    (s.Quiet → ∀ c ∈ s.clients, c.listed = true → c.moved = true → c.got = some (keyOf s.pin)) ∧
      ∀ es t, (∀ e ∈ es, Event.inner e = true) → fasyncLts.runIf Granted s es = some t →
        es.length ≤ s.weight ∧ (t.clients ≠ [] → t.Quiet ∨ ∃ e, e.inner = true ∧ (Event.step t e).isSome = true) := by
  have htold {s : State} (hr : fasyncLts.Reach Granted s) : Told s := by
    refine hr.invariant (I := Told) ?_ fun s e t h hok hs => h.step hok hs
    rintro _ ⟨pin, rfl⟩
    exact .start pin
  refine ⟨fun hquiet c hc hl hm => ?_, fun es t hes hrun => ⟨length_le_weight hes hrun, (htold (hr.runIf hrun)).goes_on⟩⟩
  obtain ⟨hpending, hread⟩ := hquiet.clients c hc
  rcases (htold hr).clients c hc hl hm with hedge | ⟨hsampled, hway⟩
  · rw [hquiet.edge] at hedge
    cases hedge
  · rw [State.Sampled, hquiet.handler] at hsampled
    rw [hquiet.handler, hpending, hread, hsampled] at hway
    exact ((hway.resolve_left (absurd rfl)).resolve_left Bool.false_ne_true).resolve_left nofun

/-- Two clients; the key goes down and comes up again while the handler runs for the first time. -/
def twoClients : List Event :=
  [.open true, .open true, .fasync 0 true, .fasync 1 true, .move 0, .enter, .handle, .move 1, .handle, .handle, .handle,
    .signal 0, .statement 0, .statement 0, .handle, .handle, .handle, .handle, .enter] ++ List.replicate 8 .handle ++
    [.signal 0, .signal 1, .statement 1, .statement 0, .statement 0, .statement 1]

theorem key_told_two : ∃ s, fasyncLts.Reach Granted s ∧ s.pin = 1 ∧ s.clients.length = 2 ∧
    (s.Quiet → ∀ c ∈ s.clients, c.listed = true → c.moved = true → c.got = some 1) ∧ s.Quiet := by
  have hrun : (fasyncLts.runIf Granted (.start 1) twoClients).any (fun s => s.pin == 1 && s.clients.length == 2 &&
      s.edge == false && s.handler == none && s.clients.all fun c => c.pending == false && c.read == none) = true := by
    decide
  obtain ⟨s, hr, hp⟩ := Lts.exists_reach_of_runIf hrun ⟨1, rfl⟩
  simp only [Bool.and_eq_true, beq_iff_eq, List.all_eq_true] at hp
  obtain ⟨⟨⟨⟨hpin, htwo⟩, hedge⟩, hhandler⟩, hall⟩ := hp
  have htold := (key_told hr).1
  rw [hpin] at htold
  exact ⟨s, hr, hpin, htwo, htold, hedge, hhandler, hall⟩

end QuickStart.IrqSig.Fasync
