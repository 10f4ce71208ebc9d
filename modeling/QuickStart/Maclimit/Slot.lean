import QuickStart.Maclimit.Step

/-! # The request slot

A hook posts a request only into an empty slot, and the thread empties it only at the end of a round. So
from the moment the thread reads a request until it clears the flag, the saved node and the list stay as
they were when the request was posted. -/

namespace QuickStart.Maclimit
open State

/-! ### Positions of the thread -/

/-- The thread has finished its last round and has not read the flag for the next one. -/
def Pc.idle : Pc → Bool
  | .test | .read | .setState | .schedule | .asleep => true
  | _ => false

/-- The thread serves an `ADD_IMMEDIATE` request and has not linked the node. -/
def Pc.immediate : Pc → Bool
  | .alloc | .lockAdd _ | .add _ => true
  | _ => false

/-- The thread serves an `ADD_CHECK` request and has not replaced an entry. -/
def Pc.checking : Pc → Bool
  | .entry _ | .flagProbe _ | .copyMac _ | .probe _ _ | .arpSend _ _ | .doze _ _ | .timeout _ _ | .decide _
  | .allocReplace _ | .lockReplace _ _ | .allocAgain _ _ | .replace _ _ => true
  | _ => false

/-- The node that the thread has allocated and not linked. -/
def Pc.node? : Pc → Option MaclimitNode
  | .lockAdd node | .add node | .lockReplace _ node | .allocAgain _ node | .replace _ node => some node
  | _ => none

/-- The node that the thread is about to link. -/
def Pc.link? : Pc → Option MaclimitNode
  | .add node | .replace _ node => some node
  | _ => none

theorem Pc.not_idle {pc : Pc} (h : pc.immediate = true ∨ pc.checking = true) : pc.idle = false := by
  cases pc <;> simp_all [Pc.idle, Pc.immediate, Pc.checking]

/-- The modes that `send_add_opt_to_thread` posts. -/
def AddMode.request : AddMode → Bool
  | .addImmediate | .addCheck => true
  | _ => false

/-- The request in the slot waits for the thread or is being served. -/
def State.Open (s : State) : Prop :=
  s.pc.immediate = true ∨ s.pc.checking = true ∨ (s.pc.idle = true ∧ s.flag.request = true)

/-- The request in the slot is `ADD_IMMEDIATE` and its node is not in the list yet. -/
def State.OpenImmediate (s : State) : Prop :=
  s.pc.immediate = true ∨ (s.pc.idle = true ∧ s.flag = .addImmediate)

theorem OpenImmediate.open {s : State} (h : s.OpenImmediate) : s.Open := by
  rcases h with h | ⟨h, hf⟩
  · exact Or.inl h
  · exact Or.inr (Or.inr ⟨h, by rw [hf]; rfl⟩)

/-! ### Hooks -/

def Hook.isArp : Hook → Bool
  | .arp _ _ => true
  | .net _ _ => false

/-- Each `net_hook_func` runs from its call to its return as one step. -/
def Event.netWhole : Event → Bool
  | .netEnter _ => false
  | _ => true

theorem searchList_eq_none {mac : Mac} :
    ∀ {l : List MaclimitNode} {n : Nat}, searchList mac l n = none ↔ mac ∈ l.map (·.mac)
  | [], n => by simp [searchList]
  | pos :: rest, n => by
    rw [searchList, List.map_cons, List.mem_cons]
    split
    · simp [*]
    · rw [searchList_eq_none]
      exact ⟨Or.inr, fun h => h.resolve_left fun he => by simp_all⟩

theorem searchList_eq_some {mac : Mac} {m : Nat} :
    ∀ {l : List MaclimitNode} {n : Nat}, searchList mac l n = some m ↔ mac ∉ l.map (·.mac) ∧ m = n + l.length
  | [], n => by simp [searchList, eq_comm]
  | pos :: rest, n => by
    rw [searchList, List.map_cons, List.mem_cons, List.length_cons]
    split
    · simp [*]
    · rename_i hne
      rw [searchList_eq_some, not_or]
      constructor
      · rintro ⟨h, rfl⟩
        exact ⟨⟨Ne.symm hne, h⟩, by omega⟩
      · rintro ⟨⟨-, h⟩, rfl⟩
        exact ⟨h, by omega⟩

/-! ### What the hooks do -/

/-- The slot after a hook posted the request `mode` of the packet `p`. -/
def State.post (s : State) (p : Packet) (mode : AddMode) : State :=
  ((s.setNode { dev := some p.dev, mac := p.hSource, srcip := p.saddr, dstip := p.daddr }).setFlag mode).wakeUpProcess

/-- The packet is one that the limit applies to, the scan gets the lock, and no entry has its MAC. -/
structure Unlisted (s : State) (p : Packet) : Prop where
  enabled : s.cfg.enable ≠ 0
  limited : limited p = true
  unlocked : s.wlocked = false
  fresh : p.hSource ∉ s.macs

instance (s : State) (p : Packet) : Decidable (Unlisted s p) :=
  decidable_of_iff (s.cfg.enable ≠ 0 ∧ Maclimit.limited p = true ∧ s.wlocked = false ∧ p.hSource ∉ s.macs)
    ⟨fun ⟨h1, h2, h3, h4⟩ => ⟨h1, h2, h3, h4⟩, fun ⟨h1, h2, h3, h4⟩ => ⟨h1, h2, h3, h4⟩⟩

/-- `net_hook_func` finds the slot empty and posts a request for the packet. -/
def Posts (s : State) (p : Packet) : Prop := Unlisted s p ∧ s.flag = .noAddTask

instance (s : State) (p : Packet) : Decidable (Posts s p) := inferInstanceAs (Decidable (_ ∧ _))

/-- The request that `net_hook_func` makes for an unlisted packet. -/
def State.mode (s : State) : AddMode :=
  if (s.maclimitList.length : Int) < s.cfg.limitNum then .addImmediate else .addCheck

theorem mode_request (s : State) : s.mode.request = true := by
  unfold State.mode
  split <;> rfl

/-- What `net_hook_func` does for an unlisted packet. -/
theorem netHookFunc_of_unlisted {s : State} {p : Packet} (h : Unlisted s p) :
    netHookFunc s (some p) = (if s.flag = .noAddTask then s.post p s.mode else s,
      if s.mode = .addImmediate then .accept else .drop) := by
  have hsearch : searchList p.hSource s.maclimitList 0 = some s.maclimitList.length :=
    searchList_eq_some.mpr ⟨h.fresh, (Nat.zero_add _).symm⟩
  have henable := h.enabled
  simp only [netHookFunc, h.limited, h.unlocked, hsearch, State.mode, sendAddOptToThread, State.post]
  by_cases hroom : (s.maclimitList.length : Int) < s.cfg.limitNum <;> simp [hroom, henable]

theorem netHookFunc_of_not_unlisted {s : State} {p : Packet} (h : ¬Unlisted s p) :
    netHookFunc s (some p) = (s, .accept) := by
  simp only [netHookFunc]
  split <;> rename_i henable
  · split <;> rename_i hlimited
    · split <;> rename_i hlock
      · rfl
      · cases hsearch : searchList p.hSource s.maclimitList 0 with
        | none => rfl
        | some n => exact absurd ⟨henable, hlimited, by simpa using hlock, (searchList_eq_some.mp hsearch).1⟩ h
    · rfl
  · rfl

/-- `net_hook_func` leaves the state as it is, or posts the request of a packet. -/
theorem netHookFunc_cases (s : State) (skb : Option Packet) :
    (netHookFunc s skb).1 = s ∨
      ∃ p, skb = some p ∧ Posts s p ∧ (netHookFunc s skb).1 = s.post p s.mode := by
  cases skb with
  | none => exact Or.inl rfl
  | some p =>
    by_cases hu : Unlisted s p
    · rw [netHookFunc_of_unlisted hu]
      by_cases hf : s.flag = .noAddTask
      · exact Or.inr ⟨p, rfl, ⟨hu, hf⟩, ite_eq_left_iff.mpr fun hn => absurd hf hn⟩
      · exact Or.inl (ite_eq_right_iff.mpr fun hf' => absurd hf' hf)
    · rw [netHookFunc_of_not_unlisted hu]
      exact Or.inl rfl

/-- `arpin_hook_func` leaves the state as it is, or answers the probe that is under way. -/
theorem arpinHookFunc_cases (s : State) (a : Option ArpInfo) :
    (arpinHookFunc s a).1 = s ∨
      (s.flag = .arpReplayCheck ∧ (arpinHookFunc s a).1 = (s.setFlag .arpReplayOk).wakeUpProcess) := by
  cases a with
  | none => exact Or.inl rfl
  | some a =>
    simp only [arpinHookFunc]
    split
    · rename_i h
      exact Or.inr ⟨h.1, rfl⟩
    · exact Or.inl rfl

/-- A statement of `arpin_hook_func` leaves the state as it is, stores the answer, or wakes the thread. -/
theorem arpinHookStep_cases (s : State) (a : ArpInfo) (pc : ArpPc) :
    (arpinHookStep s a pc).1 = s ∨ (pc = .setOk ∧ (arpinHookStep s a pc).1 = s.setFlag .arpReplayOk) ∨
      (pc = .wake ∧ (arpinHookStep s a pc).1 = s.wakeUpProcess) := by
  cases pc with
  | readFlag => exact Or.inl rfl
  | compare => exact Or.inl rfl
  | setOk => exact Or.inr (Or.inl ⟨rfl, rfl⟩)
  | wake => exact Or.inr (Or.inr ⟨rfl, rfl⟩)

/-! ### What the thread does -/

inductive Checks (s : State) (ok : Bool) : State → Prop
  | tests (hpc : s.pc = .test) : Checks s ok (s.goto (if s.shouldStop then .done else .read))
  | adds (hpc : s.pc = .read) (hflag : s.flag = .addImmediate) : Checks s ok (s.goto .alloc)
  | checks (hpc : s.pc = .read) (hflag : s.flag = .addCheck) : Checks s ok (s.goto (.entry 0))
  | ignores (hpc : s.pc = .read) (hflag : s.flag.request = false) : Checks s ok (s.goto .clear)
  | fails (hpc : s.pc = .alloc ∨ ∃ i, s.pc = .allocReplace i) (hok : ok = false) : Checks s ok (s.goto .clear)
  | allocs (hpc : s.pc = .alloc) (hok : ok = true) :
      Checks s ok ({ s with live := s.live + 1 }.goto (.lockAdd s.newTerminal.node))
  | locksAdd (node : MaclimitNode) (hpc : s.pc = .lockAdd node) :
      Checks s ok ({ s with wlocked := true }.goto (.add node))
  | links (node : MaclimitNode) (hpc : s.pc = .add node) :
      Checks s ok ({ s with maclimitList := node :: s.maclimitList }.goto .unlockAdd)
  | unlocks (hpc : s.pc = .unlockAdd ∨ s.pc = .unlockReplace) : Checks s ok ({ s with wlocked := false }.goto .clear)
  | enters (i : Nat) (hpc : s.pc = .entry i) :
      Checks s ok (s.goto (if i < s.maclimitList.length then .flagProbe i else .clear))
  | flags (i : Nat) (hpc : s.pc = .flagProbe i) : Checks s ok ((s.setFlag .arpReplayCheck).goto (.copyMac i))
  | copies (i : Nat) (pos : MaclimitNode) (hpc : s.pc = .copyMac i) (hpos : s.maclimitList[i]? = some pos) :
      Checks s ok ({ s with newTerminal := { s.newTerminal with arpCmpMac := pos.mac } }.goto (.probe i 0))
  | probes (i k : Nat) (hpc : s.pc = .probe i k) :
      Checks s ok (s.goto (if k < checkArpPacketNum ∧ s.flag = .arpReplayCheck then .arpSend i k else .decide i))
  | sends (i k : Nat) (pos : MaclimitNode) (hpc : s.pc = .arpSend i k) (hpos : s.maclimitList[i]? = some pos) :
      Checks s ok ({ s with arpSent := s.arpSent ++ [arpProbe pos] }.goto (.doze i k))
  | dozes (i k : Nat) (hpc : s.pc = .doze i k) : Checks s ok ({ s with task := .uninterruptible }.goto (.timeout i k))
  | expires (i k : Nat) (hpc : s.pc = .timeout i k) : Checks s ok ({ s with task := .running }.goto (.probe i (k + 1)))
  | decides (i : Nat) (hpc : s.pc = .decide i) :
      Checks s ok (s.goto (if s.flag = .arpReplayCheck then .allocReplace i else .entry (i + 1)))
  | allocsReplace (i : Nat) (hpc : s.pc = .allocReplace i) (hok : ok = true) :
      Checks s ok ({ s with live := s.live + 1 }.goto (.lockReplace i s.newTerminal.node))
  | locksReplace (i : Nat) (node : MaclimitNode) (hpc : s.pc = .lockReplace i node) :
      Checks s ok ({ s with wlocked := true }.goto (.allocAgain i node))
  | allocsAgain (i : Nat) (node : MaclimitNode) (hpc : s.pc = .allocAgain i node) (hok : ok = true) :
      Checks s ok ({ s with live := s.live + 1 }.goto (.replace i node))
  | failsAgain (i : Nat) (node : MaclimitNode) (hpc : s.pc = .allocAgain i node) (hok : ok = false) :
      Checks s ok (s.goto (.replace i node))
  | replaces (i : Nat) (node : MaclimitNode) (hpc : s.pc = .replace i node) :
      Checks s ok ({ s with maclimitList := s.maclimitList.set i node }.goto .free)
  | frees (hpc : s.pc = .free) : Checks s ok ({ s with live := s.live - 1 }.goto .unlockReplace)
  | clears (hpc : s.pc = .clear) : Checks s ok ((s.setFlag .noAddTask).goto .setState)
  | setsState (hpc : s.pc = .setState) : Checks s ok ({ s with task := .uninterruptible }.goto .schedule)
  | schedules (hpc : s.pc = .schedule) : Checks s ok (s.goto (if s.task = .running then .test else .asleep))
  | wakes (hpc : s.pc = .asleep) (htask : s.task = .running) : Checks s ok (s.goto .test)

theorem limitCheckStep_checks {s t : State} {ok : Bool} (hs : limitCheckStep s ok = some t) : Checks s ok t := by
  unfold limitCheckStep at hs
  generalize hpc : s.pc = pc at hs
  cases pc with
  | test => exact Option.some.inj hs ▸ .tests hpc
  | read =>
    cases hf : s.flag <;> rw [hf] at hs <;> obtain rfl := Option.some.inj hs
    case addImmediate => exact .adds hpc hf
    case addCheck => exact .checks hpc hf
    all_goals exact .ignores hpc (by rw [hf]; rfl)
  | alloc =>
    cases ok <;> obtain rfl := Option.some.inj hs
    · exact .fails (Or.inl hpc) rfl
    · exact .allocs hpc rfl
  | allocReplace i =>
    cases ok <;> obtain rfl := Option.some.inj hs
    · exact .fails (Or.inr ⟨i, hpc⟩) rfl
    · exact .allocsReplace i hpc rfl
  | allocAgain i node =>
    cases ok <;> obtain rfl := Option.some.inj hs
    · exact .failsAgain i node hpc rfl
    · exact .allocsAgain i node hpc rfl
  | copyMac i =>
    obtain ⟨pos, hpos, rfl⟩ := Option.map_eq_some_iff.mp hs
    exact .copies i pos hpc hpos
  | arpSend i k =>
    obtain ⟨pos, hpos, rfl⟩ := Option.map_eq_some_iff.mp hs
    exact .sends i k pos hpc hpos
  | asleep =>
    dsimp only at hs
    split at hs
    · rename_i htask
      obtain rfl := Option.some.inj hs
      exact .wakes hpc htask
    · cases hs
  | done => cases hs
  | lockAdd node => exact Option.some.inj hs ▸ .locksAdd node hpc
  | add node => exact Option.some.inj hs ▸ .links node hpc
  | unlockAdd => exact Option.some.inj hs ▸ .unlocks (Or.inl hpc)
  | entry i => exact Option.some.inj hs ▸ .enters i hpc
  | flagProbe i => exact Option.some.inj hs ▸ .flags i hpc
  | probe i k => exact Option.some.inj hs ▸ .probes i k hpc
  | doze i k => exact Option.some.inj hs ▸ .dozes i k hpc
  | timeout i k => exact Option.some.inj hs ▸ .expires i k hpc
  | decide i => exact Option.some.inj hs ▸ .decides i hpc
  | lockReplace i node => exact Option.some.inj hs ▸ .locksReplace i node hpc
  | replace i node => exact Option.some.inj hs ▸ .replaces i node hpc
  | free => exact Option.some.inj hs ▸ .frees hpc
  | unlockReplace => exact Option.some.inj hs ▸ .unlocks (Or.inr hpc)
  | clear => exact Option.some.inj hs ▸ .clears hpc
  | setState => exact Option.some.inj hs ▸ .setsState hpc
  | schedule => exact Option.some.inj hs ▸ .schedules hpc

/-- The thread ends a round without using the node of the request: an allocation fails, or no entry is left
    to probe. -/
def givesUp (s : State) (ok : Bool) : Bool :=
  match s.pc with
  | .alloc | .allocReplace _ => !ok
  | .entry i => decide (s.maclimitList.length ≤ i)
  | _ => false

/-- A statement of the thread that keeps the list and the request, and begins no service. -/
structure Quiet (s : State) (ok : Bool) (t : State) : Prop where
  cfg : t.cfg = s.cfg
  hooks : t.hooks = s.hooks
  list : t.maclimitList = s.maclimitList
  slotNode : t.newTerminal.node = s.newTerminal.node
  flag : t.flag = s.flag
  shouldStop : t.shouldStop = s.shouldStop
  immediate : t.pc.immediate = (s.pc.immediate && !givesUp s ok)
  checking : t.pc.checking = (s.pc.checking && !givesUp s ok)
  idle : t.pc.idle = true → s.pc.idle = true
  idleEnd : s.pc.idle = true → t.pc.idle = true ∨ s.shouldStop = true ∨ (t.pc = .clear ∧ s.flag.request = false)
  node : ∀ node, t.pc.node? = some node → node = s.newTerminal.node ∨ s.pc.node? = some node
  link : s.pc.link? = none
  clear : s.pc ≠ .clear

theorem givesUp_serving {s : State} {ok : Bool} (h : givesUp s ok = true) :
    s.pc.immediate = true ∨ s.pc.checking = true := by
  cases hpc : s.pc <;> simp [givesUp, hpc] at h <;> simp [Pc.immediate, Pc.checking]

theorem Quiet.of_immediate {s t : State} {ok : Bool} (q : Quiet s ok t) (h : t.pc.immediate = true) :
    s.pc.immediate = true := by
  rw [q.immediate, Bool.and_eq_true] at h
  exact h.1

theorem Quiet.of_checking {s t : State} {ok : Bool} (q : Quiet s ok t) (h : t.pc.checking = true) :
    s.pc.checking = true := by
  rw [q.checking, Bool.and_eq_true] at h
  exact h.1

/-- What a statement of `limit_check_func` can do to the list and to the request slot. -/
theorem limitCheckStep_cases {s t : State} {ok : Bool} (hs : limitCheckStep s ok = some t) :
    Quiet s ok t ∨
    (s.pc = .read ∧ s.flag = .addImmediate ∧ t = s.goto .alloc) ∨
    (s.pc = .read ∧ s.flag = .addCheck ∧ t = s.goto (.entry 0)) ∨
    (∃ i, s.pc = .flagProbe i ∧ t = (s.setFlag .arpReplayCheck).goto (.copyMac i)) ∨
    (∃ node, s.pc = .add node ∧ t = { s with maclimitList := node :: s.maclimitList }.goto .unlockAdd) ∨
    (∃ i node, s.pc = .replace i node ∧ t = { s with maclimitList := s.maclimitList.set i node }.goto .free) ∨
    (s.pc = .clear ∧ t = (s.setFlag .noAddTask).goto .setState) := by
  cases limitCheckStep_checks hs with
  | adds hpc hf => exact Or.inr (Or.inl ⟨hpc, hf, rfl⟩)
  | checks hpc hf => exact Or.inr (Or.inr (Or.inl ⟨hpc, hf, rfl⟩))
  | flags i hpc => exact Or.inr (Or.inr (Or.inr (Or.inl ⟨i, hpc, rfl⟩)))
  | links node hpc => exact Or.inr (Or.inr (Or.inr (Or.inr (Or.inl ⟨node, hpc, rfl⟩))))
  | replaces i node hpc => exact Or.inr (Or.inr (Or.inr (Or.inr (Or.inr (Or.inl ⟨i, node, hpc, rfl⟩)))))
  | clears hpc => exact Or.inr (Or.inr (Or.inr (Or.inr (Or.inr (Or.inr ⟨hpc, rfl⟩)))))
  | fails hpc hok =>
    left
    rcases hpc with hpc | ⟨i, hpc⟩ <;> constructor <;>
      simp [hpc, hok, givesUp, Pc.idle, Pc.immediate, Pc.checking, Pc.node?, Pc.link?]
  | unlocks hpc =>
    left
    rcases hpc with hpc | hpc <;> constructor <;>
      simp [hpc, givesUp, Pc.idle, Pc.immediate, Pc.checking, Pc.node?, Pc.link?]
  | ignores hpc hc | allocs hpc hc | allocsReplace i hpc hc | allocsAgain i node hpc hc | failsAgain i node hpc hc
  | copies i pos hpc hc | sends i k pos hpc hc | wakes hpc hc =>
    left
    constructor <;> simp_all [givesUp, Pc.idle, Pc.immediate, Pc.checking, Pc.node?, Pc.link?]
  -- The other statements move on within their part of the round, or to the end of it.
  | tests hpc | locksAdd node hpc | enters i hpc | probes i k hpc | dozes i k hpc | expires i k hpc | decides i hpc
  | locksReplace i node hpc | frees hpc | setsState hpc | schedules hpc =>
    left
    constructor <;> (try split) <;> simp_all [givesUp, Pc.idle, Pc.immediate, Pc.checking, Pc.node?, Pc.link?]

/-! ### A hook in one step is its statements with nothing in between -/

section Whole
variable {cfg : MaclimitCfg} {s t u : State} {hs : List Hook} {h h' : Hook}

/-- The events of a run are not restricted. -/
abbrev runAny (cfg : MaclimitCfg) (s : State) (es : List Event) : Option State :=
  (lts cfg).runIf (fun _ _ => True) s es

theorem step_last (s : State) (hs : List Hook) (h : Hook) : step { s with hooks := hs ++ [h] } (.hook hs.length) =
    some { (hookStep s h).1 with hooks := hs ++ (hookStep s h).2.toList } := by
  have hframe : (hookStep { s with hooks := hs ++ [h] } h).2 = (hookStep s h).2 ∧
      ∀ l, { (hookStep { s with hooks := hs ++ [h] } h).1 with hooks := l } = { (hookStep s h).1 with hooks := l } := by
    rcases h with ⟨p, pc⟩ | ⟨a, pc⟩ <;> cases pc <;> exact ⟨rfl, fun _ => rfl⟩
  rw [step, List.getElem?_concat_length, Option.map_some, hframe.1]
  cases ho : (hookStep s h).2 with
  | none => simp [hframe.2, Calls.put, List.eraseIdx_append_of_length_le]
  | some h' => simp [hframe.2, Calls.put]

theorem runAny_last (he : hookStep s h = (t, some h')) {n : Nat}
    (hr : runAny cfg { t with hooks := hs ++ [h'] } (List.replicate n (.hook hs.length)) = some u) :
    runAny cfg { s with hooks := hs ++ [h] } (List.replicate (n + 1) (.hook hs.length)) = some u := by
  have hstep := step_last s hs h
  rw [he] at hstep
  rw [List.replicate_succ, runAny, Lts.runIf, if_pos trivial]
  exact (congrArg (Option.bind · _) hstep).trans hr

theorem runAny_return (he : hookStep s h = (t, none)) :
    runAny cfg { s with hooks := hs ++ [h] } (List.replicate 1 (.hook hs.length)) = some { t with hooks := hs } := by
  have hstep := step_last s hs h
  rw [he, Option.toList_none, List.append_nil] at hstep
  rw [List.replicate_one, runAny, Lts.runIf, if_pos trivial]
  exact congrArg (Option.bind · some) hstep

/-- Publishing the request of a packet and waking the thread, from the test of the flag on. -/
theorem readFlag_run (cfg : MaclimitCfg) (s : State) (p : Packet) (mode : AddMode) :
    ∃ n, runAny cfg { s with hooks := s.hooks ++ [.net p (.readFlag mode)] }
      (List.replicate n (.hook s.hooks.length)) =
        some (sendAddOptToThread s p.saddr p.daddr p.hSource p.dev mode) := by
  by_cases hf : s.flag = .noAddTask
  · have hgo : hookStep s (.net p (.readFlag mode)) = (s, some (.net p (.setSrcip mode))) := by
      simp only [hookStep, netHookStep, if_pos hf, Option.map_some]
    refine ⟨7, runAny_last hgo <| runAny_last rfl <| runAny_last rfl <| runAny_last rfl <| runAny_last rfl <|
      runAny_last rfl <| (runAny_return rfl).trans ?_⟩
    rw [sendAddOptToThread, if_pos hf]
    rfl
  · have hno : hookStep s (.net p (.readFlag mode)) = (s, none) := by
      simp only [hookStep, netHookStep, if_neg hf, Option.map_none]
    exact ⟨1, (runAny_return hno).trans (by rw [sendAddOptToThread, if_neg hf])⟩

/-- `net_hook_func` from its call to its return is its statements, with no other step in between. -/
theorem netHookFunc_run (s : State) (p : Packet) :
    ∃ n, runAny cfg s (.netEnter p :: List.replicate n (.hook s.hooks.length)) = some (netHookFunc s (some p)).1 := by
  have enter (n : Nat) : runAny cfg s (.netEnter p :: List.replicate n (.hook s.hooks.length)) =
      runAny cfg { s with hooks := s.hooks ++ [.net p .start] } (List.replicate n (.hook s.hooks.length)) := by
    rw [runAny, Lts.runIf, if_pos trivial]
    rfl
  by_cases hgo : s.cfg.enable ≠ 0 ∧ limited p = true
  · have hstart : hookStep s (.net p .start) = (s, some (.net p .scan)) := by
      simp only [hookStep, netHookStep, if_pos hgo, Option.map_some]
    by_cases hw : s.wlocked = true
    · have hscan : hookStep s (.net p .scan) = (s, none) := by
        simp only [hookStep, netHookStep, if_pos hw, Option.map_none]
      exact ⟨2, (enter 2).trans <| (runAny_last hstart (runAny_return hscan)).trans
        (by simp only [netHookFunc, if_pos hgo.1, if_pos hgo.2, if_pos hw])⟩
    · cases hsearch : searchList p.hSource s.maclimitList 0 with
      | none =>
        have hscan : hookStep s (.net p .scan) = (s, none) := by
          simp only [hookStep, netHookStep, if_neg hw, hsearch, Option.map_none]
        exact ⟨2, (enter 2).trans <| (runAny_last hstart (runAny_return hscan)).trans
          (by simp only [netHookFunc, if_pos hgo.1, if_pos hgo.2, if_neg hw, hsearch])⟩
      | some connectNum =>
        have hscan : hookStep s (.net p .scan) = (s, some (.net p (.compare connectNum))) := by
          simp only [hookStep, netHookStep, if_neg hw, hsearch, Option.map_some]
        obtain ⟨n, hn⟩ := readFlag_run cfg s p
          (if (connectNum : Int) < s.cfg.limitNum then .addImmediate else .addCheck)
        refine ⟨n + 3, (enter (n + 3)).trans <| (runAny_last hstart <| runAny_last hscan <|
          runAny_last rfl hn).trans ?_⟩
        by_cases hlt : (connectNum : Int) < s.cfg.limitNum
        · simp only [netHookFunc, if_pos hgo.1, if_pos hgo.2, if_neg hw, hsearch, if_pos hlt]
        · simp only [netHookFunc, if_pos hgo.1, if_pos hgo.2, if_neg hw, hsearch, if_neg hlt]
  · have hstart : hookStep s (.net p .start) = (s, none) := by
      simp only [hookStep, netHookStep, if_neg hgo, Option.map_none]
    refine ⟨1, (enter 1).trans <| (runAny_return hstart).trans ?_⟩
    by_cases henable : s.cfg.enable ≠ 0
    · have hlim : ¬limited p = true := fun h => hgo ⟨henable, h⟩
      simp only [netHookFunc, if_pos henable, if_neg hlim]
    · simp only [netHookFunc, if_neg henable]

/-- `arpin_hook_func` from its call to its return is its statements, with no other step in between. -/
theorem arpinHookFunc_run (s : State) (a : ArpInfo) :
    ∃ n, runAny cfg s (.arpEnter a :: List.replicate n (.hook s.hooks.length)) =
      some (arpinHookFunc s (some a)).1 := by
  have enter (n : Nat) : runAny cfg s (.arpEnter a :: List.replicate n (.hook s.hooks.length)) =
      runAny cfg { s with hooks := s.hooks ++ [.arp a .readFlag] } (List.replicate n (.hook s.hooks.length)) := by
    rw [runAny, Lts.runIf, if_pos trivial]
    rfl
  by_cases hf : s.flag = .arpReplayCheck
  · have hread : hookStep s (.arp a .readFlag) = (s, some (.arp a .compare)) := by
      simp only [hookStep, arpinHookStep, if_pos hf, Option.map_some]
    by_cases hmac : a.src = s.newTerminal.arpCmpMac
    · have hcompare : hookStep s (.arp a .compare) = (s, some (.arp a .setOk)) := by
        simp only [hookStep, arpinHookStep, if_pos hmac, Option.map_some]
      refine ⟨4, (enter 4).trans <| (runAny_last hread <| runAny_last hcompare <| runAny_last rfl <|
        runAny_return rfl).trans ?_⟩
      rw [arpinHookFunc, if_pos ⟨hf, hmac⟩]
      rfl
    · have hcompare : hookStep s (.arp a .compare) = (s, none) := by
        simp only [hookStep, arpinHookStep, if_neg hmac, Option.map_none]
      refine ⟨2, (enter 2).trans <| (runAny_last hread <| runAny_return hcompare).trans ?_⟩
      rw [arpinHookFunc, if_neg fun h => hmac h.2]
  · have hread : hookStep s (.arp a .readFlag) = (s, none) := by
      simp only [hookStep, arpinHookStep, if_neg hf, Option.map_none]
    refine ⟨1, (enter 1).trans <| (runAny_return hread).trans ?_⟩
    rw [arpinHookFunc, if_neg fun h => hf h.1]

end Whole

end QuickStart.Maclimit
