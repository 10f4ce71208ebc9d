import QuickStart.Maclimit.Linked

/-! # The service of an `ADD_CHECK` request

The history of one service holds the entries whose probe has started and those from whose MAC an ARP packet
came during their probe. At its end the first entry that has not answered is replaced, and no entry behind it
has been probed. -/

namespace QuickStart.Maclimit
open State

/-- The position of the entry whose probe has started and that the thread has not decided on. -/
def Pc.probing? : Pc → Option Nat
  | .copyMac i | .probe i _ | .arpSend i _ | .doze i _ | .timeout i _ | .decide i => some i
  | _ => none

/-- The MAC of the entry that is being probed. -/
def State.probed? (s : State) : Option Mac := (s.pc.probing?.bind fun i => s.maclimitList[i]?).map (·.mac)

/-- The thread has set the flag for an entry and has not copied its MAC. -/
def Pc.copying : Pc → Bool
  | .copyMac _ => true
  | _ => false

/-- The thread has replaced an entry, or the service is over. -/
def Pc.over : Pc → Bool
  | .free | .unlockReplace | .clear => true
  | _ => false

structure Service where
  /-- The positions of the entries whose probe has started. -/
  started : List Nat
  /-- The positions of the entries from whose MAC an ARP packet was handled during their probe. -/
  answered : List Nat
  /-- The outcome of the allocation for the replacement. -/
  allocated : Option Bool
  /-- The statements of the thread. -/
  statements : Nat
  deriving DecidableEq, Repr

namespace Service

def start : Service := { started := [], answered := [], allocated := none, statements := 0 }

def after (s : State) (e : Event) (h : Service) : Service :=
  match e with
  | .thread ok =>
    match s.pc with
    | .flagProbe i => { h with started := h.started ++ [i], statements := h.statements + 1 }
    | .allocReplace _ => { h with allocated := some ok, statements := h.statements + 1 }
    | _ => { h with statements := h.statements + 1 }
  | .arp (some a) => if s.probed? = some a.src then { h with answered := h.answered ++ s.pc.probing?.toList } else h
  | _ => h

/-- The first `k` entries have been probed and the first `a` have answered. -/
structure Passed (h : Service) (k a : Nat) : Prop where
  started : h.started = List.range k
  answered : ∀ j, j ∈ h.answered ↔ j < a

/-- Only the probes and the answers count. -/
theorem Passed.keep {h : Service} {k a n : Nat} {o : Option Bool} (hp : h.Passed k a) :
    Passed { h with allocated := o, statements := n } k a := ⟨hp.started, hp.answered⟩

end Service

/-- The thread is about to read the `ADD_CHECK` of a request whose node no invocation is still writing. -/
structure Requested (s : State) : Prop where
  pc : s.pc = .read
  flag : s.flag = .addCheck
  hooks : ∀ x ∈ s.hooks, x.isArp = false ∧ x.filling = false

/-- The runs of the module from the state `s₀` on. -/
abbrev serviceLts (s₀ : State) : Lts (State × Service) Event :=
  Lts.track { init := fun s => s = s₀, step := step } Service.after Service.start

/-- The service is not over. Each `arpin_hook_func` is one step, and none comes between the setting of the flag
    and the copying of the MAC. -/
def InService (s : State) (e : Event) : Prop :=
  s.pc ≠ .clear ∧
    match e with
    | .arpEnter _ => False
    | .arp _ => s.pc.copying = false
    | _ => True

instance (s : State) : ∀ e : Event, Decidable (InService s e)
  | .arpEnter _ => inferInstanceAs (Decidable (_ ∧ False))
  | .arp _ => inferInstanceAs (Decidable (_ ∧ _ = _))
  | .thread _ | .packet _ | .netEnter _ | .hook _ | .setLimitNum _ | .setEnable _ =>
    inferInstanceAs (Decidable (_ ∧ True))

/-- An upper bound for the statements of the thread until it clears the flag, with `n` entries in the list. -/
def Pc.left (n : Nat) : Pc → Nat
  | .read => 25 * n + 8
  | .entry i => 25 * (n - i) + 7
  | .flagProbe i => 25 * (n - (i + 1)) + 31
  | .copyMac i => 25 * (n - (i + 1)) + 30
  | .probe i k => 25 * (n - (i + 1)) + 4 * (checkArpPacketNum - k) + 9
  | .arpSend i k => 25 * (n - (i + 1)) + 4 * (checkArpPacketNum - (k + 1)) + 12
  | .doze i k => 25 * (n - (i + 1)) + 4 * (checkArpPacketNum - (k + 1)) + 11
  | .timeout i k => 25 * (n - (i + 1)) + 4 * (checkArpPacketNum - (k + 1)) + 10
  | .decide i => 25 * (n - (i + 1)) + 8
  | .allocReplace _ => 6
  | .lockReplace _ _ => 5
  | .allocAgain _ _ => 4
  | .replace _ _ => 3
  | .free => 2
  | .unlockReplace => 1
  | _ => 0

/-! ### The invariant -/

section Stages
variable (s₀ : State)

/-- The list is what the answers call for. -/
def Served (list : List MaclimitNode) (h : Service) : Prop :=
  (∃ i, i < s₀.maclimitList.length ∧ h.Passed (i + 1) i ∧
    ((h.allocated = some true ∧ list = s₀.maclimitList.set i s₀.newTerminal.node) ∨
      (h.allocated = some false ∧ list = s₀.maclimitList))) ∨
  (h.Passed s₀.maclimitList.length s₀.maclimitList.length ∧ h.allocated = none ∧ list = s₀.maclimitList)

theorem Served.keep {s₀ : State} {list : List MaclimitNode} {h : Service} {n : Nat} (hs : Served s₀ list h) :
    Served s₀ list { h with statements := n } := by
  rcases hs with ⟨i, hlt, hpas, hor⟩ | ⟨hpas, hor⟩
  · exact Or.inl ⟨i, hlt, hpas.keep, hor⟩
  · exact Or.inr ⟨hpas.keep, hor⟩

/-- The entry `i` is being probed; the flag says whether it has answered. -/
structure Probing (s : State) (h : Service) (i : Nat) : Prop where
  listed : i < s₀.maclimitList.length
  allocated : h.allocated = none
  flag : (s.flag = .arpReplayCheck ∧ h.Passed (i + 1) i) ∨ (s.flag = .arpReplayOk ∧ h.Passed (i + 1) (i + 1))
  cmpMac : s.pc.copying = false → s₀.maclimitList[i]?.map (·.mac) = some s.newTerminal.arpCmpMac

/-- Where the service stands, for each position of the thread. -/
def Stage (s : State) (h : Service) : Prop :=
  match s.pc with
  | .read => s.flag = .addCheck ∧ h.Passed 0 0 ∧ h.allocated = none
  | .entry i => i ≤ s₀.maclimitList.length ∧ h.Passed i i ∧ h.allocated = none
  | .flagProbe i => i < s₀.maclimitList.length ∧ h.Passed i i ∧ h.allocated = none
  | .copyMac i | .probe i _ | .arpSend i _ | .doze i _ | .timeout i _ | .decide i => Probing s₀ s h i
  | .allocReplace i => i < s₀.maclimitList.length ∧ h.Passed (i + 1) i
  | .lockReplace i node | .allocAgain i node | .replace i node =>
    i < s₀.maclimitList.length ∧ h.Passed (i + 1) i ∧ h.allocated = some true ∧ node = s₀.newTerminal.node
  | .free | .unlockReplace | .clear => Served s₀ s.maclimitList h
  | _ => False

variable {s₀} in
theorem stage_iff_probing {s : State} {h : Service} {i : Nat} (hpc : s.pc.probing? = some i) :
    Stage s₀ s h ↔ Probing s₀ s h i := by
  cases hp : s.pc <;> rw [hp] at hpc <;> simp only [Pc.probing?, Option.some.injEq, reduceCtorEq] at hpc <;>
    rw [Stage, hp] <;> exact hpc ▸ Iff.rfl

structure Serving (s : State) (h : Service) : Prop where
  node : s.newTerminal.node = s₀.newTerminal.node
  hooks : ∀ x ∈ s.hooks, x.isArp = false ∧ x.filling = false
  busy : s.flag ≠ .noAddTask
  list : s.pc.over = false → s.maclimitList = s₀.maclimitList
  stage : Stage s₀ s h
  bound : h.statements + s.pc.left s₀.maclimitList.length ≤ 25 * s₀.maclimitList.length + 8

end Stages

namespace Serving
variable {s₀ s t : State} {h : Service} {i : Nat}

theorem start (hreq : Requested s₀) : Serving s₀ s₀ Service.start where
  node := rfl
  hooks := hreq.hooks
  busy := by rw [hreq.flag]; simp
  list _ := rfl
  stage := by
    rw [Stage, hreq.pc]
    exact ⟨hreq.flag, ⟨rfl, by simp [Service.start]⟩, rfl⟩
  bound := by rw [hreq.pc]; exact Nat.le_of_eq (Nat.zero_add _)

/-- The invariant looks at the flag, the MAC, the list, the hooks and the position of the thread only. -/
theorem of_frame (hv : Serving s₀ s h) (hslot : t.newTerminal = s.newTerminal) (hlist : t.maclimitList = s.maclimitList)
    (hpc : t.pc = s.pc) (hhooks : ∀ x ∈ t.hooks, x.isArp = false ∧ x.filling = false) : Serving s₀ t h where
  node := by rw [hslot]; exact hv.node
  hooks := hhooks
  busy := by rw [State.flag, hslot]; exact hv.busy
  list := by rw [hpc, hlist]; exact hv.list
  stage := by
    have hstage := hv.stage
    simp only [Stage, hpc, hlist, State.flag, hslot] at hstage ⊢
    cases hp : s.pc <;> rw [hp] at hstage <;> first
      | exact hstage
      | exact ⟨hstage.listed, hstage.allocated, by simpa only [State.flag, hslot] using hstage.flag,
          by simpa only [hpc, hslot] using hstage.cmpMac⟩
  bound := by rw [hpc]; exact hv.bound

/-- A packet is not answered to while a request is in the slot. -/
theorem packet (hv : Serving s₀ s h) (skb : Option Packet) : Serving s₀ (netHookFunc s skb).1 h := by
  rcases netHookFunc_cases s skb with he | ⟨p, -, hposts, -⟩
  · rw [he]
    exact hv
  · exact absurd hposts.2 hv.busy

/-- The hook invocations in flight find the slot taken. -/
theorem hook (hv : Serving s₀ s h) {i : Nat} {x : Hook} (hx : s.hooks[i]? = some x) :
    Serving s₀ { (hookStep s x).1 with hooks := Calls.put s.hooks i (hookStep s x).2 } h := by
  have hmem := hv.hooks x (List.mem_of_getElem? hx)
  have hnet : ∀ o, (hookStep s x).2 = some o → o.isArp = false := by
    intro o ho
    cases x with
    | net p pc =>
      obtain ⟨pc', -, rfl⟩ := Option.map_eq_some_iff.mp ho
      rfl
    | arp a pc => cases hmem.1
  have hfill := hookStep_fill s x
  generalize (hookStep s x).1 = t at hfill ⊢
  generalize (hookStep s x).2 = o at hfill hnet ⊢
  cases hfill with
  | aside _ ho ht =>
    have hhooks : ∀ y ∈ Calls.put s.hooks i o, y.isArp = false ∧ y.filling = false := by
      intro y hy
      rcases Calls.mem_put hy with hy | rfl
      · exact hv.hooks y hy
      · exact ⟨hnet y rfl, ho⟩
    rcases ht with rfl | rfl <;> exact hv.of_frame rfl rfl rfl hhooks
  | enter hflag => exact absurd hflag hv.busy
  | write hf => exact absurd (hf.symm.trans hmem.2) (by simp)
  | publish => cases hmem.2
  | answer => cases hmem.1

/-- While an entry is being probed, an answer to the probe is a packet from its MAC. -/
theorem cmpMac (hv : Serving s₀ s h) (hpc : s.pc.probing? = some i) (hcopy : s.pc.copying = false) :
    s.probed? = some s.newTerminal.arpCmpMac := by
  have hover : s.pc.over = false := by
    cases hp : s.pc <;> rw [hp] at hpc <;> first | rfl | cases hpc
  rw [State.probed?, hpc, Option.bind_some, hv.list hover]
  exact ((stage_iff_probing hpc).mp hv.stage).cmpMac hcopy

/-- The answer that sets the flag is the one of the entry that is being probed. -/
theorem answer (hv : Serving s₀ s h) (hflag : s.flag = .arpReplayCheck) :
    Serving s₀ (s.setFlag .arpReplayOk).wakeUpProcess { h with answered := h.answered ++ s.pc.probing?.toList } where
  node := hv.node
  hooks := hv.hooks
  busy := by simp
  list := hv.list
  stage := by
    cases hpc : s.pc.probing? with
    | some i =>
      have hp := (stage_iff_probing hpc).mp hv.stage
      have hpas := (hp.flag.resolve_right fun hor => by rw [hflag] at hor; cases hor.1).2
      refine (stage_iff_probing (s := (s.setFlag .arpReplayOk).wakeUpProcess) hpc).mpr
        { hp with flag := Or.inr ⟨rfl, hpas.started, fun j => ?_⟩ }
      rw [List.mem_append, hpas.answered, Option.toList_some, List.mem_singleton]
      omega
    | none =>
      have hstage := hv.stage
      have hread : s.pc ≠ .read := fun hr => by
        rw [Stage, hr, hflag] at hstage
        cases hstage.1
      rw [Option.toList_none, List.append_nil]
      cases hp : s.pc <;> rw [hp] at hpc hread <;> simp only [Stage, hp, wakeUpProcess_pc, setFlag_pc] at hstage ⊢ <;>
        first | exact hstage | exact absurd rfl hread | cases hpc
  bound := hv.bound

/-- An ARP packet counts for the entry that is being probed, and for no other. -/
theorem arp (hv : Serving s₀ s h) (a : Option ArpInfo) (hcopy : s.pc.copying = false) :
    Serving s₀ (arpinHookFunc s a).1 (Service.after s (.arp a) h) := by
  cases a with
  | none => exact hv
  | some a =>
    simp only [arpinHookFunc, Service.after]
    by_cases hsrc : s.probed? = some a.src
    · -- Its entry is being probed: the answer sets the flag, unless an earlier one has.
      obtain ⟨pos, hpos, -⟩ := Option.map_eq_some_iff.mp hsrc
      obtain ⟨i, hpc, -⟩ := Option.bind_eq_some_iff.mp hpos
      have hmac : a.src = s.newTerminal.arpCmpMac := Option.some.inj (hsrc.symm.trans (hv.cmpMac hpc hcopy))
      rw [if_pos hsrc]
      by_cases hflag : s.flag = .arpReplayCheck
      · rw [if_pos ⟨hflag, hmac⟩]
        exact hv.answer hflag
      · rw [if_neg fun hor => hflag hor.1]
        have hp := (stage_iff_probing hpc).mp hv.stage
        have hpas := hp.flag.resolve_left fun hor => hflag hor.1
        refine { hv with stage := (stage_iff_probing hpc).mpr { hp with flag := Or.inr ⟨hpas.1, hpas.2.started, ?_⟩ } }
        intro j
        rw [hpc, List.mem_append, hpas.2.answered, Option.toList_some, List.mem_singleton]
        omega
    · rw [if_neg hsrc]
      by_cases hset : s.flag = .arpReplayCheck ∧ a.src = s.newTerminal.arpCmpMac
      · rw [if_pos hset]
        have hpc : s.pc.probing? = none := by
          by_contra hpc
          obtain ⟨i, hpc⟩ := Option.ne_none_iff_exists'.mp hpc
          rw [hv.cmpMac hpc hcopy, hset.2] at hsrc
          exact hsrc rfl
        have hv' := hv.answer hset.1
        rw [hpc, Option.toList_none, List.append_nil] at hv'
        exact hv'
      · rw [if_neg hset]
        exact hv

/-- A statement that leaves the flag and the MAC as they are keeps the probe of an entry going. -/
theorem goes_on (hp : Probing s₀ s h i) (hslot : t.newTerminal = s.newTerminal) (hcopy : s.pc.copying = false)
    (hpc : t.pc.probing? = some i) {n : Nat} : Stage s₀ t { h with statements := n } := by
  refine (stage_iff_probing hpc).mpr ⟨hp.listed, hp.allocated, ?_, fun _ => ?_⟩
  · rw [State.flag, hslot]
    exact hp.flag.imp (And.imp_right Service.Passed.keep) (And.imp_right Service.Passed.keep)
  · rw [hslot]
    exact hp.cmpMac hcopy

/-- What a statement of the thread has to show of the service. -/
theorem advance (hv : Serving s₀ s h) {h' : Service} (hhooks : t.hooks = s.hooks)
    (hnode : t.newTerminal.node = s.newTerminal.node) (hbusy : t.flag ≠ .noAddTask)
    (hlist : t.pc.over = false → t.maclimitList = s₀.maclimitList) (hstage : Stage s₀ t h')
    (hstatements : h'.statements = h.statements + 1)
    (hleft : t.pc.left s₀.maclimitList.length < s.pc.left s₀.maclimitList.length) : Serving s₀ t h' where
  node := hnode.trans hv.node
  hooks := by rw [hhooks]; exact hv.hooks
  busy := hbusy
  list := hlist
  stage := hstage
  bound := by
    have hbound := hv.bound
    omega

theorem thread (hv : Serving s₀ s h) {ok : Bool} (hclear : s.pc ≠ .clear) (hs : limitCheckStep s ok = some t) :
    Serving s₀ t (Service.after s (.thread ok) h) := by
  have hstage := hv.stage
  have hlist := hv.list
  have hbusy := hv.busy
  cases limitCheckStep_checks hs with
  | clears hpc => exact absurd hpc hclear
  | checks hpc hflag =>
    simp only [Stage, hpc] at hstage
    simp only [Service.after, hpc]
    refine hv.advance rfl rfl hbusy (fun _ => hlist (by rw [hpc]; rfl)) ?_ rfl ?_
    · exact ⟨Nat.zero_le _, hstage.2.1.keep, hstage.2.2⟩
    · simp only [goto_pc, hpc, Pc.left]
      omega
  | enters i hpc =>
    simp only [Stage, hpc] at hstage
    simp only [Service.after, hpc]
    rw [hlist (by rw [hpc]; rfl)]
    split <;> rename_i hlt <;> refine hv.advance rfl rfl hbusy (fun _ => hlist (by rw [hpc]; rfl)) ?_ rfl ?_
    · exact ⟨hlt, hstage.2.1.keep, hstage.2.2⟩
    · simp only [goto_pc, hpc, Pc.left]
      omega
    · obtain rfl : i = s₀.maclimitList.length := Nat.le_antisymm hstage.1 (Nat.le_of_not_lt hlt)
      exact Or.inr ⟨hstage.2.1.keep, hstage.2.2, hlist (by rw [hpc]; rfl)⟩
    · simp only [goto_pc, hpc, Pc.left]
      omega
  | flags i hpc =>
    simp only [Stage, hpc] at hstage
    obtain ⟨hlt, hpas, hnone⟩ := hstage
    simp only [Service.after, hpc]
    refine hv.advance rfl rfl (by simp) (fun _ => hlist (by rw [hpc]; rfl)) ?_ rfl ?_
    · refine ⟨hlt, hnone, Or.inl ⟨rfl, ?_, hpas.answered⟩, fun hcopy => (by cases hcopy)⟩
      rw [hpas.started, List.range_succ]
    · simp only [goto_pc, hpc, Pc.left]
      omega
  | copies i pos hpc hpos =>
    have hp := (stage_iff_probing (by rw [hpc]; rfl)).mp hstage
    have hlist := hlist (by rw [hpc]; rfl)
    simp only [Service.after, hpc]
    refine hv.advance rfl rfl hbusy (fun _ => hlist) ?_ rfl ?_
    · refine ⟨hp.listed, hp.allocated, ?_, fun _ => ?_⟩
      · exact hp.flag.imp (And.imp_right Service.Passed.keep) (And.imp_right Service.Passed.keep)
      · rw [← hlist, hpos]
        rfl
    · simp only [goto_pc, hpc, Pc.left, checkArpPacketNum]
      omega
  | probes i k hpc =>
    have hp := (stage_iff_probing (by rw [hpc]; rfl)).mp hstage
    simp only [Service.after, hpc]
    split <;> rename_i hgo <;> refine hv.advance rfl rfl hbusy (fun _ => hlist (by rw [hpc]; rfl)) ?_ rfl ?_
    · refine goes_on hp ?_ (by rw [hpc]; rfl) ?_ <;> rfl
    · have := hgo.1
      simp only [goto_pc, hpc, Pc.left, checkArpPacketNum] at this ⊢
      omega
    · refine goes_on hp ?_ (by rw [hpc]; rfl) ?_ <;> rfl
    · simp only [goto_pc, hpc, Pc.left]
      omega
  | sends i k pos hpc | dozes i k hpc | expires i k hpc =>
    have hp := (stage_iff_probing (by rw [hpc]; rfl)).mp hstage
    simp only [Service.after, hpc]
    refine hv.advance rfl rfl hbusy (fun _ => hlist (by rw [hpc]; rfl)) ?_ rfl ?_
    · refine goes_on hp ?_ (by rw [hpc]; rfl) ?_ <;> rfl
    · simp only [goto_pc, hpc, Pc.left]
      omega
  | decides i hpc =>
    have hp := (stage_iff_probing (by rw [hpc]; rfl)).mp hstage
    have hlt := hp.listed
    simp only [Service.after, hpc]
    split <;> rename_i hflag <;> refine hv.advance rfl rfl hbusy (fun _ => hlist (by rw [hpc]; rfl)) ?_ rfl ?_
    · refine ⟨hlt, (hp.flag.resolve_right fun hor => ?_).2.keep⟩
      rw [hflag] at hor
      cases hor.1
    · simp only [goto_pc, hpc, Pc.left]
      omega
    · exact ⟨hlt, (hp.flag.resolve_left fun hor => hflag hor.1).2.keep, hp.allocated⟩
    · simp only [goto_pc, hpc, Pc.left]
      omega
  | fails hpc hok =>
    rcases hpc with hpc | ⟨i, hpc⟩ <;> simp only [Stage, hpc] at hstage
    simp only [Service.after, hpc, hok]
    refine hv.advance rfl rfl hbusy (fun hover => (by cases hover)) ?_ rfl (by simp [hpc, Pc.left])
    exact Or.inl ⟨i, hstage.1, hstage.2.keep, Or.inr ⟨rfl, hlist (by rw [hpc]; rfl)⟩⟩
  | allocsReplace i hpc hok =>
    simp only [Stage, hpc] at hstage
    simp only [Service.after, hpc, hok]
    refine hv.advance rfl rfl hbusy (fun _ => hlist (by rw [hpc]; rfl)) ?_ rfl (by simp [hpc, Pc.left])
    exact ⟨hstage.1, hstage.2.keep, rfl, hv.node⟩
  | locksReplace i node hpc | allocsAgain i node hpc | failsAgain i node hpc =>
    simp only [Stage, hpc] at hstage
    simp only [Service.after, hpc]
    refine hv.advance rfl rfl hbusy (fun _ => hlist (by rw [hpc]; rfl)) ?_ rfl (by simp [hpc, Pc.left])
    exact ⟨hstage.1, hstage.2.1.keep, hstage.2.2⟩
  | replaces i node hpc =>
    simp only [Stage, hpc] at hstage
    obtain ⟨hlt, hpas, hsome, rfl⟩ := hstage
    simp only [Service.after, hpc]
    refine hv.advance rfl rfl hbusy (fun hover => (by cases hover)) ?_ rfl (by simp [hpc, Pc.left])
    refine Or.inl ⟨i, hlt, hpas.keep, Or.inl ⟨hsome, ?_⟩⟩
    rw [← hlist (by rw [hpc]; rfl)]
    rfl
  | frees hpc =>
    simp only [Stage, hpc] at hstage
    simp only [Service.after, hpc]
    exact hv.advance rfl rfl hbusy (fun hover => (by cases hover)) hstage.keep rfl (by simp [hpc, Pc.left])
  | unlocks hpc =>
    rcases hpc with hpc | hpc <;> simp only [Stage, hpc] at hstage
    simp only [Service.after, hpc]
    exact hv.advance rfl rfl hbusy (fun hover => (by cases hover)) hstage.keep rfl (by simp [hpc, Pc.left])
  | tests hpc | adds hpc | ignores hpc | allocs hpc | locksAdd node hpc | links node hpc | setsState hpc
  | schedules hpc | wakes hpc => simp_all [Stage, AddMode.request]

theorem step (hv : Serving s₀ s h) {e : Event} (hok : InService s e) (hs : step s e = some t) :
    Serving s₀ t (Service.after s e h) := by
  cases e with
  | thread ok => exact hv.thread hok.1 hs
  | packet skb =>
    obtain rfl := Option.some.inj hs
    exact hv.packet skb
  | arp a =>
    obtain rfl := Option.some.inj hs
    exact hv.arp a hok.2
  | netEnter p =>
    obtain rfl := Option.some.inj hs
    refine hv.of_frame rfl rfl rfl fun x hx => ?_
    rcases List.mem_append.mp hx with hx | hx
    · exact hv.hooks x hx
    · obtain rfl := List.mem_singleton.mp hx
      exact ⟨rfl, rfl⟩
  | arpEnter a => exact hok.2.elim
  | hook i =>
    obtain ⟨x, hx, rfl⟩ := Option.map_eq_some_iff.mp hs
    exact hv.hook hx
  | setLimitNum _ | setEnable _ =>
    obtain rfl := Option.some.inj hs
    exact hv.of_frame rfl rfl rfl hv.hooks

/-- The service does not get stuck. -/
theorem goes (hv : Serving s₀ s h) (hclear : s.pc ≠ .clear) (ok : Bool) : (limitCheckStep s ok).isSome = true := by
  have hstage := hv.stage
  have entry : ∀ i, s.pc.probing? = some i → ∃ pos, s.maclimitList[i]? = some pos := by
    intro i hpc
    have hp := (stage_iff_probing hpc).mp hstage
    rw [hv.list (by cases hp : s.pc <;> rw [hp] at hpc <;> first | rfl | cases hpc)]
    exact ⟨_, List.getElem?_eq_getElem hp.listed⟩
  cases hpc : s.pc <;> simp only [Stage, hpc] at hstage hclear <;> simp only [limitCheckStep, hpc]
  case read => simp [hstage.1]
  case copyMac i | arpSend i k =>
    obtain ⟨pos, hpos⟩ := entry i (by rw [hpc]; rfl)
    rw [hpos]
    rfl
  case allocReplace i | allocAgain i node => cases ok <;> rfl
  case clear => exact absurd rfl hclear
  all_goals rfl

end Serving

/-- A service ends. It puts the terminal of the request in the place of the first entry that has not answered, if
    there is one and its node can be allocated, and probes no entry behind it; nothing else in the list changes. -/
theorem first_silent_replaced {s₀ s : State} {h : Service} (hreq : Requested s₀)
    (hr : (serviceLts s₀).Reach (fun x e => InService x.1 e) (s, h)) :
    (h.statements ≤ 25 * s₀.maclimitList.length + 8 ∧ (s.pc ≠ .clear → ∀ ok, (limitCheckStep s ok).isSome = true)) ∧
    (s.pc = .clear →
      (∃ i, i < s₀.maclimitList.length ∧ (∀ j < i, j ∈ h.answered) ∧ i ∉ h.answered ∧
        h.started = List.range (i + 1) ∧
        ∃ ok, h.allocated = some ok ∧
          s.maclimitList = if ok then s₀.maclimitList.set i s₀.newTerminal.node else s₀.maclimitList) ∨
      ((∀ j < s₀.maclimitList.length, j ∈ h.answered) ∧ h.started = List.range s₀.maclimitList.length ∧
        s.maclimitList = s₀.maclimitList)) := by
  have hv : Serving s₀ s h := by
    refine hr.track_invariant ?_ fun _ _ _ _ hv hok hs => hv.step hok hs
    rintro _ rfl
    exact Serving.start hreq
  refine ⟨⟨(Nat.le_add_right _ _).trans hv.bound, hv.goes⟩, fun hpc => ?_⟩
  have hstage := hv.stage
  simp only [Stage, hpc] at hstage
  rcases hstage with ⟨i, hlt, hpas, hlist⟩ | ⟨hpas, -, hlist⟩
  · refine Or.inl ⟨i, hlt, fun j hj => (hpas.answered j).mpr hj, fun hi => ?_, hpas.started, ?_⟩
    · exact absurd ((hpas.answered i).mp hi) (Nat.lt_irrefl i)
    · rcases hlist with ⟨hok, hlist⟩ | ⟨hok, hlist⟩
      · exact ⟨true, hok, hlist⟩
      · exact ⟨false, hok, hlist⟩
  · exact Or.inr ⟨fun j hj => (hpas.answered j).mpr hj, hpas.started, hlist⟩

def packetC : Packet := { packetA with hSource := 0x0a0000000003, saddr := 0xc0a80104 }

/-- The terminals of `packetA` and `packetB` are listed, and that of `packetC` wants an entry. -/
def requestC : State :=
  { start { enable := 1, limitNum := 2 } with
    maclimitList := [packetA.node, packetB.node]
    newTerminal := { node := packetC.node, arpCmpMac := 0, flag := .addCheck }
    pc := .read }

/-- An ARP packet from the terminal of `p`. -/
def Packet.arp (p : Packet) : ArpInfo := { src := p.hSource, srcip := p.saddr, dst := 0, dstip := 0 }

/-- The first entry answers its second probe and the second entry none. -/
theorem first_silent_replaced_requestC :
    ∃ s h, (serviceLts requestC).Reach (fun x e => InService x.1 e) (s, h) ∧ s.pc = .clear ∧ h.answered = [0] ∧
      s.maclimitList = [packetA.node, packetC.node] := by
  have hrun : ((serviceLts requestC).runIf (fun x e => InService x.1 e) (requestC, Service.start)
      (List.replicate 10 (Event.thread true) ++ [Event.arp (some packetA.arp)] ++
        List.replicate 35 (Event.thread true))).any
      (fun x => x.1.pc == .clear && x.2.answered == [0] && x.2.started == [0, 1] && x.2.allocated == some true) = true := by
    decide
  obtain ⟨⟨s, h⟩, hr, hp⟩ := Lts.exists_reach_of_runIf hrun ⟨rfl, rfl⟩
  simp only [Bool.and_eq_true, beq_iff_eq] at hp
  obtain ⟨⟨⟨hpc, hanswered⟩, hstarted⟩, hallocated⟩ := hp
  refine ⟨s, h, hr, hpc, hanswered, ?_⟩
  have hreq : Requested requestC := ⟨rfl, rfl, by simp [requestC, start]⟩
  rcases (first_silent_replaced hreq hr).2 hpc with ⟨i, -, -, -, hrange, ok, hok, hlist⟩ | ⟨hall, -⟩
  · obtain rfl : i = 1 := by simpa using congrArg List.length (hrange.symm.trans hstarted)
    obtain rfl : ok = true := Option.some.inj (hok.symm.trans hallocated)
    rw [hlist]
    rfl
  · have := hall 1 (by decide)
    rw [hanswered] at this
    simp at this

end QuickStart.Maclimit
