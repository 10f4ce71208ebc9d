import QuickStart.Maclimit.Cleanup

/-! # The ledger of the nodes

Every node that `create_new_node` has allocated and nobody has freed is in the list, on its way into it, just
replaced and about to be freed, or lost: a replacement allocates twice and uses one of the two nodes. -/

namespace QuickStart.Maclimit
open State

/-- The nodes that the thread holds outside the list: the one it is about to link, or the one it has replaced. -/
def Pc.held : Pc → Nat
  | .lockAdd _ | .add _ | .lockReplace _ _ | .allocAgain _ _ | .replace _ _ | .free => 1
  | _ => 0

/-- The successful allocations under the write lock, whose node nobody keeps. -/
def unkept (m : Module) : ModuleEvent → Nat → Nat
  | .run (.thread true), n =>
    match m.pc with
    | .allocAgain _ _ => n + 1
    | _ => n
  | _, n => n

/-- The module whose runs count the allocations whose node nobody keeps. -/
abbrev ledgerLts : Lts (Module × Nat) ModuleEvent := (moduleLts maclimitCfg).track unkept 0

/-- The entries that the loop of `nf_cleanup` has freed. -/
def Module.freed (m : Module) : Nat :=
  match m.cleanup with
  | .walk i => i
  | .gone => m.maclimitList.length
  | _ => 0

/-- Where the allocated nodes are; `lost` of them are nowhere. -/
structure Balanced (m : Module) (lost : Nat) : Prop where
  books : m.live + m.freed = m.maclimitList.length + m.pc.held + lost
  within : m.freed ≤ m.maclimitList.length
  joined : m.cleanup.joined = true → m.pc = .done

/-- A statement of the thread moves nodes between the list, its hands and the allocator. -/
theorem limitCheckStep_books {m : Module} {t : State} {ok : Bool} {n : Nat} (hs : limitCheckStep m.toState ok = some t)
    (hn : m.live = m.maclimitList.length + m.pc.held + n) :
    t.live = t.maclimitList.length + t.pc.held + unkept m (.run (.thread ok)) n := by
  cases limitCheckStep_checks hs with
  | fails hpc hok => rcases hpc with hpc | ⟨i, hpc⟩ <;> simp [unkept, hpc, hok, hn, Pc.held]
  | unlocks hpc => rcases hpc with hpc | hpc <;> cases ok <;> simp [unkept, hpc, hn, Pc.held]
  | allocs hpc hok | allocsReplace i hpc hok | failsAgain i node hpc hok =>
    simp [unkept, hpc, hok, hn, Pc.held, Nat.add_right_comm]
  | allocsAgain i node hpc hok => simp [unkept, hpc, hok, hn, Pc.held, Nat.add_assoc]
  | tests hpc | enters i hpc | probes i k hpc | decides i hpc | schedules hpc =>
    split <;> cases ok <;> simp [unkept, hpc, hn, Pc.held]
  | adds hpc | checks hpc | ignores hpc | copies i pos hpc | sends i k pos hpc | wakes hpc | locksAdd node hpc
  | links node hpc | flags i hpc | dozes i k hpc | expires i k hpc | locksReplace i node hpc | replaces i node hpc
  | frees hpc | clears hpc | setsState hpc => cases ok <;> simp [unkept, hpc, hn, Pc.held]

namespace Balanced
variable {m n : Module} {lost : Nat}

theorem loaded (cfg : MaclimitCfg) : Balanced (Module.loaded cfg) 0 where
  books := rfl
  within := Nat.zero_le _
  joined hj := by cases hj

theorem freed_eq_zero (h : Balanced m lost) (hpc : m.pc ≠ .done) : m.freed = 0 := by
  have hj : m.cleanup.joined ≠ true := fun hj => hpc (h.joined hj)
  rw [Module.freed]
  split <;> simp_all [CleanupPc.joined]

theorem thread (h : Balanced m lost) {ok : Bool} {t : State} (hs : limitCheckStep m.toState ok = some t) :
    Balanced { m with toState := t } (unkept m (.run (.thread ok)) lost) := by
  have hpc : m.pc ≠ .done := fun hd => by
    rw [limitCheckStep, hd] at hs
    cases hs
  have hzero := h.freed_eq_zero hpc
  have hj : m.cleanup.joined ≠ true := fun hj => hpc (h.joined hj)
  have hzero' : ({ m with toState := t } : Module).freed = 0 := by
    rw [Module.freed]
    split <;> simp_all [CleanupPc.joined]
  have hbooks := h.books
  rw [hzero, Nat.add_zero] at hbooks
  exact ⟨by rw [hzero', Nat.add_zero]; exact limitCheckStep_books hs hbooks, by rw [hzero']; exact Nat.zero_le _,
    fun hj' => absurd hj' hj⟩

theorem aside (h : Balanced m lost) {t : State} (hpc : t.pc = m.pc) (hlist : t.maclimitList = m.maclimitList)
    (hlive : t.live = m.live) : Balanced { m with toState := t } lost := by
  have hfreed : ({ m with toState := t } : Module).freed = m.freed := by
    simp only [Module.freed, hlist]
  exact
    { books := by rw [hfreed, hpc, hlist, hlive]; exact h.books
      within := by rw [hfreed, hlist]; exact h.within
      joined := fun hj => hpc.trans (h.joined hj) }

theorem nfCleanup (h : Balanced m lost) (hs : m.nfCleanup = some n) : Balanced n lost := by
  have hbooks := h.books
  have hwithin := h.within
  cases hc : m.cleanup <;> simp only [Module.nfCleanup, hc] at hs <;> simp only [Module.freed, hc] at hbooks hwithin
  case walk i =>
    have hdone := h.joined (by rw [hc]; rfl)
    simp only [hdone, Pc.held] at hbooks
    split at hs <;> rename_i hlt <;> obtain rfl := Option.some.inj hs
    · -- The entry that is freed is one of those still allocated.
      refine ⟨?_, hlt, fun _ => hdone⟩
      simp only [Module.freed, hdone, Pc.held]
      omega
    · refine ⟨?_, Nat.le_refl _, fun _ => hdone⟩
      simp only [Module.freed, hdone, Pc.held]
      omega
  case join =>
    split at hs <;> rename_i hd
    · obtain rfl := Option.some.inj hs
      exact ⟨hbooks, hwithin, fun _ => hd⟩
    · cases hs
  case synchronize =>
    split at hs
    · obtain rfl := Option.some.inj hs
      exact ⟨hbooks, hwithin, fun _ => h.joined (by rw [hc]; rfl)⟩
    · cases hs
  case gone => cases hs
  case setStop | wake =>
    obtain rfl := Option.some.inj hs
    exact ⟨hbooks, hwithin, fun hj => by cases hj⟩
  case setNull | removeProcEntry | unregister =>
    obtain rfl := Option.some.inj hs
    exact ⟨hbooks, hwithin, fun _ => h.joined (by rw [hc]; rfl)⟩

theorem step (h : Balanced m lost) {e : ModuleEvent} (hs : m.step e = some n) : Balanced n (unkept m e lost) := by
  cases e with
  | cleanup => exact h.nfCleanup hs
  | run e =>
    simp only [Module.step] at hs
    split at hs <;> rename_i hallowed
    · obtain ⟨t, ht, rfl⟩ := Option.map_eq_some_iff.mp hs
      cases e with
      | thread ok => exact h.thread ht
      | packet _ | arp _ => cases hallowed.1
      | hook i =>
        obtain ⟨x, -, rfl⟩ := Option.map_eq_some_iff.mp ht
        obtain ⟨hpc, hlist, hlive⟩ := hookStep_kept m.toState x
        exact h.aside hpc hlist hlive
      | netEnter _ | arpEnter _ | setLimitNum _ | setEnable _ =>
        obtain rfl := Option.some.inj ht
        exact h.aside rfl rfl rfl
    · cases hs

end Balanced

/-- Between a linking and the next allocation, the allocated nodes are those of the list if and only if no
    replacement has allocated a node twice and the replaced node is freed; after `nf_cleanup` all nodes are
    freed if and only if no replacement has allocated a node twice. -/
theorem nodes_accounted {m : Module} {lost : Nat} (h : ledgerLts.Reachable (m, lost)) :
    (m.freed = 0 → m.pc.node? = none →
      (m.live = m.maclimitList.length ↔ lost = 0 ∧ m.pc ≠ .free)) ∧
    (m.cleanup = .gone → (m.live = 0 ↔ lost = 0)) := by
  have hb : Balanced m lost := by
    refine h.track_invariant ?_ fun _ _ _ _ hb _ hs => hb.step hs
    rintro _ rfl
    exact Balanced.loaded maclimitCfg
  have hbooks := hb.books
  constructor
  · intro hfreed hnode
    have hheld : m.pc.held = if m.pc = .free then 1 else 0 := by
      cases hpc : m.pc <;> simp_all [Pc.held, Pc.node?]
    rw [hfreed, hheld] at hbooks
    split at hbooks <;> rename_i hfree
    · simp only [hfree, ne_eq, not_true_eq_false, and_false, iff_false]
      omega
    · simp only [ne_eq, hfree, not_false_eq_true, and_true]
      omega
  · intro hgone
    have hdone := hb.joined (by rw [hgone]; rfl)
    simp only [Module.freed, hgone, hdone, Pc.held] at hbooks
    omega

/-- `packetA` gets an entry, which does not answer the probes for `packetB` and is replaced; `again` is the
    outcome of the second allocation. -/
def replaceA (again : Bool) : List ModuleEvent :=
  [ModuleEvent.run (.setEnable 1), .run (.netEnter packetA)] ++ List.replicate 10 (ModuleEvent.run (.hook 0)) ++
    List.replicate 9 (ModuleEvent.run (.thread true)) ++ [ModuleEvent.run (.netEnter packetB)] ++
    List.replicate 10 (ModuleEvent.run (.hook 0)) ++ List.replicate 30 (ModuleEvent.run (.thread true)) ++
    [ModuleEvent.run (.thread again)] ++ List.replicate 6 (ModuleEvent.run (.thread true))

/-- `nf_cleanup` with one entry in the list; the thread is asleep when it is called. -/
def unload : List ModuleEvent :=
  List.replicate 2 ModuleEvent.cleanup ++ List.replicate 2 (ModuleEvent.run (.thread true)) ++
    List.replicate 7 ModuleEvent.cleanup

theorem nodes_accounted_unload : ∃ m, ledgerLts.Reachable (m, 0) ∧ m.cleanup = .gone ∧ m.macs = [packetB.hSource] ∧
    m.live = 0 := by
  have hrun : (ledgerLts.runIf (fun _ _ => True) (Module.loaded maclimitCfg, 0) (replaceA false ++ unload)).any
      (fun x => x.2 == 0 && x.1.cleanup == .gone && x.1.macs == [packetB.hSource]) = true := by decide
  obtain ⟨⟨m, lost⟩, hr, hp⟩ := Lts.exists_reach_of_runIf hrun ⟨rfl, rfl⟩
  simp only [Bool.and_eq_true, beq_iff_eq] at hp
  obtain ⟨⟨rfl, hgone⟩, hmacs⟩ := hp
  exact ⟨m, hr, hgone, hmacs, ((nodes_accounted hr).2 hgone).mpr rfl⟩

/-- Both allocations of a replacement succeed: with the thread asleep and the list of one entry, two nodes are
    allocated, and one of them is still allocated after `nf_cleanup`. -/
theorem node_leaked :
    (∃ m, (moduleLts maclimitCfg).Reachable m ∧ m.pc = .asleep ∧ m.maclimitList = [packetB.node] ∧ m.live = 2) ∧
    (∃ m, (moduleLts maclimitCfg).Reachable m ∧ m.cleanup = .gone ∧ m.live = 1) := by
  have hasleep : ((moduleLts maclimitCfg).runIf (fun _ _ => True) (Module.loaded maclimitCfg) (replaceA true)).any
      (fun m => m.pc == .asleep && m.maclimitList == [packetB.node] && m.live == 2) = true := by decide
  have hgone : ((moduleLts maclimitCfg).runIf (fun _ _ => True) (Module.loaded maclimitCfg)
      (replaceA true ++ unload)).any (fun m => m.cleanup == .gone && m.live == 1) = true := by decide
  obtain ⟨m, hr, hp⟩ := Lts.exists_reach_of_runIf hasleep rfl
  obtain ⟨n, hr', hq⟩ := Lts.exists_reach_of_runIf hgone rfl
  simp only [Bool.and_eq_true, beq_iff_eq] at hp hq
  exact ⟨⟨m, hr, hp.1.1, hp.1.2, hp.2⟩, ⟨n, hr', hq.1, hq.2⟩⟩

end QuickStart.Maclimit
