import QuickStart.Kmod

/-! # Loading and unloading `board_event`

`board_button_dev_init` with every way in which its calls can fail, and `board_button_dev_exit`, between processes
that open the device. The device can be opened from `cdev_add` on, before the wait queue is initialised. -/

namespace QuickStart.Keyevent.Load

inductive Resource
  | chrdevRegion
  | recvBuf
  | sendBuf
  | cdev
  | boardButtonClass
  | device
  /-- `board_button_wait_queue`, which nobody has to give back -/
  | waitQueue
  deriving DecidableEq, Repr

/-- The calls of `board_button_dev_init` that succeed. -/
structure Outcomes where
  allocChrdevRegion : Bool
  recvKmalloc : Bool
  sendKmalloc : Bool
  cdevAdd : Bool
  classCreate : Bool
  deviceCreate : Bool
  deriving DecidableEq, Repr

def kmalloc (buf : Resource) (ok : Bool) : List (Move Resource) := if ok then [.take buf] else []

/-- `kfree` of a pointer that is `NULL` unless `buf` has been allocated. -/
def kfree (buf : Resource) (allocated : Bool) : List (Move Resource) := if allocated then [.give buf] else []

/-- The statements at the label `fail`. -/
def fail (recv send : Bool) : List (Move Resource) :=
  kfree .recvBuf recv ++ kfree .sendBuf send ++ [.give .chrdevRegion]

def errCdevDel (recv send : Bool) : List (Move Resource) := .give .cdev :: fail recv send

def errClassDestory (recv send : Bool) : List (Move Resource) := .give .boardButtonClass :: errCdevDel recv send

/-- `board_button_dev_init`: what it takes and gives back, and whether it returns 0. -/
def boardButtonDevInit (o : Outcomes) : List (Move Resource) × Option Unit :=
  if o.allocChrdevRegion then
    let bufs := .take .chrdevRegion :: (kmalloc .recvBuf o.recvKmalloc ++ kmalloc .sendBuf o.sendKmalloc)
    if o.recvKmalloc && o.sendKmalloc then
      if o.cdevAdd then
        if o.classCreate then
          if o.deviceCreate then
            (bufs ++ [.take .cdev, .take .boardButtonClass, .take .device, .prepare .waitQueue], some ())
          else (bufs ++ [.take .cdev, .take .boardButtonClass] ++ errClassDestory true true, none)
        else (bufs ++ [.take .cdev] ++ errCdevDel true true, none)
      else (bufs ++ fail true true, none)
    else (bufs ++ fail o.recvKmalloc o.sendKmalloc, none)
  -- Neither buffer has been allocated yet, and no region is held.
  else (fail false false, none)

def boardButtonDevExit : Unit → List (Move Resource) := fun _ =>
  [.give .recvBuf, .give .sendBuf, .give .device, .give .boardButtonClass, .give .cdev, .give .chrdevRegion]

def kmod : Kmod Resource Outcomes Unit where
  init := boardButtonDevInit
  exit := boardButtonDevExit
  node := .cdev

/-- What the loaded module has to give back, in the order in which it is taken. -/
def holdings : List Resource := [.chrdevRegion, .recvBuf, .sendBuf, .cdev, .boardButtonClass, .device]

/-- Where `board_button_dev_init` fails, it has given back what it took; a region that it has not got goes astray. -/
theorem init_refused (o : Outcomes) (n : Multiset Resource) (h : (boardButtonDevInit o).2 = none) :
    Ledger.moves ⟨0, n⟩ (boardButtonDevInit o).1 =
      ⟨0, (if o.allocChrdevRegion then 0 else {.chrdevRegion}) + n⟩ := by
  obtain ⟨region, recv, send, cdev, cls, device⟩ := o
  have back (ts gs : List Resource) (hp : ts.Perm gs) := Ledger.moves_take_give (⟨0, n⟩ : Ledger Resource) hp
  cases region with
  | false => exact Ledger.moves_give_stray ⟨0, n⟩ [.chrdevRegion] (by simp)
  | true =>
    rw [if_pos rfl, zero_add]
    cases recv <;> cases send
    case false.false => exact back [.chrdevRegion] [.chrdevRegion] (.refl _)
    case false.true => exact back [.chrdevRegion, .sendBuf] [.sendBuf, .chrdevRegion] (by decide)
    case true.false => exact back [.chrdevRegion, .recvBuf] [.recvBuf, .chrdevRegion] (by decide)
    case true.true =>
      cases cdev with
      | false => exact back [.chrdevRegion, .recvBuf, .sendBuf] [.recvBuf, .sendBuf, .chrdevRegion] (by decide)
      | true => cases cls with
        | false =>
          exact back [.chrdevRegion, .recvBuf, .sendBuf, .cdev] [.cdev, .recvBuf, .sendBuf, .chrdevRegion] (by decide)
        | true => cases device with
          | false =>
            exact back [.chrdevRegion, .recvBuf, .sendBuf, .cdev, .boardButtonClass]
              [.boardButtonClass, .cdev, .recvBuf, .sendBuf, .chrdevRegion] (by decide)
          | true => cases h

/-- It returns 0 only when every call has succeeded. -/
theorem init_kept {o : Outcomes} (n : Multiset Resource) {x : Unit} (h : (boardButtonDevInit o).2 = some x) :
    o.allocChrdevRegion = true ∧ Ledger.moves ⟨0, n⟩ (boardButtonDevInit o).1 = ⟨holdings, n⟩ := by
  obtain ⟨region, recv, send, cdev, cls, device⟩ := o
  cases region <;> cases recv <;> cases send <;> cases cdev <;> cases cls <;> cases device <;> try cases h
  refine ⟨rfl, ?_⟩
  rw [show (boardButtonDevInit ⟨true, true, true, true, true, true⟩).1 = holdings.map .take ++ [.prepare .waitQueue]
    from rfl, Ledger.moves_append, Ledger.moves_take]
  exact congrArg (Ledger.mk · n) (add_zero _)

theorem exit_removed (n : Multiset Resource) : Ledger.moves ⟨holdings, n⟩ (boardButtonDevExit ()) = ⟨0, n⟩ := by
  have hperm : holdings.Perm [.recvBuf, .sendBuf, .device, .boardButtonClass, .cdev, .chrdevRegion] := by decide
  exact Ledger.moves_give ⟨holdings, n⟩ (by rw [Multiset.coe_eq_coe.mpr hperm, add_zero])

def account : kmod.Account where
  full _ := holdings
  initStray o := if o.allocChrdevRegion then 0 else {Resource.chrdevRegion}
  exitStray _ := 0
  refused o n h := init_refused o n h
  kept o n x h := by
    obtain ⟨hregion, hmoves⟩ := init_kept n h
    rw [if_pos hregion, zero_add]
    exact hmoves
  removed x n := by
    rw [zero_add]
    exact exit_removed n

/-- The loads so far in which `alloc_chrdev_region` has failed, and whether `init_waitqueue_head` has been executed
    since the last load. -/
structure Seen where
  unregioned : Nat
  waitQueue : Bool
  deriving DecidableEq, Repr

def seen (s : Kmod.State Resource Unit) (e : Kmod.Event Outcomes) (h : Seen) : Seen :=
  match e with
  | .load o => { unregioned := if o.allocChrdevRegion then h.unregioned else h.unregioned + 1, waitQueue := false }
  | .move => { h with waitQueue := h.waitQueue || s.pending.head? == some (.prepare .waitQueue) }
  | .unload | .enter | .leave => h

abbrev loadLts : Lts (Kmod.State Resource Unit × Seen) (Kmod.Event Outcomes) :=
  kmod.lts.track seen { unregioned := 0, waitQueue := false }

/-- The wait queue is initialised, or is going to be before the init function returns 0. -/
structure Ready (s : Kmod.State Resource Unit) (h : Seen) : Prop where
  loading : s.phase = .loading (some ()) → h.waitQueue = true ∨ .prepare .waitQueue ∈ s.pending
  loaded : s.phase = .loaded () → h.waitQueue = true

theorem prepares {o : Outcomes} (h : (boardButtonDevInit o).2 = some ()) :
    .prepare .waitQueue ∈ (boardButtonDevInit o).1 := by
  obtain ⟨region, recv, send, cdev, cls, device⟩ := o
  cases region <;> cases recv <;> cases send <;> cases cdev <;> cases cls <;> cases device <;> try cases h
  decide

theorem Ready.step {s t : Kmod.State Resource Unit} {e : Kmod.Event Outcomes} {h : Seen} (hr : Ready s h)
    (hs : kmod.step s e = some t) : Ready t (seen s e h) := by
  cases Kmod.step_steps hs with
  | loads o hp =>
    exact ⟨fun hx => Or.inr (prepares (Kmod.Phase.loading.inj hx)), fun hx => by cases hx⟩
  | unloads x hp hu => exact ⟨fun hx => (by cases hx), fun hx => by cases hx⟩
  | moves m ms hm =>
    refine ⟨fun hx => ?_, fun hx => by simp only [seen, hr.loaded hx, Bool.true_or]⟩
    rcases hr.loading hx with hw | hmem
    · exact Or.inl (by simp only [seen, hw, Bool.true_or])
    · rw [hm] at hmem
      rcases List.mem_cons.mp hmem with rfl | hmem
      · exact Or.inl (by simp [seen, hm])
      · exact Or.inr hmem
  | stays x hm hp =>
    refine ⟨fun hx => (by cases hx), fun _ => ?_⟩
    rcases hr.loading hp with hw | hmem
    · simp only [seen, hw, Bool.true_or]
    · rw [hm] at hmem
      cases hmem
  | goes hm hp => exact ⟨fun hx => (by cases hx), fun hx => by cases hx⟩
  | enters | leaves => exact ⟨hr.loading, hr.loaded⟩

theorem ready {ok : Kmod.State Resource Unit × Seen → Kmod.Event Outcomes → Prop} {s : Kmod.State Resource Unit}
    {h : Seen} (hr : loadLts.Reach ok (s, h)) : Ready s h := by
  refine hr.track_invariant ?_ fun s h e t hi _ hs => hi.step hs
  rintro _ rfl
  exact ⟨fun hx => (by cases hx), fun hx => by cases hx⟩

theorem settles {ok : Kmod.State Resource Unit × Seen → Kmod.Event Outcomes → Prop} {s : Kmod.State Resource Unit}
    {h : Seen} (hr : loadLts.Reach ok (s, h)) : account.Settles s (.replicate h.unregioned .chrdevRegion) := by
  refine hr.track_invariant (I := fun s h => account.Settles s (.replicate h.unregioned .chrdevRegion)) ?_
    fun s h e t hk _ hs => ?_
  · rintro _ rfl
    exact .start
  · have hstrays : account.strays s e (.replicate h.unregioned .chrdevRegion) =
        .replicate (seen s e h).unregioned .chrdevRegion := by
      cases e with
      | load o =>
        simp only [Kmod.Account.strays, account, seen]
        split
        · exact zero_add _
        · exact (Multiset.replicate_succ _ _).symm
      | unload =>
        simp only [Kmod.Account.strays, account, zero_add, seen]
        split <;> rfl
      | move | enter | leave => rfl
    exact hstrays ▸ hk.step hs

/-- However the calls of `board_button_dev_init` fail, a module that is not loaded holds nothing, over any number
    of loads and unloads, and what is given back without being held is one region for each load that did not get
    one. As long as the device is opened after the return of `board_button_dev_init`, whoever has it open finds
    both buffers, the device, and the wait queue initialised. -/
theorem event_loads_balanced {s : Kmod.State Resource Unit} {h : Seen}
    (hr : loadLts.Reach (fun x e => Kmod.Late x.1 e) (s, h)) :
    (s.phase = .unloaded → s.ledger = ⟨0, .replicate h.unregioned .chrdevRegion⟩) ∧
      (0 < s.users → s.pending = [] ∧ s.ledger = ⟨holdings, .replicate h.unregioned .chrdevRegion⟩ ∧
        h.waitQueue = true) := by
  have hsettles := settles hr
  refine ⟨fun hp => (hsettles.unloaded hp).2, fun hu => ?_⟩
  obtain ⟨x, hx⟩ := Kmod.users_loaded hr.of_track hu
  obtain ⟨hpending, hledger⟩ := hsettles.loaded x hx
  exact ⟨hpending, hledger, (ready hr).loaded hx⟩

/-- A load without a region, one in which `device_create` fails, and one that a process finds complete. -/
def threeLoads : List (Kmod.Event Outcomes) :=
  Kmod.Event.load ⟨false, true, true, true, true, true⟩ :: List.replicate 2 .move ++
    Kmod.Event.load ⟨true, true, true, true, true, false⟩ :: List.replicate 11 .move ++
    Kmod.Event.load ⟨true, true, true, true, true, true⟩ :: List.replicate 8 .move ++ [.enter]

instance (s : Kmod.State Resource Unit) : ∀ e : Kmod.Event Outcomes, Decidable (Kmod.Late s e)
  | .enter => decidable_of_iff (s.phase = .loaded ()) ⟨fun h => ⟨(), h⟩, fun ⟨_, h⟩ => h⟩
  | .load _ | .unload | .move | .leave => inferInstanceAs (Decidable True)

theorem event_loads_balanced_thrice : ∃ s, loadLts.Reach (fun x e => Kmod.Late x.1 e) (s, ⟨1, true⟩) ∧ s.users = 1 ∧
    s.pending = [] ∧ s.ledger = ⟨holdings, {Resource.chrdevRegion}⟩ := by
  have hrun : (loadLts.runIf (fun x e => Kmod.Late x.1 e) (Kmod.start, ⟨0, false⟩) threeLoads).any
      (fun x => x.1.users == 1 && x.2.unregioned == 1) = true := by decide
  obtain ⟨⟨s, k, w⟩, hr, hp⟩ := Lts.exists_reach_of_runIf hrun ⟨rfl, rfl⟩
  simp only [Bool.and_eq_true, beq_iff_eq] at hp
  obtain ⟨husers, rfl⟩ := hp
  obtain ⟨hpending, hledger, rfl⟩ := (event_loads_balanced hr).2 (by omega)
  exact ⟨s, hr, husers, hpending, hledger⟩

/-- A process that opens the device before `board_button_dev_init` has returned finds the wait queue not yet
    initialised, and the buffers freed when `device_create` fails. -/
theorem opened_early : (∃ s, kmod.lts.Reachable s ∧ 0 < s.users ∧ .prepare .waitQueue ∈ s.pending) ∧
    ∃ s, kmod.lts.Reachable s ∧ 0 < s.users ∧ s.phase = .unloaded ∧ s.ledger.held = 0 := by
  have hrun (o : Outcomes) (n : Nat) (p : Kmod.State Resource Unit → Bool)
      (hp : (kmod.lts.runIf (fun _ _ => True) Kmod.start
        (.load o :: List.replicate 4 .move ++ .enter :: List.replicate n .move)).any p = true) :
      ∃ s, kmod.lts.Reachable s ∧ p s = true := Lts.exists_reach_of_runIf hp rfl
  constructor
  · obtain ⟨s, hr, hp⟩ := hrun ⟨true, true, true, true, true, true⟩ 2
      (fun s => decide (0 < s.users ∧ .prepare .waitQueue ∈ s.pending)) (by decide)
    exact ⟨s, hr, by simpa using hp⟩
  · obtain ⟨s, hr, hp⟩ := hrun ⟨true, true, true, true, true, false⟩ 7
      (fun s => decide (0 < s.users ∧ s.phase = .unloaded ∧ s.ledger.held = 0)) (by decide)
    exact ⟨s, hr, by simpa using hp⟩

end QuickStart.Keyevent.Load
