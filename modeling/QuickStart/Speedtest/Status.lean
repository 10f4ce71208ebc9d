import QuickStart.Speedtest.Tally

/-! # Reading the status

`speedtest_proc_show` divides by the seconds between the two stamps of a test, or between its beginning and now
while the end is still 0. Both stamps are in whole seconds. -/

namespace QuickStart.Speedtest
open State

/-- `jiffies/HZ`, as a `uint32_t`. -/
def Kernel.seconds (K : Kernel) (jiffies : Nat) : BitVec 32 := BitVec.ofNat 32 (jiffies / K.hz)

def RunningState.str : RunningState → String
  | .stIdle => "IDLE"
  | .stRunning => "RUNNING"
  | .stFinished => "FINISHED"

def usedTime (K : Kernel) (m : Mod) (d : Dir) : BitVec 32 :=
  let st := (m.stCfg d).status
  if st.endTime ≠ 0 then st.endTime - st.beginTime else K.seconds m.jiffies - st.beginTime

/-- `(uint64_t)used_time * 1024 * 1024`, which fits. -/
def divisor (K : Kernel) (m : Mod) (d : Dir) : Nat := (usedTime K m d).toNat * 1024 * 1024

def hex4 (n : Nat) : String := "0x" ++ String.ofList ((Nat.toDigits 16 n).leftpad 4 '0')

def statusLines (K : Kernel) (m : Mod) (d : Dir) : Option String :=
  let cfg := m.stCfg d
  let st := cfg.status
  if divisor K m d = 0 then none
  else some ("===================  DIRECTION " ++ toString d.val ++ "  =================\n\n" ++
    "STATUS: " ++ st.state.str ++ "\n\n" ++
    "       pktsend count:" ++ toString st.pktsendCount ++
    "\n       pktrcv count:" ++ toString st.pktrcvCount ++
    "\n       pkterr count:" ++ toString st.pkterrCount ++
    "\n       pktlose count:" ++ toString st.pktloseCount ++
    "\n       pkt_csum: " ++ hex4 st.pktCsum.toNat ++
    "\n       speed: " ++ toString (st.pktsendCount * cfg.pktSize.toNat * 8 % 2 ^ 64 / divisor K m d) ++ " Mbit/s" ++
    "\n       used time: " ++ toString (usedTime K m d).toNat ++ "\n")

def configLines (m : Mod) (d : Dir) : String :=
  let cfg := m.stCfg d
  "CONFIG " ++ toString d.val ++ ":\n" ++
    " \t  enable:" ++ toString cfg.enable.toInt ++ ",  dur_time:" ++ toString cfg.durTime.toNat ++
    ", speed: " ++ toString cfg.speed.toNat ++ ", port: " ++ toString cfg.port.toNat ++
    ", pkt_size: " ++ toString cfg.pktSize.toNat ++ "\n"

/-- `speedtest_proc_show`; `none` when it divides by zero. -/
def speedtestProcShow (K : Kernel) (m : Mod) : Option String := do
  let s0 ← statusLines K m 0
  let s1 ← statusLines K m 1
  return "SPEEDTEST STATUS: READY_" ++ toString m.stReady ++ "\n" ++ s0 ++ s1 ++ "\n\n" ++
    configLines m 0 ++ configLines m 1

theorem speedtestProcShow_isSome {K : Kernel} {m : Mod} :
    (speedtestProcShow K m).isSome = true ↔ ∀ d, divisor K m d ≠ 0 := by
  have hlines (d : Dir) : (statusLines K m d).isSome = true ↔ divisor K m d ≠ 0 := by
    simp only [statusLines]
    split <;> simp_all
  rw [Fin.forall_fin_two, ← hlines, ← hlines, speedtestProcShow]
  cases statusLines K m 0 <;> cases statusLines K m 1 <;> simp

/-! ### The stamps -/

/-- A finished test has ended in another second than it began in. -/
def Status.Stamped (st : Status) : Prop := st.endTime ≠ 0 → st.endTime ≠ st.beginTime

/-- The thread stores no stamp that is equal to the other one of its status. -/
def Body.Dated (K : Kernel) (m : Mod) : Body → Prop
  | .sender d .setBegin => (m.stCfg d).status.endTime ≠ 0 → (m.stCfg d).status.endTime ≠ K.seconds m.jiffies
  | .sender d .setEndTime => K.seconds m.jiffies ≠ 0 → K.seconds m.jiffies ≠ (m.stCfg d).status.beginTime
  | _ => True

instance (K : Kernel) (m : Mod) : ∀ b : Body, Decidable (b.Dated K m)
  | .sender _ .setBegin => inferInstanceAs (Decidable (_ → _))
  | .sender _ .setEndTime => inferInstanceAs (Decidable (_ → _))
  | .sender _ .entry | .sender _ .make | .sender _ (.setState _) | .sender _ (.setCsum _) | .sender _ .setEnd
  | .sender _ (.setSend _) | .sender _ (.pace _) | .sender _ (.send _) | .sender _ (.count _) | .sender _ (.test _)
  | .sender _ .clearTask | .sender _ .clearEnable | .sender _ .done | .sender _ .killed | .compute _ =>
    inferInstanceAs (Decidable True)

/-- A sender ends in another second than it began in, and begins in another than the end that its status shows. -/
def Dated (K : Kernel) (s : State) : Event → Prop
  | .thread tid _ => ∀ th ∈ s.threads[tid]?, th.body.Dated K s.mod
  | _ => True

instance (K : Kernel) (s : State) : ∀ e : Event, Decidable (Dated K s e)
  | .thread tid _ => inferInstanceAs (Decidable (∀ th ∈ s.threads[tid]?, th.body.Dated K s.mod))
  | .command _ | .unload | .ctl _ | .receive _ | .rxHook _ | .transmit _ _ | .timer | .tick =>
    inferInstanceAs (Decidable True)

theorem Status.Stamped.of_eq {st st' : Status} (h : st.Stamped) (hbegin : st'.beginTime = st.beginTime)
    (hend : st'.endTime = st.endTime) : st'.Stamped := by
  rw [Status.Stamped, hbegin, hend]
  exact h

theorem stamped_setCfg {m : Mod} {e : Dir} {cfg : Cfg} (h : ∀ d, (m.stCfg d).status.Stamped) (hcfg : cfg.status.Stamped)
    (d : Dir) : ((m.setCfg e cfg).stCfg d).status.Stamped := by
  by_cases hde : d = e
  · subst hde
    rwa [setCfg_self]
  · rw [setCfg_of_ne hde]
    exact h d

section Step
variable {K : Kernel} {m m' : Mod}

theorem Sends.stamped {stop : Bool} {x : Input} {d : Dir} {cfg : Cfg} {pc pc' : SenderPc}
    (hs : Sends K m.jiffies stop x (m.stCfg d) pc cfg pc') (hok : Body.Dated K m (.sender d pc))
    (h : (m.stCfg d).status.Stamped) : cfg.status.Stamped := by
  cases hs with
  | setsBegin => exact hok
  | setsEndTime => exact hok
  | _ => exact h

theorem Computes.stamped {stop : Bool} {pc pc' : ComputePc} (hc : Computes K stop m pc m' pc')
    (h : ∀ d, (m.stCfg d).status.Stamped) (d : Dir) : (m'.stCfg d).status.Stamped := by
  cases hc with
  | counts endTime skb rest =>
    rw [computePkt_status]
    split
    · exact (h d).of_eq rfl rfl
    · exact h d
  | loses e | finishes e =>
    refine stamped_setCfg h ?_ d
    exact (h e).of_eq rfl rfl
  | _ => exact h d

theorem stamped_step {s t : State} {e : Event} (h : ∀ d, (s.mod.stCfg d).status.Stamped) (hok : Dated K s e)
    (hs : step K s e = some t) (d : Dir) : (t.mod.stCfg d).status.Stamped := by
  rcases step_cases hs with ⟨tid, x, th, m, b, rfl, hr⟩ | ⟨ok, rfl, ha⟩ | ho
  · have hdated := hok th hr.thread
    have hbody := hr.body
    rw [hr.eq]
    generalize th.body = body at hdated hbody
    cases bodyStep_executes hbody with
    | sends e hsends => exact stamped_setCfg h (hsends.stamped hdated (h e)) d
    | computes hcomputes => exact hcomputes.stamped h d
  · rw [ha.status d]
    split
    · exact fun hend => absurd rfl hend
    · exact h d
  · rw [ho.mod.stCfg]
    exact h d

end Step

theorem divisor_eq_zero {K : Kernel} {m : Mod} {d : Dir} (h : (m.stCfg d).status.Stamped) :
    divisor K m d = 0 ↔ (m.stCfg d).status.endTime = 0 ∧ (m.stCfg d).status.beginTime = K.seconds m.jiffies := by
  have hused : divisor K m d = 0 ↔ usedTime K m d = 0 := by
    rw [divisor, Nat.mul_eq_zero, Nat.mul_eq_zero, ← BitVec.toNat_inj]
    simp
  rw [hused, usedTime]
  split
  · rename_i hend
    rw [sub_eq_zero]
    exact ⟨fun he => absurd he (h hend), fun he => absurd he.1 hend⟩
  · rename_i hend
    rw [sub_eq_zero, eq_comm (a := K.seconds m.jiffies)]
    exact ⟨fun he => ⟨not_ne_iff.mp hend, he⟩, fun he => he.2⟩

/-- In the runs of `Dated` the status divides by zero only in the second in which a test without an end began. -/
theorem proc_show_divides {K : Kernel} {s : State} (hr : (lts K).Reach (Dated K) s) :
    (∀ d, divisor K s.mod d ≠ 0) ↔
      ∀ d, (s.mod.stCfg d).status.endTime = 0 → (s.mod.stCfg d).status.beginTime ≠ K.seconds s.mod.jiffies := by
  have hstamped : ∀ d, (s.mod.stCfg d).status.Stamped := by
    refine hr.invariant ?_ fun _ _ _ h hok hs => stamped_step h hok hs
    rintro _ ⟨j, -, rfl⟩ d hend
    exact absurd rfl hend
  exact forall_congr' fun d => (not_congr (divisor_eq_zero (hstamped d))).trans not_and

theorem proc_show_divides_nextSecond : ∃ s, (lts kernel32).Reach (Dated kernel32) s ∧
    (s.mod.stCfg 0).status.beginTime = 10 ∧ (s.mod.stCfg 0).status.endTime = 11 ∧ ∀ d, divisor kernel32 s.mod d ≠ 0 := by
  have hrun : ((lts kernel32).runIf (Dated kernel32) (Speedtest.start kernel32 1099) (commandRun ++ senderRun 0)).any
      (fun s => (s.mod.stCfg 0).status.beginTime == 10 && (s.mod.stCfg 0).status.endTime == 11 &&
        decide (∀ d, (s.mod.stCfg d).status.endTime = 0 →
          (s.mod.stCfg d).status.beginTime ≠ kernel32.seconds s.mod.jiffies)) = true := by
    decide
  obtain ⟨s, hr, hp⟩ := Lts.exists_reach_of_runIf hrun ⟨1099, by decide, rfl⟩
  simp only [Bool.and_eq_true, beq_iff_eq, decide_eq_true_eq] at hp
  exact ⟨s, hr, hp.1.1, hp.1.2, (proc_show_divides hr).mpr hp.2⟩

/-- A test that ends in the second of its beginning leaves a status that cannot be read. -/
theorem proc_show_divides_by_zero : ¬ ∀ s, (lts kernel32).Reachable s → kernel32.hz ≤ s.mod.jiffies →
    ∀ d, divisor kernel32 s.mod d ≠ 0 := by
  intro h
  have hrun : ((lts kernel32).runIf (fun _ _ => True) (Speedtest.start kernel32 1000) (commandRun ++ senderRun 0)).any
      (fun s => decide (kernel32.hz ≤ s.mod.jiffies) && divisor kernel32 s.mod 0 == 0) = true := by
    decide
  obtain ⟨s, hr, hp⟩ := Lts.exists_reach_of_runIf hrun ⟨1000, by decide, rfl⟩
  simp only [Bool.and_eq_true, beq_iff_eq, decide_eq_true_eq] at hp
  exact h s hr hp.1 0 hp.2

end QuickStart.Speedtest
