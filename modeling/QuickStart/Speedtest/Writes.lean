import QuickStart.Speedtest.Slots

/-! # What the threads write to the configuration

A sender clears `enable` at its end, and senders and the compute thread write the status; nothing else of the
configuration is theirs. -/

namespace QuickStart.Speedtest
open State

/-- A sender of the direction that has not executed `cfg->enable = 0`. -/
def Body.willDisable (d : Dir) : Body → Bool
  | .sender e pc => e == d && match pc with
    | .setEndTime | .done | .killed => false
    | _ => true
  | .compute _ => false

/-- A thread that may still write the status of the direction. -/
def Body.willWrite (d : Dir) : Body → Bool
  | .sender e pc => e == d && !(pc == .done || pc == .killed)
  | .compute .done => false
  | .compute (.lose e) | .compute (.finish e) => e ≤ d
  | .compute _ => true

theorem willDisable_of_holds {b : Body} {d : Dir} (hsl : b.slot = .sender d) (h : b.holds = true) :
    b.willDisable d = true := by
  rcases b with ⟨e, pc⟩ | pc <;> cases hsl
  cases pc <;> simp [Body.willDisable, Body.holds, SenderPc.holds] at h ⊢

theorem willWrite_of_holds {b : Body} (d : Dir) (hsl : b.slot = .compute) (h : b.holds = true) : b.willWrite d = true := by
  rcases b with ⟨e, pc⟩ | pc <;> cases hsl
  cases pc <;> first | rfl | cases h

theorem not_willWrite {b : Body} {d : Dir} (hsend : b.slot ≠ .sender d) (hcomp : b.slot ≠ .compute) :
    b.willWrite d = false := by
  rcases b with ⟨e, pc⟩ | pc
  · have hne : e ≠ d := fun he => hsend (by rw [he]; rfl)
    simp [Body.willWrite, hne]
  · exact absurd rfl hcomp

/-- What a statement of a thread leaves of the configuration of the direction `d`. -/
structure CfgKept (d : Dir) (m m' : Mod) (b b' : Body) : Prop where
  durTime : (m'.stCfg d).durTime = (m.stCfg d).durTime
  speed : (m'.stCfg d).speed = (m.stCfg d).speed
  pktSize : (m'.stCfg d).pktSize = (m.stCfg d).pktSize
  enable : b.willDisable d = false → (m'.stCfg d).enable = (m.stCfg d).enable
  off : (m'.stCfg d).enable = (m.stCfg d).enable ∨ (m'.stCfg d).enable = 0
  status : b.willWrite d = false → (m'.stCfg d).status = (m.stCfg d).status
  disable : b'.willDisable d = true → b.willDisable d = true
  write : b'.willWrite d = true → b.willWrite d = true

theorem setCfg_of_ne {m : Mod} {d e : Dir} {c : Cfg} (h : d ≠ e) : (m.setCfg e c).stCfg d = m.stCfg d :=
  Function.update_of_ne h _ _

theorem setCfg_self (m : Mod) (d : Dir) (c : Cfg) : (m.setCfg d c).stCfg d = c := Function.update_self _ _ _

/-- What is the same in the new configuration is the same in that of every direction. -/
theorem setCfg_keep {α : Type} (f : Cfg → α) {m : Mod} {e : Dir} {c : Cfg} (h : f c = f (m.stCfg e)) (d : Dir) :
    f ((m.setCfg e c).stCfg d) = f (m.stCfg d) := by
  by_cases hde : d = e
  · subst hde
    rw [setCfg_self, h]
  · rw [setCfg_of_ne hde]

theorem setStatus_self (m : Mod) (d : Dir) (st : Status) : ((m.setStatus d st).stCfg d).status = st := by
  rw [Mod.setStatus, setCfg_self]

theorem setStatus_of_ne {m : Mod} {d e : Dir} {st : Status} (h : d ≠ e) : (m.setStatus e st).stCfg d = m.stCfg d :=
  setCfg_of_ne h

theorem cfgKept_of_ne {d e : Dir} (h : d ≠ e) (m : Mod) (c : Cfg) (pc pc' : SenderPc) :
    CfgKept d m (m.setCfg e c) (.sender e pc) (.sender e pc') where
  durTime := by rw [setCfg_of_ne h]
  speed := by rw [setCfg_of_ne h]
  pktSize := by rw [setCfg_of_ne h]
  enable _ := by rw [setCfg_of_ne h]
  off := by rw [setCfg_of_ne h]; exact Or.inl rfl
  status _ := by rw [setCfg_of_ne h]
  disable hd := by simp [Body.willDisable, Ne.symm h] at hd
  write hw := by simp [Body.willWrite, Ne.symm h] at hw

theorem Sends.kept {K : Kernel} {j : Nat} {stop : Bool} {x : Input} {m : Mod} {d : Dir} {cfg : Cfg} {pc pc' : SenderPc}
    (h : Sends K j stop x (m.stCfg d) pc cfg pc') : CfgKept d m (m.setCfg d cfg) (.sender d pc) (.sender d pc') := by
  have frame (hdur : cfg.durTime = (m.stCfg d).durTime) (hspeed : cfg.speed = (m.stCfg d).speed)
      (hsize : cfg.pktSize = (m.stCfg d).pktSize)
      (hen : Body.willDisable d (.sender d pc) = false → cfg.enable = (m.stCfg d).enable)
      (hoff : cfg.enable = (m.stCfg d).enable ∨ cfg.enable = 0)
      (hdis : Body.willDisable d (.sender d pc') = true → Body.willDisable d (.sender d pc) = true)
      (hst : Body.willWrite d (.sender d pc) = true) : CfgKept d m (m.setCfg d cfg) (.sender d pc) (.sender d pc') := by
    constructor
    · rw [setCfg_self, hdur]
    · rw [setCfg_self, hspeed]
    · rw [setCfg_self, hsize]
    · intro h
      rw [setCfg_self, hen h]
    · rw [setCfg_self]
      exact hoff
    · intro h
      rw [hst] at h
      cases h
    · exact hdis
    · exact fun _ => hst
  cases h with
  | clearsEnable =>
    exact frame rfl rfl rfl (fun h => by simp [Body.willDisable] at h) (Or.inr rfl)
      (fun _ => by simp [Body.willDisable]) (by simp [Body.willWrite])
  | setsEndTime =>
    exact frame rfl rfl rfl (fun _ => rfl) (Or.inl rfl) (fun h => by simp [Body.willDisable] at h) (by simp [Body.willWrite])
  | _ =>
    exact frame rfl rfl rfl (fun _ => rfl) (Or.inl rfl) (fun _ => by simp [Body.willDisable]) (by simp [Body.willWrite])

/-- `m'` has the configuration of `m`, except for the status. -/
def StatusOnly (m m' : Mod) (d : Dir) : Prop := ∃ st, m'.stCfg d = { m.stCfg d with status := st }

theorem statusOnly_setStatus (m : Mod) (e : Dir) (st : Status) (d : Dir) : StatusOnly m (m.setStatus e st) d := by
  by_cases h : d = e
  · subst h
    exact ⟨st, setCfg_self _ _ _⟩
  · exact ⟨(m.stCfg d).status, setCfg_of_ne h⟩

theorem statusOnly_computePkt (m : Mod) (skb : Skb) (d : Dir) : StatusOnly m (computePkt m skb) d := by
  simp only [computePkt]
  split
  · exact statusOnly_setStatus m 0 _ d
  · split
    · exact statusOnly_setStatus m 1 _ d
    · exact ⟨_, rfl⟩

/-- A compute thread that may still write the status leaves the rest of the configuration alone. -/
theorem StatusOnly.kept {m m' : Mod} {d : Dir} {pc pc' : ComputePc} (h : StatusOnly m m' d)
    (hw : Body.willWrite d (.compute pc) = true) : CfgKept d m m' (.compute pc) (.compute pc') := by
  obtain ⟨st, he⟩ := h
  constructor
  · rw [he]
  · rw [he]
  · rw [he]
  · intro _
    rw [he]
  · rw [he]
    exact Or.inl rfl
  · intro h
    rw [hw] at h
    cases h
  · intro h
    cases h
  · exact fun _ => hw

/-- A compute thread that leaves the configuration of the direction alone. -/
theorem cfgKept_of_eq {m m' : Mod} {d : Dir} {pc pc' : ComputePc} (h : m'.stCfg d = m.stCfg d)
    (hw : Body.willWrite d (.compute pc') = true → Body.willWrite d (.compute pc) = true) :
    CfgKept d m m' (.compute pc) (.compute pc') where
  durTime := by rw [h]
  speed := by rw [h]
  pktSize := by rw [h]
  enable _ := by rw [h]
  off := by rw [h]; exact Or.inl rfl
  status _ := by rw [h]
  disable h := by cases h
  write := hw

theorem Computes.kept {K : Kernel} {stop : Bool} {m m' : Mod} {pc pc' : ComputePc} (d : Dir)
    (h : Computes K stop m pc m' pc') : CfgKept d m m' (.compute pc) (.compute pc') := by
  cases h with
  | counts endTime skb rest => exact StatusOnly.kept (statusOnly_computePkt { m with compSkbqueue := rest } skb d) rfl
  | loses e =>
    by_cases hed : e ≤ d
    · exact (statusOnly_setStatus m e _ d).kept (by simpa [Body.willWrite] using hed)
    · exact cfgKept_of_eq (setCfg_of_ne fun h => hed (by rw [h])) id
  | finishes e =>
    by_cases hed : e ≤ d
    · exact (statusOnly_setStatus m e _ d).kept (by simpa [Body.willWrite] using hed)
    · refine cfgKept_of_eq (setCfg_of_ne fun h => hed (by rw [h])) fun h => ?_
      rcases dir_cases e with rfl | rfl
      · exact absurd (Fin.zero_le d) hed
      · cases h
  | _ => exact cfgKept_of_eq rfl fun _ => rfl

theorem bodyStep_kept {K : Kernel} {stop : Bool} {x : Input} {m m' : Mod} {b b' : Body} (d : Dir)
    (hs : bodyStep K stop x m b = some (m', b')) : CfgKept d m m' b b' := by
  cases bodyStep_executes hs with
  | @sends e cfg pc pc' h =>
    by_cases hde : d = e
    · subst hde
      exact h.kept
    · exact cfgKept_of_ne hde m cfg pc pc'
  | computes h => exact h.kept d

end QuickStart.Speedtest
