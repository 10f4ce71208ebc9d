import QuickStart.Speedtest.Command
import QuickStart.Speedtest.Packet
import QuickStart.Speedtest.Pacing

/-! # The arithmetic of a sender

None of the numbers of a command is checked before a sender divides by them, multiplies them and computes the
lengths of the packet from them. -/

namespace QuickStart.Speedtest

/-- A sender on its own, with any clock, any packet, and told to stop at any time. -/
def senderLts (K : Kernel) (cfg : Cfg) : Lts (Cfg × SenderPc) (Nat × Bool × Input) where
  init x := x = (cfg, .entry)
  step x e := senderStep K e.1 e.2.1 e.2.2 x.1 x.2

/-- The packet when `make_speedtest_pkt` comes to `GET_RESIDUAL_BYTE`. -/
def putHeaders (port : BitVec 8) (pktSize : Int) (dev : Room) : Option SkBuff :=
  (putEthhdr port ((SkBuff.alloc (pktSize + dev.hlen.toNat + dev.tlen.toNat)).reserve dev.hlen.toNat)).bind putIphdr

/-- The sender never divides by zero, its products do not wrap, and the lengths given to `skb_put` and to `memset` are
    within the packet. -/
structure SafeStart (K : Kernel) (port : BitVec 8) (cfg : Cfg) : Prop where
  division : ∀ x, (senderLts K cfg).Reachable x → x.2 ≠ .killed
  speed : (cfg.speed * 1024 * 1024).toNat = cfg.speed.toNat * 1024 * 1024
  durTime : (cfg.durTime * BitVec.ofNat 32 K.hz).toNat = cfg.durTime.toNat * K.hz
  residual : ∀ dev skb, putHeaders port cfg.pktSize.toInt dev = some skb →
    0 ≤ getResidualByte cfg.pktSize.toInt skb ∧ getResidualByte cfg.pktSize.toInt skb ≤ cfg.pktSize.toInt
  payload : ∀ dev skb skb', putHeaders port cfg.pktSize.toInt dev = some skb →
    skb.put (getResidualByte cfg.pktSize.toInt skb) = some skb' →
    0 ≤ (udpLen skb' : Int) - 8 ∧ (udpLen skb' : Int) - 8 ≤ cfg.pktSize.toInt

/-! ### The division -/

theorem Sends.rate {K : Kernel} {j : Nat} {stop : Bool} {x : Input} {cfg cfg' : Cfg} {pc pc' : SenderPc}
    (h : Sends K j stop x cfg pc cfg' pc') : pktRate cfg' = pktRate cfg := by
  cases h <;> rfl

/-- The sender has not divided by zero, and divides by the rate of `cfg`. -/
def Undivided (cfg : Cfg) (x : Cfg × SenderPc) : Prop := pktRate x.1 = pktRate cfg ∧ x.2 ≠ .killed

theorem undivided_start {cfg : Cfg} {x : Cfg × SenderPc} (hx : x = (cfg, .entry)) : Undivided cfg x := by
  subst hx
  exact ⟨rfl, by rintro ⟨⟩⟩

theorem Undivided.step {K : Kernel} {cfg : Cfg} {x y : Cfg × SenderPc} {e : Nat × Bool × Input} (h : Undivided cfg x)
    (hrate : pktRate cfg ≠ 0) (hs : (senderLts K cfg).step x e = some y) : Undivided cfg y := by
  obtain ⟨cfg₁, pc⟩ := x
  obtain ⟨cfg₂, pc'⟩ := y
  have hsends := senderStep_sends hs
  refine ⟨hsends.rate.trans h.1, ?_⟩
  cases hsends with
  | divides endTime hzero => exact absurd (h.1.symm.trans hzero) hrate
  | enters | sends => split <;> rintro ⟨⟩
  | makes => cases e.2.2.made <;> rintro ⟨⟩
  | tests => split <;> [rintro ⟨⟩; (split <;> rintro ⟨⟩)]
  | _ => rintro ⟨⟩

/-- A sender comes to the division with its seventh statement. -/
theorem division_iff {K : Kernel} {cfg : Cfg} :
    (∀ x, (senderLts K cfg).Reachable x → x.2 ≠ .killed) ↔ pktRate cfg ≠ 0 := by
  constructor
  · intro hnever hrate
    have hrun : ∃ cfg' endTime, (senderLts K cfg).runIf (fun _ _ => True) (cfg, .entry)
        (List.replicate 6 (0, false, ⟨some [], true, 0⟩)) = some (cfg', .setSend endTime) ∧ pktRate cfg' = pktRate cfg :=
      ⟨_, _, rfl, by rw [pktRate, pktRate]⟩
    obtain ⟨cfg', endTime, hrun, hsame⟩ := hrun
    have hr : (senderLts K cfg).Reachable (cfg', .setSend endTime) := (Lts.Reach.init rfl).runIf hrun
    have hs : (senderLts K cfg).step (cfg', .setSend endTime) (0, false, ⟨none, true, 0⟩) = some (cfg', .killed) :=
      if_pos (hsame.trans hrate)
    exact hnever _ (hr.step _ trivial hs) rfl
  · intro hrate x hr
    exact (hr.invariant (fun _ hx => undivided_start hx) fun _ _ _ hi _ hs => hi.step hrate hs).2

/-- The rate is 0 when the quota of a second is smaller than a packet, and the model's division by 0 gives 0 too. -/
theorem pktRate_ne_zero {cfg : Cfg} (hspeed : cfg.speed.toNat < 4096) :
    pktRate cfg ≠ 0 ↔ 0 < cfg.pktSize.toNat ∧ cfg.pktSize.toNat ≤ cfg.speed.toNat * 131072 := by
  have hzero : pktRate cfg = 0 ↔ cfg.speed.toNat * 131072 / cfg.pktSize.toNat = 0 := by
    rw [← toNat_pktRate hspeed]
    exact (BitVec.toNat_inj (y := 0)).symm
  rw [Ne, hzero, Nat.div_eq_zero_iff]
  omega

/-! ### The products -/

theorem speed_product {speed : BitVec 32} : (speed * 1024 * 1024).toNat = speed.toNat * 1024 * 1024 ↔ speed.toNat < 4096 := by
  have := speed.isLt
  rw [BitVec.toNat_mul, BitVec.toNat_mul, show (1024 : BitVec 32).toNat = 1024 from rfl]
  omega

theorem durTime_product {durTime : BitVec 32} {hz : Nat} :
    (durTime * BitVec.ofNat 32 hz).toNat = durTime.toNat * hz ↔ durTime.toNat * hz < 2 ^ 32 := by
  rw [BitVec.toNat_mul, BitVec.toNat_ofNat, Nat.mul_mod_mod]
  exact Nat.mod_eq_iff_lt (by decide)

/-! ### The lengths -/

/-- Only the memory differs. -/
structure SkBuff.SamePos (skb skb' : SkBuff) : Prop where
  data : skb'.data = skb.data
  tail : skb'.tail = skb.tail
  mac : skb'.macHeader = skb.macHeader
  network : skb'.networkHeader = skb.networkHeader
  transport : skb'.transportHeader = skb.transportHeader

theorem SkBuff.samePos_store {skb skb' : SkBuff} {off : Nat} {src : List Byte} (h : skb.store off src = some skb') :
    skb.SamePos skb' := by
  obtain ⟨head, -, rfl⟩ := Option.map_eq_some_iff.mp h
  exact ⟨rfl, rfl, rfl, rfl, rfl⟩

theorem SkBuff.SamePos.trans {a b c : SkBuff} (h : a.SamePos b) (h' : b.SamePos c) : a.SamePos c :=
  ⟨h'.data.trans h.data, h'.tail.trans h.tail, h'.mac.trans h.mac, h'.network.trans h.network,
    h'.transport.trans h.transport⟩

theorem SkBuff.put_eq {skb skb' : SkBuff} {len : Int} (h : skb.put len = some skb') :
    skb' = { skb with tail := skb.tail + (len % 2 ^ 32).toNat } := by
  rw [SkBuff.put] at h
  split at h
  · exact (Option.some.inj h).symm
  · cases h

theorem putEthhdr_pos {port : BitVec 8} {skb skb' : SkBuff} (h : putEthhdr port skb = some skb') :
    skb'.macHeader = skb.data ∧ skb'.tail = skb.tail + 14 := by
  simp only [putEthhdr, Option.bind_eq_bind, Option.bind_eq_some_iff] at h
  obtain ⟨skb₁, h₁, skb₂, h₂, skb₃, h₃, h₄⟩ := h
  have hpos := ((SkBuff.samePos_store h₂).trans (SkBuff.samePos_store h₃)).trans (SkBuff.samePos_store h₄)
  rw [SkBuff.put_eq h₁] at hpos
  exact ⟨hpos.mac, hpos.tail⟩

theorem putIphdr_pos {skb skb' : SkBuff} (h : putIphdr skb = some skb') :
    skb'.macHeader = skb.macHeader ∧ skb'.tail = skb.tail + 20 ∧ skb'.transportHeader = skb.macHeader + 34 := by
  simp only [putIphdr, Option.bind_eq_bind, Option.bind_eq_some_iff] at h
  obtain ⟨skb₁, h₁, skb₂, h₂, skb₃, h₃, skb₄, h₄, skb₅, h₅, skb₆, h₆, skb₇, h₇, skb₈, h₈, skb₉, h₉, h₁₀⟩ := h
  have hpos := ((((((((SkBuff.samePos_store h₂).trans (SkBuff.samePos_store h₃)).trans (SkBuff.samePos_store h₄)).trans
    (SkBuff.samePos_store h₅)).trans (SkBuff.samePos_store h₆)).trans (SkBuff.samePos_store h₇)).trans
    (SkBuff.samePos_store h₈)).trans (SkBuff.samePos_store h₉)).trans (SkBuff.samePos_store h₁₀)
  rw [SkBuff.put_eq h₁] at hpos
  exact ⟨hpos.mac, hpos.tail, hpos.transport⟩

/-- Both headers are put behind the reserved room. -/
theorem putHeaders_pos {port : BitVec 8} {pktSize : Int} {dev : Room} {skb : SkBuff}
    (h : putHeaders port pktSize dev = some skb) :
    skb.tail = skb.macHeader + 34 ∧ skb.transportHeader = skb.macHeader + 34 := by
  obtain ⟨skb', heth, hip⟩ := Option.bind_eq_some_iff.mp h
  obtain ⟨hmac, htail⟩ := putEthhdr_pos heth
  obtain ⟨hmac', htail', htransport⟩ := putIphdr_pos hip
  refine ⟨?_, by rw [htransport, hmac']⟩
  rw [htail', htail, hmac', hmac]
  simp only [SkBuff.reserve, SkBuff.alloc]

/-- The lengths of the packet, when its size is not negative. -/
theorem lengths_of_headers {port : BitVec 8} {n : Nat} {dev : Room} {skb : SkBuff}
    (h : putHeaders port n dev = some skb) : getResidualByte n skb = n - 34 ∧
      ∀ skb', 34 ≤ n → n < 2 ^ 32 → skb.put (getResidualByte n skb) = some skb' → udpLen skb' = (n - 34) % 65536 := by
  obtain ⟨htail, htransport⟩ := putHeaders_pos h
  have hresidual : getResidualByte n skb = n - 34 := by
    rw [getResidualByte, htail]
    omega
  refine ⟨hresidual, fun skb' hn hlt hput => ?_⟩
  rw [SkBuff.put_eq hput, udpLen, hresidual, htail, htransport]
  dsimp only
  omega

/-- With enough room behind the packet, the headers and the residual bytes are put. -/
theorem exists_headers (port : BitVec 8) {n : Nat} (hn : n < 2 ^ 31) : ∃ dev skb, putHeaders port n dev = some skb ∧
    (34 ≤ n → ∃ skb', skb.put (getResidualByte n skb) = some skb') := by
  have hroom : 42 ≤ n + 42 := by omega
  have hsize : (((n : Int) + (0 : BitVec 16).toNat + (42 : BitVec 16).toNat) % 2 ^ 32).toNat = n + 42 := by
    have h₀ : (0 : BitVec 16).toNat = 0 := rfl
    have h₁ : (42 : BitVec 16).toNat = 42 := rfl
    rw [h₀, h₁]
    omega
  have halloc : (SkBuff.alloc ((n : Int) + (0 : BitVec 16).toNat + (42 : BitVec 16).toNat)).reserve (0 : BitVec 16).toNat =
      ⟨memory 0 0 (blank (n + 42)), 0, 0, 0, 0, 0⟩ := by
    have hblank : memory 0 0 (blank (n + 42)) = List.replicate (n + 42) none := by
      rw [← memory_blank hroom, Nat.zero_add, Nat.add_zero]
    simp only [SkBuff.alloc, SkBuff.reserve, hsize]
    rw [hblank]
    rfl
  obtain ⟨fs₁, heth, hfs₁⟩ := putEthhdr_fields (h := 0) (t := 0) (d := 0) (e := 0) port hroom rfl
  obtain ⟨fs₂, hiph, -⟩ := putIphdr_fields (h := 0) (t := 0) (d := 0) (e := 0) hroom hfs₁
  have hheaders : putHeaders port n ⟨0, 42⟩ = some ⟨memory 0 0 fs₂, 0, 34, 0, 14, 34⟩ := by
    rw [putHeaders, halloc, heth, Option.bind_some, hiph]
  refine ⟨_, _, hheaders, fun hle => ⟨_, put_fields (n - 34) hroom ?_ ?_⟩⟩
  · simp only [getResidualByte]
    omega
  · omega

theorem safeStart_iff {K : Kernel} {port : BitVec 8} {cfg : Cfg} : SafeStart K port cfg ↔
    cfg.speed.toNat < 4096 ∧ cfg.durTime.toNat * K.hz < 2 ^ 32 ∧ 34 ≤ cfg.pktSize.toNat ∧
      cfg.pktSize.toNat ≤ cfg.speed.toNat * 131072 ∧ 8 ≤ (cfg.pktSize.toNat - 34) % 65536 := by
  -- A size that the division lets through is not negative as an `int`.
  have hint (hspeed : cfg.speed.toNat < 4096) (hle : cfg.pktSize.toNat ≤ cfg.speed.toNat * 131072) :
      cfg.pktSize.toInt = cfg.pktSize.toNat ∧ cfg.pktSize.toNat < 2 ^ 31 := by
    have hlt : cfg.pktSize.toNat < 2 ^ 31 := by omega
    exact ⟨BitVec.toInt_eq_toNat_of_lt (by omega), hlt⟩
  constructor
  · rintro ⟨hdivision, hspeed, hdur, hresidual, hpayload⟩
    rw [speed_product] at hspeed
    rw [durTime_product] at hdur
    obtain ⟨hpos, hle⟩ := (pktRate_ne_zero hspeed).mp (division_iff.mp hdivision)
    obtain ⟨hsize, hlt⟩ := hint hspeed hle
    rw [hsize] at hresidual hpayload
    obtain ⟨dev, skb, hheaders, hput⟩ := exists_headers port hlt
    obtain ⟨hres, hlen⟩ := lengths_of_headers hheaders
    have h34 : 34 ≤ cfg.pktSize.toNat := by
      have := (hresidual dev skb hheaders).1
      omega
    obtain ⟨skb', hskb'⟩ := hput h34
    have h8 := (hpayload dev skb skb' hheaders hskb').1
    rw [hlen skb' h34 (by omega) hskb'] at h8
    exact ⟨hspeed, hdur, h34, hle, by omega⟩
  · rintro ⟨hspeed, hdur, h34, hle, h8⟩
    obtain ⟨hsize, hlt⟩ := hint hspeed hle
    refine ⟨division_iff.mpr ((pktRate_ne_zero hspeed).mpr ⟨by omega, hle⟩), speed_product.mpr hspeed,
      durTime_product.mpr hdur, ?_, ?_⟩ <;> rw [hsize]
    · intro dev skb hheaders
      have hres := (lengths_of_headers hheaders).1
      omega
    · intro dev skb skb' hheaders hput
      have hlen := (lengths_of_headers hheaders).2 skb' h34 (by omega) hput
      omega

/-- The sender that is started with the numbers of a command computes safely exactly when `speed` is below 4096,
    `dur_time * HZ` has 32 bits, and `pkt_size` has room for the headers, is within the quota of a second, and leaves
    a UDP length of at least 8 in 16 bits. -/
theorem start_safe (K : Kernel) (m : Mod) (d : Dir) (enable durTime speed pktSize loopTimerEnable : BitVec 32) :
    SafeStart K (getSpeedtestPortByIndex d)
        ((sscanfCmd m d [enable, durTime, speed, pktSize, loopTimerEnable]).stCfg d) ↔
      speed.toNat < 4096 ∧ durTime.toNat * K.hz < 2 ^ 32 ∧ 34 ≤ pktSize.toNat ∧
        pktSize.toNat ≤ speed.toNat * 131072 ∧ 8 ≤ (pktSize.toNat - 34) % 65536 := by
  have hself : (sscanfCmd m d [enable, durTime, speed, pktSize, loopTimerEnable]).stCfg d =
      { m.stCfg d with enable := enable, durTime := durTime, speed := speed, pktSize := pktSize } := setCfg_self m d _
  rw [safeStart_iff, hself]

/-- The command `1 0 0 42 1`: its sender divides by zero. -/
theorem start_divides : ∃ s, (lts kernel32).Reachable s ∧
    s.threads[0]?.any (fun th => th.body == .sender 0 .killed) = true := by
  have hrun : ((lts kernel32).runIf (fun _ _ => True) (start kernel32 1000)
      (Event.command (sscanf 5 [0x31, 0x20, 0x30, 0x20, 0x30, 0x20, 0x34, 0x32, 0x20, 0x31]) ::
        List.replicate 16 (Event.ctl true) ++ List.replicate 7 (Event.thread 0 ⟨some pkt42, true, 0⟩))).any
      (fun s => s.threads[0]?.any fun th => th.body == .sender 0 .killed) = true := by decide
  exact Lts.exists_reach_of_runIf hrun ⟨1000, by decide, rfl⟩

end QuickStart.Speedtest
