import QuickStart.Speedtest.Packet
import QuickStart.Speedtest.Tally

/-! # The detection of errors

The frame of which a sender has stored the checksum, and what the compute thread does with the frame when it comes
back with a VLAN tag behind the two MAC addresses, and when a word of its datagram is another one. -/

namespace QuickStart.Speedtest
open State Checksum

/-- The frame of which the next step of the thread stores the checksum for the direction. -/
def Body.stores (d : Dir) : Body → Option (List Byte)
  | .sender e (.setCsum stSkb) => if e = d then some stSkb else none
  | _ => none

/-- The frame of each direction whose checksum was stored last, unless the status was cleared after that. -/
def stored (s : State) (e : Event) (h : Dir → Option (List Byte)) (d : Dir) : Option (List Byte) :=
  match e with
  | .thread tid _ => (s.threads[tid]?.bind fun th => th.body.stores d).or (h d)
  | .ctl _ => if s.zeroes = some d then none else h d
  | _ => h d

abbrev storedLts (K : Kernel) : Lts (State × (Dir → Option (List Byte))) Event := (lts K).track stored fun _ => none

/-- Only a sender writes `pkt_csum`. -/
theorem bodyStep_pktCsum {K : Kernel} {stop : Bool} {x : Input} {m m' : Mod} {b b' : Body}
    (hs : bodyStep K stop x m b = some (m', b')) (d : Dir) : (m'.stCfg d).status.pktCsum =
      ((b.stores d).map fun stSkb => ipComputeCsum (stSkb.drop 14)).getD (m.stCfg d).status.pktCsum := by
  cases bodyStep_executes hs with
  | sends e h =>
    by_cases hde : d = e
    · subst hde
      rw [setCfg_self]
      cases h with
      | setsCsum stSkb => rw [Body.stores, if_pos rfl, Option.map_some, Option.getD_some]
      | _ => rfl
    · rw [setCfg_of_ne hde]
      cases h with
      | setsCsum stSkb => rw [Body.stores, if_neg (Ne.symm hde), Option.map_none, Option.getD_none]
      | _ => rfl
  | computes h =>
    cases h with
    | counts endTime skb rest hq =>
      rw [computePkt_status]
      split <;> rfl
    | loses e => exact setCfg_keep (·.status.pktCsum) (by rfl) d
    | finishes e => exact setCfg_keep (·.status.pktCsum) (by rfl) d
    | _ => rfl

/-- `pkt_csum` is the checksum of the frame's datagram. -/
def Stored (x : State × (Dir → Option (List Byte))) : Prop :=
  ∀ d stSkb, x.2 d = some stSkb → (x.1.mod.stCfg d).status.pktCsum = ipComputeCsum (stSkb.drop 14)

theorem Stored.step {K : Kernel} {s t : State} {hist : Dir → Option (List Byte)} (h : Stored (s, hist)) {e : Event}
    (hs : Speedtest.step K s e = some t) : Stored (t, stored s e hist) := by
  have outside (hcfg : t.mod.stCfg = s.mod.stCfg) (hsame : stored s e hist = hist) : Stored (t, stored s e hist) := by
    intro d stSkb hd
    rw [hcfg]
    exact h d stSkb (hsame ▸ hd)
  cases e with
  | thread tid x =>
    obtain ⟨th, m, b, hth, -, hb, rfl⟩ := threadStep_ran hs
    intro d stSkb hd
    have hcsum := bodyStep_pktCsum hb d
    simp only [stored, hth, Option.bind_some] at hd
    cases hst : th.body.stores d with
    | none =>
      rw [hst, Option.none_or] at hd
      rw [hst] at hcsum
      exact hcsum.trans (h d stSkb hd)
    | some stSkb' =>
      rw [hst, Option.some_or] at hd
      obtain rfl := Option.some.inj hd
      rw [hst] at hcsum
      exact hcsum
  | ctl ok =>
    intro d stSkb hd
    simp only [stored] at hd
    have hstatus := (ctlStep_acts hs).status d
    split at hd
    · cases hd
    · rename_i hz
      rw [if_neg hz] at hstatus
      rw [hstatus]
      exact h d stSkb hd
  | _ =>
    rcases step_cases hs with ⟨_, _, _, _, _, he, -⟩ | ⟨_, he, -⟩ | ho
    · cases he
    · cases he
    · exact outside ho.mod.stCfg rfl

theorem stored_reach {K : Kernel} {s : State} {hist : Dir → Option (List Byte)}
    (hr : (storedLts K).Reachable (s, hist)) : Stored (s, hist) :=
  hr.track_invariant (I := fun s hist => Stored (s, hist)) (fun _ _ d stSkb hd => by cases hd)
    fun _ _ _ _ h _ hs => h.step hs

/-! ### The frame behind a VLAN tag -/

/-- The frame with a VLAN tag behind the two MAC addresses. -/
def tagged (tag bytes : List Byte) : List Byte := bytes.take 12 ++ (tag ++ bytes.drop 12)

section Tagged
variable {tag bytes : List Byte}

theorem drop_tagged (htag : tag.length = 4) (hlen : 14 ≤ bytes.length) : (tagged tag bytes).drop 18 = bytes.drop 14 := by
  have htake : (bytes.take 12).length = 12 := by
    rw [List.length_take]
    omega
  rw [tagged, show 18 = (bytes.take 12).length + (tag.length + 2) from by omega, List.drop_length_add_append,
    List.drop_length_add_append, List.drop_drop]

theorem hSource_tagged (hlen : 14 ≤ bytes.length) (id : Nat) :
    Skb.hSource ⟨id, tagged tag bytes⟩ = (bytes.drop 6).take 6 := by
  rw [Skb.hSource, tagged, List.drop_append_of_le_length (by rw [List.length_take]; omega), List.drop_take,
    List.take_append_of_le_length (by rw [List.length_take, List.length_drop]; omega), List.take_take]
  rfl

end Tagged

theorem makeSpeedtestPkt_bytes {K : Kernel} {devGetByName : String → Option Room} {ok : Bool} {port : BitVec 8} {n : Nat}
    (hn : 42 ≤ n) (hmax : n ≤ 65549) {skb : SkBuff} (hmade : makeSpeedtestPkt K devGetByName ok port n = some (some skb)) :
    ∃ check udpCheck, skb.bytes = (frame port n check udpCheck).map some := by
  cases hdev : devGetByName ("eth0." ++ toString port.toNat) with
  | none =>
    simp only [makeSpeedtestPkt, hdev] at hmade
    cases Option.some.inj hmade
  | some dev =>
    cases ok with
    | false =>
      simp only [makeSpeedtestPkt, hdev] at hmade
      cases Option.some.inj hmade
    | true =>
      obtain ⟨skb', hmade', hbytes⟩ := makeSpeedtestPkt_frame K hdev hn hmax rfl rfl
      rw [hmade] at hmade'
      obtain rfl := Option.some.inj (Option.some.inj hmade')
      exact ⟨_, _, hbytes⟩

/-- The source address of the frame is that of its direction. -/
theorem hSource_frame (d : Dir) (n check udpCheck : Nat) :
    ((frame (getSpeedtestPortByIndex d) n check udpCheck).drop 6).take 6 = if d = 0 then st0Mac else st1Mac := by
  rcases dir_cases d with rfl | rfl <;> rfl

/-- What a compute thread does with the first packet of the queue. -/
theorem drains {K : Kernel} {s t : State} {tid : Nat} {x : Input} {th : Thread} {endTime : Nat} {skb : Skb}
    {rest : List Skb} (hth : s.threads[tid]? = some th) (hbody : th.body = .compute (.drain endTime))
    (hqueue : s.mod.compSkbqueue = skb :: rest) (hs : (lts K).step s (.thread tid x) = some t) {d : Dir}
    (hdir : skb.dir = some d) : (t.mod.stCfg d).status = countPkt (s.mod.stCfg d).status skb := by
  obtain ⟨th', m, b, hth', -, hb, rfl⟩ := threadStep_ran hs
  rw [hth] at hth'
  obtain rfl := Option.some.inj hth'
  rw [hbody] at hb
  simp only [bodyStep, computeStep, hqueue, Option.map_some, Option.some.injEq, Prod.mk.injEq] at hb
  obtain ⟨rfl, rfl⟩ := hb
  exact (computePkt_status _ _ _).trans (if_pos hdir)

theorem drain_step (K : Kernel) {s : State} {tid : Nat} {x : Input} {stop : Bool} {endTime : Nat} {skb : Skb}
    {rest : List Skb} (hth : s.threads[tid]? = some ⟨.compute (.drain endTime), true, stop⟩)
    (hqueue : s.mod.compSkbqueue = skb :: rest) : ∃ t, (lts K).step s (.thread tid x) = some t ∧
      t.threads[tid]? = some ⟨.compute (.drain endTime), true, stop⟩ ∧ t.mod.compSkbqueue = rest := by
  have hs : (lts K).step s (.thread tid x) = some { s with
      mod := computePkt { s.mod with compSkbqueue := rest } skb
      threads := s.threads.set tid ⟨.compute (.drain endTime), true, stop⟩ } := by
    simp only [lts, step, threadStep, hth, Option.bind_eq_bind, Option.bind_some, bodyStep, computeStep, hqueue,
      Option.map_some, if_true]
  exact ⟨_, hs, List.getElem?_set_self (List.getElem?_eq_some_iff.mp hth).1, by rw [computePkt_eq]⟩

/-- When the frame whose checksum a sender has stored comes back with a VLAN tag, the compute thread counts it as
    received and not as an error; with any single word of its datagram changed, except from one zero to the other,
    it counts it as an error too. -/
theorem error_detected {K : Kernel} {devGetByName : String → Option Room} {ok : Bool} {d : Dir} {n : Nat} (hn : 42 ≤ n)
    (hmax : n ≤ 65549) {stSkb : SkBuff} {bytes : List Byte}
    (hmade : makeSpeedtestPkt K devGetByName ok (getSpeedtestPortByIndex d) n = some (some stSkb))
    (hbytes : stSkb.bytes = bytes.map some) {s t : State} {hist : Dir → Option (List Byte)}
    (hr : (storedLts K).Reachable (s, hist)) (hstored : hist d = some bytes) {tid : Nat} {x : Input} {th : Thread}
    {endTime : Nat} (hth : s.threads[tid]? = some th) (hbody : th.body = .compute (.drain endTime)) {skb : Skb}
    {rest : List Skb} (hqueue : s.mod.compSkbqueue = skb :: rest) (hs : (lts K).step s (.thread tid x) = some t)
    {tag : List Byte} (htag : tag.length = 4) :
    (skb.data = tagged tag bytes → (t.mod.stCfg d).status =
      { (s.mod.stCfg d).status with pktrcvCount := ((s.mod.stCfg d).status.pktrcvCount + 1) % 2 ^ 64 }) ∧
    ∀ datagram k, Damaged (bytes.drop 14) datagram k → skb.data = tagged tag (bytes.take 14 ++ datagram) →
      (t.mod.stCfg d).status =
        { (s.mod.stCfg d).status with
          pktrcvCount := ((s.mod.stCfg d).status.pktrcvCount + 1) % 2 ^ 64
          pkterrCount := ((s.mod.stCfg d).status.pkterrCount + 1) % 2 ^ 64 } := by
  obtain ⟨check, udpCheck, hframe⟩ := makeSpeedtestPkt_bytes hn hmax hmade
  have hbytes : bytes = frame (getSpeedtestPortByIndex d) n check udpCheck :=
    List.map_injective_iff.mpr (Option.some_injective _) (hbytes.symm.trans hframe)
  have hlen : bytes.length = n := by rw [hbytes, length_frame hn]
  have hcsum := stored_reach hr d bytes hstored
  -- The MAC addresses are those of the frame, so that the packet belongs to the direction.
  have hdir {data : List Byte} (hdata : skb.data = tagged tag data) (hlen' : 14 ≤ data.length)
      (hmac : (data.drop 6).take 6 = (bytes.drop 6).take 6) : skb.dir = some d := by
    obtain ⟨id, _⟩ := skb
    obtain rfl := hdata
    rw [Skb.dir, hSource_tagged hlen', hmac, hbytes, hSource_frame]
    rcases dir_cases d with rfl | rfl <;> rfl
  constructor
  · intro hdata
    rw [drains hth hbody hqueue hs (hdir hdata (by omega) rfl), countPkt_same]
    rw [hdata, drop_tagged htag (by omega), hcsum]
  · intro datagram k hdamaged hdata
    have htake : (bytes.take 14).length = 14 := by
      rw [List.length_take]
      omega
    have hlen' : 14 ≤ (bytes.take 14 ++ datagram).length := by
      rw [List.length_append]
      omega
    have hmac : ((bytes.take 14 ++ datagram).drop 6).take 6 = (bytes.drop 6).take 6 := by
      rw [List.drop_append_of_le_length (by omega), List.take_append_of_le_length (by rw [List.length_drop]; omega),
        List.drop_take, List.take_take]
      rfl
    rw [drains hth hbody hqueue hs (hdir hdata hlen' hmac), countPkt_differs]
    rw [hdata, drop_tagged htag hlen', hcsum, List.drop_left' htake]
    exact hdamaged.ipComputeCsum_ne

/-- The frame of 42 bytes comes back twice, first as it was sent and then with the last byte changed. -/
theorem error_detected_pkt42 : ∃ s t u : State, (lts kernel32).step s (.thread 2 ⟨none, true, 0⟩) = some t ∧
    (lts kernel32).step t (.thread 2 ⟨none, true, 0⟩) = some u ∧ (t.mod.stCfg 0).status.pktrcvCount = 1 ∧
    (t.mod.stCfg 0).status.pkterrCount = 0 ∧ (u.mod.stCfg 0).status.pktrcvCount = 2 ∧
    (u.mod.stCfg 0).status.pkterrCount = 1 := by
  obtain ⟨r, hmade, hr⟩ := Option.map_eq_some_iff.mp makeSpeedtestPkt_pkt42
  obtain ⟨stSkb, rfl, hbytes⟩ := Option.map_eq_some_iff.mp hr
  have hrun : ((storedLts kernel32).runIf (fun _ _ => True) (Speedtest.start kernel32 1000, fun _ => none)
      (commandRun ++ List.replicate 4 (Event.thread 0 ⟨some pkt42, true, 0⟩) ++
        [Event.receive (tagged [0x81, 0x00, 0x00, 0x01] pkt42), .rxHook 0,
          .receive (tagged [0x81, 0x00, 0x00, 0x01] (pkt42.take 14 ++ (pkt42.drop 14).set 27 0xc3)), .rxHook 0,
          .thread 2 ⟨none, true, 0⟩])).any
      (fun x => x.1.threads[2]? == some ⟨.compute (.drain 0), true, false⟩ && x.2 0 == some pkt42 &&
        x.1.mod.compSkbqueue == [⟨0, tagged [0x81, 0x00, 0x00, 0x01] pkt42⟩,
          ⟨1, tagged [0x81, 0x00, 0x00, 0x01] (pkt42.take 14 ++ (pkt42.drop 14).set 27 0xc3)⟩] &&
        (x.1.mod.stCfg 0).status.pktrcvCount == 0 && (x.1.mod.stCfg 0).status.pkterrCount == 0) = true := by decide
  obtain ⟨⟨s, hist⟩, hr, hp⟩ := Lts.exists_reach_of_runIf hrun ⟨⟨1000, by decide, rfl⟩, rfl⟩
  simp only [Bool.and_eq_true, beq_iff_eq] at hp
  obtain ⟨⟨⟨⟨hth, hstored⟩, hqueue⟩, hrcv⟩, herr⟩ := hp
  obtain ⟨t, hs, hth', hqueue'⟩ := drain_step kernel32 hth hqueue
  obtain ⟨u, hu, -, -⟩ := drain_step kernel32 hth' hqueue'
  have hrt : (storedLts kernel32).Reachable (t, stored s (.thread 2 ⟨none, true, 0⟩) hist) :=
    hr.step (.thread 2 ⟨none, true, 0⟩) trivial (Lts.track_step.mpr ⟨hs, rfl⟩)
  have hstored' : stored s (.thread 2 ⟨none, true, 0⟩) hist 0 = some pkt42 := by
    rw [stored, hth]
    exact hstored
  have ht := (error_detected (by decide) (by decide) hmade hbytes hr hstored hth rfl hqueue hs rfl).1 rfl
  have hdamaged : Damaged (pkt42.drop 14) ((pkt42.drop 14).set 27 0xc3) 13 := by
    refine ⟨rfl, fun i hi => List.getElem?_set_ne ?_, by decide, by decide, by decide⟩
    rintro rfl
    exact hi rfl
  have hu' := (error_detected (d := 0) (by decide) (by decide) hmade hbytes hrt hstored' hth' rfl hqueue' hu rfl).2 _ 13
    hdamaged rfl
  refine ⟨s, t, u, hs, hu, ?_, ?_, ?_, ?_⟩
  · simp [ht, hrcv]
  · simp [ht, herr]
  · simp [hu', ht, hrcv]
  · simp [hu', ht, herr]

end QuickStart.Speedtest
