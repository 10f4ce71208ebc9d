import QuickStart.Buffer
import QuickStart.Speedtest.Step

/-! # The test packet

`make_speedtest_pkt` as its accesses to the memory of a new `sk_buff`. A byte of the memory is `none` until it has
been written, and a result of `none` is an access outside the memory, a read of such a byte, or a call of
`skb_over_panic`. `skb_checksum`, `csum_tcpudp_magic` and `ip_compute_csum` are the sums of RFC 1071. -/

namespace QuickStart.Speedtest
open Checksum

/-- A `struct sk_buff`; the positions are offsets from `head`. -/
structure SkBuff where
  head : List (Option Byte)
  data : Nat
  tail : Nat
  macHeader : Nat
  networkHeader : Nat
  transportHeader : Nat
  deriving DecidableEq, Repr

/-- `LL_RESERVED_SPACE(dev)` and `dev->needed_tailroom`, as `unsigned short`. -/
structure Room where
  hlen : BitVec 16
  tlen : BitVec 16
  deriving DecidableEq, Repr

namespace SkBuff

/-- `alloc_skb(size, ..)`, when there is memory. -/
def alloc (size : Int) : SkBuff where
  head := List.replicate (size % 2 ^ 32).toNat none
  data := 0
  tail := 0
  macHeader := 0
  networkHeader := 0
  transportHeader := 0

def reserve (skb : SkBuff) (len : Nat) : SkBuff := { skb with data := skb.data + len, tail := skb.tail + len }

/-- `skb_put`, whose `len` is an `unsigned int`. -/
def put (skb : SkBuff) (len : Int) : Option SkBuff :=
  if skb.tail + (len % 2 ^ 32).toNat ≤ skb.head.length then some { skb with tail := skb.tail + (len % 2 ^ 32).toNat }
  else none

def store (skb : SkBuff) (off : Nat) (src : List Byte) : Option SkBuff :=
  (Buffer.write skb.head off (src.map some)).map fun head => { skb with head := head }

/-- `memset`, whose length is a `size_t`. -/
def memset (K : Kernel) (skb : SkBuff) (off : Nat) (v : Byte) (len : Int) : Option SkBuff :=
  let n := (len % 2 ^ K.bitsPerLong).toNat
  if off + n ≤ skb.head.length then skb.store off (List.replicate n v) else none

def load (skb : SkBuff) (off n : Nat) : Option (List Byte) := (Buffer.read skb.head off n).bind (List.mapM id)

/-- The bytes of the packet. -/
def bytes (skb : SkBuff) : List (Option Byte) := (skb.head.drop skb.data).take (skb.tail - skb.data)

end SkBuff

/-- `GET_RESIDUAL_BYTE`. -/
def getResidualByte (size : Int) (skb : SkBuff) : Int := size - ((skb.tail : Int) - skb.macHeader)

/-- `ntohs(udph->len)`. -/
def udpLen (skb : SkBuff) : Nat := (skb.tail - skb.transportHeader) % 65536

/-- The addresses, the protocol and the length as the UDP checksum covers them. -/
def pseudoHeader (saddr daddr : List Byte) (len : Nat) : List Byte := saddr ++ daddr ++ ([0, 17] ++ be16 len)

/-- `csum_tcpudp_magic(saddr, daddr, len, IPPROTO_UDP, csum)`. -/
def csumTcpudpMagic (saddr daddr : List Byte) (len csum : Nat) : Nat :=
  65535 - onesAdd (onesSum (pseudoHeader saddr daddr len)) csum

/-! ### The headers -/

def putEthhdr (port : BitVec 8) (skb : SkBuff) : Option SkBuff := do
  let skb := { skb with macHeader := skb.data }
  let ethd := skb.macHeader
  let skb ← skb.put 14
  let skb ← skb.store ethd (List.replicate 6 0x80)
  let skb ← skb.store (ethd + 6) (List.replicate 6 ((port &&& 0x0f) <<< 4))
  skb.store (ethd + 12) (be16 0x0800)

def putIphdr (skb : SkBuff) : Option SkBuff := do
  let skb := { skb with networkHeader := skb.macHeader + 14 }
  let iph := skb.networkHeader
  let skb ← skb.put 20
  let skb := { skb with transportHeader := skb.networkHeader + 20 }
  -- `ihl` and `version` are one byte.
  let skb ← skb.store iph [0x45]
  let skb ← skb.store (iph + 1) [0]
  let skb ← skb.store (iph + 6) (be16 0)
  let skb ← skb.store (iph + 8) [64]
  let skb ← skb.store (iph + 16) [0xc0, 0xa8, 0x55, 0x02]
  let skb ← skb.store (iph + 12) [0xc0, 0xa8, 0x55, 0x01]
  let skb ← skb.store (iph + 9) [17]
  let skb ← skb.store (iph + 4) [0x11, 0x11]
  skb.store (iph + 10) (be16 0)

def putUdphdr (K : Kernel) (pktSize : Int) (skb : SkBuff) : Option SkBuff := do
  let skb ← skb.put (getResidualByte pktSize skb)
  let udph := skb.transportHeader
  let skb ← skb.store udph (be16 8888)
  let skb ← skb.store (udph + 2) (be16 9999)
  let skb ← skb.store (udph + 4) (be16 (udpLen skb))
  let skb ← skb.memset K (udph + 8) 0xaa ((udpLen skb : Int) - 8)
  skb.store (udph + 6) (be16 0)

def putChecksums (skb : SkBuff) : Option SkBuff := do
  let iph := skb.networkHeader
  let udph := skb.transportHeader
  let csum ← (skb.load udph (udpLen skb)).map onesSum
  let saddr ← skb.load (iph + 12) 4
  let daddr ← skb.load (iph + 16) 4
  let skb ← skb.store (udph + 6) (be16 (csumTcpudpMagic saddr daddr (udpLen skb) csum))
  let skb ← skb.store (iph + 2) (be16 ((skb.tail - iph) % 65536))
  let check ← (skb.load iph 20).map ipComputeCsum
  skb.store (iph + 10) (be16 check.toNat)

/-- `make_speedtest_pkt`: `some none` when it returns 0. `devGetByName` is `__dev_get_by_name` and `ok` the outcome
    of `alloc_skb`. -/
def makeSpeedtestPkt (K : Kernel) (devGetByName : String → Option Room) (ok : Bool) (port : BitVec 8) (pktSize : Int) :
    Option (Option SkBuff) :=
  match devGetByName ("eth0." ++ toString port.toNat) with
  | none => some none
  | some dev =>
    if ok then
      let skb := (SkBuff.alloc (pktSize + dev.hlen.toNat + dev.tlen.toNat)).reserve dev.hlen.toNat
      ((((putEthhdr port skb).bind putIphdr).bind (putUdphdr K pktSize)).bind putChecksums).map some
    else some none

theorem makeSpeedtestPkt_pkt42 : (makeSpeedtestPkt kernel32 (fun _ => some ⟨16, 0⟩) true 1 (42 : Nat)).map
    (Option.map SkBuff.bytes) = some (some (pkt42.map some)) := by decide +kernel

/-! ### The fields of the frame -/

section Fields
variable (port : BitVec 8) (n : Nat) (check udpCheck : Nat)

def ethFields : List (List Byte) := [List.replicate 6 0x80, List.replicate 6 ((port &&& 0x0f) <<< 4), be16 0x0800]

/-- The IP header before the checksum, the checksum, and the addresses. -/
def ipFields : List (List Byte) :=
  [[0x45], [0], be16 (n - 14), [0x11, 0x11], be16 0, [64], [17], be16 check, [0xc0, 0xa8, 0x55, 0x01],
    [0xc0, 0xa8, 0x55, 0x02]]

def udpFields : List (List Byte) :=
  [be16 8888, be16 9999, be16 (n - 34), be16 udpCheck, List.replicate (n - 42) 0xaa]

/-- The frame of `n` bytes. -/
def frame : List Byte := (ethFields port ++ ipFields n check ++ udpFields n udpCheck).flatten

end Fields

/-- The lengths of the fields of a frame of `n` bytes. -/
def frameLens (n : Nat) : List Nat := [6, 6, 2, 1, 1, 2, 2, 2, 1, 1, 2, 4, 4, 2, 2, 2, 2, n - 42]

/-- The fields in the memory. -/
abbrev Fields (n : Nat) := Buffer.Layout (Option Byte) (frameLens n)

def blank (n : Nat) : Fields n := ⟨(frameLens n).map fun k => List.replicate k none, by simp [Function.comp_def]⟩

def written (fs : List (List Byte)) : List (List (Option Byte)) := fs.map (List.map some)

section Accesses
variable {n h t off o a b c d e : Nat} {fs : Fields n}

/-- The memory of the packet: the reserved room, the fields, and the room behind them. -/
def memory (h t : Nat) (fs : Fields n) : List (Option Byte) :=
  List.replicate h none ++ (fs.1.flatten ++ List.replicate t none)

theorem sum_frameLens (hn : 42 ≤ n) : (frameLens n).sum = n := by
  simp only [frameLens, List.sum_cons, List.sum_nil]
  omega

theorem length_memory (hn : 42 ≤ n) : (memory h t fs).length = h + n + t := by
  rw [memory, List.length_append, List.length_append, List.length_replicate, List.length_replicate, fs.length_flatten,
    sum_frameLens hn, Nat.add_assoc]

/-- The place of a field does not depend on the length of the payload, which is the last one. -/
theorem sum_take_frameLens {k : Nat} (ho : k ≤ 17 ∧ ((frameLens 0).take k).sum = o) : ((frameLens n).take k).sum = o := by
  have hsplit : ∀ m, frameLens m = [6, 6, 2, 1, 1, 2, 2, 2, 1, 1, 2, 4, 4, 2, 2, 2, 2] ++ [m - 42] := fun _ => rfl
  rw [← ho.2, hsplit, hsplit, List.take_append_of_le_length ho.1, List.take_append_of_le_length ho.1]

theorem store_field (k : Nat) {src : List Byte} (hk : (frameLens n)[k]? = some (src.map some).length)
    (ho : k ≤ 17 ∧ ((frameLens 0).take k).sum = o) (hoff : h + o = off) :
    SkBuff.store ⟨memory h t fs, a, b, c, d, e⟩ off src =
      some ⟨memory h t (fs.set k (src.map some) hk), a, b, c, d, e⟩ := by
  rw [SkBuff.store, memory, Buffer.write_field fs hk (by rw [List.length_replicate, sum_take_frameLens ho, hoff]), memory]
  rfl

theorem mapM_id_some (bs : List Byte) : (bs.map some).mapM id = some bs := by
  induction bs with
  | nil => rfl
  | cons b bs ih =>
    rw [List.map_cons, List.mapM_cons, ih]
    rfl

theorem load_fields (k m : Nat) {len : Nat} {u : List (List Byte)} (hfs : (fs.1.drop k).take m = written u)
    (ho : k ≤ 17 ∧ ((frameLens 0).take k).sum = o) (hoff : h + o = off)
    (hlen : (((frameLens n).drop k).take m).sum = len) :
    SkBuff.load ⟨memory h t fs, a, b, c, d, e⟩ off len = some u.flatten := by
  rw [SkBuff.load, memory, Buffer.read_fields fs (by rw [List.length_replicate, sum_take_frameLens ho, hoff]) hlen, hfs,
    Option.bind_some, written, ← List.map_flatten, mapM_id_some]

theorem put_fields {len : Int} (k : Nat) (hn : 42 ≤ n) (hlen : (len % 2 ^ 32).toNat = k) (hfit : b + k ≤ h + n) :
    SkBuff.put ⟨memory h t fs, a, b, c, d, e⟩ len = some ⟨memory h t fs, a, b + k, c, d, e⟩ := by
  rw [SkBuff.put, hlen, if_pos]
  rw [length_memory hn]
  exact hfit.trans (Nat.le_add_right _ _)

theorem memset_field {K : Kernel} {v : Byte} {len : Int} (hn : 42 ≤ n) (k m : Nat)
    (hlen : (len % 2 ^ K.bitsPerLong).toNat = m)
    (hk : (frameLens n)[k]? = some ((List.replicate m v).map some).length) (ho : k ≤ 17 ∧ ((frameLens 0).take k).sum = o)
    (hoff : h + o = off) (hfit : off + m ≤ h + n) :
    SkBuff.memset K ⟨memory h t fs, a, b, c, d, e⟩ off v len =
      some ⟨memory h t (fs.set k ((List.replicate m v).map some) hk), a, b, c, d, e⟩ := by
  have hfits : off + m ≤ (memory h t fs).length := by
    rw [length_memory hn]
    exact hfit.trans (Nat.le_add_right _ _)
  simp only [SkBuff.memset, hlen, if_pos hfits]
  exact store_field k hk ho hoff

theorem udpLen_fields (hn : 42 ≤ n) (hmax : n ≤ 65549) :
    udpLen ⟨memory h t fs, h, h + n, c, d, h + 34⟩ = n - 34 := by
  simp only [udpLen]
  omega

end Accesses

section Stages
variable {h t n : Nat} {port : BitVec 8} {fs : Fields n}

theorem putEthhdr_fields (port : BitVec 8) (hn : 42 ≤ n) {d e : Nat} (hfs : fs.1 = (blank n).1) :
    ∃ fs' : Fields n, putEthhdr port ⟨memory h t fs, h, h, 0, d, e⟩ = some ⟨memory h t fs', h, h + 14, h, d, e⟩ ∧
      fs'.1 = written (ethFields port) ++ (blank n).1.drop 3 := by
  refine ⟨?fields, ?run, ?value⟩
  case run =>
    simp only [putEthhdr, Option.bind_eq_bind]
    rw [put_fields 14 hn (by rfl) (by omega), Option.bind_some,
      store_field 0 (o := 0) (by rfl) (by decide) (by omega), Option.bind_some,
      store_field 1 (o := 6) (by rfl) (by decide) (by omega), Option.bind_some,
      store_field 2 (o := 12) (by rfl) (by decide) (by omega)]
  case value =>
    change ((fs.1.set 0 _).set 1 _).set 2 _ = _
    rw [hfs]
    rfl

/-- The fields of the IP header before the total length and the checksum are known. -/
def ipFields' (n : Nat) : List (List (Option Byte)) := (written (ipFields n 0)).set 2 (List.replicate 2 none)

theorem putIphdr_fields (hn : 42 ≤ n) {d e : Nat} (hfs : fs.1 = written (ethFields port) ++ (blank n).1.drop 3) :
    ∃ fs' : Fields n, putIphdr ⟨memory h t fs, h, h + 14, h, d, e⟩ =
        some ⟨memory h t fs', h, h + 34, h, h + 14, h + 34⟩ ∧
      fs'.1 = written (ethFields port) ++ (ipFields' n ++ (blank n).1.drop 13) := by
  refine ⟨?fields, ?run, ?value⟩
  case run =>
    simp only [putIphdr, Option.bind_eq_bind]
    rw [put_fields 20 hn (by rfl) (by omega), Option.bind_some,
      store_field 3 (o := 14) (by rfl) (by decide) (by omega), Option.bind_some,
      store_field 4 (o := 15) (by rfl) (by decide) (by omega), Option.bind_some,
      store_field 7 (o := 20) (by rfl) (by decide) (by omega), Option.bind_some,
      store_field 8 (o := 22) (by rfl) (by decide) (by omega), Option.bind_some,
      store_field 12 (o := 30) (by rfl) (by decide) (by omega), Option.bind_some,
      store_field 11 (o := 26) (by rfl) (by decide) (by omega), Option.bind_some,
      store_field 9 (o := 23) (by rfl) (by decide) (by omega), Option.bind_some,
      store_field 6 (o := 18) (by rfl) (by decide) (by omega), Option.bind_some,
      store_field 10 (o := 24) (by rfl) (by decide) (by omega)]
  case value =>
    change ((((((((fs.1.set 3 _).set 4 _).set 7 _).set 8 _).set 12 _).set 11 _).set 9 _).set 6 _).set 10 _ = _
    rw [hfs]
    rfl

theorem putUdphdr_fields {K : Kernel} (hn : 42 ≤ n) (hmax : n ≤ 65549) {m : Nat}
    (hfs : fs.1 = written (ethFields port) ++ (ipFields' n ++ (blank n).1.drop 13)) :
    ∃ fs' : Fields n, putUdphdr K n ⟨memory h t fs, h, h + 34, h, m, h + 34⟩ =
        some ⟨memory h t fs', h, h + n, h, m, h + 34⟩ ∧
      fs'.1 = written (ethFields port) ++ (ipFields' n ++ written (udpFields n 0)) := by
  have hresidual : (getResidualByte n ⟨memory h t fs, h, h + 34, h, m, h + 34⟩ % 2 ^ 32).toNat = n - 34 := by
    simp only [getResidualByte]
    omega
  have hmemset : ((((n - 34 : Nat) : Int) - 8) % 2 ^ K.bitsPerLong).toNat = n - 42 := by
    rcases K.bits with hb | hb <;> rw [hb] <;> omega
  have htail : h + 34 + (n - 34) = h + n := by omega
  have hpayload : (frameLens n)[17]? = some ((List.replicate (n - 42) (0xaa : Byte)).map some).length := by
    rw [List.length_map, List.length_replicate]
    rfl
  refine ⟨?fields, ?run, ?value⟩
  case run =>
    simp only [putUdphdr, Option.bind_eq_bind]
    rw [put_fields (n - 34) hn hresidual (by omega), Option.bind_some, htail]
    dsimp only
    rw [store_field 13 (o := 34) (by rfl) (by decide) (by omega), Option.bind_some,
      store_field 14 (o := 36) (by rfl) (by decide) (by omega), Option.bind_some, udpLen_fields hn hmax,
      store_field 15 (o := 38) (by rfl) (by decide) (by omega), Option.bind_some, udpLen_fields hn hmax,
      memset_field (o := 42) hn 17 (n - 42) hmemset hpayload (by decide) (by omega) (by omega), Option.bind_some,
      store_field 16 (o := 40) (by rfl) (by decide) (by omega)]
  case value =>
    change ((((fs.1.set 13 _).set 14 _).set 15 _).set 17 _).set 16 _ = _
    rw [hfs]
    rfl

theorem putChecksums_fields (hn : 42 ≤ n) (hmax : n ≤ 65549)
    (hfs : fs.1 = written (ethFields port) ++ (ipFields' n ++ written (udpFields n 0))) {udpCheck check : Nat}
    (hudp : udpCheck = csumTcpudpMagic [0xc0, 0xa8, 0x55, 0x01] [0xc0, 0xa8, 0x55, 0x02] (n - 34)
      (onesSum (udpFields n 0).flatten))
    (hip : check = (ipComputeCsum (ipFields n 0).flatten).toNat) :
    ∃ fs' : Fields n, putChecksums ⟨memory h t fs, h, h + n, h, h + 14, h + 34⟩ =
        some ⟨memory h t fs', h, h + n, h, h + 14, h + 34⟩ ∧
      fs'.1 = written (ethFields port ++ ipFields n check ++ udpFields n udpCheck) := by
  have hdatagram : (((frameLens n).drop 13).take 5).sum = n - 34 := by
    simp only [frameLens, List.drop_succ_cons, List.drop_zero, List.take_succ_cons, List.take_zero, List.sum_cons,
      List.sum_nil]
    omega
  have htot : (h + n - (h + 14)) % 65536 = n - 14 := by omega
  refine ⟨?fields, ?run, ?value⟩
  case run =>
    simp only [putChecksums, Option.bind_eq_bind]
    rw [udpLen_fields hn hmax,
      load_fields 13 5 (o := 34) (u := udpFields n 0) (by rw [hfs]; rfl) (by decide) (by omega) hdatagram, Option.map_some,
      Option.bind_some,
      load_fields 11 1 (o := 26) (u := [[0xc0, 0xa8, 0x55, 0x01]]) (by rw [hfs]; rfl) (by decide) (by omega) (by rfl),
      Option.bind_some,
      load_fields 12 1 (o := 30) (u := [[0xc0, 0xa8, 0x55, 0x02]]) (by rw [hfs]; rfl) (by decide) (by omega) (by rfl),
      Option.bind_some]
    simp only [List.flatten_cons, List.flatten_nil, List.append_nil]
    rw [← hudp, store_field 16 (o := 40) (by rfl) (by decide) (by omega), Option.bind_some]
    dsimp only
    rw [htot, store_field 5 (o := 16) (by rfl) (by decide) (by omega), Option.bind_some,
      load_fields 3 10 (o := 14) (u := ipFields n 0) ?ip (by decide) (by omega) (by rfl), Option.map_some,
      Option.bind_some, ← hip, store_field 10 (o := 24) (by rfl) (by decide) (by omega)]
    case ip =>
      change ((((fs.1.set 16 _).set 5 _).drop 3).take 10) = _
      rw [hfs]
      rfl
  case value =>
    change ((fs.1.set 16 _).set 5 _).set 10 _ = _
    rw [hfs]
    rfl

end Stages

/-! ### The frame -/

section Frame
variable {port : BitVec 8} {n check udpCheck : Nat}

theorem memory_blank {h t : Nat} (hn : 42 ≤ n) : List.replicate (h + n + t) none = memory h t (blank n) := by
  refine (List.eq_replicate_iff.mpr ⟨length_memory hn, fun b hb => ?_⟩).symm
  rw [memory, List.mem_append, List.mem_append, List.mem_flatten] at hb
  rcases hb with hb | ⟨f, hf, hb⟩ | hb
  · exact List.eq_of_mem_replicate hb
  · obtain ⟨k, -, rfl⟩ := List.mem_map.mp hf
    exact List.eq_of_mem_replicate hb
  · exact List.eq_of_mem_replicate hb

theorem frame_eq : frame port n check udpCheck =
    (ethFields port).flatten ++ ((ipFields n check).flatten ++ (udpFields n udpCheck).flatten) := by
  rw [frame, List.flatten_append, List.flatten_append, List.append_assoc]

theorem length_frame (hn : 42 ≤ n) : (frame port n check udpCheck).length = n := by
  have hudp : (udpFields n udpCheck).flatten.length = 8 + (n - 42) := by
    simp only [udpFields, List.flatten_cons, List.flatten_nil, List.length_append, length_be16, List.length_replicate,
      List.length_nil]
    omega
  rw [frame_eq, List.length_append, List.length_append, hudp, show (ethFields port).flatten.length = 14 from rfl,
    show (ipFields n check).flatten.length = 20 from rfl]
  omega

/-- What `make_speedtest_pkt` builds, as long as the lengths have 16 bits. -/
theorem makeSpeedtestPkt_frame (K : Kernel) {devGetByName : String → Option Room} {dev : Room}
    (hdev : devGetByName ("eth0." ++ toString port.toNat) = some dev) (hn : 42 ≤ n) (hmax : n ≤ 65549)
    (hudp : udpCheck = csumTcpudpMagic [0xc0, 0xa8, 0x55, 0x01] [0xc0, 0xa8, 0x55, 0x02] (n - 34)
      (onesSum (udpFields n 0).flatten))
    (hip : check = (ipComputeCsum (ipFields n 0).flatten).toNat) :
    ∃ skb, makeSpeedtestPkt K devGetByName true port n = some (some skb) ∧
      skb.bytes = (frame port n check udpCheck).map some := by
  have hsize : (((n : Int) + dev.hlen.toNat + dev.tlen.toNat) % 2 ^ 32).toNat = dev.hlen.toNat + n + dev.tlen.toNat := by
    have := dev.hlen.isLt
    have := dev.tlen.isLt
    omega
  have halloc : (SkBuff.alloc ((n : Int) + dev.hlen.toNat + dev.tlen.toNat)).reserve dev.hlen.toNat =
      ⟨memory dev.hlen.toNat dev.tlen.toNat (blank n), dev.hlen.toNat, dev.hlen.toNat, 0, 0, 0⟩ := by
    simp only [SkBuff.alloc, SkBuff.reserve, hsize, memory_blank hn, Nat.zero_add]
  obtain ⟨fs₁, heth, hfs₁⟩ := putEthhdr_fields (h := dev.hlen.toNat) (t := dev.tlen.toNat) (d := 0) (e := 0) port hn rfl
  obtain ⟨fs₂, hiph, hfs₂⟩ := putIphdr_fields (h := dev.hlen.toNat) (t := dev.tlen.toNat) (d := 0) (e := 0) hn hfs₁
  obtain ⟨fs₃, hudph, hfs₃⟩ := putUdphdr_fields (K := K) (h := dev.hlen.toNat) (t := dev.tlen.toNat)
    (m := dev.hlen.toNat + 14) hn hmax hfs₂
  obtain ⟨fs₄, hsums, hfs₄⟩ := putChecksums_fields (h := dev.hlen.toNat) (t := dev.tlen.toNat) hn hmax hfs₃ hudp hip
  refine ⟨⟨memory dev.hlen.toNat dev.tlen.toNat fs₄, dev.hlen.toNat, dev.hlen.toNat + n, dev.hlen.toNat,
    dev.hlen.toNat + 14, dev.hlen.toNat + 34⟩, ?_, ?_⟩
  · simp only [makeSpeedtestPkt, hdev, if_true, halloc]
    rw [heth, Option.bind_some, hiph, Option.bind_some, hudph, Option.bind_some, hsums, Option.map_some]
  · have hlen : (frame port n check udpCheck).length = n := length_frame hn
    rw [SkBuff.bytes, memory, hfs₄, written, ← List.map_flatten, ← frame]
    dsimp only
    rw [List.drop_left' List.length_replicate, Nat.add_sub_cancel_left, List.take_left' (by rw [List.length_map, hlen])]

/-- A frame of `n` bytes with an IP and a UDP header whose lengths and checksums are those of the frame. -/
structure ValidFrame (n : Nat) (bytes : List Byte) : Prop where
  length : bytes.length = n
  totLen : wordAt bytes 16 = n - 14
  udpLen : wordAt bytes 38 = n - 34
  payload : ∀ b ∈ bytes.drop 42, b = 0xaa
  ipSum : onesSum ((bytes.drop 14).take 20) = 0xffff
  udpSum : onesSum (pseudoHeader ((bytes.drop 26).take 4) ((bytes.drop 30).take 4) (n - 34) ++ bytes.drop 34) = 0xffff

theorem onesSum_ipFields (hip : check = (ipComputeCsum (ipFields n 0).flatten).toNat) :
    onesSum (ipFields n check).flatten = 65535 := by
  have hsplit : ∀ c, (ipFields n c).flatten = ([0x45, 0] ++ (be16 (n - 14) ++ [0x11, 0x11, 0, 0, 64, 17])) ++
      (be16 c ++ [0xc0, 0xa8, 0x55, 0x01, 0xc0, 0xa8, 0x55, 0x02]) := fun _ => rfl
  have hzero : ∀ m ≤ 65535, onesAdd 0 m = m := fun _ => zero_onesAdd
  have hsum := onesSum_complete (p := [0x45, 0] ++ (be16 (n - 14) ++ [0x11, 0x11, 0, 0, 64, 17]))
    (q := [0xc0, 0xa8, 0x55, 0x01, 0xc0, 0xa8, 0x55, 0x02]) (s := 0) (Nat.zero_le _) (by simp)
  rw [hzero _ (onesSum_le _), hzero _ (onesSum_le _)] at hsum
  rw [hip, toNat_ipComputeCsum, hsplit, hsplit]
  exact hsum

theorem validFrame_frame (hn : 42 ≤ n) (hmax : n ≤ 65549)
    (hudp : udpCheck = csumTcpudpMagic [0xc0, 0xa8, 0x55, 0x01] [0xc0, 0xa8, 0x55, 0x02] (n - 34)
      (onesSum (udpFields n 0).flatten))
    (hip : check = (ipComputeCsum (ipFields n 0).flatten).toNat) : ValidFrame n (frame port n check udpCheck) where
  length := length_frame hn
  totLen := toNat_be16 (by omega)
  udpLen := toNat_be16 (by omega)
  payload := by
    have hdrop : (frame port n check udpCheck).drop 42 = List.replicate (n - 42) 0xaa ++ [] := rfl
    rw [hdrop, List.append_nil]
    exact fun b hb => List.eq_of_mem_replicate hb
  ipSum := onesSum_ipFields hip
  udpSum := by
    have hsplit : ∀ c, (udpFields n c).flatten = (be16 8888 ++ (be16 9999 ++ be16 (n - 34))) ++
        (be16 c ++ (List.replicate (n - 42) 0xaa ++ [])) := fun _ => rfl
    have hsum := onesSum_complete (p := be16 8888 ++ (be16 9999 ++ be16 (n - 34)))
      (q := List.replicate (n - 42) 0xaa ++ []) (onesSum_le (pseudoHeader [0xc0, 0xa8, 0x55, 0x01]
        [0xc0, 0xa8, 0x55, 0x02] (n - 34))) (by simp)
    rw [← hsplit, ← hsplit, ← csumTcpudpMagic, ← hudp] at hsum
    have hdrop : (frame port n check udpCheck).drop 34 = (udpFields n udpCheck).flatten := rfl
    have hsaddr : ((frame port n check udpCheck).drop 26).take 4 = [0xc0, 0xa8, 0x55, 0x01] := rfl
    have hdaddr : ((frame port n check udpCheck).drop 30).take 4 = [0xc0, 0xa8, 0x55, 0x02] := rfl
    rw [hdrop, hsaddr, hdaddr, onesSum_append _ (by simp [pseudoHeader])]
    exact hsum

end Frame

/-- For every size whose lengths have 16 bits, `make_speedtest_pkt` stays within the memory of the packet and builds
    a valid frame, every byte of which it has written, unless there is no device or no memory. -/
theorem makeSpeedtestPkt_valid (K : Kernel) (devGetByName : String → Option Room) (ok : Bool) (port : BitVec 8) {n : Nat}
    (hn : 42 ≤ n) (hmax : n ≤ 65549) : ∃ r, makeSpeedtestPkt K devGetByName ok port n = some r ∧
      (r.isSome = true ↔ (devGetByName ("eth0." ++ toString port.toNat)).isSome = true ∧ ok = true) ∧
      ∀ skb, r = some skb → ∃ bytes, skb.bytes = bytes.map some ∧ ValidFrame n bytes := by
  cases hdev : devGetByName ("eth0." ++ toString port.toNat) with
  | none => exact ⟨none, by simp only [makeSpeedtestPkt, hdev], by simp, fun skb hskb => (by cases hskb)⟩
  | some dev =>
    cases ok with
    | false =>
      exact ⟨none, by simp only [makeSpeedtestPkt, hdev, Bool.false_eq_true, if_false], by simp,
        fun skb hskb => (by cases hskb)⟩
    | true =>
      obtain ⟨skb, hmade, hbytes⟩ := makeSpeedtestPkt_frame K hdev hn hmax rfl rfl
      refine ⟨some skb, hmade, by simp, fun skb' hskb => ?_⟩
      obtain rfl := Option.some.inj hskb
      exact ⟨_, hbytes, validFrame_frame hn hmax rfl rfl⟩

theorem makeSpeedtestPkt_valid_largest : ∃ skb bytes,
    makeSpeedtestPkt kernel32 (fun _ => some ⟨16, 0⟩) true (getSpeedtestPortByIndex 1) (65549 : Nat) = some (some skb) ∧
    skb.bytes = bytes.map some ∧ ValidFrame 65549 bytes := by
  obtain ⟨r, hmade, hsome, hvalid⟩ := makeSpeedtestPkt_valid kernel32 (fun _ => some ⟨16, 0⟩) true
    (getSpeedtestPortByIndex 1) (n := 65549) (by decide) (by decide)
  obtain ⟨skb, rfl⟩ := Option.isSome_iff_exists.mp (hsome.mpr ⟨rfl, rfl⟩)
  obtain ⟨bytes, hbytes, hframe⟩ := hvalid skb rfl
  exact ⟨skb, bytes, hmade, hbytes, hframe⟩

end QuickStart.Speedtest
