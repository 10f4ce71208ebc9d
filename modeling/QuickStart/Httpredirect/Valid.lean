import QuickStart.Httpredirect.Callback

/-! # The answer is a valid packet

The stored checksum is the complement of the sum over its region with a zero in its place, so that the region
sums to the word of ones, whatever the answer has put into it. -/

namespace QuickStart.Httpredirect
open Checksum

/-- A linear IPv4 packet with a TCP header, whose tail is the end of the IP datagram. -/
structure Skb.WellFormed (skb : Skb) : Prop where
  headers : skb.transportHeader = skb.networkHeader + ipHdrlen skb.data
  ipHdrlen : 20 ≤ ipHdrlen skb.data
  tcpHdrlen : 20 ≤ tcpHdrlen skb.data skb.tcph
  fits : Httpredirect.ipHdrlen skb.data + Httpredirect.tcpHdrlen skb.data skb.tcph ≤ skb.data.length
  totLen : totLen skb.data = skb.data.length

instance (skb : Skb) : Decidable skb.WellFormed :=
  decidable_of_iff (skb.transportHeader = skb.networkHeader + ipHdrlen skb.data ∧ 20 ≤ ipHdrlen skb.data ∧
      20 ≤ tcpHdrlen skb.data skb.tcph ∧ ipHdrlen skb.data + tcpHdrlen skb.data skb.tcph ≤ skb.data.length ∧
      totLen skb.data = skb.data.length)
    ⟨fun ⟨h1, h2, h3, h4, h5⟩ => ⟨h1, h2, h3, h4, h5⟩, fun ⟨h1, h2, h3, h4, h5⟩ => ⟨h1, h2, h3, h4, h5⟩⟩

/-! ### What the answer keeps of the headers -/

/-- The first twenty bytes, except for the IP checksum, are the same. -/
def Kept (l l' : List Byte) : Prop := ∀ i, i < 20 → i < ipCheck ∨ ipCheck + 2 ≤ i → l'[i]? = l[i]?

namespace Kept
variable {l l' l'' src : List Byte} {off n : Nat}

theorem trans (h : Kept l l') (h' : Kept l' l'') : Kept l l'' := fun i hi hc => (h' i hi hc).trans (h i hi hc)

theorem patch (h : 20 ≤ off ∨ (off = ipCheck ∧ src.length = 2)) : Kept l (patch l off src) := fun i hi hc =>
  getElem?_patch_of_lt (by rcases h with h | ⟨rfl, h⟩ <;> omega)

theorem append (r : List Byte) (h : 20 ≤ l.length) : Kept l (l ++ r) := fun i hi _ =>
  List.getElem?_append_left (by omega)

theorem take (h : 20 ≤ n) : Kept l (l.take n) := fun i hi _ => by
  rw [List.getElem?_take, if_pos (by omega)]

theorem byteAt (h : Kept l l') {i : Nat} (hi : i < 20) (hc : i < ipCheck ∨ ipCheck + 2 ≤ i) :
    byteAt l' i = byteAt l i := by
  rw [Httpredirect.byteAt, Httpredirect.byteAt, List.getD_eq_getElem?_getD, List.getD_eq_getElem?_getD, h i hi hc]

theorem ipHdrlen (h : Kept l l') : ipHdrlen l' = ipHdrlen l := by
  rw [Httpredirect.ipHdrlen, h.byteAt (by decide) (by decide), Httpredirect.ipHdrlen]

theorem totLen (h : Kept l l') : totLen l' = totLen l := by
  rw [Httpredirect.totLen, h.byteAt (by decide) (by decide), h.byteAt (by decide) (by decide), Httpredirect.totLen]

theorem word (h : Kept l l') {a : Nat} (ha : ipCheck + 2 ≤ a) (ha' : a + 4 ≤ 20) :
    (l'.drop a).take 4 = (l.drop a).take 4 := by
  apply List.ext_getElem?
  intro i
  rw [List.getElem?_take, List.getElem?_take]
  split
  · rw [List.getElem?_drop, List.getElem?_drop]
    exact h _ (by omega) (by omega)
  · rfl

theorem saddr (h : Kept l l') : saddr l' = saddr l := h.word (by decide) (by decide)

theorem daddr (h : Kept l l') : daddr l' = daddr l := h.word (by decide) (by decide)

end Kept

/-! ### The steps of the answer -/

section Steps
variable {skb : Skb} {mem : List Byte}

theorem Skb.WellFormed.tcph_eq (h : skb.WellFormed) : skb.tcph = Httpredirect.ipHdrlen skb.data := by
  rw [Skb.tcph, h.headers, Nat.add_sub_cancel_left]

theorem Skb.WellFormed.le_tcph (h : skb.WellFormed) : 20 ≤ skb.tcph := h.tcph_eq ▸ h.ipHdrlen

theorem Skb.WellFormed.fits' (h : skb.WellFormed) : skb.tcph + 20 ≤ skb.data.length := by
  have hfits := h.fits
  have htcp := h.tcpHdrlen
  rw [← h.tcph_eq] at hfits
  omega

def Skb.segment (skb : Skb) (mem : List Byte) : List Byte := (mem.take skb.data.length).drop skb.tcph

/-- A patch before the TCP header, or one in it. -/
theorem segment_patch_of_le {off : Nat} {src : List Byte} (h : off + src.length ≤ skb.tcph) :
    skb.segment (patch mem off src) = skb.segment mem := by
  rw [Skb.segment, take_patch, drop_patch_of_le h, Skb.segment]

theorem segment_patch {off : Nat} {src : List Byte} (h : skb.tcph ≤ off) :
    skb.segment (patch mem off src) = patch (skb.segment mem) (off - skb.tcph) src := by
  rw [Skb.segment, take_patch, drop_patch h, Skb.segment]

theorem kept_redirectPayload (url : Url) (h : 20 ≤ skb.tcph) : Kept skb.mem (redirectPayload url skb) :=
  (Kept.patch (Or.inl (by omega))).trans (Kept.patch (Or.inl (by omega)))

theorem kept_checkTcp (h : 20 ≤ skb.tcph) : Kept mem (checkTcp skb mem) :=
  (Kept.patch (Or.inl (by omega))).trans (Kept.patch (Or.inl (by omega)))

theorem kept_checkIp : Kept mem (checkIp skb mem) :=
  (Kept.patch (Or.inr ⟨rfl, rfl⟩)).trans (Kept.patch (Or.inr ⟨rfl, rfl⟩))

theorem length_segment (hlen : skb.data.length ≤ mem.length) (h : skb.WellFormed) : 20 ≤ (skb.segment mem).length := by
  have hfits := h.fits'
  rw [Skb.segment, List.length_drop, List.length_take]
  omega

def Skb.pseudoSum (skb : Skb) : Nat :=
  onesSum (pseudoHeader (saddr skb.data) (daddr skb.data) (skb.data.length - skb.tcph))

theorem pseudoSum_le : skb.pseudoSum ≤ 65535 := onesSum_le _

def Skb.tcpSum (skb : Skb) (segment : List Byte) : Nat :=
  65535 - onesAdd skb.pseudoSum (onesSum (patch segment tcpCheck (be16 0)))

/-- `http404_nf_cb` stores the checksum of the segment, or the sum of the pseudo-header. -/
theorem segment_checkTcp (h : skb.WellFormed) (hk : Kept skb.data mem) :
    skb.segment (checkTcp skb mem) = patch (skb.segment mem) tcpCheck
      (be16 (if skb.ipSummed = .checksumPartial then skb.pseudoSum else skb.tcpSum (skb.segment mem))) := by
  have hzero : Kept skb.data (patch mem (skb.tcph + tcpCheck) (be16 0)) :=
    hk.trans (Kept.patch (Or.inl (by have := h.le_tcph; omega)))
  have hoff : skb.tcph + tcpCheck - skb.tcph = tcpCheck := Nat.add_sub_cancel_left _ _
  have hseg : skb.segment (patch mem (skb.tcph + tcpCheck) (be16 0)) = patch (skb.segment mem) tcpCheck (be16 0) := by
    rw [segment_patch (Nat.le_add_right _ _), hoff]
  simp only [checkTcp]
  rw [patch_be16, segment_patch (Nat.le_add_right _ _), hoff, hzero.totLen, hzero.ipHdrlen, hzero.saddr, hzero.daddr,
    h.totLen, ← h.tcph_eq]
  congr 3
  · have hle : skb.pseudoSum ≤ 65535 := pseudoSum_le
    rw [tcpV4Check, onesAdd_comm, ← Skb.pseudoSum, zero_onesAdd hle]
    omega
  · rw [tcpV4Check, ← Skb.pseudoSum, csumPartial, ← Skb.segment, hseg, Skb.tcpSum]

end Steps

/-! ### The packet on the wire -/

section Wire
variable {cfg : Config} {skb : Skb}

/-- The memory of a rewritten packet. -/
def Skb.answer (skb : Skb) (url : Url) : List Byte := checkIp skb (checkTcp skb (redirectPayload url skb))

theorem http404NfCb_of_rewrites (hr : rewrites cfg skb = true) : http404NfCb cfg (some skb) =
    (.accept, some ((skb.setMem (skb.answer cfg.http404redirectUrl)).setCsum)) := by
  rw [http404NfCb, if_pos hr]
  rfl

theorem length_answer (url : Url) : skb.data.length ≤ (skb.answer url).length := by
  simp only [Skb.answer, checkIp, checkTcp, redirectPayload, length_patch, Skb.mem, List.length_append]
  omega

theorem kept_answer (h : skb.WellFormed) (url : Url) : Kept skb.data (skb.answer url) :=
  have hlen := h.fits'
  (((Kept.append _ (by omega)).trans (kept_redirectPayload url h.le_tcph)).trans (kept_checkTcp h.le_tcph)).trans
    kept_checkIp

theorem segment_answer (h : skb.WellFormed) (url : Url) : skb.segment (skb.answer url) =
    patch (skb.segment (redirectPayload url skb)) tcpCheck (be16 (if skb.ipSummed = .checksumPartial then skb.pseudoSum
      else skb.tcpSum (skb.segment (redirectPayload url skb)))) := by
  have hle : ipCheck + 2 ≤ skb.tcph := (by decide : ipCheck + 2 ≤ 20).trans h.le_tcph
  have hfits := h.fits'
  rw [Skb.answer, checkIp, segment_patch_of_le (by rw [length_be16]; exact hle),
    segment_patch_of_le (by rw [length_be16]; exact hle)]
  exact segment_checkTcp h ((Kept.append _ (by omega)).trans (kept_redirectPayload url h.le_tcph))

/-- What the device makes of the rewritten packet. -/
theorem transmit_cases (url : Url) :
    (skb.ipSummed ≠ .checksumPartial ∧
        transmit (skb.setMem (skb.answer url)).setCsum = (skb.answer url).take skb.data.length) ∨
      (skb.ipSummed = .checksumPartial ∧ transmit (skb.setMem (skb.answer url)).setCsum =
        patch ((skb.answer url).take skb.data.length) (skb.tcph + tcpCheck)
          (be16 (65535 - onesSum (skb.segment (skb.answer url))))) := by
  by_cases hp : skb.ipSummed = .checksumPartial
  · refine Or.inr ⟨hp, ?_⟩
    simp only [transmit, Skb.setCsum, Skb.setMem, hp, if_true]
    rfl
  · refine Or.inl ⟨hp, ?_⟩
    simp only [transmit, Skb.setCsum, Skb.setMem, hp, if_false]

theorem kept_transmit (h : skb.WellFormed) (url : Url) :
    Kept skb.data (transmit (skb.setMem (skb.answer url)).setCsum) := by
  have hfits := h.fits'
  have hkept := (kept_answer h url).trans (Kept.take (n := skb.data.length) (by omega))
  have hle := h.le_tcph
  rcases transmit_cases url with ⟨-, he⟩ | ⟨-, he⟩
  · rw [he]
    exact hkept
  · rw [he]
    exact hkept.trans (Kept.patch (Or.inl (by omega)))

theorem length_transmit (url : Url) :
    (transmit (skb.setMem (skb.answer url)).setCsum).length = skb.data.length := by
  have hlen : skb.data.length ≤ (skb.answer url).length := length_answer url
  rcases transmit_cases url with ⟨-, he⟩ | ⟨-, he⟩ <;> rw [he]
  · rw [List.length_take, Nat.min_eq_left hlen]
  · rw [length_patch, List.length_take, Nat.min_eq_left hlen]

theorem take_transmit (h : skb.WellFormed) (url : Url) :
    (transmit (skb.setMem (skb.answer url)).setCsum).take skb.tcph = (skb.answer url).take skb.tcph := by
  have hfits := h.fits'
  have hmin : min skb.tcph skb.data.length = skb.tcph := Nat.min_eq_left (by omega)
  rcases transmit_cases url with ⟨-, he⟩ | ⟨-, he⟩ <;> rw [he]
  · rw [List.take_take, hmin]
  · rw [take_patch_of_le (Nat.le_add_right _ _), List.take_take, hmin]

/-- The TCP segment of the packet on the wire has its checksum in both modes. -/
theorem drop_transmit (h : skb.WellFormed) (url : Url) :
    (transmit (skb.setMem (skb.answer url)).setCsum).drop skb.tcph =
      patch (skb.segment (redirectPayload url skb)) tcpCheck
        (be16 (skb.tcpSum (skb.segment (redirectPayload url skb)))) := by
  have hseg := segment_answer h url
  have hlong : 20 ≤ (skb.segment (redirectPayload url skb)).length := by
    refine length_segment ?_ h
    simp only [redirectPayload, length_patch, Skb.mem, List.length_append]
    omega
  rcases transmit_cases url with ⟨hp, he⟩ | ⟨hp, he⟩ <;> rw [he]
  · rw [if_neg hp] at hseg
    exact hseg
  · -- The device sums the segment with the seed in the place of the checksum.
    rw [if_pos hp] at hseg
    rw [drop_patch (Nat.le_add_right _ _), Nat.add_sub_cancel_left, ← Skb.segment, hseg, patch_be16,
      show tcpCheck = 2 * 8 from rfl, onesSum_patch pseudoSum_le 8 (by omega)]
    rfl

/-- The IP header of the rewritten packet sums to ones. -/
theorem onesSum_header (h : skb.WellFormed) (url : Url) : onesSum ((skb.answer url).take skb.tcph) = 65535 := by
  have hle := h.le_tcph
  have hfits := h.fits'
  generalize hmem : checkTcp skb (redirectPayload url skb) = mem
  have hlen : 20 ≤ (mem.take skb.tcph).length := by
    rw [List.length_take, ← hmem]
    simp only [checkTcp, redirectPayload, length_patch, Skb.mem, List.length_append]
    omega
  have hstore := onesSum_store (k := 5) (Nat.zero_le _) (by omega : 2 * 5 + 2 ≤ (mem.take skb.tcph).length)
  rw [zero_onesAdd (onesSum_le _), zero_onesAdd (onesSum_le _)] at hstore
  rw [Skb.answer, hmem, checkIp, patch_be16, take_patch, toNat_ipComputeCsum, take_patch]
  exact hstore

theorem length_pseudoHeader {data : List Byte} (h : 20 ≤ data.length) (len : Nat) :
    (pseudoHeader (saddr data) (daddr data) len).length = 12 := by
  have hs : (saddr data).length = 4 := by
    rw [saddr, List.length_take, List.length_drop]
    omega
  have hd : (daddr data).length = 4 := by
    rw [daddr, List.length_take, List.length_drop]
    omega
  rw [pseudoHeader, List.length_append, List.length_append, hs, hd]
  rfl

/-- After `http404_nf_cb` has rewritten a packet, its IP header checksum verifies, and on the wire its TCP
    checksum verifies against the pseudo-header of the addresses and the length it had before. -/
theorem checksums_valid (cfg : Config) (skb : Skb) (h : skb.WellFormed) (hr : rewrites cfg skb = true) :
    ∃ skb', http404NfCb cfg (some skb) = (.accept, some skb') ∧
      saddr (transmit skb') = saddr skb.data ∧ daddr (transmit skb') = daddr skb.data ∧
      (transmit skb').length = skb.data.length ∧ totLen (transmit skb') = totLen skb.data ∧
      IpVerifies (transmit skb') ∧ TcpVerifies (transmit skb') := by
  have hfits := h.fits'
  have hkept := kept_transmit h cfg.http404redirectUrl
  have hlong : 20 ≤ (skb.segment (redirectPayload cfg.http404redirectUrl skb)).length := by
    refine length_segment ?_ h
    simp only [redirectPayload, length_patch, Skb.mem, List.length_append]
    omega
  refine ⟨_, http404NfCb_of_rewrites hr, hkept.saddr, hkept.daddr, length_transmit _, hkept.totLen, ?_, ?_⟩
  · rw [IpVerifies, hkept.ipHdrlen, ← h.tcph_eq, take_transmit h]
    exact onesSum_header h _
  · rw [TcpVerifies, hkept.ipHdrlen, ← h.tcph_eq, hkept.saddr, hkept.daddr, length_transmit, drop_transmit h,
      onesSum_append _ (by rw [length_pseudoHeader (by omega)])]
    exact onesSum_store (k := 8) pseudoSum_le (by omega)

/-- `"HTTP/1.1 404\r"` after two headers without options. -/
def notFound (ipSummed : IpSummed) : Skb :=
  { data := [0x45, 0, 0, 53, 0, 1, 0, 0, 64, 6, 0, 0, 10, 0, 0, 1, 10, 0, 0, 2] ++
      [0, 80, 0x9c, 0x40, 0, 0, 0, 1, 0, 0, 0, 1, 0x50, 0x18, 0, 255, 0, 0, 0, 0] ++
      [0x48, 0x54, 0x54, 0x50, 0x2f, 0x31, 0x2e, 0x31, 0x20, 0x34, 0x30, 0x34, 0x0d],
    beyond := List.replicate 11 0, networkHeader := 16, transportHeader := 36, ipSummed,
    csumStart := 0, csumOffset := 0 }

/-- A redirection to `"http://a"`. -/
def redirectToA : Config :=
  { http404redirectUrl := ⟨[0x68, 0x74, 0x74, 0x70, 0x3a, 0x2f, 0x2f, 0x61], by decide, by decide⟩,
    http404redirectEnable := 1 }

/-- An answer of odd length in both modes. -/
theorem checksums_valid_notFound :
    (∃ skb', http404NfCb redirectToA (some (notFound .checksumNone)) = (.accept, some skb') ∧
      IpVerifies (transmit skb') ∧ TcpVerifies (transmit skb')) ∧
    ∃ skb', http404NfCb redirectToA (some (notFound .checksumPartial)) = (.accept, some skb') ∧
      IpVerifies (transmit skb') ∧ TcpVerifies (transmit skb') := by
  obtain ⟨skb₁, hcb₁, -, -, -, -, hip₁, htcp₁⟩ :=
    checksums_valid redirectToA (notFound .checksumNone) (by decide) (by decide)
  obtain ⟨skb₂, hcb₂, -, -, -, -, hip₂, htcp₂⟩ :=
    checksums_valid redirectToA (notFound .checksumPartial) (by decide) (by decide)
  exact ⟨⟨skb₁, hcb₁, hip₁, htcp₁⟩, skb₂, hcb₂, hip₂, htcp₂⟩

end Wire

end QuickStart.Httpredirect
