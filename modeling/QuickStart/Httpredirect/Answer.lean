import QuickStart.Httpredirect.Exact

/-! # What the client reads

The payload of a rewritten packet on the wire, and the way of the packet through the second hook. -/

namespace QuickStart.Httpredirect
open Checksum

/-- The bytes from the first one of the payload to the tail. -/
def Skb.room (skb : Skb) : Nat := skb.data.length - skb.tcpPayload

section Answer
variable {cfg : Config} {skb : Skb} {url : Url} {i : Nat}

/-! ### The bytes of the answer -/

theorem Skb.WellFormed.tcpHdrlen_mem (h : skb.WellFormed) :
    Httpredirect.tcpHdrlen skb.mem skb.tcph = Httpredirect.tcpHdrlen skb.data skb.tcph := by
  have hfits := h.fits'
  rw [Httpredirect.tcpHdrlen, Httpredirect.tcpHdrlen, byteAt, byteAt, List.getD_eq_getElem?_getD,
    List.getD_eq_getElem?_getD, Skb.mem, List.getElem?_append_left (by omega)]

theorem Skb.WellFormed.tcpPayload_le (h : skb.WellFormed) : skb.tcpPayload ≤ skb.data.length := by
  have hfits := h.fits
  rw [← h.tcph_eq] at hfits
  rw [Skb.tcpPayload, h.tcpHdrlen_mem]
  exact hfits

/-- The checksums are in front of the payload. -/
theorem Skb.WellFormed.not_inChecksum (h : skb.WellFormed) (hi : skb.tcpPayload ≤ i) : ¬skb.InChecksum i := by
  have hle := h.le_tcph
  have htcp := h.tcpHdrlen
  rw [← h.tcpHdrlen_mem] at htcp
  rw [Skb.tcpPayload] at hi
  rw [Skb.InChecksum, tcpCheck, ipCheck]
  omega

/-- The text, its NUL and the fill. -/
theorem getElem?_answer_payload (h : skb.WellFormed) {k : Nat} (hk : k < skb.room) :
    (skb.answer url)[skb.tcpPayload + k]? = (http302Header url ++ List.replicate skb.room 0)[k]? := by
  have hle := h.tcpPayload_le
  have hmem : skb.tcpPayload + k < skb.mem.length := by
    rw [Skb.mem, List.length_append]
    rw [Skb.room] at hk
    omega
  have hlen : (http302Header url ++ [(0 : Byte)]).length = (http302Header url).length + 1 := List.length_append
  rw [getElem?_answer (h.not_inChecksum (Nat.le_add_right _ _))]
  by_cases htext : k ≤ (http302Header url).length
  · rw [redirectPayload_eq, getElem?_patch_of_lt (Or.inl (by rw [textEnd]; omega)),
      getElem?_patch_of_mem (Nat.le_add_right _ _) (by omega) hmem, Nat.add_sub_cancel_left]
    rcases Nat.lt_or_eq_of_le htext with hlt | rfl
    · rw [List.getElem?_append_left hlt, List.getElem?_append_left hlt]
    · rw [List.getElem?_append_right le_rfl, List.getElem?_append_right le_rfl, Nat.sub_self,
        List.getElem?_replicate, if_pos (Nat.zero_lt_of_lt hk)]
      rfl
  · have hfill := lt_fillEnd url skb
    rw [Skb.room] at hk
    rw [getElem?_fill (by rw [textEnd]; omega) (by omega) hmem, List.getElem?_append_right (by omega),
      List.getElem?_replicate, if_pos (by rw [Skb.room]; omega)]

/-! ### On the wire -/

theorem drop_payload_transmit (h : skb.WellFormed) (url : Url) :
    (transmit (skb.setMem (skb.answer url)).setCsum).drop skb.tcpPayload =
      (http302Header url ++ List.replicate skb.room 0).take skb.room := by
  have htcp := h.tcpHdrlen
  rw [← h.tcpHdrlen_mem] at htcp
  have hstore : skb.tcph + tcpCheck + 2 ≤ skb.tcpPayload := by
    rw [Skb.tcpPayload, tcpCheck]
    omega
  have hwire : (transmit (skb.setMem (skb.answer url)).setCsum).drop skb.tcpPayload =
      ((skb.answer url).take skb.data.length).drop skb.tcpPayload := by
    rcases transmit_cases url with ⟨-, he⟩ | ⟨-, he⟩ <;> rw [he]
    rw [drop_patch_of_le (by rw [length_be16]; exact hstore)]
  rw [hwire]
  refine List.ext_getElem? fun k => ?_
  have hroom : skb.tcpPayload + k < skb.data.length ↔ k < skb.room := by
    rw [Skb.room]
    omega
  rw [List.getElem?_drop, List.getElem?_take, List.getElem?_take]
  simp only [hroom]
  split
  · exact getElem?_answer_payload h ‹_›
  · rfl

/-- The headers of the packet on the wire, except for the checksums. -/
theorem getElem?_transmit (h : skb.WellFormed) (hi : i < skb.tcpPayload) (hout : ¬skb.InChecksum i) :
    (transmit (skb.setMem (skb.answer url)).setCsum)[i]? = skb.data[i]? := by
  have hle := h.tcpPayload_le
  have hanswer : ((skb.answer url).take skb.data.length)[i]? = skb.data[i]? := by
    rw [List.getElem?_take, if_pos (by omega), getElem?_answer hout, getElem?_redirectPayload (Or.inl hi), Skb.mem,
      List.getElem?_append_left (by omega)]
  rcases transmit_cases url with ⟨-, he⟩ | ⟨-, he⟩ <;> rw [he]
  · exact hanswer
  · rw [Skb.InChecksum] at hout
    rw [getElem?_patch_of_lt (by rw [length_be16]; omega), hanswer]

/-! ### The second hook -/

/-- The text of the answer has no `404` where the search looks for one. -/
theorem not_text404_answer (h : skb.WellFormed) (hlo : 8 ≤ i) (hhi : i ≤ 15) :
    ¬text404 <+: (skb.answer url).drop (skb.tcpPayload + i) := by
  intro hp
  have htcp := h.tcpHdrlen
  rw [← h.tcpHdrlen_mem] at htcp
  have hbytes := List.prefix_iff_getElem?.mp hp
  have hfound : text404 <+: found.drop i := by
    refine List.prefix_iff_getElem?.mpr fun k hk => ?_
    have hk' : k < 3 := hk
    have hold := hbytes k hk
    rw [List.getElem?_drop, Nat.add_assoc] at hold
    have hlen : (skb.answer url).length = skb.mem.length := by
      simp only [Skb.answer, checkIp, checkTcp, redirectPayload, length_patch]
    have hmem : skb.tcpPayload + (i + k) < skb.mem.length := hlen ▸ (List.getElem?_eq_some_iff.mp hold).1
    rw [List.getElem?_drop, ← getElem?_answer_text url h.le_tcph htcp (by omega) hmem, hold]
  have hnone : ∀ i ≤ 15, ¬text404 <+: found.drop i := by decide
  exact hnone i hhi hfound

theorem tcph_rewritten (mem : List Byte) : ((skb.setMem mem).setCsum).tcph = skb.tcph := by
  rw [Skb.setCsum]
  split <;> rfl

theorem tcpPayload_rewritten (h : skb.WellFormed) : ((skb.setMem (skb.answer url)).setCsum).tcpPayload = skb.tcpPayload := by
  have hle := h.le_tcph
  have htcp := h.tcpHdrlen
  rw [← h.tcpHdrlen_mem] at htcp
  have hout : ¬skb.InChecksum (skb.tcph + 12) := by
    rw [Skb.InChecksum, tcpCheck, ipCheck]
    omega
  have hkept : (skb.answer url)[skb.tcph + 12]? = skb.mem[skb.tcph + 12]? := by
    rw [getElem?_answer hout, getElem?_redirectPayload (Or.inl (by rw [Skb.tcpPayload]; omega))]
  rw [Skb.tcpPayload, Skb.tcpPayload, tcph_rewritten, mem_setMem, tcpHdrlen, tcpHdrlen, byteAt, byteAt,
    List.getD_eq_getElem?_getD, List.getD_eq_getElem?_getD, hkept]

theorem rewrites_rewritten (h : skb.WellFormed) (cfg : Config) (url : Url) :
    rewrites cfg (skb.setMem (skb.answer url)).setCsum = false := by
  by_contra hr
  have hr : rewrites cfg (skb.setMem (skb.answer url)).setCsum = true := Bool.eq_true_of_not_eq_false hr
  have hsearch : strnstr (((skb.setMem (skb.answer url)).setCsum).mem.drop
      (((skb.setMem (skb.answer url)).setCsum).tcpPayload + 8)) text404 10 = true := by
    simp only [rewrites, Bool.and_eq_true] at hr
    exact hr.2.1
  rw [mem_setMem, tcpPayload_rewritten h] at hsearch
  obtain ⟨i, hi, hp⟩ := strnstr_iff.mp hsearch
  rw [List.drop_drop, Nat.add_assoc] at hp
  have hlast : 8 + i ≤ 15 := by
    simp only [text404, List.length_cons, List.length_nil] at hi
    omega
  exact not_text404_answer h (Nat.le_add_right 8 i) hlast hp

end Answer

/-- A rewritten packet carries as much of the 302 answer as there was room for in its payload, zeros behind it, and the
    headers that it had, except for the checksums. The second hook on its way leaves it as it is, whatever has been
    written to the configuration in the meantime. -/
theorem answered_once {cfg : Config} {skb : Skb} (h : skb.WellFormed) (hr : rewrites cfg skb = true) :
    ∃ skb', http404NfCb cfg (some skb) = (.accept, some skb') ∧
      (transmit skb').drop skb.tcpPayload =
        (http302Header cfg.http404redirectUrl ++ List.replicate skb.room 0).take skb.room ∧
      (∀ i < skb.tcpPayload, ¬skb.InChecksum i → (transmit skb')[i]? = skb.data[i]?) ∧
      ∀ cfg', http404NfCb cfg' (some skb') = (.accept, some skb') := by
  refine ⟨_, http404NfCb_of_rewrites hr, drop_payload_transmit h _, fun i hi hout => getElem?_transmit h hi hout,
    fun cfg' => ?_⟩
  rw [http404NfCb, rewrites_rewritten h cfg', if_neg Bool.false_ne_true]

/-- A 404 answer of 13 bytes becomes `"HTTP/1.1 302 "`. -/
theorem answered_once_notFound : ∃ skb', http404NfCb redirectToA (some (notFound .checksumPartial)) = (.accept, some skb') ∧
    (transmit skb').drop 40 = found.take 13 ∧ ∀ cfg', http404NfCb cfg' (some skb') = (.accept, some skb') := by
  have hpayload : (notFound .checksumPartial).tcpPayload = 40 := by decide
  have hroom : (notFound .checksumPartial).room = 13 := by decide
  obtain ⟨skb', hcb, hwire, -, hagain⟩ := answered_once (by decide : (notFound .checksumPartial).WellFormed)
    (by decide : rewrites redirectToA _ = true)
  rw [hpayload, hroom] at hwire
  exact ⟨skb', hcb, hwire.trans (by decide), hagain⟩

end QuickStart.Httpredirect
