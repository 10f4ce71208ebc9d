import QuickStart.Httpredirect.Frame

/-! # Which packets are rewritten

The two searches of `http404_nf_cb` look for their texts at several places of the payload, and do not stop at the
tail. -/

namespace QuickStart.Httpredirect
open Checksum

def Skb.payload (skb : Skb) : List Byte := skb.data.drop skb.tcpPayload

def isDigit (b : Byte) : Bool := 0x30 ≤ b && b ≤ 0x39

/-- A status line with the status code 404: `HTTP/`, a digit, a dot, a digit, a space and `404`. -/
def is404 (s : List Byte) : Bool :=
  s.take 5 == textHttp ++ [0x2f] && isDigit (byteAt s 5) && byteAt s 6 == 0x2e && isDigit (byteAt s 7) &&
    (s.drop 8).take 4 == 0x20 :: text404

section Searches
variable {cfg : Config} {skb : Skb}

/-- What a rewritten packet has at the first bytes of its payload. -/
theorem getElem?_answer_text (url : Url) (htcp : 20 ≤ skb.tcph) (hhdr : 20 ≤ tcpHdrlen skb.mem skb.tcph) {k : Nat}
    (hk : k < 30) (hmem : skb.tcpPayload + k < skb.mem.length) : (skb.answer url)[skb.tcpPayload + k]? = found[k]? := by
  have hlen : (http302Header url ++ [0]).length = 30 + (url.text.length + 23) + 1 := by
    simp only [http302Header, List.length_append, List.length_singleton, show found.length = 30 from rfl,
      show noContent.length = 23 from rfl, Nat.add_assoc]
  have hend : textEnd url skb = skb.tcpPayload + (http302Header url ++ [0]).length := by
    rw [textEnd, List.length_append, List.length_singleton, Nat.add_assoc]
  have hout : ¬skb.InChecksum (skb.tcpPayload + k) := by
    rw [Skb.InChecksum, Skb.tcpPayload, tcpCheck, ipCheck]
    omega
  rw [getElem?_answer hout, redirectPayload_eq, getElem?_patch_of_lt (by omega),
    getElem?_patch_of_mem (Nat.le_add_right _ _) (by omega) hmem, Nat.add_sub_cancel_left, http302Header,
    List.append_assoc, List.append_assoc, List.getElem?_append_left (by rw [show found.length = 30 from rfl]; exact hk)]

/-- The text of the answer has no `404` where the search has found one. -/
theorem answer_ne (url : Url) (htcp : 20 ≤ skb.tcph) (hhdr : 20 ≤ tcpHdrlen skb.mem skb.tcph) (h : skb.LooksLike404) :
    skb.answer url ≠ skb.mem := by
  obtain ⟨-, i, -, hi, hp⟩ := h
  intro he
  have hbytes := List.prefix_iff_getElem?.mp hp
  have hfound : text404 <+: found.drop i := by
    refine List.prefix_iff_getElem?.mpr fun k hk => ?_
    have hk' : k < 3 := hk
    have hold := hbytes k hk
    rw [List.getElem?_drop, Nat.add_assoc] at hold
    have hmem : skb.tcpPayload + (i + k) < skb.mem.length := (List.getElem?_eq_some_iff.mp hold).1
    rw [List.getElem?_drop, ← getElem?_answer_text url htcp hhdr (by omega) hmem, he, hold]
  have hnone : ∀ i ≤ 15, ¬ text404 <+: found.drop i := by decide
  exact hnone i hi hfound

theorem Skb.LooksLike404.of_is404 (h : is404 skb.payload = true) : skb.LooksLike404 := by
  have hmem (i : Nat) : skb.payload.drop i <+: skb.mem.drop (skb.tcpPayload + i) := by
    rw [Skb.payload, List.drop_drop, Skb.mem]
    by_cases hle : skb.tcpPayload + i ≤ skb.data.length
    · rw [List.drop_append_of_le_length hle]
      exact List.prefix_append _ _
    · rw [List.drop_eq_nil_of_le (by omega)]
      exact List.nil_prefix
  simp only [is404, Bool.and_eq_true, beq_iff_eq] at h
  obtain ⟨⟨⟨⟨hhttp, -⟩, -⟩, -⟩, h404⟩ := h
  refine ⟨⟨0, Nat.zero_le _, List.IsPrefix.trans ?_ (hmem 0)⟩, 9, by decide, by decide, List.IsPrefix.trans ?_ (hmem 9)⟩
  · exact (List.prefix_append textHttp [0x2f]).trans (hhttp ▸ List.take_prefix _ _)
  · have hdrop := congrArg (List.drop 1) h404
    rw [List.drop_take, List.drop_drop] at hdrop
    have htake : (skb.payload.drop 9).take 3 = text404 := hdrop
    exact htake ▸ List.take_prefix 3 _

/-- A 404 answer has a 4 where the answer has a 3. -/
theorem data_ne_of_is404 (url : Url) (htcp : 20 ≤ skb.tcph) (hhdr : 20 ≤ tcpHdrlen skb.mem skb.tcph)
    (h : is404 skb.payload = true) : ((skb.setMem (skb.answer url)).setCsum).data ≠ skb.data := by
  have hold : skb.data[skb.tcpPayload + 9]? = some 0x34 := by
    simp only [is404, Bool.and_eq_true, beq_iff_eq] at h
    have hget := congrArg (·[1]?) h.2
    simpa [Skb.payload, List.getElem?_drop, Nat.add_assoc, text404] using hget
  have hlt : skb.tcpPayload + 9 < skb.data.length := (List.getElem?_eq_some_iff.mp hold).1
  have hnew : ((skb.setMem (skb.answer url)).setCsum).data = (skb.answer url).take skb.data.length := by
    rw [Skb.setCsum]
    split <;> rfl
  intro he
  have hget := congrArg (·[skb.tcpPayload + 9]?) he
  rw [hnew, List.getElem?_take, if_pos hlt, getElem?_answer_text url htcp hhdr (by decide)
    (by rw [Skb.mem, List.length_append]; omega), hold] at hget
  exact absurd hget (by decide)

end Searches

/-- The callback changes a packet with a 404 answer, and leaves every other one as it is, with the memory behind it. -/
structure Exact (cfg : Config) (skb : Skb) : Prop where
  rewrites : is404 skb.payload = true → ∃ skb', http404NfCb cfg (some skb) = (.accept, some skb') ∧ skb'.data ≠ skb.data
  leaves : is404 skb.payload = false → http404NfCb cfg (some skb) = (.accept, some skb)

/-- With the redirection on, the callback rewrites exactly the 404 answers as long as the searches find the texts of
    no other packet. -/
theorem rewrites_exactly {cfg : Config} {skb : Skb} (hproto : protocol skb.mem = ipprotoTcp)
    (hen : cfg.http404redirectEnable ≠ 0) (htcp : 20 ≤ skb.tcph) (hhdr : 20 ≤ tcpHdrlen skb.mem skb.tcph) :
    Exact cfg skb ↔ (skb.LooksLike404 → is404 skb.payload = true) := by
  have hrewrites : rewrites cfg skb = true ↔ skb.LooksLike404 := rewrites_iff hproto hen
  constructor
  · intro h hlooks
    by_contra hno
    have hleaves := h.leaves (Bool.eq_false_iff.mpr hno)
    rw [http404NfCb_of_rewrites (hrewrites.mpr hlooks)] at hleaves
    have hmem := congrArg Skb.mem (Option.some.inj (Prod.mk.inj hleaves).2)
    rw [mem_setMem] at hmem
    exact answer_ne _ htcp hhdr hlooks hmem
  · intro h
    refine ⟨fun h404 => ?_, fun hno => ?_⟩
    · exact ⟨_, http404NfCb_of_rewrites (hrewrites.mpr (.of_is404 h404)), data_ne_of_is404 _ htcp hhdr h404⟩
    · have hlooks : ¬skb.LooksLike404 := fun hl => by
        rw [h hl] at hno
        cases hno
      rw [http404NfCb, if_neg fun hr => hlooks (hrewrites.mp hr)]

def withPayload (payload : List Byte) : Skb :=
  { notFound .checksumNone with data := (notFound .checksumNone).data.take 40 ++ payload }

theorem rewrites_exactly_notFound : Exact redirectToA (notFound .checksumNone) :=
  (rewrites_exactly (by decide) (by decide) (by decide) (by decide)).mpr fun _ => by decide

/-- `"HTTP/1.1 200 404\r\n"` is rewritten, and so is a packet without a payload that has a 404 answer behind its tail. -/
theorem rewrites_others :
    (let skb := withPayload [0x48, 0x54, 0x54, 0x50, 0x2f, 0x31, 0x2e, 0x31, 0x20, 0x32, 0x30, 0x30, 0x20, 0x34, 0x30, 0x34,
      0x0d, 0x0a]
    is404 skb.payload = false ∧ ¬ Exact redirectToA skb) ∧
    let skb := { withPayload [] with beyond := (notFound .checksumNone).payload }
    is404 skb.payload = false ∧ ¬ Exact redirectToA skb := by
  refine ⟨⟨by decide, fun h => ?_⟩, by decide, fun h => ?_⟩ <;>
    exact absurd (h.leaves (by decide)) (by decide +kernel)

end QuickStart.Httpredirect
