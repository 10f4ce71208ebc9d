import QuickStart.Httpredirect.Valid

/-! # What the answer writes

The answer is the text with its NUL, a fill of zeros, and the two checksums. The fill begins behind the text and is
as long as the payload and the text together, so that it ends behind the tail whatever the lengths are. -/

namespace QuickStart.Httpredirect
open Checksum

def Skb.tcpPayload (skb : Skb) : Nat := skb.tcph + tcpHdrlen skb.mem skb.tcph

/-- The end of the text with its NUL. -/
def textEnd (url : Url) (skb : Skb) : Nat := skb.tcpPayload + (http302Header url).length + 1

/-- The end of the fill, `count` bytes behind the text. -/
def fillEnd (url : Url) (skb : Skb) : Nat :=
  textEnd url skb + (skb.data.length - skb.tcpPayload + (http302Header url).length + 1)

/-- The two bytes of the TCP or of the IP checksum. -/
def Skb.InChecksum (skb : Skb) (i : Nat) : Prop :=
  (skb.tcph + tcpCheck ≤ i ∧ i < skb.tcph + tcpCheck + 2) ∨ (ipCheck ≤ i ∧ i < ipCheck + 2)

section Writes
variable {cfg : Config} {skb : Skb} {url : Url} {i : Nat}

theorem redirectPayload_eq (url : Url) (skb : Skb) : redirectPayload url skb =
    patch (patch skb.mem skb.tcpPayload (http302Header url ++ [0])) (textEnd url skb)
      (List.replicate (fillEnd url skb - textEnd url skb) 0) := by
  rw [fillEnd, Nat.add_sub_cancel_left]
  rfl

theorem textEnd_le_fillEnd (url : Url) (skb : Skb) : textEnd url skb ≤ fillEnd url skb := Nat.le_add_right _ _

theorem tcpPayload_le_textEnd (url : Url) (skb : Skb) : skb.tcpPayload ≤ textEnd url skb := by
  rw [textEnd]
  omega

/-- The fill ends twice the length of the text behind the tail. -/
theorem fillEnd_eq (h : skb.tcpPayload ≤ skb.data.length) :
    fillEnd url skb = skb.data.length + 2 * ((http302Header url).length + 1) := by
  rw [fillEnd, textEnd]
  omega

theorem lt_fillEnd (url : Url) (skb : Skb) : skb.data.length < fillEnd url skb := by
  rw [fillEnd, textEnd]
  omega

theorem getElem?_redirectPayload (h : i < skb.tcpPayload ∨ fillEnd url skb ≤ i) :
    (redirectPayload url skb)[i]? = skb.mem[i]? := by
  have htext := tcpPayload_le_textEnd url skb
  have hfill := textEnd_le_fillEnd url skb
  have hlen : (http302Header url ++ [0]).length = textEnd url skb - skb.tcpPayload := by
    rw [List.length_append, textEnd, List.length_singleton]
    omega
  rw [redirectPayload_eq, getElem?_patch_of_lt (by rw [List.length_replicate]; omega),
    getElem?_patch_of_lt (by rw [hlen]; omega)]

theorem getElem?_fill (hi : textEnd url skb ≤ i) (hi' : i < fillEnd url skb) (hmem : i < skb.mem.length) :
    (redirectPayload url skb)[i]? = some 0 := by
  have hlen : (List.replicate (fillEnd url skb - textEnd url skb) (0 : Byte)).length =
      fillEnd url skb - textEnd url skb := List.length_replicate
  rw [redirectPayload_eq, getElem?_patch_of_mem hi (by omega) (by rw [length_patch]; exact hmem),
    List.getElem?_replicate, if_pos (by omega)]

theorem getElem?_answer (h : ¬skb.InChecksum i) : (skb.answer url)[i]? = (redirectPayload url skb)[i]? := by
  rw [Skb.InChecksum] at h
  rw [Skb.answer, checkIp, checkTcp]
  dsimp only
  rw [getElem?_patch_of_lt (by rw [length_be16]; omega), getElem?_patch_of_lt (by rw [length_be16]; omega),
    getElem?_patch_of_lt (by rw [length_be16]; omega), getElem?_patch_of_lt (by rw [length_be16]; omega)]

theorem mem_setMem (mem : List Byte) : ((skb.setMem mem).setCsum).mem = mem := by
  rw [Skb.setCsum]
  split <;> exact List.take_append_drop _ _

/-- A rewritten packet differs from the old one between the payload and the end of the fill, and in the checksums. -/
theorem answer_frame (h : (skb.answer url)[i]? ≠ skb.mem[i]?) :
    (skb.tcpPayload ≤ i ∧ i < fillEnd url skb) ∨ skb.InChecksum i := by
  by_contra hout
  obtain ⟨hfill, hcheck⟩ := not_or.mp hout
  exact h ((getElem?_answer hcheck).trans (getElem?_redirectPayload (by omega)))

end Writes

/-! ### What the searches find -/

/-- `HTTP` is at the first or the second byte of the payload, and `404` at one of the bytes 8 to 15, in the packet or
    in the memory behind it. -/
def Skb.LooksLike404 (skb : Skb) : Prop :=
  (∃ i ≤ 1, textHttp <+: skb.mem.drop (skb.tcpPayload + i)) ∧
    ∃ i, 8 ≤ i ∧ i ≤ 15 ∧ text404 <+: skb.mem.drop (skb.tcpPayload + i)

theorem strnstr_iff {s needle : List Byte} {len : Nat} :
    strnstr s needle len = true ↔ ∃ i, i + needle.length ≤ len ∧ needle <+: s.drop i := by
  simp only [strnstr, List.any_eq_true, List.mem_range, beq_iff_eq, List.prefix_iff_eq_take, eq_comm (a := needle),
    Nat.lt_sub_iff_add_lt, Nat.lt_succ_iff]

theorem rewrites_iff {cfg : Config} {skb : Skb} (hproto : protocol skb.mem = ipprotoTcp) (hen : cfg.http404redirectEnable ≠ 0) :
    rewrites cfg skb = true ↔ skb.LooksLike404 := by
  have h404 : strnstr (skb.mem.drop (skb.tcpPayload + 8)) text404 10 = true ↔
      ∃ i, 8 ≤ i ∧ i ≤ 15 ∧ text404 <+: skb.mem.drop (skb.tcpPayload + i) := by
    rw [strnstr_iff]
    constructor
    · rintro ⟨i, hi, hp⟩
      rw [List.drop_drop, Nat.add_assoc] at hp
      exact ⟨8 + i, Nat.le_add_right _ _, by simp only [text404, List.length_cons, List.length_nil] at hi; omega, hp⟩
    · rintro ⟨i, hlo, hhi, hp⟩
      refine ⟨i - 8, by simp only [text404, List.length_cons, List.length_nil]; omega, ?_⟩
      rwa [List.drop_drop, Nat.add_assoc, Nat.add_sub_cancel' hlo]
  have hhttp : strnstr (skb.mem.drop skb.tcpPayload) textHttp 5 = true ↔
      ∃ i ≤ 1, textHttp <+: skb.mem.drop (skb.tcpPayload + i) := by
    rw [strnstr_iff]
    simp only [List.drop_drop, textHttp, List.length_cons, List.length_nil, Nat.add_le_add_iff_right (n := 4)]
  have hsplit : rewrites cfg skb = true ↔ strnstr (skb.mem.drop (skb.tcpPayload + 8)) text404 10 = true ∧
      strnstr (skb.mem.drop skb.tcpPayload) textHttp 5 = true := by
    simp only [rewrites, hproto, Bool.and_eq_true, bne_iff_ne, ne_eq, hen, not_false_eq_true, beq_self_eq_true, true_and]
    rfl
  rw [hsplit, h404, hhttp, and_comm, Skb.LooksLike404]

/-- A packet that is rewritten is a TCP packet. -/
theorem protocol_of_rewrites {cfg : Config} {skb : Skb} (h : rewrites cfg skb = true) :
    protocol skb.mem = ipprotoTcp ∧ cfg.http404redirectEnable ≠ 0 := by
  simp only [rewrites, Bool.and_eq_true, beq_iff_eq, bne_iff_ne] at h
  exact h.1

/-! ### The memory behind the tail -/

/-- The packet with other memory behind its tail. -/
def Skb.behind (skb : Skb) (beyond : List Byte) : Skb := { skb with beyond }

/-- Whatever is behind the tail, the callback changes no byte but those of the payload, up to the tail, and of the
    checksums. -/
def Confined (cfg : Config) (skb : Skb) : Prop :=
  ∀ beyond skb', (http404NfCb cfg (some (skb.behind beyond))).2 = some skb' →
    ∀ i, skb'.mem[i]? ≠ (skb.behind beyond).mem[i]? →
      ((skb.behind beyond).tcpPayload ≤ i ∧ i < skb.data.length) ∨ skb.InChecksum i

/-- The memory behind the tail, with zeros behind it up to the end of the fill and a one as the last byte there. -/
def Skb.marked (skb : Skb) (url : Url) : List Byte :=
  patch (skb.beyond ++ List.replicate (fillEnd url skb) 0) (fillEnd url skb - 1 - skb.data.length) [1]

section Marked
variable {cfg : Config} {skb : Skb} {url : Url} {i : Nat}

theorem mem_marked (url : Url) (skb : Skb) : (skb.behind (skb.marked url)).mem =
    patch (skb.mem ++ List.replicate (fillEnd url skb) 0) (fillEnd url skb - 1) [1] := by
  have hlt := lt_fillEnd url skb
  have hle : skb.data.length ≤ fillEnd url skb - 1 := by omega
  have htake : (patch (skb.mem ++ List.replicate (fillEnd url skb) 0) (fillEnd url skb - 1) [1]).take skb.data.length =
      skb.data := by
    rw [take_patch_of_le hle, Skb.mem, List.append_assoc, List.take_left]
  have hdrop : (patch (skb.mem ++ List.replicate (fillEnd url skb) 0) (fillEnd url skb - 1) [1]).drop skb.data.length =
      skb.marked url := by
    rw [drop_patch hle, Skb.mem, List.append_assoc, List.drop_left, Skb.marked]
  show skb.data ++ skb.marked url = _
  rw [← hdrop]
  nth_rewrite 1 [← htake]
  exact List.take_append_drop _ _

theorem getElem?_marked (hi : i < fillEnd url skb - 1) (hmem : i < skb.mem.length) :
    (skb.behind (skb.marked url)).mem[i]? = skb.mem[i]? := by
  rw [mem_marked, getElem?_patch_of_lt (Or.inl hi), List.getElem?_append_left hmem]

theorem byteAt_marked (hi : i < fillEnd url skb - 1) : byteAt (skb.behind (skb.marked url)).mem i = byteAt skb.mem i := by
  rw [byteAt, byteAt, List.getD_eq_getElem?_getD, List.getD_eq_getElem?_getD]
  by_cases hmem : i < skb.mem.length
  · rw [getElem?_marked hi hmem]
  · rw [mem_marked, getElem?_patch_of_lt (Or.inl hi), List.getElem?_append_right (by omega), List.getElem?_replicate,
      if_pos (by omega), List.getElem?_eq_none (by omega)]
    rfl

/-- A text in front of the mark is still there. -/
theorem prefix_marked {needle : List Byte} (hp : needle <+: skb.mem.drop i) (hi : i + needle.length < fillEnd url skb) :
    needle <+: (skb.behind (skb.marked url)).mem.drop i := by
  rw [List.prefix_iff_getElem?] at hp ⊢
  intro k hk
  have hold := hp k hk
  rw [List.getElem?_drop] at hold ⊢
  rw [getElem?_marked (by omega) (List.getElem?_eq_some_iff.mp hold).1]
  exact hold

theorem tcph_lt_fillEnd (url : Url) (skb : Skb) : skb.tcph + 107 < fillEnd url skb := by
  rw [fillEnd, textEnd, Skb.tcpPayload, http302Header]
  simp only [List.length_append, show found.length = 30 from rfl, show noContent.length = 23 from rfl]
  omega

theorem tcpPayload_marked (url : Url) (skb : Skb) : (skb.behind (skb.marked url)).tcpPayload = skb.tcpPayload := by
  have hlt := tcph_lt_fillEnd url skb
  rw [Skb.tcpPayload, Skb.tcpPayload, tcpHdrlen, tcpHdrlen, show (skb.behind (skb.marked url)).tcph = skb.tcph from rfl,
    byteAt_marked (by omega)]

/-- The searches do not come as far as the mark. -/
theorem rewrites_marked (hr : rewrites cfg skb = true) : rewrites cfg (skb.behind (skb.marked url)) = true := by
  obtain ⟨hproto, hen⟩ := protocol_of_rewrites hr
  have hlt := tcph_lt_fillEnd url skb
  have hroom : skb.tcpPayload + 106 < fillEnd url skb := by
    rw [fillEnd, textEnd, http302Header]
    simp only [List.length_append, show found.length = 30 from rfl, show noContent.length = 23 from rfl]
    omega
  obtain ⟨⟨i, hi, hhttp⟩, j, hlo, hhi, h404⟩ := (rewrites_iff hproto hen).mp hr
  refine (rewrites_iff (by rw [protocol, byteAt_marked (by omega)]; exact hproto) hen).mpr
    ⟨⟨i, hi, ?_⟩, j, hlo, hhi, ?_⟩ <;> rw [tcpPayload_marked]
  · exact prefix_marked hhttp (by simp only [textHttp, List.length_cons, List.length_nil]; omega)
  · exact prefix_marked h404 (by simp only [text404, List.length_cons, List.length_nil]; omega)

theorem fillEnd_marked (url : Url) (skb : Skb) : fillEnd url (skb.behind (skb.marked url)) = fillEnd url skb := by
  rw [fillEnd, fillEnd, textEnd, textEnd, tcpPayload_marked]
  rfl

theorem not_inChecksum_last (url : Url) (skb : Skb) : ¬skb.InChecksum (fillEnd url skb - 1) := by
  have hlt := tcph_lt_fillEnd url skb
  rw [Skb.InChecksum, tcpCheck, ipCheck]
  omega

/-- The fill clears the mark. -/
theorem last_changed (url : Url) (skb : Skb) :
    (((skb.behind (skb.marked url)).setMem ((skb.behind (skb.marked url)).answer url)).setCsum).mem[fillEnd url skb - 1]? ≠
      (skb.behind (skb.marked url)).mem[fillEnd url skb - 1]? := by
  have hlt := tcph_lt_fillEnd url skb
  have hlen : fillEnd url skb - 1 < (skb.mem ++ List.replicate (fillEnd url skb) (0 : Byte)).length := by
    rw [List.length_append, List.length_replicate]
    omega
  have hmark : (skb.behind (skb.marked url)).mem[fillEnd url skb - 1]? = some 1 := by
    rw [mem_marked, getElem?_patch_of_mem (Nat.le_refl _) (Nat.lt_succ_self _) hlen, Nat.sub_self]
    rfl
  have htext : textEnd url (skb.behind (skb.marked url)) ≤ fillEnd url skb - 1 := by
    rw [← fillEnd_marked url skb, fillEnd]
    omega
  have hout : ¬(skb.behind (skb.marked url)).InChecksum (fillEnd url skb - 1) := not_inChecksum_last url skb
  rw [mem_setMem, getElem?_answer hout,
    getElem?_fill htext (by rw [fillEnd_marked]; omega) (List.getElem?_eq_some_iff.mp hmark).1, hmark]
  decide

end Marked

/-- A rewritten packet with room behind its tail for the whole fill: the last byte of the fill is set to zero. -/
theorem fill_overruns {cfg : Config} {skb : Skb} (hr : rewrites cfg skb = true)
    (hroom : fillEnd cfg.http404redirectUrl skb ≤ skb.mem.length) (hhead : skb.tcph + tcpCheck + 2 ≤ skb.data.length)
    (hip : ipCheck + 2 ≤ skb.data.length) : ∃ skb', http404NfCb cfg (some skb) = (.accept, some skb') ∧
      ∀ i, skb.data.length ≤ i → textEnd cfg.http404redirectUrl skb ≤ i → i < fillEnd cfg.http404redirectUrl skb →
        skb'.mem[i]? = some 0 := by
  refine ⟨_, http404NfCb_of_rewrites hr, fun i htail htext hfill => ?_⟩
  have hout : ¬skb.InChecksum i := by
    rw [Skb.InChecksum]
    omega
  rw [mem_setMem, getElem?_answer hout]
  exact getElem?_fill htext hfill (by omega)

/-- The callback keeps to the packet, whatever is behind its tail, if and only if it does not rewrite it. -/
theorem confined_iff (cfg : Config) (skb : Skb) :
    Confined cfg skb ↔ ∀ beyond, rewrites cfg (skb.behind beyond) = false := by
  constructor
  · intro h beyond
    by_contra hr
    have hr : rewrites cfg (skb.behind beyond) = true := Bool.eq_true_of_not_eq_false hr
    have hmarked : rewrites cfg ((skb.behind beyond).behind ((skb.behind beyond).marked cfg.http404redirectUrl)) = true :=
      rewrites_marked hr
    rcases h _ _ (congrArg Prod.snd (http404NfCb_of_rewrites hmarked)) _ (last_changed _ _) with ⟨-, hi⟩ | hi
    · have hlt := lt_fillEnd cfg.http404redirectUrl (skb.behind beyond)
      rw [show (skb.behind beyond).data = skb.data from rfl] at hlt
      omega
    · exact not_inChecksum_last _ (skb.behind beyond) hi
  · intro h beyond skb' hskb i hne
    rw [http404NfCb, if_neg (by rw [h beyond]; exact Bool.false_ne_true)] at hskb
    obtain rfl := Option.some.inj hskb
    exact absurd rfl hne

def notFoundOnes : Skb := { notFound .checksumNone with beyond := List.replicate 200 0xff }

/-- The fill sets the 124 bytes behind the tail. -/
theorem not_confined : ¬ Confined redirectToA notFoundOnes ∧ notFoundOnes.mem[176]? = some 0xff ∧
    ∃ skb', http404NfCb redirectToA (some notFoundOnes) = (.accept, some skb') ∧ skb'.mem[176]? = some 0 := by
  have hr : rewrites redirectToA notFoundOnes = true := by decide
  have hones : notFoundOnes.mem[176]? = some 0xff := by decide +kernel
  obtain ⟨skb', hcb, hzero⟩ := fill_overruns hr (by decide +kernel) (by decide) (by decide)
  have hlast := hzero 176 (by decide) (by decide) (by decide)
  refine ⟨fun h => ?_, hones, skb', hcb, hlast⟩
  have hchanged : skb'.mem[176]? ≠ notFoundOnes.mem[176]? := by
    rw [hlast, hones]
    decide
  rcases h notFoundOnes.beyond skb' (congrArg Prod.snd hcb) 176 hchanged with ⟨-, hi⟩ | hi
  · exact absurd hi (by decide)
  · rcases hi with ⟨-, hi⟩ | ⟨-, hi⟩ <;> exact absurd hi (by decide)

end QuickStart.Httpredirect
