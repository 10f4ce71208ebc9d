import QuickStart.Des3.Message

/-! # The message round trip

What each function of `des3_encrypt.c` leaves in its arrays, as the part they start with, and that a receiver
with the hexadecimal text gets the username back. -/

namespace QuickStart.Des3
open Buffer

theorem readBlock_of_starts {buf p r : List Byte} {n off : Nat} {block : Bytes 8}
    (h : Starts buf n (p ++ (block.val ++ r))) (hp : p.length = off) : readBlock buf off = some block := by
  have hread := h.read hp block.property
  rw [Buffer.read] at hread
  split at hread <;> rename_i hfit
  · rw [readBlock, dif_pos hfit]
    exact congrArg some (Subtype.ext (Option.some.inj hread))
  · cases hread

theorem intStrlen_append {u rest : List Byte} (h0 : 0 ∉ u) (hint : u.length < 2 ^ 31) :
    intStrlen (u ++ 0 :: rest) = some u.length := by
  have hlow : u.length % 2 ^ 32 = u.length := Nat.mod_eq_of_lt (by omega)
  rw [intStrlen, strlen_append h0, Option.bind_some, hlow, if_pos hint]

/-! ### Padding -/

/-- The username with its PKCS#7 padding. -/
def padded (u : List Byte) : List Byte :=
  u ++ List.replicate (8 - u.length % 8) (BitVec.ofNat 8 (8 - u.length % 8))

theorem length_padded (u : List Byte) : (padded u).length = u.length + (8 - u.length % 8) := by
  rw [padded, List.length_append, List.length_replicate]

theorem length_padded_div (u : List Byte) : (padded u).length = (padded u).length / 8 * 8 := by
  rw [length_padded]
  omega

theorem padLoop_spec (v : Byte) : ∀ (k len : Nat) {str q : List Byte} {m : Nat}, Starts str m q → q.length = len →
    len + k ≤ m → ∃ b, padLoop v k len str = some b ∧ Starts b m (q ++ List.replicate k v)
  | 0, len, str, q, m, h, _, _ => ⟨str, rfl, by rw [List.replicate_zero, List.append_nil]; exact h⟩
  | k + 1, len, str, q, m, h, hq, hm => by
    have hfit : len + [v].length ≤ m := by
      rw [List.length_singleton]
      omega
    obtain ⟨b, hb, hstarts⟩ := h.append hq hfit
    have hlen : (q ++ [v]).length = len + 1 := by rw [List.length_append, List.length_singleton, hq]
    obtain ⟨c, hc, hstarts'⟩ := padLoop_spec v k (len + 1) hstarts hlen (by omega)
    refine ⟨c, by rw [padLoop, hb]; exact hc, ?_⟩
    rw [List.replicate_succ, ← List.singleton_append, ← List.append_assoc]
    exact hstarts'

theorem setPkcs7Padding_spec (rest : List Byte) {u str : List Byte} (hu : u ≠ []) (h0 : 0 ∉ u) (hm : u.length + 8 ≤ 500)
    (hstr : str.length = 500) : ∃ b, setPkcs7Padding (u ++ 0 :: rest) str = some (b, (padded u).length / 8) ∧
      Starts b 500 (padded u) := by
  have hlen : intStrlen (u ++ 0 :: rest) = some u.length := intStrlen_append h0 (by omega)
  have hpos : u.length ≠ 0 := fun h => hu (List.length_eq_zero_iff.mp h)
  have hmem : Starts (u ++ 0 :: rest) (u ++ 0 :: rest).length (u ++ []) :=
    ⟨rfl, 0 :: rest, by rw [List.append_nil]⟩
  obtain ⟨b, hb, hstarts⟩ := Starts.memcpy_front hstr hmem rfl (by omega)
  obtain ⟨c, hc, hstarts'⟩ := padLoop_spec (BitVec.ofNat 8 (8 - u.length % 8)) (8 - u.length % 8) u.length hstarts rfl
    (by omega)
  refine ⟨c, ?_, hstarts'⟩
  simp only [setPkcs7Padding, hlen, ne_eq, hpos, not_false_eq_true, if_true, hb, hc, Option.bind_eq_bind, Option.bind_some,
    length_padded]
  rfl

theorem unpad_padded {u : List Byte} : unpad (padded u) = some u := by
  have hp : 8 - u.length % 8 = (8 - u.length % 8 - 1) + 1 := by omega
  have hval : (BitVec.ofNat 8 (8 - u.length % 8)).toNat = 8 - u.length % 8 := by
    rw [BitVec.toNat_ofNat]
    omega
  have hlast : (padded u).getLast? = some (BitVec.ofNat 8 (8 - u.length % 8)) := by
    rw [padded, List.getLast?_append, hp, List.getLast?_replicate]
    simp
  have hsub : (padded u).length - (8 - u.length % 8) = u.length := by
    rw [length_padded]
    omega
  have hcheck : 1 ≤ 8 - u.length % 8 ∧ 8 - u.length % 8 ≤ 8 ∧ 8 - u.length % 8 ≤ (padded u).length ∧
      (padded u).drop u.length = List.replicate (8 - u.length % 8) (BitVec.ofNat 8 (8 - u.length % 8)) := by
    refine ⟨by omega, by omega, by rw [length_padded]; omega, ?_⟩
    rw [padded, List.drop_left' rfl]
  simp only [unpad, hlast, Option.bind_eq_bind, Option.bind_some, hval, hsub, if_pos hcheck]
  rw [padded, List.take_left' rfl]
  rfl

/-! ### Blocks -/

theorem blocks_append (b : Bytes 8) (rest : List Byte) : blocks (b.val ++ rest) = b :: blocks rest := by
  obtain ⟨l, hl⟩ := b
  match l, hl with
  | [_, _, _, _, _, _, _, _], _ => rfl

theorem blocks_flatMap : ∀ bs : List (Bytes 8), blocks (bs.flatMap (·.val)) = bs
  | [] => rfl
  | b :: bs => by rw [List.flatMap_cons, blocks_append, blocks_flatMap bs]

/-- A string of whole blocks is that of its blocks. -/
theorem flatMap_blocks : ∀ (k : Nat) (l : List Byte), l.length = k * 8 →
    (blocks l).length = k ∧ (blocks l).flatMap (·.val) = l
  | 0, l, h => by
    obtain rfl := List.length_eq_zero_iff.mp (by simpa using h)
    exact ⟨rfl, rfl⟩
  | k + 1, l, h => by
    have hhead : (l.take 8).length = 8 := by
      rw [List.length_take]
      omega
    have hsplit : l = (⟨l.take 8, hhead⟩ : Bytes 8).val ++ l.drop 8 := (List.take_append_drop 8 l).symm
    obtain ⟨hlen, hflat⟩ := flatMap_blocks k (l.drop 8) (by rw [List.length_drop]; omega)
    rw [hsplit, blocks_append, List.length_cons, hlen, List.flatMap_cons, hflat]
    exact ⟨rfl, rfl⟩

theorem length_flatMap_val (bs : List (Bytes 8)) : (bs.flatMap (·.val)).length = bs.length * 8 := by
  induction bs with
  | nil => rfl
  | cons b bs ih =>
    rw [List.flatMap_cons, List.length_append, ih, b.property, List.length_cons]
    omega

/-! ### Encryption -/

/-- The blocks of a string under a block function. -/
def mapBlocks (f : Bytes 8 → Bytes 8) (bs : List (Bytes 8)) : List Byte := (bs.map f).flatMap (·.val)

theorem length_mapBlocks (f : Bytes 8 → Bytes 8) (bs : List (Bytes 8)) : (mapBlocks f bs).length = bs.length * 8 := by
  rw [mapBlocks, length_flatMap_val, List.length_map]

theorem encryptLoop_spec (f : Bytes 8 → Bytes 8) {src p : List Byte} {n m : Nat} :
    ∀ (bs : List (Bytes 8)) (i : Nat) {pre str : List Byte}, Starts src n (pre ++ bs.flatMap (·.val)) →
      pre.length = i * 8 → Starts str m p → p.length = i * 8 → (i + bs.length) * 8 ≤ m →
      ∃ b, encryptLoop f src bs.length i str = some b ∧ Starts b m (p ++ mapBlocks f bs) := by
  intro bs
  induction bs generalizing p with
  | nil =>
    intro i pre str _ _ hstr _ _
    exact ⟨str, rfl, by rw [mapBlocks, List.map_nil, List.flatMap_nil, List.append_nil]; exact hstr⟩
  | cons block bs ih =>
    intro i pre str hsrc hpre hstr hp hm
    rw [List.length_cons] at hm
    rw [List.flatMap_cons] at hsrc
    have hread : readBlock src (i * 8) = some block := readBlock_of_starts hsrc hpre
    have hfit : i * 8 + (f block).val.length ≤ m := by
      rw [(f block).property]
      omega
    obtain ⟨b, hb, hstarts⟩ := hstr.append hp hfit
    have hsrc' : Starts src n ((pre ++ block.val) ++ bs.flatMap (·.val)) := by
      rw [List.append_assoc]
      exact hsrc
    have hpre' : (pre ++ block.val).length = (i + 1) * 8 := by
      rw [List.length_append, hpre, block.property]
      omega
    have hp' : (p ++ (f block).val).length = (i + 1) * 8 := by
      rw [List.length_append, hp, (f block).property]
      omega
    obtain ⟨c, hc, hstarts'⟩ := ih (i + 1) hsrc' hpre' hstarts hp' (by omega)
    refine ⟨c, ?_, ?_⟩
    · rw [List.length_cons, encryptLoop]
      simp only [hread, hb, Option.bind_eq_bind, Option.bind_some]
      exact hc
    · rw [mapBlocks, List.map_cons, List.flatMap_cons, ← List.append_assoc]
      exact hstarts'

section Functions
variable (stack : Stack) (rand now : Bytes 8)

def zeroKey : Bytes 8 := ⟨List.replicate 8 0#8, List.length_replicate⟩

theorem starts_val {n : Nat} (a : Bytes n) : Starts a.val n (a.val ++ []) := by
  rw [List.append_nil]
  exact ⟨a.property, List.prefix_refl _⟩

theorem createEncryptKey_spec {str : List Byte} (hstr : str.length = 500) :
    ∃ key, createEncryptKey rand.val now.val str = some key ∧
      Starts key 500 (rand.val ++ (now.val ++ (zeroKey.val ++ []))) := by
  obtain ⟨a, ha, sa⟩ := Starts.memset hstr (0 : Byte) (Nat.le_refl 500)
  have hzero : List.replicate 500 (0 : Byte) = zeroKey.val ++ (zeroKey.val ++ (zeroKey.val ++ List.replicate 476 0)) := by
    rw [show (500 : Nat) = 8 + (8 + (8 + 476)) from rfl, List.replicate_add, List.replicate_add, List.replicate_add]
    rfl
  have sa' : Starts a 500 ([] ++ (zeroKey.val ++ (zeroKey.val ++ (zeroKey.val ++ [])))) := by
    refine ⟨sa.length, List.IsPrefix.trans ⟨List.replicate 476 0, ?_⟩ sa.front⟩
    rw [hzero, List.nil_append, List.append_nil, List.append_assoc, List.append_assoc]
  obtain ⟨b, hb, sb⟩ := sa'.memcpy_over (starts_val rand) List.length_nil rand.property rand.property
  rw [List.nil_append] at sb
  obtain ⟨c, hc, sc⟩ := sb.memcpy_over (starts_val now) rand.property now.property now.property
  refine ⟨c, ?_, sc⟩
  simp only [createEncryptKey, ha, hb, hc, Option.bind_eq_bind, Option.bind_some]

theorem createOnuKey_spec (md5 : Hash) (rest : List Byte) {password str : List Byte} (h0 : 0 ∉ password)
    (hlen : password.length ≤ 240) (hstr : str.length = 16) :
    ∃ key, createOnuKey md5 stack rand.val now.val (password ++ 0 :: rest) str = some key ∧
      Starts key 16 (md5 (rand.val ++ (password ++ now.val))).val := by
  have hpwd : intStrlen (password ++ 0 :: rest) = some password.length := intStrlen_append h0 (by omega)
  have spwd : Starts (password ++ 0 :: rest) (password ++ 0 :: rest).length (password ++ []) :=
    ⟨rfl, 0 :: rest, by rw [List.append_nil]⟩
  obtain ⟨a, ha, sa⟩ := Starts.memset stack.data.property (0 : Byte) (Nat.le_refl 256)
  obtain ⟨b, hb, sb⟩ := Starts.memcpy_front sa.length (starts_val rand) rand.property (by decide)
  obtain ⟨c, hc, sc⟩ := sb.memcpy spwd rand.property rfl (by omega)
  have hoff : (rand.val ++ password).length = 8 + password.length := by rw [List.length_append, rand.property]
  obtain ⟨d, hd, sd⟩ := sc.memcpy (starts_val now) hoff now.property (by omega)
  have sd' : Starts d 256 ([] ++ (rand.val ++ (password ++ now.val) ++ [])) := by
    rw [List.append_nil, List.nil_append, ← List.append_assoc]
    exact sd
  have hinput : (rand.val ++ (password ++ now.val)).length = 16 + password.length := by
    rw [List.length_append, List.length_append, rand.property, now.property]
    omega
  have hread : Buffer.read d 0 (16 + password.length) = some (rand.val ++ (password ++ now.val)) :=
    sd'.read rfl hinput
  have hfit : 0 + (md5 (rand.val ++ (password ++ now.val))).val.length ≤ 16 := by
    rw [(md5 _).property]
  obtain ⟨e, he, se⟩ := (Starts.nil hstr).append rfl hfit
  exact ⟨e, Option.bind_eq_some_iff.mpr ⟨_, hpwd, Option.bind_eq_some_iff.mpr ⟨a, ha, Option.bind_eq_some_iff.mpr ⟨b, hb,
    Option.bind_eq_some_iff.mpr ⟨c, hc, Option.bind_eq_some_iff.mpr ⟨d, hd, Option.bind_eq_some_iff.mpr
      ⟨_, hread, he⟩⟩⟩⟩⟩⟩, se⟩

/-- The ciphertext of a username. -/
def cipherText (desEcb3Encrypt : Ecb3) (rand now : Bytes 8) (u : List Byte) : List Byte :=
  mapBlocks (desEcb3Encrypt rand now zeroKey) (blocks (padded u))

theorem length_blocks_padded (u : List Byte) : (blocks (padded u)).length = (padded u).length / 8 :=
  (flatMap_blocks _ _ (length_padded_div u)).1

theorem length_cipherText (desEcb3Encrypt : Ecb3) (u : List Byte) :
    (cipherText desEcb3Encrypt rand now u).length = (padded u).length / 8 * 8 := by
  rw [cipherText, length_mapBlocks, length_blocks_padded]

theorem createEncryptData_spec (desEcb3Encrypt : Ecb3) (rest : List Byte) {u str : List Byte} (hu : u ≠ []) (h0 : 0 ∉ u)
    (hlen : u.length ≤ 215) (hstr : str.length = 500) :
    ∃ b, createEncryptData desEcb3Encrypt stack rand.val now.val (u ++ 0 :: rest) str =
        some (b, (padded u).length / 8 * 8) ∧ Starts b 500 (cipherText desEcb3Encrypt rand now u) := by
  obtain ⟨a, ha, sa⟩ := Starts.memset hstr (0 : Byte) (Nat.le_refl 500)
  obtain ⟨key, hkey, skey⟩ := createEncryptKey_spec rand now stack.encryptKey.property
  have h0' : readBlock key 0 = some rand := readBlock_of_starts (p := []) skey rfl
  have h1 : readBlock key 8 = some now := readBlock_of_starts skey rand.property
  have skey' : Starts key 500 ((rand.val ++ now.val) ++ (zeroKey.val ++ [])) := by
    rw [List.append_assoc]
    exact skey
  have h2 : readBlock key 16 = some zeroKey :=
    readBlock_of_starts skey' (by rw [List.length_append, rand.property, now.property])
  obtain ⟨pk, hpk, spk⟩ := setPkcs7Padding_spec rest hu h0 (by omega) stack.pkcs7Str.property
  have hpadded := length_padded u
  obtain ⟨hcount, hflat⟩ := flatMap_blocks _ _ (length_padded_div u)
  have ssrc : Starts pk 500 ([] ++ (blocks (padded u)).flatMap (·.val)) := by
    rw [List.nil_append, hflat]
    exact spk
  obtain ⟨b, hb, sb⟩ := encryptLoop_spec (desEcb3Encrypt rand now zeroKey) (blocks (padded u)) 0 ssrc rfl
    (Starts.nil sa.length) rfl (by rw [hcount]; omega)
  rw [hcount] at hb
  refine ⟨b, ?_, sb⟩
  simp only [createEncryptData, ha, hkey, h0', h1, h2, hpk, hb, Option.bind_eq_bind, Option.bind_some]
  rfl

/-- The message: type, random bytes, time, hash and ciphertext. -/
def message (desEcb3Encrypt : Ecb3) (md5 : Hash) (rand now : Bytes 8) (u password : List Byte) : List Byte :=
  [1] ++ rand.val ++ now.val ++ (md5 (rand.val ++ (password ++ now.val))).val ++ cipherText desEcb3Encrypt rand now u

/-- The hash and what stands before it. -/
theorem length_head (a : Bytes 16) : ([1] ++ rand.val ++ now.val ++ a.val).length = 33 := by
  simp only [List.length_append, List.length_singleton, rand.property, now.property, a.property]

theorem length_message (desEcb3Encrypt : Ecb3) (md5 : Hash) (u password : List Byte) :
    (message desEcb3Encrypt md5 rand now u password).length = (padded u).length / 8 * 8 + 33 := by
  rw [message, List.length_append, length_head, length_cipherText, Nat.add_comm]

theorem strnrand_spec {str : List Byte} (h : str.length = 8) : strnrand str rand = some rand.val := by
  obtain ⟨b, hb, sb⟩ := (Starts.nil h).append List.length_nil (by rw [rand.property] : 0 + rand.val.length ≤ 8)
  rw [strnrand, hb, sb.eq_of_length (by rw [List.nil_append, rand.property]), List.nil_append]

theorem byteTime_spec {str : List Byte} (h : str.length = 8) : byteTime str now = some now.val := by
  obtain ⟨a, ha, sa⟩ := Starts.memset h (0 : Byte) (Nat.le_refl 8)
  obtain ⟨b, hb, sb⟩ := (Starts.nil sa.length).append List.length_nil (by rw [now.property] : 0 + now.val.length ≤ 8)
  simp only [byteTime, ha, Option.bind_eq_bind, Option.bind_some]
  rw [hb, sb.eq_of_length (by rw [List.nil_append, now.property]), List.nil_append]

theorem createEncryptMessage_spec (desEcb3Encrypt : Ecb3) (md5 : Hash) (urest prest : List Byte)
    {u password str : List Byte} (hu : u ≠ []) (hu0 : 0 ∉ u) (hul : u.length ≤ 215) (hp0 : 0 ∉ password) (hpl : password.length ≤ 240)
    (hstr : str.length = 500) :
    ∃ b, createEncryptMessage desEcb3Encrypt md5 stack rand now (u ++ 0 :: urest) (password ++ 0 :: prest) str =
        some (b, (padded u).length / 8 * 8 + 33) ∧ Starts b 500 (message desEcb3Encrypt md5 rand now u password) := by
  have hpadded := length_padded u
  have hcipher := length_cipherText rand now desEcb3Encrypt u
  obtain ⟨a, ha, sa⟩ := Starts.memset hstr (0 : Byte) (Nat.le_refl 500)
  obtain ⟨b, hb, sb⟩ := (Starts.nil sa.length).append List.length_nil (by decide : 0 + [(1 : Byte)].length ≤ 500)
  rw [List.nil_append] at sb
  obtain ⟨c, hc, sc⟩ := sb.memcpy (starts_val rand) List.length_singleton rand.property (by decide)
  have htime : ([1] ++ rand.val).length = 9 := by rw [List.length_append, rand.property]; rfl
  obtain ⟨d, hd, sd⟩ := sc.memcpy (starts_val now) htime now.property (by decide)
  obtain ⟨key, hkey, skey⟩ := createOnuKey_spec stack rand now md5 prest hp0 hpl stack.onuKey.property
  have hhash : ([1] ++ rand.val ++ now.val).length = 17 := by rw [List.length_append, htime, now.property]
  obtain ⟨e, he, se⟩ := sd.memcpy (by rw [List.append_nil]; exact skey) hhash (md5 _).property (by decide)
  obtain ⟨data, hdata, sdata⟩ := createEncryptData_spec stack rand now desEcb3Encrypt urest hu hu0 hul
    stack.encryData.property
  obtain ⟨f, hf, sf⟩ := se.memcpy (by rw [List.append_nil]; exact sdata) (length_head rand now _) hcipher (by omega)
  refine ⟨f, ?_, sf⟩
  simp only [createEncryptMessage, ha, hb, strnrand_spec rand stack.random.property,
    byteTime_spec now stack.timenow.property, hc,
    hd, hkey, he, hdata, hf, Option.bind_eq_bind, Option.bind_some]
  rfl

theorem sendMessage_spec (desEcb3Encrypt : Ecb3) (md5 : Hash) (urest prest : List Byte) (serialnum : List Byte)
    {u password str : List Byte} {mode : Int} (hu : u ≠ []) (hu0 : 0 ∉ u) (hul : u.length ≤ 215) (hp0 : 0 ∉ password)
    (hpl : password.length ≤ 240) (hmode : mode = 2 ∨ mode = 3) {n : Nat} (hstr : str.length = n) (hn : 256 ≤ n) :
    ∃ b, sendMessage desEcb3Encrypt md5 stack rand now (u ++ 0 :: urest) (password ++ 0 :: prest) serialnum mode str =
        some (b, (message desEcb3Encrypt md5 rand now u password).length) ∧
      Starts b n (message desEcb3Encrypt md5 rand now u password) := by
  have hlen := length_message rand now desEcb3Encrypt md5 u password
  have hpadded := length_padded u
  have hlu : strlen (u ++ 0 :: urest) = some u.length := strlen_append hu0
  have hpos : u.length ≠ 0 := fun h => hu (List.length_eq_zero_iff.mp h)
  obtain ⟨a, ha, sa⟩ := Starts.memset hstr (0 : Byte) hn
  obtain ⟨sn, hsn, -⟩ := Starts.memset stack.sn.property (0 : Byte) (Nat.le_refl 24)
  obtain ⟨b, hb, sb⟩ := createEncryptMessage_spec stack rand now desEcb3Encrypt md5 urest prest hu hu0 hul hp0 hpl
    stack.sendData.property
  rw [← hlen] at hb
  obtain ⟨c, hc, sc⟩ := Starts.memcpy_front sa.length (by rw [List.append_nil]; exact sb) rfl (by omega)
  refine ⟨c, ?_, sc⟩
  rcases hmode with rfl | rfl
  · simp only [sendMessage, ha, hsn, hlu, hpos, hb, hc, ne_eq, not_false_eq_true, if_true, Option.bind_eq_bind,
      Option.bind_some]
    rfl
  · simp only [sendMessage, ha, hsn, hb, hc, if_true, if_neg (by decide : ¬(3 : Int) = 2), Option.bind_eq_bind,
      Option.bind_some]
    rfl

end Functions

/-! ### Text -/

def hexText (l : List Byte) : List Byte := l.flatMap hexByte

theorem length_hexText (l : List Byte) : (hexText l).length = l.length * 2 := by
  induction l with
  | nil => rfl
  | cons b l ih =>
    rw [hexText, List.flatMap_cons, List.length_append, ← hexText, ih, List.length_cons]
    simp only [hexByte, List.length_cons, List.length_nil]
    omega

theorem hexDigit_spec : ∀ n < 16, hexDigit n ≠ 0 ∧ hexValue (hexDigit n) = some n := by decide

theorem zero_notMem_hexText (l : List Byte) : 0 ∉ hexText l := by
  intro h
  obtain ⟨b, -, hb⟩ := List.mem_flatMap.mp h
  have hhi := (hexDigit_spec (b.toNat / 16) (by have := b.isLt; omega)).1
  have hlo := (hexDigit_spec (b.toNat % 16) (by omega)).1
  rcases List.mem_cons.mp hb with hb | hb
  · exact hhi hb.symm
  · exact hlo (List.mem_singleton.mp hb).symm

theorem unhex_hexText : ∀ l : List Byte, unhex (hexText l) = some l
  | [] => rfl
  | b :: l => by
    have hhi := (hexDigit_spec (b.toNat / 16) (by have := b.isLt; omega)).2
    have hlo := (hexDigit_spec (b.toNat % 16) (by omega)).2
    have hb : BitVec.ofNat 8 (16 * (b.toNat / 16) + b.toNat % 16) = b := by
      rw [Nat.div_add_mod, BitVec.ofNat_toNat]
      exact BitVec.setWidth_eq b
    rw [hexText, List.flatMap_cons, ← hexText]
    simp only [hexByte, List.cons_append, List.nil_append, unhex, hhi, hlo, unhex_hexText l, Option.bind_eq_bind,
      Option.bind_some, hb]
    rfl

theorem hexLoop_spec {src : List Byte} {n m : Nat} : ∀ (l : List Byte) (i : Nat) {pre q strOut : List Byte},
    l ≠ [] → Starts src n (pre ++ l) → pre.length = i → Starts strOut m q → q.length = i * 2 →
      (i + l.length) * 2 + 1 ≤ m →
      ∃ b, hexLoop src l.length i strOut = some b ∧ Starts b m (q ++ (hexText l ++ [0])) := by
  intro l
  induction l with
  | nil => exact fun i _ _ _ h => absurd rfl h
  | cons a l ih =>
    intro i pre q strOut _ hsrc hpre hout hq hm
    rw [List.length_cons] at hm
    have hget : src[i]? = some a := hsrc.getElem? hpre
    have hfit : i * 2 + (hexByte a ++ [0]).length ≤ m := by
      simp only [hexByte, List.length_append, List.length_cons, List.length_nil]
      omega
    obtain ⟨b, hb, sb⟩ := hout.append hq hfit
    cases l with
    | nil =>
      refine ⟨b, ?_, sb⟩
      simp only [List.length_singleton, hexLoop, hget, hb, Option.bind_eq_bind, Option.bind_some]
    | cons c l =>
      rw [← List.append_assoc] at sb
      have hsrc' : Starts src n ((pre ++ [a]) ++ (c :: l)) := by
        rw [List.append_assoc]
        exact hsrc
      have hpre' : (pre ++ [a]).length = i + 1 := by rw [List.length_append, hpre, List.length_singleton]
      have hq' : (q ++ hexByte a).length = (i + 1) * 2 := by
        rw [List.length_append, hq]
        simp only [hexByte, List.length_cons, List.length_nil]
        omega
      obtain ⟨d, hd, sd⟩ := ih (i + 1) (List.cons_ne_nil c l) hsrc' hpre' sb.mono hq' (by omega)
      refine ⟨d, ?_, ?_⟩
      · rw [List.length_cons, hexLoop]
        simp only [hget, hb, Option.bind_eq_bind, Option.bind_some]
        exact hd
      · rw [hexText, List.flatMap_cons, List.append_assoc, ← hexText, ← List.append_assoc]
        exact sd

theorem outPutFileStr_spec (stack : Stack) {msg str : List Byte} {n : Nat} (hmsg : msg ≠ []) (hlen : msg.length ≤ 249)
    (hstr : Starts str n msg) : outPutFileStr stack str msg.length = some (echo ++ hexText msg ++ redirect) := by
  have hhex := length_hexText msg
  have hfront : Starts str n ([] ++ msg) := hstr
  obtain ⟨b, hb, sb⟩ := hexLoop_spec msg 0 hmsg hfront List.length_nil (Starts.nil stack.strOut.property)
    List.length_nil (by omega)
  have hs : cString (b ++ stack.behind.val) = some (hexText msg) :=
    (sb.append_right stack.behind.val).cString (zero_notMem_hexText msg)
  have hfit : 0 + (echo ++ hexText msg ++ redirect ++ [0]).length ≤ 600 := by
    simp only [List.length_append, hhex, echo, redirect, List.length_cons, List.length_nil]
    omega
  obtain ⟨c, hc, sc⟩ := (Starts.nil stack.cmd.property).append List.length_nil hfit
  have h0 : 0 ∉ echo ++ hexText msg ++ redirect := by
    simp only [List.mem_append, not_or]
    exact ⟨⟨by decide, zero_notMem_hexText msg⟩, by decide⟩
  have hcmd : cString c = some (echo ++ hexText msg ++ redirect) := sc.cString h0
  simp only [outPutFileStr, hb, hs, hc, hcmd, Option.bind_eq_bind, Option.bind_some]

/-! ### The round trip -/

/-- Decrypting the blocks one by one gives the padded username back. -/
theorem decrypt_cipherText {desEcb3Encrypt desEcb3Decrypt : Ecb3} (rand now : Bytes 8)
    (hinv : ∀ k₁ k₂ k₃ b, desEcb3Decrypt k₁ k₂ k₃ (desEcb3Encrypt k₁ k₂ k₃ b) = b) (u : List Byte) :
    (blocks (cipherText desEcb3Encrypt rand now u)).flatMap (fun b => (desEcb3Decrypt rand now zeroKey b).val) =
      padded u := by
  have hback : ∀ bs : List (Bytes 8),
      (bs.map (desEcb3Encrypt rand now zeroKey)).flatMap (fun b => (desEcb3Decrypt rand now zeroKey b).val) =
        bs.flatMap (·.val) := fun bs => by
    rw [List.flatMap_map]
    simp only [hinv]
  rw [cipherText, mapBlocks, blocks_flatMap, hback, (flatMap_blocks _ _ (length_padded_div u)).2]

theorem decryptMessage_message {desEcb3Encrypt desEcb3Decrypt : Ecb3} (md5 : Hash) (rand now : Bytes 8)
    (hinv : ∀ k₁ k₂ k₃ b, desEcb3Decrypt k₁ k₂ k₃ (desEcb3Encrypt k₁ k₂ k₃ b) = b) (u password : List Byte) :
    decryptMessage desEcb3Decrypt (message desEcb3Encrypt md5 rand now u password) = some u := by
  have hhead := length_head rand now (md5 (rand.val ++ (password ++ now.val)))
  have hself := Starts.self (message desEcb3Encrypt md5 rand now u password)
  have hrand : readBlock (message desEcb3Encrypt md5 rand now u password) 1 = some rand := by
    refine readBlock_of_starts (p := [1]) (r := now.val ++ ((md5 (rand.val ++ (password ++ now.val))).val ++
      cipherText desEcb3Encrypt rand now u)) ⟨hself.length, ?_⟩ rfl
    simp only [message, List.append_assoc]
    exact List.prefix_refl _
  have hnow : readBlock (message desEcb3Encrypt md5 rand now u password) 9 = some now := by
    refine readBlock_of_starts (p := [1] ++ rand.val) (r := (md5 (rand.val ++ (password ++ now.val))).val ++
      cipherText desEcb3Encrypt rand now u) ⟨hself.length, ?_⟩ ?_
    · simp only [message, List.append_assoc]
      exact List.prefix_refl _
    · rw [List.length_append, rand.property]
      rfl
  have hdrop : (message desEcb3Encrypt md5 rand now u password).drop 33 = cipherText desEcb3Encrypt rand now u := by
    rw [message, List.drop_left' hhead]
  simp only [decryptMessage, hrand, hnow, hdrop, Option.bind_eq_bind, Option.bind_some]
  exact (congrArg unpad (decrypt_cipherText rand now hinv u)).trans unpad_padded

/-- In modes 2 and 3 no access leaves an array; the text decodes to the message, of the length returned: the
    type, the random bytes, the time, their hash with the password, and whole blocks of ciphertext, from which
    the receiver gets the username back. -/
theorem message_round_trip (desEcb3Encrypt desEcb3Decrypt : Ecb3) (md5 : Hash)
    (hinv : ∀ k₁ k₂ k₃ b, desEcb3Decrypt k₁ k₂ k₃ (desEcb3Encrypt k₁ k₂ k₃ b) = b) (stack : Stack) (rand now : Bytes 8)
    (username urest password prest serialnum str : List Byte) (mode : Int) (hu : username ≠ []) (hu0 : 0 ∉ username)
    (hul : username.length ≤ 215) (hp0 : 0 ∉ password) (hpl : password.length ≤ 240) (hstr : 256 ≤ str.length)
    (hmode : mode = 2 ∨ mode = 3) :
    ∃ str' len text msg cipher,
      createSendMessage desEcb3Encrypt md5 stack rand now (username ++ 0 :: urest) (password ++ 0 :: prest) serialnum mode
          str = some (str', len, echo ++ text ++ redirect) ∧
        str'.take len = msg ∧ unhex text = some msg ∧ msg.length = len ∧
        msg = 1 :: rand.val ++ now.val ++ (md5 (rand.val ++ (password ++ now.val))).val ++ cipher ∧
        8 ∣ cipher.length ∧ decryptMessage desEcb3Decrypt msg = some username := by
  have hlen := length_message rand now desEcb3Encrypt md5 username password
  have hpadded := length_padded username
  have hne : message desEcb3Encrypt md5 rand now username password ≠ [] := fun h => by
    rw [h, List.length_nil] at hlen
    omega
  obtain ⟨b, hb, sb⟩ := sendMessage_spec stack rand now desEcb3Encrypt md5 urest prest serialnum hu hu0 hul hp0 hpl hmode
    rfl hstr
  have htext := outPutFileStr_spec stack hne (by omega) sb
  refine ⟨b, _, hexText (message desEcb3Encrypt md5 rand now username password), _,
    cipherText desEcb3Encrypt rand now username, ?_, sb.take, unhex_hexText _, rfl, rfl, ?_,
    decryptMessage_message md5 rand now hinv username password⟩
  · simp only [createSendMessage, hb, htext, Option.bind_eq_bind, Option.bind_some]
    rfl
  · rw [length_cipherText]
    exact Nat.dvd_mul_left 8 _

/-- The block of `dgy@v` with its padding, its ciphertext, and the keys and the hash that belong to them. -/
def plainBlock : Bytes 8 := ⟨[0x64, 0x67, 0x79, 0x40, 0x76, 0x03, 0x03, 0x03], rfl⟩
def cipherBlock : Bytes 8 := ⟨[0x34, 0x30, 0xa8, 0x38, 0xf6, 0xf6, 0xf8, 0xee], rfl⟩
def randA : Bytes 8 := ⟨[0x3b, 0x1f, 0x9a, 0x0c, 0x77, 0xd2, 0x4e, 0x58], rfl⟩
def nowA : Bytes 8 := ⟨[0x10, 0x2b, 0x5f, 0x65, 0x00, 0x00, 0x00, 0x00], rfl⟩
def passwordA : List Byte := [0x31, 0x32, 0x33, 0x31, 0x32, 0x33]
def hashA : Bytes 16 :=
  ⟨[0x65, 0x8c, 0x2c, 0x1d, 0x2e, 0x75, 0xf6, 0xc8, 0x05, 0x6f, 0x79, 0x76, 0x74, 0x44, 0x2a, 0x07], rfl⟩

/-- A block function that agrees with `DES_ecb3_encrypt` on `plainBlock` under these keys. -/
def desA : Ecb3 := fun k₁ k₂ k₃ b =>
  if k₁ = randA ∧ k₂ = nowA ∧ k₃ = zeroKey then
    if b = plainBlock then cipherBlock else if b = cipherBlock then plainBlock else b
  else b

theorem desA_desA (k₁ k₂ k₃ b : Bytes 8) : desA k₁ k₂ k₃ (desA k₁ k₂ k₃ b) = b := by
  unfold desA
  split
  · split
    · rw [if_neg (by decide), if_pos rfl, ‹b = plainBlock›]
    · split
      · rw [if_pos rfl, ‹b = cipherBlock›]
      · rfl
  · rfl

/-- A function that agrees with MD5 on the input of this message. -/
def md5A : Hash := fun input =>
  if input = randA.val ++ (passwordA ++ nowA.val) then hashA else ⟨List.replicate 16 0, List.length_replicate⟩

def cleanStack : Stack where
  strOut := ⟨List.replicate 500 0#8, List.length_replicate⟩
  behind := ⟨List.replicate 78 0#8, List.length_replicate⟩
  cmd := ⟨List.replicate 600 0#8, List.length_replicate⟩
  data := ⟨List.replicate 256 0#8, List.length_replicate⟩
  encryptKey := ⟨List.replicate 500 0#8, List.length_replicate⟩
  pkcs7Str := ⟨List.replicate 500 0#8, List.length_replicate⟩
  random := ⟨List.replicate 8 0#8, List.length_replicate⟩
  timenow := ⟨List.replicate 8 0#8, List.length_replicate⟩
  onuKey := ⟨List.replicate 16 0#8, List.length_replicate⟩
  encryData := ⟨List.replicate 500 0#8, List.length_replicate⟩
  sn := ⟨List.replicate 24 0#8, List.length_replicate⟩
  sendData := ⟨List.replicate 500 0#8, List.length_replicate⟩

theorem message_round_trip_dgy : ∃ str' len text msg,
    createSendMessage desA md5A cleanStack randA nowA [0x64, 0x67, 0x79, 0x40, 0x76, 0] (passwordA ++ [0]) [0] 2
        (List.replicate 500 0) = some (str', len, echo ++ text ++ redirect) ∧
      unhex text = some msg ∧ msg.length = len ∧ decryptMessage desA msg = some [0x64, 0x67, 0x79, 0x40, 0x76] := by
  obtain ⟨str', len, text, msg, _, hsend, -, htext, hlen, -, -, hback⟩ := message_round_trip desA desA md5A desA_desA
    cleanStack randA nowA [0x64, 0x67, 0x79, 0x40, 0x76] [] passwordA [] [0] (List.replicate 500 0) 2 (by decide)
    (by decide) (by decide) (by decide) (by decide) (by rw [List.length_replicate]; decide) (Or.inl rfl)
  exact ⟨str', len, text, msg, hsend, htext, hlen, hback⟩

end QuickStart.Des3
