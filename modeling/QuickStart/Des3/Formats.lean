import QuickStart.Des3.RoundTrip

/-! # The formats of a message

With an empty username, mode 2 sends the serial number and a fixed account in place of an encrypted message, and
mode 3 an encrypted message that has no ciphertext. A receiver can tell them apart by their lengths. -/

namespace QuickStart.Des3
open Buffer

/-- What a message says. -/
inductive Login where
  | user (username : List Byte) (random timenow : Bytes 8) (onuKey : List Byte)
  | serial (sn : List Byte)
  deriving DecidableEq

/-- What a receiver reads: 35 bytes are a serial number with the account, 33 bytes are the head of an encrypted message
    alone. -/
def receive (desEcb3Decrypt : Ecb3) (msg : List Byte) : Option Login :=
  if msg.length = 35 then
    if msg.drop 24 = adminAdmin then some (.serial ((msg.take 24).takeWhile (· != 0))) else none
  else do
    let random ← readBlock msg 1
    let timenow ← readBlock msg 9
    let onuKey ← read msg 17 16
    let username ← if msg.length = 33 then some [] else decryptMessage desEcb3Decrypt msg
    return .user username random timenow onuKey

/-- What a call in mode 2 or 3 says. -/
def said (md5 : Hash) (rand now : Bytes 8) (username password serialnum : List Byte) (mode : Int) : Login :=
  if mode = 2 ∧ username = [] then .serial (serialnum.take 24)
  else .user username rand now (md5 (rand.val ++ (password ++ now.val))).val

section Formats
variable (stack : Stack) (rand now : Bytes 8)

/-! ### The serial number -/

/-- `sn`. -/
def snField (serialnum : List Byte) : List Byte := serialnum.take 24 ++ List.replicate (24 - serialnum.length) 0

theorem length_snField (serialnum : List Byte) : (snField serialnum).length = 24 := by
  rw [snField, List.length_append, List.length_take, List.length_replicate]
  omega

/-- The serial number ends at the first zero or fills the field. -/
theorem takeWhile_snField {serialnum : List Byte} (h0 : 0 ∉ serialnum) :
    (snField serialnum).takeWhile (· != 0) = serialnum.take 24 := by
  have hall : ∀ b ∈ serialnum.take 24, (b != 0) = true := fun b hb =>
    bne_iff_ne.mpr fun (hz : b = 0) => h0 (hz ▸ List.mem_of_mem_take hb)
  rw [snField, List.takeWhile_append_of_pos hall]
  cases 24 - serialnum.length with
  | zero => exact List.append_nil _
  | succ k => simp [List.replicate_succ]

theorem sendMessage_serial (desEcb3Encrypt : Ecb3) (md5 : Hash) (urest srest password : List Byte)
    {serialnum str : List Byte} (h0 : 0 ∉ serialnum) {n : Nat} (hstr : str.length = n) (hn : 256 ≤ n) :
    ∃ b, sendMessage desEcb3Encrypt md5 stack rand now (0 :: urest) password (serialnum ++ 0 :: srest) 2 str = some (b, 35) ∧
      Starts b n (snField serialnum ++ adminAdmin) := by
  have hfield := length_snField serialnum
  obtain ⟨a, ha, sa⟩ := Starts.memset hstr (0 : Byte) hn
  obtain ⟨sn, hsn, ssn⟩ := Starts.memset stack.sn.property (0 : Byte) (Nat.le_refl 24)
  -- The copied part of the serial number goes over as many zeros.
  have hcount : (if serialnum.length > 24 then 24 else serialnum.length) = min 24 serialnum.length := by
    split <;> omega
  have hzeros : List.replicate 24 (0 : Byte) =
      List.replicate (min 24 serialnum.length) 0 ++ List.replicate (24 - serialnum.length) 0 := by
    have hsum : 24 = min 24 serialnum.length + (24 - serialnum.length) := by omega
    exact (congrArg (List.replicate · (0 : Byte)) hsum).trans (List.replicate_add _ _ _)
  have hover : Starts sn 24 ([] ++ (List.replicate (min 24 serialnum.length) 0 ++
      List.replicate (24 - serialnum.length) 0)) := hzeros ▸ ssn
  have hsource : Starts (serialnum ++ 0 :: srest) (serialnum ++ 0 :: srest).length (serialnum.take 24 ++ []) := by
    rw [List.append_nil]
    exact ⟨rfl, (List.take_prefix 24 serialnum).trans (List.prefix_append _ _)⟩
  obtain ⟨b, hb, sb⟩ := hover.memcpy_over hsource List.length_nil List.length_take
    (List.length_take.trans List.length_replicate.symm)
  have sfield : Starts b 24 (snField serialnum ++ []) := by
    rw [List.append_nil]
    exact sb
  obtain ⟨c, hc, sc⟩ := Starts.memcpy_front sa.length sfield hfield (by omega)
  have hroom : 24 + (adminAdmin ++ [(0 : Byte)]).length ≤ n := Nat.le_trans (by decide) hn
  obtain ⟨d, hd, sd⟩ := sc.append hfield hroom
  rw [← List.append_assoc] at sd
  refine ⟨d, ?_, sd.mono⟩
  have hempty : strlen (0 :: urest) = some 0 := strlen_append (u := []) List.not_mem_nil
  have hserial : strlen (serialnum ++ 0 :: srest) = some serialnum.length := strlen_append h0
  simp only [sendMessage, ha, hsn, hempty, hserial, hcount, hb, hc, hd, if_true, ne_eq, not_true_eq_false, if_false,
    Option.bind_eq_bind, Option.bind_some]
  rfl

theorem receive_serial (desEcb3Decrypt : Ecb3) {serialnum : List Byte} (h0 : 0 ∉ serialnum) :
    receive desEcb3Decrypt (snField serialnum ++ adminAdmin) = some (.serial (serialnum.take 24)) := by
  have hfield := length_snField serialnum
  have hlen : (snField serialnum ++ adminAdmin).length = 35 := by
    rw [List.length_append, hfield]
    rfl
  rw [receive, if_pos hlen, List.drop_left' hfield, List.take_left' hfield, if_pos rfl, takeWhile_snField h0]

/-! ### The encrypted message -/

/-- What stands in front of the ciphertext. -/
def head (md5 : Hash) (password : List Byte) : List Byte :=
  [1] ++ rand.val ++ now.val ++ (md5 (rand.val ++ (password ++ now.val))).val

theorem setPkcs7Padding_empty (rest : List Byte) {str : List Byte} (hstr : str.length = 500) :
    ∃ b, setPkcs7Padding (0 :: rest) str = some (b, 0) ∧ Starts b 500 [] := by
  have hlen : intStrlen (0 :: rest) = some 0 := intStrlen_append (u := []) List.not_mem_nil (by decide)
  have hsource : Starts (0 :: rest) (0 :: rest).length ([] ++ []) := Starts.nil rfl
  obtain ⟨b, hb, sb⟩ := Starts.memcpy_front hstr hsource List.length_nil (Nat.zero_le 500)
  refine ⟨b, ?_, sb⟩
  simp only [setPkcs7Padding, hlen, hb, ne_eq, not_true_eq_false, if_false, padLoop, Option.bind_eq_bind, Option.bind_some]
  rfl

theorem createEncryptData_empty (desEcb3Encrypt : Ecb3) (rest : List Byte) {str : List Byte} (hstr : str.length = 500) :
    ∃ b, createEncryptData desEcb3Encrypt stack rand.val now.val (0 :: rest) str = some (b, 0) ∧ b.length = 500 := by
  obtain ⟨a, ha, sa⟩ := Starts.memset hstr (0 : Byte) (Nat.le_refl 500)
  obtain ⟨key, hkey, skey⟩ := createEncryptKey_spec rand now stack.encryptKey.property
  have hread (off : Nat) (hoff : off + 8 ≤ 500) : ∃ block, readBlock key off = some block := by
    rw [readBlock, dif_pos (by rw [skey.length]; exact hoff)]
    exact ⟨_, rfl⟩
  obtain ⟨k0, h0⟩ := hread 0 (by decide)
  obtain ⟨k1, h1⟩ := hread 8 (by decide)
  obtain ⟨k2, h2⟩ := hread 16 (by decide)
  obtain ⟨b, hb, -⟩ := setPkcs7Padding_empty rest stack.pkcs7Str.property
  refine ⟨a, ?_, sa.length⟩
  simp only [createEncryptData, ha, hkey, h0, h1, h2, hb, encryptLoop, Option.bind_eq_bind, Option.bind_some]
  rfl

/-- An empty username leaves the head alone. -/
theorem createEncryptMessage_empty (desEcb3Encrypt : Ecb3) (md5 : Hash) (urest prest : List Byte)
    {password str : List Byte} (hp0 : 0 ∉ password) (hpl : password.length ≤ 240) (hstr : str.length = 500) :
    ∃ b, createEncryptMessage desEcb3Encrypt md5 stack rand now (0 :: urest) (password ++ 0 :: prest) str =
        some (b, 33) ∧ Starts b 500 (head rand now md5 password) := by
  obtain ⟨a, ha, sa⟩ := Starts.memset hstr (0 : Byte) (Nat.le_refl 500)
  obtain ⟨b, hb, sb⟩ := (Starts.nil sa.length).append List.length_nil (by decide : 0 + [(1 : Byte)].length ≤ 500)
  rw [List.nil_append] at sb
  obtain ⟨c, hc, sc⟩ := sb.memcpy (starts_val rand) List.length_singleton rand.property (by decide)
  have htime : ([1] ++ rand.val).length = 9 := by rw [List.length_append, rand.property]; rfl
  obtain ⟨d, hd, sd⟩ := sc.memcpy (starts_val now) htime now.property (by decide)
  obtain ⟨key, hkey, skey⟩ := createOnuKey_spec stack rand now md5 prest hp0 hpl stack.onuKey.property
  have hhash : ([1] ++ rand.val ++ now.val).length = 17 := by rw [List.length_append, htime, now.property]
  obtain ⟨e, he, se⟩ := sd.memcpy (by rw [List.append_nil]; exact skey) hhash (md5 _).property (by decide)
  obtain ⟨data, hdata, hdatalen⟩ := createEncryptData_empty stack rand now desEcb3Encrypt urest stack.encryData.property
  obtain ⟨f, hf, sf⟩ := se.memcpy (q := []) (r := []) (Starts.nil hdatalen) (length_head rand now _) List.length_nil
    (by decide)
  rw [List.append_nil] at sf
  refine ⟨f, ?_, sf⟩
  simp only [createEncryptMessage, ha, hb, strnrand_spec rand stack.random.property,
    byteTime_spec now stack.timenow.property, hc, hd, hkey, he, hdata, hf, Option.bind_eq_bind, Option.bind_some]
  rfl

theorem sendMessage_head (desEcb3Encrypt : Ecb3) (md5 : Hash) (urest prest serialnum : List Byte)
    {password str : List Byte} (hp0 : 0 ∉ password) (hpl : password.length ≤ 240) {n : Nat} (hstr : str.length = n)
    (hn : 256 ≤ n) :
    ∃ b, sendMessage desEcb3Encrypt md5 stack rand now (0 :: urest) (password ++ 0 :: prest) serialnum 3 str =
        some (b, 33) ∧ Starts b n (head rand now md5 password) := by
  obtain ⟨a, ha, sa⟩ := Starts.memset hstr (0 : Byte) hn
  obtain ⟨sn, hsn, -⟩ := Starts.memset stack.sn.property (0 : Byte) (Nat.le_refl 24)
  obtain ⟨b, hb, sb⟩ := createEncryptMessage_empty stack rand now desEcb3Encrypt md5 urest prest hp0 hpl
    stack.sendData.property
  obtain ⟨c, hc, sc⟩ := Starts.memcpy_front sa.length (by rw [List.append_nil]; exact sb) (length_head rand now _)
    (by omega)
  refine ⟨c, ?_, sc⟩
  simp only [sendMessage, ha, hsn, hb, hc, if_true, if_neg (by decide : ¬(3 : Int) = 2), Option.bind_eq_bind,
    Option.bind_some]
  rfl

/-- The head of an encrypted message, with whatever stands behind it. -/
theorem receive_head (desEcb3Decrypt : Ecb3) (md5 : Hash) (password cipher : List Byte) (hlen : cipher.length ≠ 2) :
    receive desEcb3Decrypt (head rand now md5 password ++ cipher) =
      (if cipher = [] then some [] else decryptMessage desEcb3Decrypt (head rand now md5 password ++ cipher)).map
        fun username => .user username rand now (md5 (rand.val ++ (password ++ now.val))).val := by
  have hhead : (head rand now md5 password).length = 33 := length_head rand now _
  have hmsg : (head rand now md5 password ++ cipher).length = 33 + cipher.length := by rw [List.length_append, hhead]
  have hself := Starts.self (head rand now md5 password ++ cipher)
  have hrand : readBlock (head rand now md5 password ++ cipher) 1 = some rand := by
    refine readBlock_of_starts (p := [1]) (r := now.val ++ ((md5 (rand.val ++ (password ++ now.val))).val ++ cipher))
      ⟨hself.length, ?_⟩ rfl
    simp only [head, List.append_assoc]
    exact List.prefix_refl _
  have hnow : readBlock (head rand now md5 password ++ cipher) 9 = some now := by
    refine readBlock_of_starts (p := [1] ++ rand.val) (r := (md5 (rand.val ++ (password ++ now.val))).val ++ cipher)
      ⟨hself.length, ?_⟩ ?_
    · simp only [head, List.append_assoc]
      exact List.prefix_refl _
    · rw [List.length_append, rand.property]
      rfl
  have hkey : read (head rand now md5 password ++ cipher) 17 16 =
      some (md5 (rand.val ++ (password ++ now.val))).val := by
    have sself : Starts (head rand now md5 password ++ cipher) (head rand now md5 password ++ cipher).length
        (([1] ++ rand.val ++ now.val) ++ ((md5 (rand.val ++ (password ++ now.val))).val ++ cipher)) := by
      rw [← List.append_assoc]
      exact hself
    refine sself.read ?_ (md5 _).property
    simp only [List.length_append, List.length_singleton, rand.property, now.property]
  have hempty : 33 + cipher.length = 33 ↔ cipher = [] := by rw [← List.length_eq_zero_iff]; omega
  rw [receive, hmsg, if_neg (by omega), hrand, hnow, hkey]
  simp only [Option.bind_eq_bind, Option.bind_some, hempty]
  split
  · rfl
  · cases decryptMessage desEcb3Decrypt (head rand now md5 password ++ cipher) <;> rfl

end Formats

/-- What the receiver of the text reads is what the caller said, whichever of the formats the message has: the username
    with the hash that belongs to the password, or the first 24 bytes of the serial number. -/
theorem login_received (desEcb3Encrypt desEcb3Decrypt : Ecb3) (md5 : Hash)
    (hinv : ∀ k₁ k₂ k₃ b, desEcb3Decrypt k₁ k₂ k₃ (desEcb3Encrypt k₁ k₂ k₃ b) = b) (stack : Stack) (rand now : Bytes 8)
    {username password serialnum str : List Byte} (urest prest srest : List Byte) {mode : Int} (hu0 : 0 ∉ username)
    (hul : username.length ≤ 215) (hp0 : 0 ∉ password) (hpl : password.length ≤ 240) (hs0 : 0 ∉ serialnum)
    (hstr : 256 ≤ str.length) (hmode : mode = 2 ∨ mode = 3) :
    ∃ str' len text,
      createSendMessage desEcb3Encrypt md5 stack rand now (username ++ 0 :: urest) (password ++ 0 :: prest)
          (serialnum ++ 0 :: srest) mode str = some (str', len, echo ++ text ++ redirect) ∧
        (unhex text).bind (receive desEcb3Decrypt) = some (said md5 rand now username password serialnum mode) := by
  -- In each format the array begins with a message that is not empty and has room in the text.
  suffices h : ∃ b msg, sendMessage desEcb3Encrypt md5 stack rand now (username ++ 0 :: urest) (password ++ 0 :: prest)
      (serialnum ++ 0 :: srest) mode str = some (b, msg.length) ∧ Starts b str.length msg ∧ msg ≠ [] ∧
        msg.length ≤ 249 ∧ receive desEcb3Decrypt msg = some (said md5 rand now username password serialnum mode) by
    obtain ⟨b, msg, hsend, hstarts, hne, hlen, hreceive⟩ := h
    refine ⟨b, msg.length, hexText msg, ?_, by rw [unhex_hexText, Option.bind_some, hreceive]⟩
    simp only [createSendMessage, hsend, outPutFileStr_spec stack hne hlen hstarts, Option.bind_eq_bind, Option.bind_some]
    rfl
  by_cases hu : username = []
  · subst hu
    rcases hmode with rfl | rfl
    · obtain ⟨b, hb, sb⟩ := sendMessage_serial stack rand now desEcb3Encrypt md5 urest srest (password ++ 0 :: prest) hs0
        rfl hstr
      have hlen : (snField serialnum ++ adminAdmin).length = 35 := by
        rw [List.length_append, length_snField]
        rfl
      refine ⟨b, _, by rw [hlen]; exact hb, sb, List.ne_nil_of_length_pos (by omega), by omega, ?_⟩
      rw [receive_serial desEcb3Decrypt hs0, said, if_pos ⟨rfl, rfl⟩]
    · obtain ⟨b, hb, sb⟩ := sendMessage_head stack rand now desEcb3Encrypt md5 urest prest (serialnum ++ 0 :: srest) hp0 hpl
        rfl hstr
      have hlen : (head rand now md5 password).length = 33 := length_head rand now _
      refine ⟨b, _, by rw [hlen]; exact hb, sb, List.ne_nil_of_length_pos (by omega), by omega, ?_⟩
      have hreceive := receive_head rand now desEcb3Decrypt md5 password [] (by decide)
      rw [List.append_nil, if_pos rfl] at hreceive
      rw [hreceive, said, if_neg fun h => absurd h.1 (by decide)]
      rfl
  · obtain ⟨b, hb, sb⟩ := sendMessage_spec stack rand now desEcb3Encrypt md5 urest prest (serialnum ++ 0 :: srest) hu hu0
      hul hp0 hpl hmode rfl hstr
    have hlen := length_message rand now desEcb3Encrypt md5 username password
    have hcipher := length_cipherText rand now desEcb3Encrypt username
    have hpadded := length_padded username
    have hne : cipherText desEcb3Encrypt rand now username ≠ [] := List.ne_nil_of_length_pos (by omega)
    refine ⟨b, _, hb, sb, List.ne_nil_of_length_pos (by omega), by omega, ?_⟩
    have hreceive := receive_head rand now desEcb3Decrypt md5 password (cipherText desEcb3Encrypt rand now username)
      (by omega)
    rw [if_neg hne] at hreceive
    have hback := decryptMessage_message md5 rand now hinv username password
    rw [message] at hback ⊢
    rw [said, if_neg fun h => hu h.2]
    exact hreceive.trans (congrArg (Option.map _) hback)

/-- A serial number of 30 bytes. -/
theorem login_received_serial : ∃ str' len text,
    createSendMessage desA md5A cleanStack randA nowA [0] (passwordA ++ [0]) (List.replicate 30 0x30 ++ [0]) 2
        (List.replicate 500 0) = some (str', len, echo ++ text ++ redirect) ∧
      (unhex text).bind (receive desA) = some (.serial (List.replicate 24 0x30)) := by
  have hsaid : said md5A randA nowA [] passwordA (List.replicate 30 0x30) 2 = .serial (List.replicate 24 0x30) := by
    rw [said, if_pos ⟨rfl, rfl⟩, List.take_replicate]
    rfl
  have hroom : 256 ≤ (List.replicate 500 (0 : Byte)).length := by
    rw [List.length_replicate]
    decide
  have hnone : (0 : Byte) ∉ [] := List.not_mem_nil
  obtain ⟨str', len, text, hsend, hreceive⟩ := login_received desA desA md5A desA_desA cleanStack randA nowA [] [] [] hnone
    (Nat.zero_le 215) (by decide : 0 ∉ passwordA) (by decide) (by decide : 0 ∉ List.replicate 30 (0x30 : Byte)) hroom
    (Or.inl rfl)
  exact ⟨str', len, text, hsend, hreceive.trans (congrArg some hsaid)⟩

end QuickStart.Des3
