import QuickStart.Des3.RoundTrip

/-! # The limits of the arrays

Which usernames and passwords the local arrays of `des3_encrypt.c` have room for. No function looks at their
lengths before it writes. -/

namespace QuickStart.Des3
open Buffer

/-- What an `int` keeps of the length of a string. -/
def intLength (s : List Byte) : Nat := s.length % 2 ^ 32

theorem intLength_le (u rest : List Byte) : intLength u ≤ (u ++ 0 :: rest).length := by
  rw [List.length_append]
  exact (Nat.mod_le _ _).trans (Nat.le_add_right _ _)

/-- The blocks of a string of `n` bytes with its padding. -/
def blockCount (n : Nat) : Nat := if n = 0 then 0 else n / 8 + 1

theorem blockCount_eq (n : Nat) : (n + if n ≠ 0 then 8 - n % 8 else 0) / 8 = blockCount n := by
  unfold blockCount
  by_cases hn : n = 0
  · rw [hn]
    rfl
  · rw [if_pos hn, if_neg hn]
    omega

theorem blockCount_le_iff {n k : Nat} (hk : 0 < k) : blockCount n ≤ k ↔ n < k * 8 := by
  unfold blockCount
  split <;> omega

theorem intStrlen_returns {u : List Byte} (rest : List Byte) (h0 : 0 ∉ u) :
    Returns (intStrlen (u ++ 0 :: rest)) (intLength u < 2 ^ 31) (· = intLength u) := by
  have hlen : intStrlen (u ++ 0 :: rest) = if intLength u < 2 ^ 31 then some (intLength u) else none := by
    rw [intStrlen, strlen_append h0]
    rfl
  rw [hlen]
  split <;> rename_i hint
  · exact .pure hint rfl
  · exact .none hint

theorem readBlock_returns {src : List Byte} {n off : Nat} (h : src.length = n) :
    Returns (readBlock src off) (off + 8 ≤ n) fun _ => True := by
  subst h
  unfold readBlock
  split <;> rename_i hfit
  · exact .pure hfit trivial
  · exact .none hfit

/-! ### The key of the message -/

section Keys
variable {random timenow : List Byte}

theorem createEncryptKey_returns {str : List Byte} (hrandom : random.length = 8) (htimenow : timenow.length = 8)
    (hstr : str.length = 500) : Returns (createEncryptKey random timenow str) True (·.length = 500) := by
  unfold createEncryptKey
  refine (memset_returns hstr 0).bind fun _ a ha => ?_
  refine (memcpy_returns ha hrandom.ge).bind fun _ b hb => ?_
  exact (memcpy_returns hb htimenow.ge).congr (iff_true_intro (by omega))

theorem createOnuKey_returns (md5 : Hash) (stack : Stack) {password str : List Byte} (rest : List Byte)
    (hrandom : random.length = 8) (htimenow : timenow.length = 8) (h0 : 0 ∉ password) (hstr : str.length = 16) :
    Returns (createOnuKey md5 stack random timenow (password ++ 0 :: rest) str) (intLength password ≤ 240)
      (·.length = 16) := by
  have hle := intLength_le password rest
  unfold createOnuKey
  refine (intStrlen_returns rest h0).bind fun _ pwdlen hpwdlen => ?_
  subst hpwdlen
  refine (memset_returns stack.data.property 0).bind fun _ a ha => ?_
  refine (memcpy_returns ha hrandom.ge).bind fun _ b hb => ?_
  refine (memcpy_returns hb hle).bind fun _ c hc => ?_
  refine (memcpy_returns hc htimenow.ge).bind fun hfit d hd => ?_
  refine (read_returns hd).bind fun _ input _ => ?_
  refine (write_returns hstr).congr ?_
  rw [(md5 input).property]
  omega

end Keys

/-! ### The ciphertext -/

theorem padLoop_returns (v : Byte) (k : Nat) : ∀ {len : Nat} {str : List Byte}, len ≤ 500 → str.length = 500 →
    Returns (padLoop v k len str) (len + k ≤ 500) (·.length = 500) := by
  induction k with
  | zero => exact fun hlen hstr => .pure hlen hstr
  | succ k ih =>
    intro len str _ hstr
    unfold padLoop
    have hone : [v].length = 1 := rfl
    refine (write_returns hstr).bind fun _ b hb => ?_
    exact (ih (by omega) hb).congr (by omega)

/-- The padded text has to fit `pkcs7_str`. -/
theorem setPkcs7Padding_returns {username str : List Byte} (rest : List Byte) (h0 : 0 ∉ username)
    (hstr : str.length = 500) :
    Returns (setPkcs7Padding (username ++ 0 :: rest) str) (intLength username ≤ 495)
      fun r => r.1.length = 500 ∧ r.2 = blockCount (intLength username) := by
  have hle := intLength_le username rest
  unfold setPkcs7Padding
  refine (intStrlen_returns rest h0).bind fun _ len hlen => ?_
  subst hlen
  refine (memcpy_returns hstr hle).bind fun hfit a ha => ?_
  have hroom : intLength username ≤ 500 := by omega
  have hpad := padLoop_returns (BitVec.ofNat 8 (if intLength username ≠ 0 then 8 - intLength username % 8 else 0))
    (if intLength username ≠ 0 then 8 - intLength username % 8 else 0) hroom ha
  refine hpad.bind (fun hfit' b hb => .pure ?_ ⟨hb, blockCount_eq _⟩) fun _ => ?_
  · split at hfit' <;> omega
  · split <;> omega

theorem encryptLoop_returns (encrypt : Bytes 8 → Bytes 8) {src : List Byte} (hsrc : src.length = 500) (k : Nat) :
    ∀ {i : Nat} {str : List Byte}, i * 8 ≤ 500 → str.length = 500 →
      Returns (encryptLoop encrypt src k i str) ((i + k) * 8 ≤ 500) (·.length = 500) := by
  induction k with
  | zero => exact fun hi hstr => .pure hi hstr
  | succ k ih =>
    intro i str _ hstr
    unfold encryptLoop
    refine (readBlock_returns hsrc).bind fun hfit block _ => ?_
    have hblock := (encrypt block).property
    refine (write_returns hstr).bind fun _ b hb => ?_
    exact (ih (by omega) hb).congr (by omega)

theorem createEncryptData_returns (desEcb3Encrypt : Ecb3) (stack : Stack) {random timenow username str : List Byte}
    (rest : List Byte) (hrandom : random.length = 8) (htimenow : timenow.length = 8) (h0 : 0 ∉ username)
    (hstr : str.length = 500) :
    Returns (createEncryptData desEcb3Encrypt stack random timenow (username ++ 0 :: rest) str)
      (intLength username ≤ 495) fun r => r.1.length = 500 ∧ r.2 = blockCount (intLength username) * 8 := by
  unfold createEncryptData
  refine (memset_returns hstr 0).bind fun _ a ha => ?_
  refine (createEncryptKey_returns hrandom htimenow stack.encryptKey.property).bind fun _ key hkey => ?_
  refine (readBlock_returns hkey).bind fun _ k0 _ => ?_
  refine (readBlock_returns hkey).bind fun _ k1 _ => ?_
  refine (readBlock_returns hkey).bind fun _ k2 _ => ?_
  refine (setPkcs7Padding_returns rest h0 stack.pkcs7Str.property).bind fun hfit ⟨pkcs7, count⟩ ⟨hpkcs7, hcount⟩ => ?_
  dsimp only at hpkcs7 hcount ⊢
  have hblocks : count ≤ 62 := by
    rw [hcount, blockCount_le_iff (by decide)]
    omega
  refine (encryptLoop_returns (desEcb3Encrypt k0 k1 k2) hpkcs7 count (Nat.zero_le _) ha).bind fun _ b hb => ?_
  exact .pure hfit ⟨hb, by rw [hcount]⟩

/-! ### The message -/

theorem strnrand_returns (rand : Bytes 8) {str : List Byte} (hstr : str.length = 8) :
    Returns (strnrand str rand) True (·.length = 8) := by
  rw [strnrand_spec rand hstr]
  exact .pure trivial rand.property

theorem byteTime_returns (now : Bytes 8) {str : List Byte} (hstr : str.length = 8) :
    Returns (byteTime str now) True (·.length = 8) := by
  rw [byteTime_spec now hstr]
  exact .pure trivial now.property

section Functions
variable (desEcb3Encrypt : Ecb3) (md5 : Hash) (stack : Stack) (rand now : Bytes 8)

/-- Header and ciphertext have to fit `encry_data`. -/
theorem createEncryptMessage_returns {username password str : List Byte} (urest prest : List Byte) (hu0 : 0 ∉ username)
    (hp0 : 0 ∉ password) (hstr : str.length = 500) :
    Returns (createEncryptMessage desEcb3Encrypt md5 stack rand now (username ++ 0 :: urest) (password ++ 0 :: prest) str)
      (intLength username ≤ 463 ∧ intLength password ≤ 240)
      fun r => r.1.length = 500 ∧ r.2 = blockCount (intLength username) * 8 + 33 := by
  unfold createEncryptMessage
  refine (memset_returns hstr 0).bind fun _ a ha => ?_
  refine (write_returns ha).bind fun _ b hb => ?_
  refine (strnrand_returns rand stack.random.property).bind fun _ random hrandom => ?_
  refine (byteTime_returns now stack.timenow.property).bind fun _ timenow htimenow => ?_
  refine (memcpy_returns hb hrandom.ge).bind fun _ c hc => ?_
  refine (memcpy_returns hc htimenow.ge).bind fun _ d hd => ?_
  refine (createOnuKey_returns md5 stack prest hrandom htimenow hp0 stack.onuKey.property).bind
    fun hpassword onuKey honuKey => ?_
  refine (memcpy_returns hd honuKey.ge).bind fun _ e he => ?_
  refine (createEncryptData_returns desEcb3Encrypt stack urest hrandom htimenow hu0 stack.encryData.property).bind
    fun _ ⟨encryData, len⟩ ⟨hdata, hlen⟩ => ?_
  dsimp only at hdata hlen ⊢
  have hblocks : blockCount (intLength username) ≤ 58 ↔ intLength username < 58 * 8 := blockCount_le_iff (by decide)
  have hblocks' : blockCount (intLength username) ≤ 62 ↔ intLength username < 62 * 8 := blockCount_le_iff (by decide)
  refine (memcpy_returns he (by omega)).bind fun _ f hf => ?_
  exact .pure (by omega) ⟨hf, by rw [hlen]⟩

/-- The call builds a message, and not the fixed text of an empty username, or nothing. -/
def Encrypts (username : List Byte) (mode : Int) : Prop := mode = 3 ∨ mode = 2 ∧ username ≠ []

instance (username : List Byte) (mode : Int) : Decidable (Encrypts username mode) :=
  inferInstanceAs (Decidable (_ ∨ _))

/-- The length that `create_send_message` returns. -/
def sentLength (username : List Byte) (mode : Int) : Nat :=
  if Encrypts username mode then blockCount (intLength username) * 8 + 33 else if mode = 2 then 35 else 0

theorem sentLength_le {username : List Byte} {mode : Int} (h : Encrypts username mode → intLength username ≤ 463) :
    sentLength username mode ≤ 500 := by
  unfold sentLength
  split <;> rename_i henc
  · have hfit := h henc
    have hblocks : blockCount (intLength username) ≤ 58 := (blockCount_le_iff (by decide)).mpr (by omega)
    omega
  · split <;> omega

/-- The message is built and copied to the caller's array. -/
theorem copyMessage_returns {username password str : List Byte} (urest prest : List Byte) {mode : Int} {n : Nat}
    (hu0 : 0 ∉ username) (hp0 : 0 ∉ password) (hstr : str.length = n) (hn : 500 ≤ n) (hmode : Encrypts username mode) :
    Returns ((createEncryptMessage desEcb3Encrypt md5 stack rand now (username ++ 0 :: urest) (password ++ 0 :: prest)
        stack.sendData.val).bind fun r => (Buffer.memcpy str 0 r.1 r.2).bind fun b => some (b, r.2))
      (Encrypts username mode → intLength username ≤ 463 ∧ intLength password ≤ 240)
      fun r => r.1.length = n ∧ r.2 = sentLength username mode := by
  refine (createEncryptMessage_returns desEcb3Encrypt md5 stack rand now urest prest hu0 hp0
    stack.sendData.property).bind (fun hfit ⟨data, len⟩ ⟨hdata, hlen⟩ => ?_) fun h => h hmode
  dsimp only at hdata hlen ⊢
  have hblocks : blockCount (intLength username) ≤ 58 := (blockCount_le_iff (by decide)).mpr (by omega)
  refine (memcpy_returns hstr (by omega)).bind fun _ b hb => ?_
  exact .pure (fun _ => hfit) ⟨hb, by rw [sentLength, if_pos hmode, hlen]⟩

theorem sendMessage_returns {username password serialnum str : List Byte} (urest prest srest : List Byte) (mode : Int)
    (hu0 : 0 ∉ username) (hp0 : 0 ∉ password) (hs0 : 0 ∉ serialnum) (hstr : 500 ≤ str.length) :
    Returns (sendMessage desEcb3Encrypt md5 stack rand now (username ++ 0 :: urest) (password ++ 0 :: prest)
        (serialnum ++ 0 :: srest) mode str)
      (Encrypts username mode → intLength username ≤ 463 ∧ intLength password ≤ 240)
      fun r => r.1.length = str.length ∧ r.2 = sentLength username mode := by
  unfold sendMessage
  refine (memset_returns rfl 0).bind fun _ a ha => ?_
  refine (memset_returns stack.sn.property 0).bind fun _ sn hsn => ?_
  by_cases htwo : mode = 2
  · rw [if_pos htwo, strlen_append hu0, Option.bind_eq_bind, Option.bind_some]
    by_cases hnil : username = []
    · have hlen : ¬username.length ≠ 0 := fun h => h (by rw [hnil, List.length_nil])
      have hno : ¬Encrypts username mode := fun h => h.elim (by omega) fun h => h.2 hnil
      rw [if_neg hlen, strlen_append hs0, Option.bind_eq_bind, Option.bind_some]
      have hserial : (if serialnum.length > 24 then 24 else serialnum.length) ≤ (serialnum ++ 0 :: srest).length := by
        rw [List.length_append]
        split <;> omega
      -- The only length that is looked at before a copy.
      have hclamp : (if serialnum.length > 24 then 24 else serialnum.length) ≤ 24 := by split <;> omega
      refine (memcpy_returns hsn hserial).bind fun _ b hb => ?_
      refine (memcpy_returns ha hb.ge).bind fun _ c hc => ?_
      have htext : (adminAdmin ++ [0]).length = 12 := rfl
      refine (write_returns hc).bind fun _ d hd => ?_
      exact .pure (fun h => absurd h hno) ⟨hd, by rw [sentLength, if_neg hno, if_pos htwo]⟩
    · have hlen : username.length ≠ 0 := fun h => hnil (List.length_eq_zero_iff.mp h)
      rw [if_pos hlen]
      exact copyMessage_returns desEcb3Encrypt md5 stack rand now urest prest hu0 hp0 ha hstr (Or.inr ⟨htwo, hnil⟩)
  · rw [if_neg htwo]
    by_cases hthree : mode = 3
    · rw [if_pos hthree]
      exact copyMessage_returns desEcb3Encrypt md5 stack rand now urest prest hu0 hp0 ha hstr (Or.inl hthree)
    · rw [if_neg hthree]
      have hno : ¬Encrypts username mode := fun h => h.elim hthree fun h => htwo h.1
      exact .pure (fun h => absurd h hno) ⟨ha, by rw [sentLength, if_neg hno, if_neg htwo]⟩

/-! ### The text -/

theorem hexLoop_returns {str : List Byte} (k : Nat) : ∀ {i : Nat} {strOut : List Byte}, i + k ≤ str.length →
    i * 2 + 1 ≤ 500 → strOut.length = 500 →
      Returns (hexLoop str k i strOut) ((i + k) * 2 + 1 ≤ 500) (·.length = 500) := by
  induction k with
  | zero => exact fun _ hi hout => .pure hi hout
  | succ k ih =>
    intro i strOut hstr hi hout
    have hget : str[i]? = some str[i] := List.getElem?_eq_getElem (by omega)
    unfold hexLoop
    rw [hget, Option.bind_eq_bind, Option.bind_some]
    have hpair : (hexByte str[i] ++ [0]).length = 3 := rfl
    refine (write_returns hout).bind fun _ b hb => ?_
    exact (ih (by omega) (by omega) hb).congr (by omega)

theorem command_isSome {s : List Byte} (hs : s.length ≤ 577) :
    ((write stack.cmd.val 0 (echo ++ s ++ redirect ++ [0])).bind cString).isSome := by
  have hfit : 0 + (echo ++ s ++ redirect ++ [0]).length ≤ 600 := by
    simp only [List.length_append, echo, redirect, List.length_cons, List.length_nil]
    omega
  obtain ⟨c, hc, sc⟩ := (Starts.nil stack.cmd.property).append List.length_nil hfit
  rw [hc, Option.bind_some, isSome_cString]
  exact sc.front.subset (by simp)

/-- Each byte takes two digits of `str_out`, which has to end with a zero; without a byte to write it is as it
    was before the call. -/
theorem outPutFileStr_isSome {str : List Byte} {len : Nat} (hlen : len ≤ str.length) :
    (outPutFileStr stack str len).isSome ↔ len ≤ 249 ∧ (len = 0 → 0 ∈ stack.strOut.val ++ stack.behind.val) := by
  have hloop : Returns (hexLoop str len 0 stack.strOut.val) ((0 + len) * 2 + 1 ≤ 500) (·.length = 500) :=
    hexLoop_returns len (by omega) (by omega) stack.strOut.property
  by_cases hzero : len = 0
  · subst hzero
    have htext : outPutFileStr stack str 0 = (cString (stack.strOut.val ++ stack.behind.val)).bind fun s =>
        (write stack.cmd.val 0 (echo ++ s ++ redirect ++ [0])).bind cString := rfl
    rw [htext, ← isSome_cString]
    cases hs : cString (stack.strOut.val ++ stack.behind.val) with
    | none => simp
    | some s =>
      have hshort := length_lt_of_cString hs
      rw [List.length_append, stack.strOut.property, stack.behind.property] at hshort
      exact iff_of_true (command_isSome stack (by omega)) ⟨Nat.zero_le _, fun _ => rfl⟩
  · constructor
    · intro hsome
      obtain ⟨cmd, hcmd⟩ := Option.isSome_iff_exists.mp hsome
      obtain ⟨strOut, hout, -⟩ := Option.bind_eq_some_iff.mp hcmd
      have hfit := hloop.isSome_iff.mp (Option.isSome_of_eq_some hout)
      exact ⟨by omega, fun h => absurd h hzero⟩
    · rintro ⟨hle, -⟩
      have htake : (str.take len).length = len := List.length_take_of_le hlen
      have hne : str.take len ≠ [] := List.ne_nil_of_length_pos (by omega)
      have hspec := outPutFileStr_spec stack hne (by omega) ⟨rfl, List.take_prefix len str⟩
      rw [htake] at hspec
      exact Option.isSome_of_eq_some hspec

/-! ### The limits -/

/-- What the local arrays have room for: where a message is built, a username of at most 215 bytes and a password
    of at most 240, by the `int`s that hold their lengths; where nothing is built, a memory of `str_out` in which
    a zero ends the text before `cmd` is full. -/
def Fits (username password : List Byte) (mode : Int) : Prop :=
  if Encrypts username mode then intLength username ≤ 215 ∧ intLength password ≤ 240
  else mode = 2 ∨ 0 ∈ stack.strOut.val ++ stack.behind.val

instance (username password : List Byte) (mode : Int) : Decidable (Fits stack username password mode) :=
  inferInstanceAs (Decidable (if Encrypts username mode then _ ∧ _ else _ ∨ _))

theorem fits_iff_sentLength {username password : List Byte} {mode : Int}
    (h : Encrypts username mode → intLength username ≤ 463 ∧ intLength password ≤ 240) :
    (sentLength username mode ≤ 249 ∧ (sentLength username mode = 0 → 0 ∈ stack.strOut.val ++ stack.behind.val)) ↔
      Fits stack username password mode := by
  unfold Fits sentLength
  by_cases henc : Encrypts username mode
  · have hblocks : blockCount (intLength username) ≤ 27 ↔ intLength username < 27 * 8 := blockCount_le_iff (by decide)
    have hroom := h henc
    rw [if_pos henc, if_pos henc]
    omega
  · rw [if_neg henc, if_neg henc]
    by_cases htwo : mode = 2
    · exact iff_of_true (by simp [htwo]) (Or.inl htwo)
    · simp [htwo]

theorem createSendMessage_returns {username password serialnum str : List Byte} (urest prest srest : List Byte)
    (mode : Int) (hu0 : 0 ∉ username) (hp0 : 0 ∉ password) (hs0 : 0 ∉ serialnum) (hstr : 500 ≤ str.length) :
    Returns (createSendMessage desEcb3Encrypt md5 stack rand now (username ++ 0 :: urest) (password ++ 0 :: prest)
      (serialnum ++ 0 :: srest) mode str) (Fits stack username password mode) fun r => r.2.1 = sentLength username mode := by
  unfold createSendMessage
  refine (sendMessage_returns desEcb3Encrypt md5 stack rand now urest prest srest mode hu0 hp0 hs0 hstr).bind
    (fun hroom ⟨str', len⟩ ⟨hstr', hlen⟩ => ?_) fun hfits henc => ?_
  · dsimp only at hstr' hlen ⊢
    have hle : len ≤ str'.length := by
      rw [hstr', hlen]
      exact (sentLength_le fun henc => (hroom henc).1).trans hstr
    have hneed := hlen ▸ fits_iff_sentLength stack hroom
    have hout : Returns (outPutFileStr stack str' len) (Fits stack username password mode) fun _ => True :=
      ⟨(outPutFileStr_isSome stack hle).trans hneed, fun _ _ => trivial⟩
    exact hout.bind fun hfits cmd _ => .pure hfits hlen
  · rw [Fits, if_pos henc] at hfits
    omega

end Functions

theorem zero_notMem_replicate {c : Byte} (hc : c ≠ 0) (n : Nat) : 0 ∉ List.replicate n c :=
  fun h => hc (List.eq_of_mem_replicate h).symm

theorem fits_replicate (n : Nat) :
    Fits cleanStack (List.replicate (n + 1) 0x61) passwordA 2 ↔ (n + 1) % 2 ^ 32 ≤ 215 := by
  have henc : Encrypts (List.replicate (n + 1) 0x61) 2 := Or.inr ⟨rfl, List.cons_ne_nil _ _⟩
  rw [Fits, if_pos henc, intLength, List.length_replicate]
  exact and_iff_left (by decide)

/-- No write leaves an array exactly for the strings that the arrays have room for. -/
theorem send_stays_inside_iff (desEcb3Encrypt : Ecb3) (md5 : Hash) (stack : Stack) (rand now : Bytes 8)
    (username urest password prest serialnum srest str : List Byte) (mode : Int) (hu0 : 0 ∉ username)
    (hp0 : 0 ∉ password) (hs0 : 0 ∉ serialnum) (hstr : 500 ≤ str.length) :
    (createSendMessage desEcb3Encrypt md5 stack rand now (username ++ 0 :: urest) (password ++ 0 :: prest)
      (serialnum ++ 0 :: srest) mode str).isSome ↔ Fits stack username password mode :=
  (createSendMessage_returns desEcb3Encrypt md5 stack rand now urest prest srest mode hu0 hp0 hs0 hstr).isSome_iff

theorem send_stays_inside_iff_longest :
    (createSendMessage desA md5A cleanStack randA nowA (List.replicate 215 0x61 ++ [0]) (passwordA ++ [0]) [0] 2
      (List.replicate 500 0)).isSome ∧
    ¬(createSendMessage desA md5A cleanStack randA nowA (List.replicate 216 0x61 ++ [0]) (passwordA ++ [0]) [0] 2
      (List.replicate 500 0)).isSome := by
  have hiff (n : Nat) := (send_stays_inside_iff desA md5A cleanStack randA nowA (List.replicate (n + 1) 0x61) []
    passwordA [] [] [] (List.replicate 500 0) 2 (zero_notMem_replicate (by decide) _) (by decide) (by decide)
    (by rw [List.length_replicate])).trans (fits_replicate n)
  exact ⟨(hiff 214).mpr (by decide), fun h => absurd ((hiff 215).mp h) (by decide)⟩

/-- A stack without a zero where `outPutFileStr` reads it. -/
def fullStack : Stack :=
  { cleanStack with
    strOut := ⟨List.replicate 500 0x41, List.length_replicate⟩
    behind := ⟨List.replicate 78 0x41, List.length_replicate⟩ }

/-- The message of a username of 216 bytes is built, and its text leaves `str_out`; a password of 241 bytes leaves
    `data`; in a mode without a message, the text that happens to stand in `str_out` leaves `cmd`. -/
theorem send_leaves_arrays :
    (∃ b, sendMessage desA md5A cleanStack randA nowA (List.replicate 216 0x61 ++ [0]) (passwordA ++ [0]) [0] 3
        (List.replicate 500 0) = some (b, 257) ∧ hexLoop b 257 0 cleanStack.strOut.val = none) ∧
    createOnuKey md5A cleanStack randA.val nowA.val (List.replicate 241 0x31 ++ [0]) cleanStack.onuKey.val = none ∧
    createSendMessage desA md5A cleanStack randA nowA [0x61, 0] (List.replicate 241 0x31 ++ [0]) [0] 3
      (List.replicate 500 0) = none ∧
    createSendMessage desA md5A fullStack randA nowA [0] [0] [0] 1 (List.replicate 500 0) = none := by
  have hroom : 500 ≤ (List.replicate 500 (0 : Byte)).length := by rw [List.length_replicate]
  have hname : 0 ∉ List.replicate 216 (0x61 : Byte) := zero_notMem_replicate (by decide) _
  have hsecret : 0 ∉ List.replicate 241 (0x31 : Byte) := zero_notMem_replicate (by decide) _
  have hlong : ¬intLength (List.replicate 241 (0x31 : Byte)) ≤ 240 := by
    rw [intLength, List.length_replicate]
    decide
  have hempty : 0 ∉ ([] : List Byte) := List.not_mem_nil
  have henc (username : List Byte) : Encrypts username 3 := Or.inl rfl
  refine ⟨?_, ?_, ?_, ?_⟩
  · have hsend := sendMessage_returns desA md5A cleanStack randA nowA [] [] [] 3 hname (by decide : 0 ∉ passwordA)
      hempty hroom
    have hlen : intLength (List.replicate 216 (0x61 : Byte)) = 216 := by
      rw [intLength, List.length_replicate]
      decide
    obtain ⟨⟨b, len⟩, hb⟩ := Option.isSome_iff_exists.mp
      (hsend.isSome_iff.mpr fun _ => ⟨by rw [hlen]; decide, by decide⟩)
    obtain ⟨hstr, hsent⟩ := hsend.result _ hb
    obtain rfl : len = 257 := by
      rw [show len = sentLength _ 3 from hsent, sentLength, if_pos (henc _), hlen]
      rfl
    have hfit : 0 + 257 ≤ b.length := by
      rw [show b.length = _ from hstr]
      exact le_trans (by decide) hroom
    have hloop := hexLoop_returns 257 hfit (by decide) cleanStack.strOut.property
    exact ⟨b, hb, Option.not_isSome_iff_eq_none.mp fun h => absurd (hloop.isSome_iff.mp h) (by decide)⟩
  · have hkey := createOnuKey_returns md5A cleanStack [] randA.property nowA.property hsecret cleanStack.onuKey.property
    exact Option.not_isSome_iff_eq_none.mp fun h => hlong (hkey.isSome_iff.mp h)
  · have hsend := createSendMessage_returns desA md5A cleanStack randA nowA [] [] [] 3
      (by decide : 0 ∉ [(0x61 : Byte)]) hsecret hempty hroom
    refine Option.not_isSome_iff_eq_none.mp fun h => hlong ?_
    have hfits := hsend.isSome_iff.mp h
    rw [Fits, if_pos (henc _)] at hfits
    exact hfits.2
  · have hsend := createSendMessage_returns desA md5A fullStack randA nowA [] [] [] 1 hempty hempty hempty hroom
    refine Option.not_isSome_iff_eq_none.mp fun h => ?_
    have hfits := hsend.isSome_iff.mp h
    rw [Fits, if_neg (by decide)] at hfits
    rcases hfits with hmode | hzero
    · exact absurd hmode (by decide)
    · rcases List.mem_append.mp hzero with hzero | hzero <;> cases List.eq_of_mem_replicate hzero

end QuickStart.Des3
