import QuickStart.Buffer

/-! # `des3_encrypt.c`

The functions that build the option-60 message and write it as hexadecimal text. Each takes its arrays as they
are before the call and returns them as they are afterwards, or `none` where an access leaves an array.
`DES_ecb3_encrypt` and MD5 are parameters. -/

namespace QuickStart.Des3
open Buffer

/-- `DES_ecb3_encrypt` with the schedules of three keys. -/
abbrev Ecb3 := Bytes 8 → Bytes 8 → Bytes 8 → Bytes 8 → Bytes 8

abbrev Hash := List Byte → Bytes 16

/-- The local arrays of all functions, with whatever they hold before they are written. -/
structure Stack where
  /-- `str_out` and `cmd` of `outPutFileStr`; behind `str_out`, the memory that `%s` runs on into where `str_out`
  holds no zero, as far as a string reaches that fits `cmd` -/
  strOut : Bytes 500
  behind : Bytes 78
  cmd : Bytes 600
  /-- `data` of `create_onu_key` -/
  data : Bytes 256
  /-- `encrypt_key` and `pkcs7_str` of `create_encrypt_data` -/
  encryptKey : Bytes 500
  pkcs7Str : Bytes 500
  /-- `random`, `timenow`, `onu_key` and `encry_data` of `create_encrypt_message` -/
  random : Bytes 8
  timenow : Bytes 8
  onuKey : Bytes 16
  encryData : Bytes 500
  /-- `sn` and `encry_data` of `create_send_message` -/
  sn : Bytes 24
  sendData : Bytes 500

/-- The eight bytes at `off`. -/
def readBlock (src : List Byte) (off : Nat) : Option (Bytes 8) :=
  if h : off + 8 ≤ src.length then
    some ⟨(src.drop off).take 8, by rw [List.length_take, List.length_drop]; omega⟩
  else none

/-! ### Text -/

/-- A digit of `%02x`. -/
def hexDigit (n : Nat) : Byte := BitVec.ofNat 8 (if n < 10 then 48 + n else 87 + n)

/-- `%02x`. -/
def hexByte (b : Byte) : List Byte := [hexDigit (b.toNat / 16), hexDigit (b.toNat % 16)]

def echo : List Byte := [0x65, 0x63, 0x68, 0x6f, 0x20]

/-- `" > ./encrypt_data"`. -/
def redirect : List Byte :=
  [0x20, 0x3e, 0x20, 0x2e, 0x2f, 0x65, 0x6e, 0x63, 0x72, 0x79, 0x70, 0x74, 0x5f, 0x64, 0x61, 0x74, 0x61]

def adminAdmin : List Byte := [0x61, 0x64, 0x6d, 0x69, 0x6e, 0x2f, 0x61, 0x64, 0x6d, 0x69, 0x6e]

/-- The loop of `outPutFileStr` from the `i`-th byte on, with `n` bytes to go; `sprintf` ends each pair of
    digits with a zero. -/
def hexLoop (str : List Byte) : Nat → Nat → List Byte → Option (List Byte)
  | 0, _, strOut => some strOut
  | n + 1, i, strOut => do
    let b ← str[i]?
    let strOut ← write strOut (i * 2) (hexByte b ++ [0])
    hexLoop str n (i + 1) strOut

/-- `outPutFileStr`: the command that it runs. -/
def outPutFileStr (stack : Stack) (str : List Byte) (len : Nat) : Option (List Byte) := do
  let strOut ← hexLoop str len 0 stack.strOut.val
  let s ← cString (strOut ++ stack.behind.val)
  let cmd ← write stack.cmd.val 0 (echo ++ s ++ redirect ++ [0])
  cString cmd

/-- `strlen` as an `int`: the low 32 bits of the length. As a `size_t` a negative one is beyond every array. -/
def intStrlen (s : List Byte) : Option Nat :=
  (strlen s).bind fun n => if n % 2 ^ 32 < 2 ^ 31 then some (n % 2 ^ 32) else none

/-! ### Keys -/

/-- `strnrand`; `rand` are the values of `rand()`. -/
def strnrand (str : List Byte) (rand : Bytes 8) : Option (List Byte) := write str 0 rand.val

/-- `byte_time`; `now` is the clock as it lies in memory. -/
def byteTime (str : List Byte) (now : Bytes 8) : Option (List Byte) := do
  let str ← memset str 0 8
  write str 0 now.val

def createEncryptKey (random timenow str : List Byte) : Option (List Byte) := do
  let str ← memset str 0 500
  let str ← memcpy str 0 random 8
  memcpy str 8 timenow 8

def createOnuKey (md5 : Hash) (stack : Stack) (random timenow password str : List Byte) : Option (List Byte) := do
  let pwdlen ← intStrlen password
  let data ← memset stack.data.val 0 256
  let data ← memcpy data 0 random 8
  let data ← memcpy data 8 password pwdlen
  let data ← memcpy data (8 + pwdlen) timenow 8
  let input ← read data 0 (16 + pwdlen)
  write str 0 (md5 input).val

/-! ### Encryption -/

/-- The loop of `set_pkcs7_padding`, with `n` bytes to go. -/
def padLoop (p : Byte) : Nat → Nat → List Byte → Option (List Byte)
  | 0, _, str => some str
  | n + 1, len, str => do
    let str ← write str len [p]
    padLoop p n (len + 1) str

/-- `set_pkcs7_padding`: the padded string and the number of its blocks. -/
def setPkcs7Padding (input str : List Byte) : Option (List Byte × Nat) := do
  let len ← intStrlen input
  let p := if len ≠ 0 then 8 - len % 8 else 0
  let str ← memcpy str 0 input len
  let str ← padLoop (BitVec.ofNat 8 p) p len str
  return (str, (len + p) / 8)

/-- The second loop of `create_encrypt_data` from the `i`-th block on, with `n` blocks to go. -/
def encryptLoop (encrypt : Bytes 8 → Bytes 8) (pkcs7Str : List Byte) : Nat → Nat → List Byte → Option (List Byte)
  | 0, _, str => some str
  | n + 1, i, str => do
    let block ← readBlock pkcs7Str (i * 8)
    let str ← write str (i * 8) (encrypt block).val
    encryptLoop encrypt pkcs7Str n (i + 1) str

def createEncryptData (desEcb3Encrypt : Ecb3) (stack : Stack) (random timenow username str : List Byte) :
    Option (List Byte × Nat) := do
  let str ← memset str 0 500
  let encryptKey ← createEncryptKey random timenow stack.encryptKey.val
  let k0 ← readBlock encryptKey 0
  let k1 ← readBlock encryptKey 8
  let k2 ← readBlock encryptKey 16
  let (pkcs7Str, encryptCount) ← setPkcs7Padding username stack.pkcs7Str.val
  let str ← encryptLoop (desEcb3Encrypt k0 k1 k2) pkcs7Str encryptCount 0 str
  return (str, encryptCount * 8)

/-! ### Messages -/

def createEncryptMessage (desEcb3Encrypt : Ecb3) (md5 : Hash) (stack : Stack) (rand now : Bytes 8)
    (username password str : List Byte) : Option (List Byte × Nat) := do
  let str ← memset str 0 500
  let str ← write str 0 [1]
  let random ← strnrand stack.random.val rand
  let timenow ← byteTime stack.timenow.val now
  let str ← memcpy str 1 random 8
  let str ← memcpy str 9 timenow 8
  let onuKey ← createOnuKey md5 stack random timenow password stack.onuKey.val
  let str ← memcpy str 17 onuKey 16
  let (encryData, len) ← createEncryptData desEcb3Encrypt stack random timenow username stack.encryData.val
  let str ← memcpy str 33 encryData len
  return (str, len + 33)

/-- The message of `create_send_message` and its length. -/
def sendMessage (desEcb3Encrypt : Ecb3) (md5 : Hash) (stack : Stack) (rand now : Bytes 8)
    (username password serialnum : List Byte) (mode : Int) (str : List Byte) : Option (List Byte × Nat) := do
  let str ← memset str 0 256
  let sn ← memset stack.sn.val 0 24
  if mode = 2 then
    if (← strlen username) ≠ 0 then
      let (encryData, len) ← createEncryptMessage desEcb3Encrypt md5 stack rand now username password stack.sendData.val
      return (← memcpy str 0 encryData len, len)
    else
      let n ← strlen serialnum
      let sn ← memcpy sn 0 serialnum (if n > 24 then 24 else n)
      let str ← memcpy str 0 sn 24
      return (← write str 24 (adminAdmin ++ [0]), 35)
  else if mode = 3 then
    let (encryData, len) ← createEncryptMessage desEcb3Encrypt md5 stack rand now username password stack.sendData.val
    return (← memcpy str 0 encryData len, len)
  else return (str, 0)

/-- `create_send_message`: the array `str`, the result, and the command that `outPutFileStr` runs. -/
def createSendMessage (desEcb3Encrypt : Ecb3) (md5 : Hash) (stack : Stack) (rand now : Bytes 8)
    (username password serialnum : List Byte) (mode : Int) (str : List Byte) :
    Option (List Byte × Nat × List Byte) := do
  let (str, len) ← sendMessage desEcb3Encrypt md5 stack rand now username password serialnum mode str
  let cmd ← outPutFileStr stack str len
  return (str, len, cmd)

/-! ### The receiver -/

/-- The value of a hexadecimal digit. -/
def hexValue (c : Byte) : Option Nat :=
  if 48 ≤ c.toNat ∧ c.toNat < 58 then some (c.toNat - 48)
  else if 97 ≤ c.toNat ∧ c.toNat < 103 then some (c.toNat - 87)
  else none

/-- The bytes that a text of hexadecimal digits stands for. -/
def unhex : List Byte → Option (List Byte)
  | [] => some []
  | [_] => none
  | c :: d :: rest => do
    let hi ← hexValue c
    let lo ← hexValue d
    let bytes ← unhex rest
    return BitVec.ofNat 8 (16 * hi + lo) :: bytes

/-- The blocks of a ciphertext. -/
def blocks : List Byte → List (Bytes 8)
  | a :: b :: c :: d :: e :: f :: g :: h :: rest => ⟨[a, b, c, d, e, f, g, h], rfl⟩ :: blocks rest
  | _ => []

/-- A text without its PKCS#7 padding. -/
def unpad (text : List Byte) : Option (List Byte) := do
  let p ← text.getLast?
  if 1 ≤ p.toNat ∧ p.toNat ≤ 8 ∧ p.toNat ≤ text.length ∧
      text.drop (text.length - p.toNat) = List.replicate p.toNat p then
    return text.take (text.length - p.toNat)
  else none

/-- The username of a message: its ciphertext is decrypted with the keys random, time and zero. -/
def decryptMessage (desEcb3Decrypt : Ecb3) (message : List Byte) : Option (List Byte) := do
  let random ← readBlock message 1
  let timenow ← readBlock message 9
  let decrypt := desEcb3Decrypt random timenow ⟨List.replicate 8 0, List.length_replicate⟩
  unpad ((blocks (message.drop 33)).flatMap fun block => (decrypt block).val)

end QuickStart.Des3
