import QuickStart.Checksum

/-! # `httpredirect.ko`

`http404_nf_cb` on a linear packet: the test for a 404 answer, the 302 answer in its place, and the checksums.
`csum_partial`, `tcp_v4_check` and `ip_compute_csum` are the one's complement sums of RFC 1071. -/

namespace QuickStart.Httpredirect
open Checksum

inductive IpSummed
  | checksumNone
  | checksumUnnecessary
  | checksumComplete
  | checksumPartial
  deriving DecidableEq, Repr

inductive Verdict
  | drop
  | accept
  deriving DecidableEq, Repr

structure Skb where
  /-- The bytes from the network header to the tail. -/
  data : List Byte
  /-- The memory behind the tail. -/
  beyond : List Byte
  /-- The offsets of the headers from `skb->head`. -/
  networkHeader : Nat
  transportHeader : Nat
  ipSummed : IpSummed
  csumStart : Nat
  csumOffset : Nat
  deriving DecidableEq, Repr

/-- The string in `http_404redirect_url`. -/
structure Url where
  text : List Byte
  nul : 0 ∉ text
  short : text.length ≤ 127

structure Config where
  http404redirectUrl : Url
  http404redirectEnable : Int

/-! ### Header fields -/

def ipprotoTcp : Byte := 6

/-- `offsetof(struct tcphdr, check)` and the place of `check` in `struct iphdr`. -/
def tcpCheck : Nat := 16
def ipCheck : Nat := 10

def byteAt (mem : List Byte) (i : Nat) : Byte := mem.getD i 0

def ipHdrlen (mem : List Byte) : Nat := (byteAt mem 0).toNat % 16 * 4

/-- `ntohs(iph->tot_len)`. -/
def totLen (mem : List Byte) : Nat := (byteAt mem 2).toNat * 256 + (byteAt mem 3).toNat

def protocol (mem : List Byte) : Byte := byteAt mem 9

def saddr (mem : List Byte) : List Byte := (mem.drop 12).take 4

def daddr (mem : List Byte) : List Byte := (mem.drop 16).take 4

def tcpHdrlen (mem : List Byte) (tcph : Nat) : Nat := (byteAt mem (tcph + 12)).toNat / 16 * 4

/-- The offset of the TCP header from the network header. -/
def Skb.tcph (skb : Skb) : Nat := skb.transportHeader - skb.networkHeader

/-- The memory from the network header on. -/
def Skb.mem (skb : Skb) : List Byte := skb.data ++ skb.beyond

/-! ### Sums -/

/-- The addresses, the protocol and the length as the TCP checksum covers them. -/
def pseudoHeader (saddr daddr : List Byte) (len : Nat) : List Byte := saddr ++ daddr ++ ([0, ipprotoTcp] ++ be16 len)

/-- `csum_partial(data, len, 0)`, folded. -/
def csumPartial (data : List Byte) : Nat := onesSum data

def tcpV4Check (len : Nat) (saddr daddr : List Byte) (base : Nat) : Nat :=
  65535 - onesAdd (onesSum (pseudoHeader saddr daddr len)) base

/-! ### The answer -/

/-- `"HTTP/1.1 302 Found\r\nLocation: "`. -/
def found : List Byte :=
  [0x48, 0x54, 0x54, 0x50, 0x2f, 0x31, 0x2e, 0x31, 0x20, 0x33, 0x30, 0x32, 0x20, 0x46, 0x6f, 0x75, 0x6e, 0x64, 0x0d, 0x0a,
    0x4c, 0x6f, 0x63, 0x61, 0x74, 0x69, 0x6f, 0x6e, 0x3a, 0x20]

/-- `"\r\nContent-Length: 0\r\n\r\n"`. -/
def noContent : List Byte :=
  [0x0d, 0x0a, 0x43, 0x6f, 0x6e, 0x74, 0x65, 0x6e, 0x74, 0x2d, 0x4c, 0x65, 0x6e, 0x67, 0x74, 0x68, 0x3a, 0x20, 0x30, 0x0d,
    0x0a, 0x0d, 0x0a]

def http302Header (url : Url) : List Byte := found ++ url.text ++ noContent

def text404 : List Byte := [0x34, 0x30, 0x34]
def textHttp : List Byte := [0x48, 0x54, 0x54, 0x50]

/-- `strnstr(s, needle, len) != NULL`: the needle is somewhere in the first `len` bytes. -/
def strnstr (s needle : List Byte) (len : Nat) : Bool :=
  (List.range (len + 1 - needle.length)).any fun i => (s.drop i).take needle.length == needle

/-- The packet is a TCP packet that looks like a 404 answer, and the redirection is on. -/
def rewrites (cfg : Config) (skb : Skb) : Bool :=
  let tcpPayload := skb.tcph + tcpHdrlen skb.mem skb.tcph
  protocol skb.mem == ipprotoTcp && cfg.http404redirectEnable != 0 &&
    (strnstr (skb.mem.drop (tcpPayload + 8)) text404 10 && strnstr (skb.mem.drop tcpPayload) textHttp 5)

/-- `sprintf` and `memset` on the payload. What they write behind the tail is left out as far as it is behind
    the memory that the model has. -/
def redirectPayload (url : Url) (skb : Skb) : List Byte :=
  let tcpPayload := skb.tcph + tcpHdrlen skb.mem skb.tcph
  let mem := patch skb.mem tcpPayload (http302Header url ++ [0])
  -- `strlen(tcp_payload)` is the length of what `sprintf` has just written.
  let len := (http302Header url).length
  let count := skb.data.length - tcpPayload + len + 1
  patch mem (tcpPayload + len + 1) (List.replicate count 0)

/-- The TCP checksum, or its seed for the device. -/
def checkTcp (skb : Skb) (mem : List Byte) : List Byte :=
  let mem := patch mem (skb.tcph + tcpCheck) (be16 0)
  let check :=
    if skb.ipSummed = .checksumPartial then 65535 - tcpV4Check (totLen mem - ipHdrlen mem) (saddr mem) (daddr mem) 0
    else
      let len := skb.data.length - skb.tcph
      tcpV4Check len (saddr mem) (daddr mem) (csumPartial ((mem.take skb.data.length).drop skb.tcph))
  patch mem (skb.tcph + tcpCheck) (be16 check)

def checkIp (skb : Skb) (mem : List Byte) : List Byte :=
  let mem := patch mem ipCheck (be16 0)
  patch mem ipCheck (be16 (ipComputeCsum (mem.take skb.tcph)).toNat)

/-- The packet with another memory. -/
def Skb.setMem (skb : Skb) (mem : List Byte) : Skb :=
  { skb with data := mem.take skb.data.length, beyond := mem.drop skb.data.length }

/-- The fields that tell the device where to sum. -/
def Skb.setCsum (skb : Skb) : Skb :=
  if skb.ipSummed = .checksumPartial then { skb with csumStart := skb.transportHeader, csumOffset := tcpCheck } else skb

def http404NfCb (cfg : Config) : Option Skb → Verdict × Option Skb
  | none => (.drop, none)
  | some skb =>
    if rewrites cfg skb then
      (.accept, some ((skb.setMem (checkIp skb (checkTcp skb (redirectPayload cfg.http404redirectUrl skb)))).setCsum))
    else (.accept, some skb)

/-! ### The device and the receiver -/

/-- The packet on the wire: in the mode `CHECKSUM_PARTIAL` the device sums from `csum_start` to the end and
    stores the complement at `csum_offset`. -/
def transmit (skb : Skb) : List Byte :=
  if skb.ipSummed = .checksumPartial then
    let start := skb.csumStart - skb.networkHeader
    patch skb.data (start + skb.csumOffset) (be16 (65535 - onesSum (skb.data.drop start)))
  else skb.data

def IpVerifies (data : List Byte) : Prop := onesSum (data.take (ipHdrlen data)) = 65535

def TcpVerifies (data : List Byte) : Prop :=
  onesSum (pseudoHeader (saddr data) (daddr data) (data.length - ipHdrlen data) ++ data.drop (ipHdrlen data)) = 65535

end QuickStart.Httpredirect
