import Tayga.Headers
import Tayga.Lib.OnesComplement

/-!
# Checksums

The checksum functions of `nat64.c`, `tayga.h` and `gso.c`.  Most of them work on words as the machine loads them, so
their results are numbers in machine order: `htons` (which is `ntohs`) converts between these and the numbers the
bytes spell.
-/

namespace Tayga

open OnesComplement

/-- `htons` and `ntohs`. -/
def htons (e : Endian) (x : BitVec 16) : BitVec 16 :=
  match e with
  | .big => x
  | .little => swap x

/-- The number the machine loads from some bytes. -/
def loadRaw (e : Endian) (d : List Byte) : Nat :=
  match e with
  | .big => d.foldl (fun n b => n * 256 + b.toNat) 0
  | .little => d.foldr (fun b n => b.toNat + 256 * n) 0

/-- The sum of the 16-bit words the machine loads from some bytes. -/
def sumRaw (e : Endian) (d : List Byte) : Nat :=
  match e with
  | .big => sumWords d
  | .little => sumSwapped d

/-- The first loop of `ip_checksum`: words of 64 bits, with the carry brought around. -/
def sumDwords (e : Endian) (sum : BitVec 64) : List Byte → BitVec 64 × List Byte
  | b0 :: b1 :: b2 :: b3 :: b4 :: b5 :: b6 :: b7 :: d =>
    let word := BitVec.ofNat 64 (loadRaw e [b0, b1, b2, b3, b4, b5, b6, b7])
    let sum := sum + word
    sumDwords e (if sum < word then sum + 1 else sum) d
  | d => (sum, d)

/-- One more word of `k` bytes, if there are as many left. -/
def addWord (e : Endian) (k : Nat) (s : Nat × List Byte) : Nat × List Byte :=
  if k ≤ s.2.length then (s.1 + loadRaw e (s.2.take k), s.2.drop k) else s

/-- The last byte, if there is one. -/
def addByte (e : Endian) (s : Nat × List Byte) : Nat :=
  match s.2 with
  | [] => s.1
  | b :: _ => s.1 + bigLittle e (b.toNat * 256) b.toNat

/-- `ip_checksum`. -/
def ipChecksum (e : Endian) (d : List Byte) : BitVec 16 :=
  let s := sumDwords e 0xffff d
  let sum := s.1.toNat % 2 ^ 32 + s.1.toNat / 2 ^ 32
  let sum := sum % 2 ^ 32 + sum / 2 ^ 32
  ~~~ofSum (addByte e (addWord e 2 (addWord e 4 (sum, s.2))))

/-- `ones_add`. -/
def onesAdd (a b : BitVec 16) : BitVec 16 :=
  let sum := (~~~a).toNat + (~~~b).toNat
  ~~~BitVec.ofNat 16 (sum % 65536 + sum / 65536)

/-- `ip4_checksum`: the checksum of the pseudo-header. -/
def ip4Checksum (e : Endian) (ip4 : Ip4) (dataLen : BitVec 32) (proto : Byte) : BitVec 16 :=
  let len := rawWord e dataLen
  ~~~ofSum (sumRaw e (be32 ip4.src ++ be32 ip4.dest) + (len >>> 16).toNat + (len &&& 0xffff).toNat +
    (htons e (proto.setWidth 16)).toNat)

/-- `ip6_checksum`. -/
def ip6Checksum (e : Endian) (ip6 : Ip6) (dataLen : BitVec 32) (proto : Byte) : BitVec 16 :=
  let len := rawWord e dataLen
  ~~~ofSum (sumRaw e (beIn6 ip6.src ++ beIn6 ip6.dest) + (len >>> 16).toNat + (len &&& 0xffff).toNat +
    (htons e (proto.setWidth 16)).toNat)

/-- `ip4_header_checksum`. -/
def ip4HeaderChecksum (e : Endian) (ip4 : Ip4) : BitVec 16 :=
  let w := fun i => (rawWord e (getBe32 ip4.toBytes (4 * i))).toNat
  let sum := w 0 + w 1 + w 2 + w 3 + w 4
  let sum := sum % 2 ^ 32 + sum / 2 ^ 32
  let sum := sum % 65536 + sum / 65536
  let sum := sum % 65536 + sum / 65536
  ~~~BitVec.ofNat 16 sum

/-- `convert_cksum`: what the change of the addresses does to a transport checksum. -/
def convertCksum (e : Endian) (ip6 : Ip6) (ip4 : Ip4) : BitVec 16 :=
  let s := fun i => (rawWord e (word6 ip6.src i)).toNat
  let d := fun i => (rawWord e (word6 ip6.dest i)).toNat
  let sum := (~~~rawWord e ip4.src).toNat + (~~~rawWord e ip4.dest).toNat + s 0 + s 1 + s 2 + s 3 + d 0 + d 1 + d 2 +
    d 3
  let sum := if 0xffffffff < sum then sum % 2 ^ 32 + sum / 2 ^ 32 else sum
  let sum := if 0xffff < sum then sum % 65536 + sum / 65536 else sum
  let sum := if 0xffff < sum then sum % 65536 + sum / 65536 else sum
  BitVec.ofNat 16 sum

/-! ### Seeds of partial checksums -/

/-- `gso_calc_pseudo4`. -/
def gsoCalcPseudo4 (src4 dst4 : In4) (proto : Byte) (len : BitVec 32) : BitVec 16 :=
  ofSum ((src4 >>> 16).toNat + (src4 &&& 0xffff).toNat + (dst4 >>> 16).toNat + (dst4 &&& 0xffff).toNat + proto.toNat +
    (len &&& 0xffff).toNat)

/-- `gso_calc_pseudo6`. -/
def gsoCalcPseudo6 (src6 dst6 : In6) (proto : Byte) (len : BitVec 32) : BitVec 16 :=
  ofSum (((List.range 8).map fun i => (half6 src6 i).toNat).sum + ((List.range 8).map fun i =>
      (half6 dst6 i).toNat).sum +
    (len >>> 16).toNat + (len &&& 0xffff).toNat + proto.toNat)

end Tayga
