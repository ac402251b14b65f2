import Tayga.Lib.BitPrefix

/-!
# Addresses

IPv4 and IPv6 addresses, the address classes the translator refuses, and the machine view of an address.  An
address is the number its bytes spell in network order; where the source works on the words as the machine holds
them (`s_addr`, `s6_addr32`), `rawWord` converts, so both byte orders of `BIG_LITTLE` are covered.
-/

namespace Tayga

/-- An octet. -/
abbrev Byte := BitVec 8

instance : LawfulBEq Byte := inferInstance

/-- `struct in_addr`, in host order. -/
abbrev In4 := BitVec 32

/-- `struct in6_addr`, the sixteen bytes read as one number, most significant first. -/
abbrev In6 := BitVec 128

/-- The byte order of the machine. -/
inductive Endian where
  | big
  | little
deriving Repr, DecidableEq

/-- The packet error codes. -/
inductive Error where
  | reject
  | drop
  | local4
deriving Repr, DecidableEq

/-! ### Words and bytes of an address -/

/-- The 32-bit word spelled by four bytes in network order. -/
def ofBytes4 (b0 b1 b2 b3 : Byte) : BitVec 32 := b0 ++ b1 ++ b2 ++ b3

/-- Byte `i` of a 32-bit word in network order. -/
def byte4 (a : BitVec 32) (i : Nat) : Byte := (a >>> (24 - 8 * i)).setWidth 8

/-- The word the machine holds for the four bytes of `w`. -/
def rawWord (e : Endian) (w : BitVec 32) : BitVec 32 :=
  match e with
  | .big => w
  | .little => ofBytes4 (byte4 w 3) (byte4 w 2) (byte4 w 1) (byte4 w 0)

/-- `BIG_LITTLE`. -/
def bigLittle {α : Type} (e : Endian) (x y : α) : α :=
  match e with
  | .big => x
  | .little => y

/-- `ntohl (a->s6_addr32[i])`. -/
def word6 (a : In6) (i : Nat) : BitVec 32 := (a >>> (96 - 32 * i)).setWidth 32

/-- `ntohs (a->s6_addr16[i])`. -/
def half6 (a : In6) (i : Nat) : BitVec 16 := (a >>> (112 - 16 * i)).setWidth 16

/-- `a->s6_addr[i]`. -/
def byte6 (a : In6) (i : Nat) : Byte := (a >>> (120 - 8 * i)).setWidth 8

/-- The address with these four words in network order. -/
def ofWords6 (w0 w1 w2 w3 : BitVec 32) : In6 := w0 ++ w1 ++ w2 ++ w3

/-- `WKPF`: the first word of the well-known prefix `64:ff9b::/96`. -/
def wkpf : BitVec 32 := 0x0064ff9b

/-! ### Address classes -/

/-- `validate_ip4_addr`: the addresses reserved by the protocol; link-local ones are reported apart. -/
def validateIp4Addr (a : In4) : Option Error :=
  if a &&& 0xff000000 = 0x00000000 then some .drop
  else if a &&& 0xff000000 = 0x7f000000 then some .drop
  else if a &&& 0xffff0000 = 0xa9fe0000 then some .local4
  else if a &&& 0xf0000000 = 0xe0000000 then some .drop
  else if a = 0xffffffff then some .drop
  else none

/-- `validate_ip6_addr`. -/
def validateIp6Addr (a : In6) : Option Error :=
  if word6 a 0 = wkpf then none
  else if byte6 a 0 = 0 then some .drop
  else if byte6 a 0 = 0xff then some .drop
  else if half6 a 0 &&& 0xffc0 = 0xfe80 then some .drop
  else none

/-- `is_private_ip4_addr`: the addresses the well-known prefix must not carry. -/
def isPrivateIp4Addr (a : In4) : Bool :=
  a &&& 0xff000000 = 0x0a000000 || a &&& 0xffc00000 = 0x64400000 || a &&& 0xfff00000 = 0xac100000 ||
  a &&& 0xffffff00 = 0xc0000200 || a &&& 0xffff0000 = 0xc0a80000 || a &&& 0xfffe0000 = 0xc6120000 ||
  a &&& 0xffffff00 = 0xc6336400 || a &&& 0xffffff00 = 0xcb007100 ||
  (a &&& 0xffffff00 = 0xc0000000 && a &&& 0xfffffff8 != 0xc0000000) || a &&& 0xf0000000 = 0xf0000000

/-! ### Masks -/

/-- The mask `calc_ip4_mask` computes for a length in range. -/
def ip4Mask (len : Nat) : In4 := if len = 0 then 0 else 0xffffffff <<< (32 - len)

/-- Byte `i` of the mask `calc_ip6_mask` computes. -/
def ip6MaskByte (len i : Nat) : Byte :=
  if 8 ≤ len - 8 * i then 0xff else if 0 < len - 8 * i then 0xff <<< (8 - (len - 8 * i)) else 0

/-- The mask `calc_ip6_mask` computes for a length in range. -/
def ip6Mask (len : Nat) : In6 :=
  (List.range 16).foldl (fun m i => (m <<< 8) ||| (ip6MaskByte len i).setWidth 128) 0

/-- `calc_ip4_mask`: the mask, unless `addr` has host bits set. -/
def calcIp4Mask (addr : In4) (len : Nat) : Option In4 :=
  if 32 < len then none else if addr &&& ~~~ip4Mask len ≠ 0 then none else some (ip4Mask len)

/-- `calc_ip6_mask`: the mask, unless `addr` has host bits set. -/
def calcIp6Mask (addr : In6) (len : Nat) : Option In6 :=
  if 128 < len then none else if addr &&& ~~~ip6Mask len ≠ 0 then none else some (ip6Mask len)

end Tayga
