import Tayga.Gcfg

/-!
# IPv4 addresses inside an IPv6 prefix

`append_to_prefix` and `extract_from_prefix`, the two halves of the RFC 6052 address format.  The source works on
the native words of the addresses and chooses a shift pattern by the byte order of the machine, so both are written
here over `rawWord` words.
-/

namespace Tayga

variable (g : Gcfg)

/-- The prefix is the well-known one: its first three words are `64:ff9b::`. -/
def isWkpf (p : In6) : Bool := word6 p 0 = wkpf && word6 p 1 = 0 && word6 p 2 = 0

/-- `append_to_prefix`. -/
def appendToPrefix (addr4 : In4) (pfx : In6) (prefixLen : Nat) : Except Error In6 :=
  let e := g.endian
  let a := rawWord e addr4
  let p := fun i => rawWord e (word6 pfx i)
  let mk := fun w0 w1 w2 w3 => ofWords6 (rawWord e w0) (rawWord e w1) (rawWord e w2) (rawWord e w3)
  if (validateIp4Addr addr4).isSome then .error .drop
  else if isWkpf pfx && g.wkpfStrict && isPrivateIp4Addr addr4 then .error .reject
  else match prefixLen with
    | 32 => .ok (mk (p 0) a 0 0)
    | 40 => .ok (mk (p 0) (bigLittle e (p 1 ||| a >>> 8) (p 1 ||| a <<< 8))
        (bigLittle e (a <<< 16 &&& 0x00ff0000) (a >>> 16 &&& 0x0000ff00)) 0)
    | 48 => .ok (mk (p 0) (bigLittle e (p 1 ||| a >>> 16) (p 1 ||| a <<< 16))
        (bigLittle e (a <<< 8 &&& 0x00ffff00) (a >>> 8 &&& 0x00ffff00)) 0)
    | 56 => .ok (mk (p 0) (bigLittle e (p 1 ||| a >>> 24) (p 1 ||| a <<< 24))
        (bigLittle e (a &&& 0x00ffffff) (a &&& 0xffffff00)) 0)
    | 64 => .ok (mk (p 0) (p 1) (bigLittle e (a >>> 8) (a <<< 8)) (bigLittle e (a <<< 24) (a >>> 24)))
    | 96 => .ok (mk (p 0) (p 1) (p 2) a)
    | _ => .error .drop

/-- The address bits `extract_from_prefix` reads, when the bits around them are zero. -/
def extractBits (addr6 : In6) (prefixLen : Nat) : Option In4 :=
  let e := g.endian
  let x := fun i => rawWord e (word6 addr6 i)
  let b := fun i => (byte6 addr6 i).setWidth 32
  -- `s6_addr16[3]` as the machine reads it
  let h3 := bigLittle e (b 6 <<< 8 ||| b 7) (b 6 ||| b 7 <<< 8)
  match prefixLen with
  | 32 => if word6 addr6 2 ≠ 0 ∨ word6 addr6 3 ≠ 0 then none else some (rawWord e (x 1))
  | 40 => if word6 addr6 2 &&& 0xff00ffff ≠ 0 ∨ word6 addr6 3 ≠ 0 then none
      else some (rawWord e (bigLittle e (x 1 <<< 8 ||| b 9) (x 1 >>> 8 ||| x 2 <<< 16)))
  | 48 => if word6 addr6 2 &&& 0xff0000ff ≠ 0 ∨ word6 addr6 3 ≠ 0 then none
      else some (rawWord e (bigLittle e (h3 <<< 16 ||| x 2 >>> 8) (h3 ||| x 2 <<< 8)))
  | 56 => if byte6 addr6 8 ≠ 0 ∨ word6 addr6 3 ≠ 0 then none
      else some (rawWord e (bigLittle e (b 7 <<< 24 ||| x 2) (b 7 ||| x 2)))
  | 64 => if byte6 addr6 8 ≠ 0 ∨ word6 addr6 3 &&& 0x00ffffff ≠ 0 then none
      else some (rawWord e (bigLittle e (x 2 <<< 8 ||| b 12) (x 2 >>> 8 ||| x 3 <<< 24)))
  | 96 => some (rawWord e (x 3))
  | _ => none

/-- `extract_from_prefix`. -/
def extractFromPrefix (addr6 : In6) (prefixLen : Nat) : Except Error In4 :=
  match extractBits g addr6 prefixLen with
  | none => .error .drop
  | some addr4 => match validateIp4Addr addr4 with
    | some err => .error err
    | none => .ok addr4

end Tayga
