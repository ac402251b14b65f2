import Tayga.Headers

/-!
# Discovery and synthesis of the NAT64 prefix

The helper finds the prefix of a DNS64 resolver by asking for the AAAA records of `ipv4only.arpa` and looking for the
two well-known IPv4 addresses in the answers (`extractPref64`, `parseDnsResponse`), and it can be such a resolver
(`synthesizePref64`, `buildDns64Reply`).  It works on bytes, so a message is a list of them; where the source moves
a position along the message, the functions here take what is left of it.
-/

namespace Tayga

/-! ### Addresses -/

/-- `192.0.0.170`, the first of the well-known addresses. -/
def wka1 : In4 := 0xc00000aa

/-- `192.0.0.171`, the second of the well-known addresses. -/
def wka2 : In4 := 0xc00000ab

/-- `match_v4`. -/
def matchV4 (b0 b1 b2 b3 : Byte) : Bool := [b0, b1, b2, b3] = be32 wka1 || [b0, b1, b2, b3] = be32 wka2

/-- The unspecified, IPv4-compatible, IPv4-mapped, multicast and link-local addresses, for the bytes of an address. -/
def excludedBytes (b : List Byte) : Bool :=
  (b.take 10 = List.replicate 10 0 &&
    (getU8 b 10 = 0 && getU8 b 11 = 0 || getU8 b 10 = 0xff && getU8 b 11 = 0xff)) ||
  getU8 b 0 = 0xff || (getU8 b 0 = 0xfe && getU8 b 1 &&& 0xc0 = 0x80)

/-- `extract_pref64`: the prefix length and the prefix of an address that carries a well-known address. -/
def extractPref64 (addr : In6) : Option (Nat × In6) :=
  let b := beIn6 addr
  let byte := getU8 b
  -- the bytes from `i` on are cleared; an empty prefix is refused
  let found := fun len i =>
    let res := b.take i ++ List.replicate (16 - i) 0
    if res = List.replicate 16 0 then none else some (len, getIn6 res 0)
  if excludedBytes b then none
  else if matchV4 (byte 12) (byte 13) (byte 14) (byte 15) then found 96 12
  else if matchV4 (byte 9) (byte 10) (byte 11) (byte 12) then found 64 8
  else if matchV4 (byte 7) (byte 9) (byte 10) (byte 11) then found 56 7
  else if matchV4 (byte 6) (byte 7) (byte 9) (byte 10) then found 48 6
  else if matchV4 (byte 5) (byte 6) (byte 7) (byte 9) then found 40 5
  else if matchV4 (byte 4) (byte 5) (byte 6) (byte 7) then found 32 4
  else none

/-- `synthesize_pref64`. -/
def synthesizePref64 (pfx : In6) (prefixLen : Nat) (ipv4 : In4) : Option In6 :=
  let p := beIn6 pfx
  let v := byte4 ipv4
  let zeros := fun n => List.replicate n (0 : Byte)
  match prefixLen with
  | 96 => some (getIn6 (p.take 12 ++ [v 0, v 1, v 2, v 3]) 0)
  | 64 => some (getIn6 (p.take 8 ++ [0, v 0, v 1, v 2, v 3] ++ zeros 3) 0)
  | 56 => some (getIn6 (p.take 7 ++ [v 0, 0, v 1, v 2, v 3] ++ zeros 4) 0)
  | 48 => some (getIn6 (p.take 6 ++ [v 0, v 1, 0, v 2, v 3] ++ zeros 5) 0)
  | 40 => some (getIn6 (p.take 5 ++ [v 0, v 1, v 2, 0, v 3] ++ zeros 6) 0)
  | 32 => some (getIn6 (p.take 4 ++ [v 0, v 1, v 2, v 3] ++ zeros 8) 0)
  | _ => none

/-! ### Names and types of DNS -/

/-- The record type `AAAA`. -/
def typeAaaa : BitVec 16 := 28

/-- The class `IN`. -/
def classIn : BitVec 16 := 1

/-- The dot between the labels of a domain. -/
def dot : Byte := 0x2e

/-- `ipv4only.arpa`. -/
def ipv4onlyArpa : List Byte :=
  [0x69, 0x70, 0x76, 0x34, 0x6f, 0x6e, 0x6c, 0x79, dot, 0x61, 0x72, 0x70, 0x61]

/-- `tolower` in the C locale. -/
def tolower (b : Byte) : Byte := if 0x41 ≤ b ∧ b ≤ 0x5a then b + 0x20 else b

/-- `strncasecmp` finds no difference in strings without a terminator among the compared bytes. -/
def strncasecmpEq (s t : List Byte) : Bool := s.map tolower = t.map tolower

/-- `skip_dns_name`: what follows the name at the start of the message; `length` bytes of it are behind. -/
def skipDnsName (length : Nat) : List Byte → Option (List Byte)
  | [] => none
  | b :: rest =>
    if b = 0 then some rest
    else if b &&& 0xc0 = 0xc0 then
      match rest with
      | [] => none
      | _ :: rest => some rest
    else if b &&& 0xc0 ≠ 0 ∨ rest.length < b.toNat ∨ 255 < length + (b.toNat + 1) then none
    else skipDnsName (length + (b.toNat + 1)) (rest.drop b.toNat)
termination_by rest => rest.length
decreasing_by simp only [List.length_drop, List.length_cons]; omega

/-- `skip_dns_name` and the four bytes behind it, for each of `n` questions. -/
def skipQuestions : Nat → List Byte → Option (List Byte)
  | 0, rest => some rest
  | n + 1, rest =>
    match skipDnsName 0 rest with
    | none => none
    | some rest => if rest.length < 4 then none else skipQuestions n (rest.drop 4)

/-- The loop of `encode_dns_name` from `label_start` on, with what is written so far. -/
def encodeLabels (qname : List Byte) (labelStart : List Byte) : Option (List Byte) :=
  if labelStart = [] then some (qname ++ [0])
  else
    let label := labelStart.takeWhile (· ≠ dot)
    if label.length = 0 ∨ 63 < label.length ∨ 255 ≤ qname.length + 1 + label.length then none
    else
      let qname := qname ++ BitVec.ofNat 8 label.length :: label
      -- the last label has no dot behind it
      if dot ∉ labelStart then some (qname ++ [0])
      else encodeLabels qname (labelStart.drop (label.length + 1))
termination_by labelStart.length
decreasing_by
  rename_i hne _ _
  have := List.length_pos_iff.2 hne
  simp only [List.length_drop]
  omega

/-- `encode_dns_name`. -/
def encodeDnsName (domain : List Byte) : Option (List Byte) := encodeLabels [] domain

/-! ### The discoverer -/

/-- How `parse_dns_response` fails. -/
inductive DnsError where
  | truncated
  | invalid
deriving Repr, DecidableEq

/-- The name of the question against the expected domain `cur`: what is left of both at the end of the name. -/
def matchQname (cur : List Byte) : List Byte → Option (List Byte × List Byte)
  | [] => none
  | llen :: rest =>
    if llen = 0 then some (cur, rest)
    else if llen &&& 0xc0 ≠ 0 then none
    else if rest.length < llen.toNat then none
    else
      let label := cur.takeWhile (· ≠ dot)
      if label.length = 0 ∨ label.length ≠ llen.toNat ∨ !strncasecmpEq (rest.take llen.toNat) label then none
      else matchQname (cur.drop (label.length + 1)) (rest.drop llen.toNat)
termination_by rest => rest.length
decreasing_by simp only [List.length_drop, List.length_cons]; omega

/-- The first of `n` answers that gives a prefix. -/
def scanAnswers : Nat → List Byte → Option (Nat × In6)
  | 0, _ => none
  | n + 1, rest =>
    if rest = [] then none
    else match skipDnsName 0 rest with
      | none => none
      | some rest =>
        if rest.length < 10 then none
        else
          let rdlen := (getBe16 rest 8).toNat
          let data := rest.drop 10
          if data.length < rdlen then none
          else if getBe16 rest 0 = typeAaaa ∧ getBe16 rest 2 = classIn ∧ rdlen = 16 then
            match extractPref64 (getIn6 data 0) with
            | some r => some r
            | none => scanAnswers n (data.drop rdlen)
          else scanAnswers n (data.drop rdlen)

/-- `parse_dns_response`: the prefix length and the prefix. -/
def parseDnsResponse (resp : List Byte) (expectedId : BitVec 16) (expectedDomain : List Byte) :
    Except DnsError (Nat × In6) :=
  if resp.length < 12 then .error .invalid
  else if getBe16 resp 0 ≠ expectedId then .error .invalid
  -- QR, TC and RCODE
  else if getU8 resp 2 &&& 0x80 = 0 then .error .invalid
  else if getU8 resp 2 &&& 0x02 ≠ 0 then .error .truncated
  else if getU8 resp 3 &&& 0x0f ≠ 0 then .error .invalid
  else
    let qdcount := (getBe16 resp 4).toNat
    let ancount := (getBe16 resp 6).toNat
    if qdcount < 1 then .error .invalid
    else if ancount < 1 then .error .invalid
    else match matchQname expectedDomain (resp.drop 12) with
      | none => .error .invalid
      | some (cur, rest) =>
        if cur ≠ [] ∧ cur ≠ [dot] then .error .invalid
        else if rest.length < 4 then .error .invalid
        else if getBe16 rest 0 ≠ typeAaaa ∨ getBe16 rest 2 ≠ classIn then .error .invalid
        else match skipQuestions (qdcount - 1) (rest.drop 4) with
          | none => .error .invalid
          | some rest => match scanAnswers ancount rest with
            | none => .error .invalid
            | some r => .ok r

/-! ### The responder -/

/-- The loop of `extract_dns_records` over `n` answers: the number of records of the wanted type and, when there is
room for `maxV4` of them, the IPv4 addresses. -/
def countRecords (wantType : BitVec 16) (maxV4 : Nat) : Nat → List Byte → Nat → List In4 → Nat × List In4
  | 0, _, found, v4List => (found, v4List)
  | n + 1, rest, found, v4List =>
    if rest = [] then (found, v4List)
    else match skipDnsName 0 rest with
      | none => (found, v4List)
      | some rest =>
        if rest.length < 10 then (found, v4List)
        else
          let rdlen := (getBe16 rest 8).toNat
          let data := rest.drop 10
          if data.length < rdlen then (found, v4List)
          else if getBe16 rest 0 = wantType ∧ getBe16 rest 2 = classIn then
            if wantType = 1 ∧ rdlen = 4 ∧ found < maxV4 then
              countRecords wantType maxV4 n (data.drop rdlen) (found + 1) (v4List ++ [getBe32 data 0])
            else if wantType = typeAaaa ∧ rdlen = 16 then
              countRecords wantType maxV4 n (data.drop rdlen) (found + 1) v4List
            else countRecords wantType maxV4 n (data.drop rdlen) found v4List
          else countRecords wantType maxV4 n (data.drop rdlen) found v4List

/-- `extract_dns_records`; without a list to fill `maxV4` is `0`. -/
def extractDnsRecords (resp : List Byte) (wantType : BitVec 16) (maxV4 : Nat) : Nat × List In4 :=
  if resp.length < 12 ∨ getU8 resp 2 &&& 0x80 = 0 ∨ getU8 resp 3 &&& 0x0f ≠ 0 then (0, [])
  else match skipQuestions (getBe16 resp 4).toNat (resp.drop 12) with
    | none => (0, [])
    | some rest => countRecords wantType maxV4 (getBe16 resp 6).toNat rest 0 []

/-- The answers of `build_dns64_reply` that fit into `space` bytes. -/
def replyRecords (pfx : In6) (prefixLen : Nat) (rtype : BitVec 16) : Nat → List In4 → List (List Byte)
  | _, [] => []
  | space, v4 :: v4List =>
    let rdlen := if rtype = typeAaaa then 16 else 4
    if space < 12 + rdlen then []
    else
      let rdata := if rtype = typeAaaa then (synthesizePref64 pfx prefixLen v4).map beIn6 else some (be32 v4)
      match rdata with
      | none => replyRecords pfx prefixLen rtype space v4List
      | some rdata =>
        -- a pointer to the question, type, class, a time to live of a minute and the length of the data
        ([0xc0, 0x0c] ++ be16 rtype ++ [0x00, 0x01, 0x00, 0x00, 0x00, 0x3c, 0x00, BitVec.ofNat 8 rdlen] ++ rdata) ::
          replyRecords pfx prefixLen rtype (space - (12 + rdlen)) v4List

/-- `build_dns64_reply`: the reply, empty when not even the question fits. -/
def buildDns64Reply (req : List Byte) (qsecLen : Nat) (pfx : In6) (prefixLen : Nat) (rtype : BitVec 16)
    (v4List : List In4) (rcode : Byte) (respSz : Nat) : List Byte :=
  if respSz < 12 + qsecLen then []
  else
    let records := replyRecords pfx prefixLen rtype (respSz - (12 + qsecLen)) v4List
    [getU8 req 0, getU8 req 1, (getU8 req 2 &&& 0x01) ||| 0x80, 0x80 ||| (rcode &&& 0x0f), 0, 1] ++
      be16 (BitVec.ofNat 16 records.length) ++ [0, 0, 0, 0] ++ (req.drop 12).take qsecLen ++ records.flatten

end Tayga
