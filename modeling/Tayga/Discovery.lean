import Tayga.Synthesis

/-!
# The responder and the discoverer

`build_dns64_reply` answers a query for the AAAA records of `ipv4only.arpa` and `parse_dns_response` reads the prefix
out of such an answer.  The key facts: what the walk over names and records does at one label (`skipDnsName_label`,
`matchQname_label`) and at one record of a reply (`scanAnswers_record`, `countRecords_record`), which records fit into
the buffer (`replyRecords_eq`), and the result, that the discoverer finds the responder's prefix as soon as one answer
fits (`discover_reply`).
-/

namespace Tayga

open BitPrefix

/-! ### Names -/

/-- The wire form of `ipv4only.arpa`. -/
def ipv4onlyWire : List Byte :=
  [8, 0x69, 0x70, 0x76, 0x34, 0x6f, 0x6e, 0x6c, 0x79, 4, 0x61, 0x72, 0x70, 0x61, 0]

/-- The request asks for the AAAA records of `ipv4only.arpa`, in letters of any case, in a question of `qsecLen`
bytes. -/
def AaaaQuery (req : List Byte) (qsecLen : Nat) : Prop :=
  ∃ header name rest, header.length = 12 ∧ name.map tolower = ipv4onlyWire ∧
    req = header ++ (name ++ be16 typeAaaa ++ be16 classIn) ++ rest ∧ qsecLen = name.length + 4

/-- Only letters change their case. -/
private theorem tolower_eq {b c : Byte} (h : tolower b = c) (hc : c < 0x41) : b = c := by
  unfold tolower at h
  split at h
  · bv_omega
  · exact h

/-- The length byte of a label is not the terminator and not a pointer. -/
private theorem label_length {n : Nat} (h0 : 0 < n) (h : n < 64) : BitVec.ofNat 8 n ≠ 0 ∧
    BitVec.ofNat 8 n &&& 0xc0 = 0 ∧ (BitVec.ofNat 8 n).toNat = n := by
  have hm : ∀ k < 64, BitVec.ofNat 8 k &&& 0xc0 = 0 := by decide
  have hn : (BitVec.ofNat 8 n).toNat = n := by
    rw [BitVec.toNat_ofNat]
    omega
  refine ⟨?_, hm n h, hn⟩
  intro hz
  rw [hz] at hn
  exact absurd hn (by simp; omega)

theorem skipDnsName_zero (n : Nat) (rest : List Byte) : skipDnsName n (0 :: rest) = some rest := by
  rw [skipDnsName.eq_def]
  exact if_pos rfl

/-- A pointer ends a name. -/
theorem skipDnsName_pointer (n : Nat) {b : Byte} (hb : b &&& 0xc0 = 0xc0) (c : Byte) (rest : List Byte) :
    skipDnsName n (b :: c :: rest) = some rest := by
  have h0 : b ≠ 0 := by
    rintro rfl
    exact absurd hb (by decide)
  rw [skipDnsName.eq_def]
  dsimp only
  rw [if_neg h0, if_pos hb]

theorem skipDnsName_label {n : Nat} {l : List Byte} (h0 : 0 < l.length) (h : l.length < 64)
    (hn : n + (l.length + 1) ≤ 255) (rest : List Byte) :
    skipDnsName n (BitVec.ofNat 8 l.length :: (l ++ rest)) = skipDnsName (n + (l.length + 1)) rest := by
  obtain ⟨hz, hm, ht⟩ := label_length h0 h
  rw [skipDnsName.eq_def]
  dsimp only
  rw [if_neg hz, hm, if_neg (by decide), if_neg, ht, List.drop_left]
  rw [ht, List.length_append]
  simp only [ne_eq, not_true_eq_false, false_or, not_or]
  omega

/-- A label that agrees with the next label of the domain up to case. -/
theorem matchQname_label {cur l : List Byte} (h0 : 0 < l.length) (h : l.length < 64)
    (hl : l.map tolower = (cur.takeWhile (· ≠ dot)).map tolower) (rest : List Byte) :
    matchQname cur (BitVec.ofNat 8 l.length :: (l ++ rest)) = matchQname (cur.drop (l.length + 1)) rest := by
  obtain ⟨hz, hm, ht⟩ := label_length h0 h
  have hlen : (cur.takeWhile (· ≠ dot)).length = l.length := by
    rw [← List.length_map tolower, ← hl, List.length_map]
  rw [matchQname, if_neg hz, hm, if_neg (by decide), if_neg]
  · simp only [ht, hlen, List.drop_left, List.take_left]
    rw [if_neg]
    simp only [strncasecmpEq, hl, decide_true, Bool.not_true, Bool.false_eq_true, or_false, ne_eq, not_true]
    omega
  · rw [ht, List.length_append]
    omega

/-- A name with the letters of `ipv4only.arpa`, label by label. -/
private theorem wire_labels {name : List Byte} (h : name.map tolower = ipv4onlyWire) :
    ∃ l m : List Byte, name = BitVec.ofNat 8 l.length :: (l ++ BitVec.ofNat 8 m.length :: (m ++ [0])) ∧
      l.map tolower = [0x69, 0x70, 0x76, 0x34, 0x6f, 0x6e, 0x6c, 0x79] ∧
      m.map tolower = [0x61, 0x72, 0x70, 0x61] := by
  have hw : ipv4onlyWire = 8 :: ([0x69, 0x70, 0x76, 0x34, 0x6f, 0x6e, 0x6c, 0x79] ++
      4 :: ([0x61, 0x72, 0x70, 0x61] ++ [0])) := rfl
  rw [hw, List.map_eq_cons_iff] at h
  obtain ⟨b, name, rfl, hb, h⟩ := h
  obtain ⟨l, name, rfl, hl, h⟩ := List.map_eq_append_iff.1 h
  obtain ⟨c, name, rfl, hc, h⟩ := List.map_eq_cons_iff.1 h
  obtain ⟨m, name, rfl, hm, h⟩ := List.map_eq_append_iff.1 h
  obtain ⟨d, name, rfl, hd, h⟩ := List.map_eq_cons_iff.1 h
  rw [List.map_eq_nil_iff] at h
  subst h
  have hll : l.length = 8 := by
    rw [← List.length_map tolower, hl]
    rfl
  have hml : m.length = 4 := by
    rw [← List.length_map tolower, hm]
    rfl
  refine ⟨l, m, ?_, hl, hm⟩
  rw [hll, hml, tolower_eq hb (by decide), tolower_eq hc (by decide), tolower_eq hd (by decide)]
  rfl

private theorem skipDnsName_wire {name : List Byte} (h : name.map tolower = ipv4onlyWire) (rest : List Byte) :
    skipDnsName 0 (name ++ rest) = some rest := by
  obtain ⟨l, m, rfl, hl, hm⟩ := wire_labels h
  have hll : l.length = 8 := by simpa using congrArg List.length hl
  have hml : m.length = 4 := by simpa using congrArg List.length hm
  simp only [List.cons_append, List.append_assoc, List.nil_append]
  rw [skipDnsName_label (by omega) (by omega) (by omega), skipDnsName_label (by omega) (by omega) (by omega),
    skipDnsName_zero]

private theorem matchQname_wire {name : List Byte} (h : name.map tolower = ipv4onlyWire) (rest : List Byte) :
    matchQname ipv4onlyArpa (name ++ rest) = some ([], rest) := by
  obtain ⟨l, m, rfl, hl, hm⟩ := wire_labels h
  have hll : l.length = 8 := by simpa using congrArg List.length hl
  have hml : m.length = 4 := by simpa using congrArg List.length hm
  simp only [List.cons_append, List.append_assoc, List.nil_append]
  rw [matchQname_label (by omega) (by omega) (by rw [hl]; decide), hll,
    matchQname_label (by omega) (by omega) (by rw [hm]; decide), hml, matchQname.eq_def]
  rfl

/-! ### Records -/

/-- The AAAA record of a reply. -/
def aaaaRecord (addr : In6) : List Byte :=
  [0xc0, 0x0c] ++ be16 typeAaaa ++ [0x00, 0x01, 0x00, 0x00, 0x00, 0x3c, 0x00, 16] ++ beIn6 addr

/-- The records of a reply are those of the first addresses, as many as fit. -/
private theorem replyRecords_eq {len : Nat} (hl : len ∈ prefixLens) (p : In6) (space : Nat) (v4List : List In4) :
    replyRecords p len typeAaaa space v4List =
      (v4List.take (space / 28)).map fun v4 => aaaaRecord (embed p len v4) := by
  induction v4List generalizing space with
  | nil => simp [replyRecords]
  | cons v4 v4List ih =>
    simp only [replyRecords, if_true, synthesizePref64_eq hl, Option.map_some]
    by_cases hs : space < 12 + 16
    · have h0 : space / 28 = 0 := by omega
      rw [if_pos hs, h0, List.take_zero, List.map_nil]
    · have h1 : space / 28 = (space - 28) / 28 + 1 := by omega
      rw [if_neg hs, ih, h1, List.take_succ_cons, List.map_cons]
      rfl

private theorem getIn6_beIn6 (x : In6) (rest : List Byte) : getIn6 (beIn6 x ++ rest) 0 = x := by
  have hx : getIn6 (beIn6 x ++ rest) 0 = getIn6 (beIn6 x) 0 := rfl
  obtain ⟨b0, b1, b2, b3, b4, b5, b6, b7, b8, b9, b10, b11, b12, b13, b14, b15, rfl⟩ := exists_bytes6 x
  rw [hx, beIn6_ofBytes, getIn6_bytes]

/-- What the walk over the answers sees of a record behind its name. -/
private theorem record_fields (x : In6) (rest : List Byte) : ∃ d,
    skipDnsName 0 (aaaaRecord x ++ rest) = some d ∧ 10 ≤ d.length ∧ getBe16 d 0 = typeAaaa ∧
    getBe16 d 2 = classIn ∧ (getBe16 d 8).toNat = 16 ∧ d.drop 10 = beIn6 x ++ rest := by
  have hrd : ((0 : Byte) ++ (16 : Byte)).toNat = 16 := by decide
  have hclass : (0 : Byte) ++ (1 : Byte) = classIn := by decide
  have htype : (typeAaaa >>> 8).setWidth 8 ++ typeAaaa.setWidth 8 = typeAaaa := by decide
  refine ⟨_, skipDnsName_pointer 0 (by decide) 0x0c _, ?_, htype, hclass, hrd, rfl⟩
  exact Nat.le_add_left 10 _

/-- A record whose address gives a prefix ends the search. -/
private theorem scanAnswers_record {x : In6} {r : Nat × In6} (hx : extractPref64 x = some r) (n : Nat)
    (rest : List Byte) :
    scanAnswers (n + 1) (aaaaRecord x ++ rest) = some r := by
  obtain ⟨d, hs, hlen, htype, hclass, hrd, hdata⟩ := record_fields x rest
  rw [scanAnswers, if_neg (by simp [aaaaRecord]), hs]
  simp only [hdata, htype, hclass, hrd, List.length_append, length_beIn6, getIn6_beIn6, and_self, if_true, hx]
  rw [if_neg (by omega), if_neg (by omega)]

private theorem countRecords_record (maxV4 n : Nat) (x : In6) (rest : List Byte) (found : Nat) (v4List : List In4) :
    countRecords typeAaaa maxV4 (n + 1) (aaaaRecord x ++ rest) found v4List =
      countRecords typeAaaa maxV4 n rest (found + 1) v4List := by
  obtain ⟨d, hs, hlen, htype, hclass, hrd, hdata⟩ := record_fields x rest
  rw [countRecords, if_neg (by simp [aaaaRecord]), hs]
  simp only [hdata, htype, hclass, hrd, List.length_append, length_beIn6, and_self, if_true]
  rw [if_neg (by omega), if_neg (by omega), if_neg (by omega), List.drop_left' (length_beIn6 x)]

/-- Every record of a reply is counted. -/
private theorem countRecords_records (maxV4 : Nat) (xs : List In6) (found : Nat) (v4List : List In4) :
    countRecords typeAaaa maxV4 xs.length (xs.map aaaaRecord).flatten found v4List =
      (found + xs.length, v4List) := by
  induction xs generalizing found with
  | nil => rfl
  | cons x xs ih =>
    rw [List.length_cons, List.map_cons, List.flatten_cons, countRecords_record, ih]
    congr 1
    omega

/-! ### The reply -/

/-- The response bit is set and the reply is not truncated. -/
private theorem reply_flags (b : Byte) : (b &&& 0x01 ||| 0x80) &&& 0x80 ≠ 0 ∧ (b &&& 0x01 ||| 0x80) &&& 0x02 = 0 := by
  have hb : b &&& 0x01 = 0 ∨ b &&& 0x01 = 1 := by
    rcases Nat.mod_two_eq_zero_or_one b.toNat with h | h
    · exact .inl (BitVec.eq_of_toNat_eq ((Nat.and_one_is_mod _).trans h))
    · exact .inr (BitVec.eq_of_toNat_eq ((Nat.and_one_is_mod _).trans h))
  rcases hb with hb | hb <;> rw [hb] <;> decide

/-- The header of a reply and what follows it. -/
private theorem reply_header {req : List Byte} {qsecLen : Nat} {p : In6} {len respSz : Nat} (v4List : List In4)
    (hl : len ∈ prefixLens) (hs : 12 + qsecLen ≤ respSz) {resp : List Byte}
    (hr : resp = buildDns64Reply req qsecLen p len typeAaaa v4List 0 respSz) :
    let xs := (v4List.take ((respSz - (12 + qsecLen)) / 28)).map (embed p len)
    12 ≤ resp.length ∧ getBe16 resp 0 = getBe16 req 0 ∧ getU8 resp 2 = (getU8 req 2 &&& 0x01) ||| 0x80 ∧
      getU8 resp 3 = 0x80 ∧ getBe16 resp 4 = 1 ∧ getBe16 resp 6 = BitVec.ofNat 16 xs.length ∧
      resp.drop 12 = (req.drop 12).take qsecLen ++ (xs.map aaaaRecord).flatten := by
  intro xs
  have hrecords : replyRecords p len typeAaaa (respSz - (12 + qsecLen)) v4List = xs.map aaaaRecord := by
    rw [replyRecords_eq hl, List.map_map]
    rfl
  have hresp : resp = getU8 req 0 :: getU8 req 1 :: (getU8 req 2 &&& 0x01 ||| 0x80) :: 0x80 :: 0 :: 1 ::
      (be16 (BitVec.ofNat 16 xs.length) ++ 0 :: 0 :: 0 :: 0 ::
        ((req.drop 12).take qsecLen ++ (xs.map aaaaRecord).flatten)) := by
    rw [hr, buildDns64Reply, if_neg (by omega)]
    simp only [hrecords, List.length_map, List.append_assoc, List.cons_append, List.nil_append]
    rfl
  have hone : (0 : Byte) ++ (1 : Byte) = (1 : BitVec 16) := by decide
  subst hresp
  exact ⟨Nat.le_add_left 12 _, rfl, rfl, rfl, hone, append_be16 _, rfl⟩

private theorem question_of_query {req : List Byte} {qsecLen : Nat} (h : AaaaQuery req qsecLen) : ∃ name,
    name.map tolower = ipv4onlyWire ∧ (req.drop 12).take qsecLen = name ++ (be16 typeAaaa ++ be16 classIn) := by
  obtain ⟨header, name, rest, hlen, hname, rfl, rfl⟩ := h
  refine ⟨name, hname, ?_⟩
  rw [List.append_assoc header, List.drop_left' hlen, List.take_left', List.append_assoc]
  rw [List.length_append, List.length_append]
  rfl

/-- The type and the class behind the name of a question. -/
private theorem question_fields (recs : List Byte) : ∃ d, be16 typeAaaa ++ be16 classIn ++ recs = d ∧
    4 ≤ d.length ∧ getBe16 d 0 = typeAaaa ∧ getBe16 d 2 = classIn ∧ d.drop 4 = recs :=
  ⟨_, rfl, Nat.le_add_left 4 _, append_be16 _, append_be16 _, rfl⟩

/-- A reply with its question and the records of `xs`. -/
private structure Reply (resp : List Byte) (xs : List In6) : Prop where
  length : 12 ≤ resp.length
  response : getU8 resp 2 &&& 0x80 ≠ 0
  whole : getU8 resp 2 &&& 0x02 = 0
  rcode : getU8 resp 3 &&& 0x0f = 0
  qdcount : (getBe16 resp 4).toNat = 1
  ancount : (getBe16 resp 6).toNat = xs.length
  body : ∃ name, name.map tolower = ipv4onlyWire ∧
    resp.drop 12 = name ++ (be16 typeAaaa ++ be16 classIn ++ (xs.map aaaaRecord).flatten)

private theorem reply_of_query {req : List Byte} {qsecLen : Nat} (hq : AaaaQuery req qsecLen) {p : In6}
    {len respSz : Nat} (hl : len ∈ prefixLens) (hs : 12 + qsecLen ≤ respSz) :
    Reply (buildDns64Reply req qsecLen p len typeAaaa [wka1, wka2] 0 respSz)
      (([wka1, wka2].take ((respSz - (12 + qsecLen)) / 28)).map (embed p len)) := by
  obtain ⟨h12, -, h2, h3, h4, h6, hbody⟩ := reply_header (p := p) [wka1, wka2] hl hs (rfl : _ = buildDns64Reply req ..)
  obtain ⟨name, hname, hques⟩ := question_of_query hq
  refine ⟨h12, ?_, ?_, ?_, ?_, ?_, name, hname, ?_⟩
  · rw [h2]
    exact (reply_flags _).1
  · rw [h2]
    exact (reply_flags _).2
  · rw [h3]
    decide
  · rw [h4]
    rfl
  · have hle : (([wka1, wka2].take ((respSz - (12 + qsecLen)) / 28)).map (embed p len)).length ≤ 2 := by
      rw [List.length_map, List.length_take]
      exact Nat.min_le_right _ _
    rw [h6, BitVec.toNat_ofNat]
    omega
  · rw [hbody, hques, List.append_assoc]

/-- Every record of a reply is found. -/
private theorem Reply.count {resp : List Byte} {xs : List In6} (h : Reply resp xs) :
    (extractDnsRecords resp typeAaaa 0).1 = xs.length := by
  obtain ⟨name, hname, hbody⟩ := h.body
  obtain ⟨d, hd, hlen, -, -, hdrop⟩ := question_fields (xs.map aaaaRecord).flatten
  have hskip : skipQuestions 1 (resp.drop 12) = some (xs.map aaaaRecord).flatten := by
    rw [hbody, hd, skipQuestions, skipDnsName_wire hname]
    dsimp only
    rw [if_neg (by omega), hdrop, skipQuestions]
  have hgood : ¬(resp.length < 12 ∨ getU8 resp 2 &&& 0x80 = 0 ∨ getU8 resp 3 &&& 0x0f ≠ 0) := by
    have := h.length
    rintro (hlt | h2 | h3)
    · omega
    · exact h.response h2
    · exact h3 h.rcode
  rw [extractDnsRecords, if_neg hgood, h.qdcount, hskip]
  dsimp only
  rw [h.ancount, countRecords_records, Nat.zero_add]

/-- What the discoverer makes of a reply is what its answers give. -/
private theorem Reply.parse {resp : List Byte} {xs : List In6} (h : Reply resp xs) :
    parseDnsResponse resp (getBe16 resp 0) ipv4onlyArpa =
      if xs = [] then .error .invalid
      else (scanAnswers xs.length (xs.map aaaaRecord).flatten).elim (.error .invalid) .ok := by
  obtain ⟨name, hname, hbody⟩ := h.body
  obtain ⟨d, hd, hlen, htype, hclass, hdrop⟩ := question_fields (xs.map aaaaRecord).flatten
  have h12 := h.length
  simp only [parseDnsResponse, h.whole, h.rcode, h.qdcount, h.ancount, hbody, hd, matchQname_wire hname, htype,
    hclass, hdrop]
  rw [if_neg (by omega), if_neg (by simp), if_neg h.response, if_neg (by simp), if_neg (by simp), if_neg (by omega)]
  by_cases hx : xs = []
  · subst hx
    simp
  · have h1 : 1 ≤ xs.length := List.length_pos_iff.2 hx
    rw [if_neg (by omega), if_neg hx, if_neg (by simp), if_neg (by omega), if_neg (by simp)]
    cases hscan : scanAnswers xs.length (xs.map aaaaRecord).flatten with
    | none => simp [skipQuestions, hscan]
    | some r => simp [skipQuestions, hscan]

/-- The discoverer finds the prefix of a responder as soon as one answer fits into the reply, and the header of the
reply gives the number of its records. -/
theorem discover_reply {req : List Byte} {qsecLen : Nat} (hq : AaaaQuery req qsecLen) {p : In6} {len : Nat}
    (hl : len ∈ prefixLens) (hp : p &&& mask 128 len ≠ 0)
    (hx : ∀ a ∈ [wka1, wka2], ∀ x, synthesizePref64 p len a = some x → excludedBytes (beIn6 x) = false)
    (respSz : Nat) :
    let resp := buildDns64Reply req qsecLen p len typeAaaa [wka1, wka2] 0 respSz
    (parseDnsResponse resp (getBe16 req 0) ipv4onlyArpa = .ok (len, p &&& mask 128 len) ↔
      12 + qsecLen + 28 ≤ respSz) ∧
    (getBe16 resp 6).toNat = (extractDnsRecords resp typeAaaa 0).1 := by
  intro resp
  by_cases hs : 12 + qsecLen ≤ respSz
  · have hr : Reply resp _ := reply_of_query hq hl hs
    obtain ⟨-, hid, -⟩ := reply_header [wka1, wka2] hl hs (rfl : resp = _)
    refine ⟨?_, hr.ancount.trans hr.count.symm⟩
    rw [← hid, hr.parse]
    by_cases h28 : 12 + qsecLen + 28 ≤ respSz
    · have hk : (respSz - (12 + qsecLen)) / 28 = (respSz - (12 + qsecLen + 28)) / 28 + 1 := by omega
      have hfound : extractPref64 (embed p len wka1) = some (len, p &&& mask 128 len) :=
        extractPref64_embed hl p (.inl rfl) (hx wka1 (by simp) _ (synthesizePref64_eq hl p wka1)) hp
      rw [hk, List.take_succ_cons, List.map_cons, List.map_cons, List.flatten_cons, List.length_cons,
        scanAnswers_record hfound, if_neg (List.cons_ne_nil _ _)]
      exact iff_of_true rfl h28
    · have hk : (respSz - (12 + qsecLen)) / 28 = 0 := by omega
      rw [hk, List.take_zero, List.map_nil, if_pos rfl]
      exact iff_of_false nofun h28
  · have hnil : resp = [] := if_pos (by omega)
    rw [hnil]
    refine ⟨⟨fun h => ?_, fun h => by omega⟩, rfl⟩
    cases h

/-- A query of the discoverer, its question in letters of both cases. -/
private def sampleQuery : List Byte :=
  [0x12, 0x34, 0x01, 0x00, 0, 1, 0, 0, 0, 0, 0, 0] ++
    ([8, 0x49, 0x70, 0x76, 0x34, 0x4f, 0x6e, 0x6c, 0x79, 4, 0x61, 0x52, 0x70, 0x41, 0] ++ be16 typeAaaa ++
      be16 classIn)

private theorem sampleQuery_query : AaaaQuery sampleQuery 19 :=
  ⟨sampleQuery.take 12, (sampleQuery.drop 12).take 15, [], by decide, by decide, by decide, by decide⟩

private theorem samplePrefix_included : ∀ a ∈ [wka1, wka2], ∀ x,
    synthesizePref64 (ofWords6 wkpf 0 0 0) 96 a = some x → excludedBytes (beIn6 x) = false := by
  intro a ha x hx
  rw [synthesizePref64_eq (by decide)] at hx
  obtain rfl := Option.some.inj hx
  simp only [List.mem_cons, List.not_mem_nil, or_false] at ha
  rcases ha with rfl | rfl <;> decide

theorem discover_reply_sample :
    parseDnsResponse (buildDns64Reply sampleQuery 19 (ofWords6 wkpf 0 0 0) 96 typeAaaa [wka1, wka2] 0 1500)
      (getBe16 sampleQuery 0) ipv4onlyArpa = .ok (96, ofWords6 wkpf 0 0 0 &&& mask 128 96) :=
  (discover_reply sampleQuery_query (by decide) (by decide) samplePrefix_included 1500).1.2 (by decide)

/-- A buffer with room for the question only makes a reply without answers, and no prefix is found. -/
theorem discover_reply_short : AaaaQuery sampleQuery 19 ∧
    parseDnsResponse (buildDns64Reply sampleQuery 19 (ofWords6 wkpf 0 0 0) 96 typeAaaa [wka1, wka2] 0 58)
      (getBe16 sampleQuery 0) ipv4onlyArpa ≠ .ok (96, ofWords6 wkpf 0 0 0 &&& mask 128 96) := by
  refine ⟨sampleQuery_query, fun h => ?_⟩
  have hr : Reply (buildDns64Reply sampleQuery 19 (ofWords6 wkpf 0 0 0) 96 typeAaaa [wka1, wka2] 0 58) [] :=
    reply_of_query sampleQuery_query (by decide) (by decide)
  have hid : getBe16 sampleQuery 0 =
      getBe16 (buildDns64Reply sampleQuery 19 (ofWords6 wkpf 0 0 0) 96 typeAaaa [wka1, wka2] 0 58) 0 := by decide
  rw [hid, hr.parse, if_pos rfl] at h
  cases h

end Tayga
