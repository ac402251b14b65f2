import Tayga.Discovery
import Tayga.DnsReads
import Mathlib.Data.List.TakeWhile

/-!
# Responses with any records

A response is its header, its questions, its answers and what follows them (`DnsResponse`), with names that are plain
or end in a pointer.  The walk over the names and the records stays aligned (`skipDnsName_name`, `scanAnswers_wire`),
so `parse_dns_response` returns what the first answer with a prefix gives (`parseDnsResponse_wire`).  The question that
`encode_dns_name` builds spells the domain, so it passes the check (`encodeDnsName_question`).
-/

namespace Tayga

/-! ### Names on the wire -/

/-- A label. -/
abbrev DnsLabel := { l : List Byte // 0 < l.length ∧ l.length < 64 }

/-- The length of a label and its bytes. -/
def DnsLabel.wire (l : DnsLabel) : List Byte := BitVec.ofNat 8 l.1.length :: l.1

/-- The bytes of some labels. -/
def wireLabels (labels : List DnsLabel) : List Byte := (labels.map DnsLabel.wire).flatten

/-- A name: its labels, and the root or a pointer to the rest of the name. -/
structure DnsName where
  labels : List DnsLabel
  pointer : Option (BitVec 14)
  length_le : (wireLabels labels).length ≤ 255

def DnsName.wire (n : DnsName) : List Byte :=
  wireLabels n.labels ++ match n.pointer with
    | none => [0]
    | some offset => be16 (0xc000 ||| offset.setWidth 16)

private theorem length_wireLabels_cons (l : DnsLabel) (labels : List DnsLabel) :
    (wireLabels (l :: labels)).length = l.1.length + 1 + (wireLabels labels).length := by
  rw [wireLabels, List.map_cons, List.flatten_cons, List.length_append]
  rfl

private theorem wireLabels_append (l : DnsLabel) (labels : List DnsLabel) (rest : List Byte) :
    wireLabels (l :: labels) ++ rest = BitVec.ofNat 8 l.1.length :: (l.1 ++ (wireLabels labels ++ rest)) := by
  simp [wireLabels, DnsLabel.wire]

/-- The labels of a name are passed one by one. -/
private theorem skipDnsName_labels (labels : List DnsLabel) (n : Nat) (h : n + (wireLabels labels).length ≤ 255)
    (rest : List Byte) : skipDnsName n (wireLabels labels ++ rest) =
      skipDnsName (n + (wireLabels labels).length) rest := by
  induction labels generalizing n with
  | nil => rfl
  | cons l labels ih =>
    rw [length_wireLabels_cons] at h ⊢
    rw [wireLabels_append, skipDnsName_label l.2.1 l.2.2 (by omega), ih _ (by omega), Nat.add_assoc]

private theorem pointer_bits (offset : BitVec 14) :
    ((0xc000 ||| offset.setWidth 16 : BitVec 16) >>> 8).setWidth 8 &&& (0xc0 : Byte) = 0xc0 := by
  ext i hi
  have h8 : i = 0 ∨ i = 1 ∨ i = 2 ∨ i = 3 ∨ i = 4 ∨ i = 5 ∨ i = 6 ∨ i = 7 := by omega
  rcases h8 with rfl | rfl | rfl | rfl | rfl | rfl | rfl | rfl <;> simp

/-- **A name is passed**, whatever follows it. -/
theorem skipDnsName_name (n : DnsName) (rest : List Byte) : skipDnsName 0 (n.wire ++ rest) = some rest := by
  unfold DnsName.wire
  rw [List.append_assoc, skipDnsName_labels _ _ (by rw [Nat.zero_add]; exact n.length_le)]
  cases n.pointer with
  | none => exact skipDnsName_zero _ rest
  | some offset => exact skipDnsName_pointer _ (pointer_bits offset) _ rest

/-! ### Questions and records -/

structure DnsQuestion where
  name : DnsName
  type : BitVec 16
  cls : BitVec 16

def DnsQuestion.wire (q : DnsQuestion) : List Byte := q.name.wire ++ (be16 q.type ++ be16 q.cls)

structure DnsRecord where
  name : DnsName
  type : BitVec 16
  cls : BitVec 16
  ttl : BitVec 32
  rdata : List Byte
  length_lt : rdata.length < 2 ^ 16

/-- The ten bytes between the name and the data of a record. -/
def DnsRecord.fields (r : DnsRecord) : List Byte :=
  be16 r.type ++ be16 r.cls ++ be32 r.ttl ++ be16 (BitVec.ofNat 16 r.rdata.length)

def DnsRecord.wire (r : DnsRecord) : List Byte := r.name.wire ++ (r.fields ++ r.rdata)

/-- The prefix of a record: of the address of an AAAA record of class IN. -/
def DnsRecord.pref64 (r : DnsRecord) : Option (Nat × In6) :=
  if r.type = typeAaaa ∧ r.cls = classIn ∧ r.rdata.length = 16 then extractPref64 (getIn6 r.rdata 0) else none

private theorem skipQuestions_wire (qs : List DnsQuestion) (rest : List Byte) :
    skipQuestions qs.length ((qs.map DnsQuestion.wire).flatten ++ rest) = some rest := by
  induction qs with
  | nil => rfl
  | cons q qs ih =>
    rw [List.map_cons, List.flatten_cons, DnsQuestion.wire, List.append_assoc, List.append_assoc, List.length_cons,
      skipQuestions, skipDnsName_name]
    dsimp only
    rw [if_neg (by simp [be16])]
    exact ih

/-- What the walk over the answers sees behind the name of a record. -/
private theorem DnsRecord.fields_append (r : DnsRecord) (rest : List Byte) : ∃ d, r.fields ++ r.rdata ++ rest = d ∧
    10 ≤ d.length ∧ getBe16 d 0 = r.type ∧ getBe16 d 2 = r.cls ∧ (getBe16 d 8).toNat = r.rdata.length ∧
    d.drop 10 = r.rdata ++ rest := by
  refine ⟨_, rfl, ?_, append_be16 _, append_be16 _, ?_, rfl⟩
  · exact Nat.le_add_left 10 _
  · have hlen : getBe16 (r.fields ++ r.rdata ++ rest) 8 = BitVec.ofNat 16 r.rdata.length := append_be16 _
    rw [hlen, BitVec.toNat_ofNat, Nat.mod_eq_of_lt r.length_lt]

/-- **One record**: it ends the search with its prefix, or the search goes on right behind it. -/
theorem scanAnswers_record_wire (r : DnsRecord) (n : Nat) (rest : List Byte) :
    scanAnswers (n + 1) (r.wire ++ rest) = r.pref64.or (scanAnswers n rest) := by
  have hne : r.wire ++ rest ≠ [] := by
    unfold DnsRecord.wire DnsRecord.fields be16
    simp
  obtain ⟨d, hd, h10, htype, hcls, hlen, hdata⟩ := r.fields_append rest
  rw [scanAnswers, if_neg hne, DnsRecord.wire, List.append_assoc, skipDnsName_name, hd]
  dsimp only
  rw [if_neg (by omega), hlen, hdata, htype, hcls, if_neg (by rw [List.length_append]; omega), List.drop_left]
  unfold DnsRecord.pref64
  by_cases haaaa : r.type = typeAaaa ∧ r.cls = classIn ∧ r.rdata.length = 16
  · have haddr : getIn6 (r.rdata ++ rest) 0 = getIn6 r.rdata 0 := by
      have h16 := haaaa.2.2
      simp (disch := omega) only [getIn6, getBe32, getU8_append_left]
    rw [if_pos haaaa, if_pos haaaa, haddr]
    cases extractPref64 (getIn6 r.rdata 0) <;> rfl
  · rw [if_neg haaaa, if_neg haaaa]
    rfl

private theorem scanAnswers_wire (rs : List DnsRecord) (rest : List Byte) :
    scanAnswers rs.length ((rs.map DnsRecord.wire).flatten ++ rest) = rs.findSome? DnsRecord.pref64 := by
  induction rs with
  | nil => rfl
  | cons r rs ih =>
    rw [List.map_cons, List.flatten_cons, List.append_assoc, List.length_cons, scanAnswers_record_wire, ih,
      List.findSome?_cons]
    cases r.pref64 <;> rfl

/-! ### The question of a domain -/

/-- The domain spells the labels, with dots between them and maybe one behind the last. -/
def SpellsLabels (domain : List Byte) (labels : List (List Byte)) : Prop :=
  (∀ l ∈ labels, dot ∉ l) ∧
    (domain = [dot].intercalate labels ∨ domain = [dot].intercalate labels ++ [dot])

/-- The first label of a domain and the rest of it. -/
theorem SpellsLabels.cons {domain l : List Byte} {labels : List (List Byte)} (h : SpellsLabels domain (l :: labels)) :
    domain.takeWhile (· ≠ dot) = l ∧ SpellsLabels (domain.drop (l.length + 1)) labels := by
  obtain ⟨hdot, hd⟩ := h
  have hl : ∀ b ∈ l, decide (b ≠ dot) = true := by
    intro b hb
    refine decide_eq_true ?_
    rintro rfl
    exact hdot l List.mem_cons_self hb
  have htake : ∀ rest, (l ++ dot :: rest).takeWhile (· ≠ dot) = l := by
    intro rest
    rw [List.takeWhile_append_of_pos hl, List.takeWhile_cons_of_neg (by simp), List.append_nil]
  have hdrop : ∀ rest, (l ++ dot :: rest).drop (l.length + 1) = rest := by
    intro rest
    rw [← List.drop_drop, List.drop_left]
    rfl
  have hrest : ∀ m ∈ labels, dot ∉ m := fun m hm => hdot m (List.mem_cons_of_mem _ hm)
  cases labels with
  | nil =>
    rcases hd with rfl | rfl
    · have hone : [dot].intercalate [l] = l := by simp [List.intercalate]
      rw [hone, List.drop_eq_nil_of_le (by omega)]
      exact ⟨List.takeWhile_eq_self_iff.2 hl, hrest, .inl rfl⟩
    · have hone : [dot].intercalate [l] = l := by simp [List.intercalate]
      rw [hone, htake, hdrop]
      exact ⟨rfl, hrest, .inl rfl⟩
  | cons m labels =>
    have hcons : [dot].intercalate (l :: m :: labels) = l ++ dot :: [dot].intercalate (m :: labels) := by
      simp [List.intercalate]
    rcases hd with rfl | rfl
    · rw [hcons, htake, hdrop]
      exact ⟨rfl, hrest, .inl rfl⟩
    · rw [hcons, List.append_assoc, List.cons_append, htake, hdrop]
      exact ⟨rfl, hrest, .inr rfl⟩

/-- The labels agree up to case. -/
def AgreeUpToCase (labels : List DnsLabel) (names : List (List Byte)) : Prop :=
  labels.map (fun l => l.1.map tolower) = names.map (List.map tolower)

/-- The labels of a domain match it, up to the case of the letters. -/
private theorem matchQname_labels {labels : List DnsLabel} {domain : List Byte} {names : List (List Byte)}
    (hd : SpellsLabels domain names) (hl : AgreeUpToCase labels names) (rest : List Byte) :
    ∃ cur, (cur = [] ∨ cur = [dot]) ∧ matchQname domain (wireLabels labels ++ 0 :: rest) = some (cur, rest) := by
  induction names generalizing labels domain with
  | nil =>
    obtain rfl : labels = [] := List.map_eq_nil_iff.1 hl
    refine ⟨domain, hd.2, ?_⟩
    rw [matchQname.eq_def]
    exact if_pos rfl
  | cons m names ih =>
    cases labels with
    | nil => cases hl
    | cons l labels =>
      obtain ⟨hlm, hl⟩ := List.cons.inj hl
      obtain ⟨htake, hrest⟩ := hd.cons
      have hlen : l.1.length = m.length := by simpa using congrArg List.length hlm
      rw [wireLabels_append, matchQname_label l.2.1 l.2.2 (by rw [htake]; exact hlm), hlen]
      exact ih hrest hl

/-- The question check of `parse_dns_response`: what follows the question. -/
def checkQuestion (expectedDomain rest : List Byte) : Option (List Byte) :=
  match matchQname expectedDomain rest with
  | none => none
  | some (cur, rest) =>
    if cur ≠ [] ∧ cur ≠ [dot] then none
    else if rest.length < 4 then none
    else if getBe16 rest 0 ≠ typeAaaa ∨ getBe16 rest 2 ≠ classIn then none
    else some (rest.drop 4)

/-- What `parse_dns_response` makes of the message behind the header: the question is checked, the further questions
are skipped and the answers are scanned. -/
private theorem parseDnsResponse_eq {resp : List Byte} {domain : List Byte} (h12 : 12 ≤ resp.length)
    (hqr : getU8 resp 2 &&& 0x80 ≠ 0) (htc : getU8 resp 2 &&& 0x02 = 0) (hrcode : getU8 resp 3 &&& 0x0f = 0)
    (hqd : 1 ≤ (getBe16 resp 4).toNat) : parseDnsResponse resp (getBe16 resp 0) domain =
      ((checkQuestion domain (resp.drop 12)).bind fun rest =>
        (skipQuestions ((getBe16 resp 4).toNat - 1) rest).bind fun rest =>
          scanAnswers (getBe16 resp 6).toNat rest).elim (.error .invalid) .ok := by
  rw [parseDnsResponse, if_neg (by omega), if_neg (by simp), if_neg hqr, if_neg (not_not.2 htc),
    if_neg (not_not.2 hrcode)]
  dsimp only
  rw [if_neg (by omega)]
  unfold checkQuestion
  by_cases han : (getBe16 resp 6).toNat < 1
  · have h0 : (getBe16 resp 6).toNat = 0 := by omega
    rw [if_pos han, h0]
    simp [scanAnswers]
  rw [if_neg han]
  cases matchQname domain (resp.drop 12) with
  | none => rfl
  | some r =>
    dsimp only
    split
    · rfl
    split
    · rfl
    split
    · rfl
    rw [Option.bind_some]
    cases skipQuestions ((getBe16 resp 4).toNat - 1) (r.2.drop 4) with
    | none => rfl
    | some rest =>
      dsimp only [Option.bind_some]
      cases scanAnswers (getBe16 resp 6).toNat rest <;> rfl

/-- A question that asks for the AAAA records of a domain passes the check. -/
private theorem checkQuestion_labels {labels : List DnsLabel} {domain : List Byte} {names : List (List Byte)}
    (hd : SpellsLabels domain names) (hl : AgreeUpToCase labels names) (rest : List Byte) :
    checkQuestion domain (wireLabels labels ++ [0] ++ (be16 typeAaaa ++ be16 classIn) ++ rest) = some rest := by
  obtain ⟨cur, hcur, hmatch⟩ := matchQname_labels hd hl (be16 typeAaaa ++ be16 classIn ++ rest)
  have htype : getBe16 (be16 typeAaaa ++ be16 classIn ++ rest) 0 = typeAaaa := append_be16 _
  have hclass : getBe16 (be16 typeAaaa ++ be16 classIn ++ rest) 2 = classIn := append_be16 _
  have hmsg : wireLabels labels ++ [0] ++ (be16 typeAaaa ++ be16 classIn) ++ rest =
      wireLabels labels ++ 0 :: (be16 typeAaaa ++ be16 classIn ++ rest) := by
    simp only [List.append_assoc, List.cons_append, List.nil_append]
  rw [hmsg, checkQuestion, hmatch]
  dsimp only
  rw [if_neg (by tauto), if_neg (by simp [be16]), htype, hclass, if_neg (by simp)]
  rfl

/-- What follows the first dot. -/
private theorem exists_dot_rest {domain : List Byte} (h : dot ∈ domain) :
    ∃ rest, domain = domain.takeWhile (· ≠ dot) ++ dot :: rest := by
  induction domain with
  | nil => cases h
  | cons b domain ih =>
    by_cases hb : b = dot
    · subst hb
      exact ⟨domain, by rw [List.takeWhile_cons_of_neg (by simp), List.nil_append]⟩
    · obtain ⟨rest, hrest⟩ := ih (List.mem_of_ne_of_mem (Ne.symm hb) h)
      refine ⟨rest, ?_⟩
      rw [List.takeWhile_cons_of_pos (by simpa using hb), List.cons_append, ← hrest]

/-- One more label in front of the dot. -/
private theorem SpellsLabels.of_cons {rest l : List Byte} {names : List (List Byte)} (hdot : dot ∉ l)
    (h : SpellsLabels rest names) (hne : names = [] → rest = []) : SpellsLabels (l ++ dot :: rest) (l :: names) := by
  refine ⟨?_, ?_⟩
  · intro m hm
    rcases List.mem_cons.1 hm with rfl | hm
    · exact hdot
    · exact h.1 m hm
  cases names with
  | nil =>
    right
    rw [hne rfl]
    simp [List.intercalate]
  | cons m names =>
    have hcons : [dot].intercalate (l :: m :: names) = l ++ dot :: [dot].intercalate (m :: names) := by
      simp [List.intercalate]
    rw [hcons]
    rcases h.2 with hr | hr
    · exact .inl (by rw [hr])
    · exact .inr (by rw [hr, List.append_assoc, List.cons_append])

/-- What `encode_dns_name` writes are the labels of the domain. -/
private theorem encodeLabels_spec {qname domain q : List Byte} (h : encodeLabels qname domain = some q) :
    ∃ labels : List DnsLabel, q = qname ++ (wireLabels labels ++ [0]) ∧ (labels = [] → domain = []) ∧
      SpellsLabels domain (labels.map fun l => l.1) := by
  induction hk : domain.length using Nat.strong_induction_on generalizing qname domain with
  | _ k ih =>
    rw [encodeLabels.eq_def] at h
    split at h
    next hnil =>
      subst hnil
      exact ⟨[], (Option.some.inj h).symm, fun _ => rfl, by simp, .inl rfl⟩
    next hne =>
      dsimp only at h
      split at h
      · cases h
      next hlen =>
      obtain ⟨l, hl⟩ : ∃ l : DnsLabel, l.1 = domain.takeWhile (· ≠ dot) := ⟨⟨_, by omega⟩, rfl⟩
      rw [← hl] at h
      have hdot : dot ∉ l.1 := by
        intro hmem
        rw [hl] at hmem
        simpa using List.mem_takeWhile_imp hmem
      split at h
      next hlast =>
        have hdomain : domain = l.1 := by
          have hall : ∀ b ∈ domain, decide (b ≠ dot) = true :=
            fun b hb => decide_eq_true fun hb' => hlast (hb' ▸ hb)
          rw [hl]
          exact (List.takeWhile_eq_self_iff.2 hall).symm
        refine ⟨[l], ?_, nofun, by simpa using hdot, .inl ?_⟩
        · rw [← Option.some.inj h]
          simp [wireLabels, DnsLabel.wire]
        · simpa [List.intercalate] using hdomain
      next hmore =>
        obtain ⟨rest, hrest⟩ := exists_dot_rest (not_not.1 hmore)
        rw [← hl] at hrest
        rw [hrest, ← List.drop_drop, List.drop_left, List.drop_one, List.tail_cons] at h
        have hlt : rest.length < k := by
          rw [← hk, hrest, List.length_append, List.length_cons]
          omega
        obtain ⟨labels, rfl, hempty, hspells⟩ := ih rest.length hlt h rfl
        refine ⟨l :: labels, ?_, nofun, ?_⟩
        · simp [wireLabels, DnsLabel.wire]
        · rw [hrest]
          exact hspells.of_cons hdot fun hnil => hempty (List.map_eq_nil_iff.1 hnil)

/-- **The question of `encode_dns_name`** passes the check of the same domain. -/
theorem encodeDnsName_question {domain qname : List Byte} (h : encodeDnsName domain = some qname) (rest : List Byte) :
    checkQuestion domain (qname ++ (be16 typeAaaa ++ be16 classIn) ++ rest) = some rest := by
  obtain ⟨labels, rfl, -, hspells⟩ := encodeLabels_spec h
  have hagree : AgreeUpToCase labels (labels.map fun l => l.1) := by
    unfold AgreeUpToCase
    rw [List.map_map]
    rfl
  exact checkQuestion_labels hspells hagree rest

/-! ### Responses -/

/-- A response without an error that is not truncated.  What follows the answers is of no account. -/
structure DnsResponse where
  id : BitVec 16
  flags : Byte
  rcode : Byte
  counts : List Byte
  questions : List DnsQuestion
  answers : List DnsRecord
  rest : List Byte
  response : flags &&& 0x80 ≠ 0
  whole : flags &&& 0x02 = 0
  noError : rcode &&& 0x0f = 0
  length_counts : counts.length = 4
  qdcount_lt : questions.length < 2 ^ 16
  ancount_lt : answers.length < 2 ^ 16

def DnsResponse.wire (r : DnsResponse) : List Byte :=
  be16 r.id ++ [r.flags, r.rcode] ++ be16 (BitVec.ofNat 16 r.questions.length) ++
    be16 (BitVec.ofNat 16 r.answers.length) ++ r.counts ++
    ((r.questions.map DnsQuestion.wire).flatten ++ ((r.answers.map DnsRecord.wire).flatten ++ r.rest))

/-- What is found in the header of a response, and what follows it. -/
theorem DnsResponse.header (r : DnsResponse) : getBe16 r.wire 0 = r.id ∧ getU8 r.wire 2 = r.flags ∧
    getU8 r.wire 3 = r.rcode ∧ (getBe16 r.wire 4).toNat = r.questions.length ∧
    (getBe16 r.wire 6).toNat = r.answers.length ∧ r.wire.drop 12 =
      (r.questions.map DnsQuestion.wire).flatten ++ ((r.answers.map DnsRecord.wire).flatten ++ r.rest) := by
  have hqd : getBe16 r.wire 4 = BitVec.ofNat 16 r.questions.length := append_be16 _
  have han : getBe16 r.wire 6 = BitVec.ofNat 16 r.answers.length := append_be16 _
  refine ⟨append_be16 _, rfl, rfl, ?_, ?_, ?_⟩
  · rw [hqd, BitVec.toNat_ofNat, Nat.mod_eq_of_lt r.qdcount_lt]
  · rw [han, BitVec.toNat_ofNat, Nat.mod_eq_of_lt r.ancount_lt]
  · unfold DnsResponse.wire
    rw [List.drop_left']
    simp [be16, r.length_counts]

/-- The first question asks for the AAAA records of the domain, in letters of any case. -/
def DnsResponse.Answers (r : DnsResponse) (domain : List Byte) : Prop :=
  ∃ q qs names, r.questions = q :: qs ∧ q.type = typeAaaa ∧ q.cls = classIn ∧ q.name.pointer = none ∧
    SpellsLabels domain names ∧ AgreeUpToCase q.name.labels names

/-- **A response**: the prefix of the first AAAA record of class IN that has one. -/
theorem parseDnsResponse_wire {r : DnsResponse} {domain : List Byte} (h : r.Answers domain) :
    parseDnsResponse r.wire r.id domain =
      (r.answers.findSome? DnsRecord.pref64).elim (.error .invalid) .ok := by
  obtain ⟨q, qs, names, hqs, htype, hcls, hptr, hspells, hagree⟩ := h
  obtain ⟨hid, h2, h3, hqd, han, hbody⟩ := r.header
  have hq : q.wire = wireLabels q.name.labels ++ [0] ++ (be16 typeAaaa ++ be16 classIn) := by
    rw [DnsQuestion.wire, DnsName.wire, hptr, htype, hcls]
  have hlen : r.questions.length - 1 = qs.length := by
    rw [hqs, List.length_cons, Nat.add_sub_cancel]
  rw [← hid, parseDnsResponse_eq, hqd, han, hbody, hqs, List.map_cons, List.flatten_cons, List.append_assoc, hq,
    checkQuestion_labels hspells hagree, Option.bind_some, ← hqs, hlen, skipQuestions_wire, Option.bind_some,
    scanAnswers_wire]
  · have hcounts := r.length_counts
    unfold DnsResponse.wire be16
    simp
    omega
  · rw [h2]
    exact r.response
  · rw [h2]
    exact r.whole
  · rw [h3]
    exact r.noError
  · rw [hqd, hqs, List.length_cons]
    omega

/-- **DNS responses.**  The program of the reads of `parse_dns_response`, which comes to an end for every message and
every domain and returns its result, reads only bytes of the message; the result for a response with the expected
question is the prefix of the first AAAA record of class IN that has one; and the question of `encode_dns_name` passes
the check for its domain. -/
theorem parseDnsResponse_law :
    (∀ (resp : List Byte) (expectedId : BitVec 16) (expectedDomain : List Byte),
      (readDns resp.length expectedId expectedDomain).Asks (· < resp.length) (fun _ => True) ∧
        (readDns resp.length expectedId expectedDomain).answer (getU8 resp) =
          parseDnsResponse resp expectedId expectedDomain) ∧
    (∀ (r : DnsResponse) (domain : List Byte), r.Answers domain → parseDnsResponse r.wire r.id domain =
      (r.answers.findSome? DnsRecord.pref64).elim (.error .invalid) .ok) ∧
    ∀ domain qname, encodeDnsName domain = some qname → ∀ rest,
      checkQuestion domain (qname ++ (be16 typeAaaa ++ be16 classIn) ++ rest) = some rest := by
  refine ⟨?_, ?_, ?_⟩
  · intro resp expectedId expectedDomain
    exact ⟨asks_readDns resp.length expectedId expectedDomain, answer_readDns resp expectedId expectedDomain⟩
  · intro r domain h
    exact parseDnsResponse_wire h
  · intro domain qname h rest
    exact encodeDnsName_question h rest

/-- `ipv4only.arpa`, with a capital letter, and the name that points to it. -/
private def sampleName : DnsName where
  labels := [⟨[0x49, 0x70, 0x76, 0x34, 0x6f, 0x6e, 0x6c, 0x79], by decide⟩, ⟨[0x61, 0x72, 0x70, 0x61], by decide⟩]
  pointer := none
  length_le := by decide

private def samplePointer : DnsName where
  labels := []
  pointer := some 12
  length_le := by decide

/-- An alias, and then an address with the well-known prefix. -/
private def sampleResponse : DnsResponse where
  id := 0x1234
  flags := 0x81
  rcode := 0x80
  counts := [0, 0, 0, 0]
  questions := [⟨sampleName, typeAaaa, classIn⟩]
  answers := [⟨samplePointer, 5, classIn, 60, [0xc0, 0x15], by decide⟩,
    ⟨samplePointer, typeAaaa, classIn, 60, beIn6 (ofWords6 wkpf 0 0 wka1), by decide⟩]
  rest := []
  response := by decide
  whole := by decide
  noError := by decide
  length_counts := rfl
  qdcount_lt := by decide
  ancount_lt := by decide

theorem parseDnsResponse_law_sample : encodeDnsName ipv4onlyArpa = some ipv4onlyWire ∧
    parseDnsResponse sampleResponse.wire 0x1234 ipv4onlyArpa = .ok (96, ofWords6 wkpf 0 0 0) := by
  refine ⟨by decide +kernel, ?_⟩
  have hanswers : sampleResponse.Answers ipv4onlyArpa := by
    refine ⟨⟨sampleName, typeAaaa, classIn⟩, [],
      [[0x69, 0x70, 0x76, 0x34, 0x6f, 0x6e, 0x6c, 0x79], [0x61, 0x72, 0x70, 0x61]], rfl, rfl, rfl, rfl, ?_, ?_⟩
    · exact ⟨by decide, .inl (by decide)⟩
    · rfl
  have hfound : sampleResponse.answers.findSome? DnsRecord.pref64 = some (96, ofWords6 wkpf 0 0 0) := by decide
  exact (parseDnsResponse_law.2.1 sampleResponse ipv4onlyArpa hanswers).trans (by rw [hfound]; rfl)

end Tayga
