import Tayga.FlowReads
import Tayga.Pref64

/-!
# The reads of the discoverer

`parse_dns_response` once more, as the program of its reads: here the position moves along the message as in the
source, and every byte that is looked at is an operation.  The program returns what `parseDnsResponse` returns
(`answer_readDns`), it always comes to an end, and whatever the bytes are it reads only inside the message
(`asks_readDns`).
-/

namespace Tayga

/-! ### The program -/

/-- The reads of `skipDnsName`: the position behind the name at `pos`. -/
def readSkipName (rlen length pos : Nat) : Reading (Option Nat) :=
  if pos < rlen then do
    let b ← readByte pos
    if b = 0 then pure (some (pos + 1))
    else if b &&& 0xc0 = 0xc0 then pure (if pos + 1 < rlen then some (pos + 2) else none)
    else if b &&& 0xc0 ≠ 0 ∨ rlen < pos + 1 + b.toNat ∨ 255 < length + (b.toNat + 1) then pure none
    else readSkipName rlen (length + (b.toNat + 1)) (pos + 1 + b.toNat)
  else pure none
termination_by rlen - pos

/-- The reads of `skipQuestions`. -/
def readSkipQuestions (rlen : Nat) : Nat → Nat → Reading (Option Nat)
  | 0, pos => pure (some pos)
  | n + 1, pos => do
    match ← readSkipName rlen 0 pos with
    | none => pure none
    | some pos => if rlen < pos + 4 then pure none else readSkipQuestions rlen n (pos + 4)

/-- The reads of `matchQname`. -/
def readMatchQname (rlen : Nat) (cur : List Byte) (pos : Nat) : Reading (Option (List Byte × Nat)) :=
  if pos < rlen then do
    let llen ← readByte pos
    if llen = 0 then pure (some (cur, pos + 1))
    else if llen &&& 0xc0 ≠ 0 then pure none
    else if rlen < pos + 1 + llen.toNat then pure none
    else
      let label := cur.takeWhile (· ≠ dot)
      if label.length = 0 ∨ label.length ≠ llen.toNat then pure none
      else do
        let s ← readBytes (pos + 1) llen.toNat
        if !strncasecmpEq s label then pure none
        else readMatchQname rlen (cur.drop (label.length + 1)) (pos + 1 + llen.toNat)
  else pure none
termination_by rlen - pos

/-- The reads of `scanAnswers`. -/
def readAnswers (rlen : Nat) : Nat → Nat → Reading (Option (Nat × In6))
  | 0, _ => pure none
  | n + 1, pos =>
    if rlen ≤ pos then pure none
    else do
      match ← readSkipName rlen 0 pos with
      | none => pure none
      | some pos =>
        if rlen < pos + 10 then pure none
        else do
          let atype ← readBe16 pos
          let aclass ← readBe16 (pos + 2)
          let rdlen ← readBe16 (pos + 8)
          if rlen < pos + 10 + rdlen.toNat then pure none
          else if atype = typeAaaa ∧ aclass = classIn ∧ rdlen.toNat = 16 then do
            let in6 ← readBytes (pos + 10) 16
            match extractPref64 (getIn6 in6 0) with
            | some r => pure (some r)
            | none => readAnswers rlen n (pos + 10 + rdlen.toNat)
          else readAnswers rlen n (pos + 10 + rdlen.toNat)

/-- The reads behind the header, with the counts of the header. -/
def readSections (rlen : Nat) (expectedDomain : List Byte) (qdcount ancount : Nat) :
    Reading (Except DnsError (Nat × In6)) := do
  match ← readMatchQname rlen expectedDomain 12 with
  | none => pure (.error .invalid)
  | some (cur, pos) =>
    if cur ≠ [] ∧ cur ≠ [dot] then pure (.error .invalid)
    else if rlen < pos + 4 then pure (.error .invalid)
    else do
      let qtype ← readBe16 pos
      let qclass ← readBe16 (pos + 2)
      if qtype ≠ typeAaaa ∨ qclass ≠ classIn then pure (.error .invalid)
      else do
        match ← readSkipQuestions rlen (qdcount - 1) (pos + 4) with
        | none => pure (.error .invalid)
        | some pos => do
          match ← readAnswers rlen ancount pos with
          | none => pure (.error .invalid)
          | some r => pure (.ok r)

/-- The reads of `parseDnsResponse` in a message of `rlen` bytes. -/
def readDns (rlen : Nat) (expectedId : BitVec 16) (expectedDomain : List Byte) :
    Reading (Except DnsError (Nat × In6)) :=
  if rlen < 12 then pure (.error .invalid)
  else do
    let id ← readBe16 0
    if id ≠ expectedId then pure (.error .invalid)
    else do
      let flags ← readByte 2
      if flags &&& 0x80 = 0 then pure (.error .invalid)
      else if flags &&& 0x02 ≠ 0 then pure (.error .truncated)
      else do
        let rcode ← readByte 3
        if rcode &&& 0x0f ≠ 0 then pure (.error .invalid)
        else do
          let qdcount ← readBe16 4
          if qdcount.toNat < 1 then pure (.error .invalid)
          else do
            let ancount ← readBe16 6
            if ancount.toNat < 1 then pure (.error .invalid)
            else readSections rlen expectedDomain qdcount.toNat ancount.toNat

/-! ### What the program returns -/

section
variable (resp : List Byte)

private theorem answer_readSkipName (length pos : Nat) : skipDnsName length (resp.drop pos) =
    ((readSkipName resp.length length pos).answer (getU8 resp)).map resp.drop := by
  induction hk : resp.length - pos using Nat.strong_induction_on generalizing length pos with
  | _ k ih =>
    rw [readSkipName.eq_def]
    by_cases hpos : pos < resp.length
    · have hget : resp[pos] = getU8 resp pos := by
        rw [getU8, List.getD_eq_getElem?_getD, List.getElem?_eq_getElem hpos, Option.getD_some]
      rw [List.drop_eq_getElem_cons hpos, skipDnsName.eq_def, if_pos hpos, Program.answer_bind, answer_readByte, hget]
      dsimp only
      generalize getU8 resp pos = b
      by_cases h0 : b = 0
      · rw [if_pos h0, if_pos h0]
        rfl
      rw [if_neg h0, if_neg h0]
      by_cases hc : b &&& 0xc0 = 0xc0
      · rw [if_pos hc, if_pos hc]
        by_cases h1 : pos + 1 < resp.length
        · rw [List.drop_eq_getElem_cons h1, if_pos h1]
          rfl
        · rw [List.drop_eq_nil_of_le (by omega), if_neg h1]
          rfl
      rw [if_neg hc, if_neg hc, List.length_drop, List.drop_drop]
      have hrest : resp.length - (pos + 1) < b.toNat ↔ resp.length < pos + 1 + b.toNat := by omega
      simp only [hrest]
      by_cases hl : b &&& 0xc0 ≠ 0 ∨ resp.length < pos + 1 + b.toNat ∨ 255 < length + (b.toNat + 1)
      · rw [if_pos hl, if_pos hl]
        rfl
      · rw [if_neg hl, if_neg hl]
        exact ih _ (by omega) _ _ rfl
    · rw [List.drop_eq_nil_of_le (by omega), if_neg hpos, skipDnsName.eq_def]
      rfl

private theorem answer_readSkipQuestions (n pos : Nat) : skipQuestions n (resp.drop pos) =
    ((readSkipQuestions resp.length n pos).answer (getU8 resp)).map resp.drop := by
  induction n generalizing pos with
  | zero => rfl
  | succ n ih =>
    rw [skipQuestions, readSkipQuestions, Program.answer_bind, answer_readSkipName]
    cases (readSkipName resp.length 0 pos).answer (getU8 resp) with
    | none => rfl
    | some pos =>
      dsimp only [Option.map_some]
      rw [List.length_drop, List.drop_drop]
      by_cases h4 : resp.length < pos + 4
      · rw [if_pos (by omega), if_pos h4]
        rfl
      · rw [if_neg (by omega), if_neg h4]
        exact ih (pos + 4)

private theorem answer_readMatchQname (cur : List Byte) (pos : Nat) : matchQname cur (resp.drop pos) =
    ((readMatchQname resp.length cur pos).answer (getU8 resp)).map fun r => (r.1, resp.drop r.2) := by
  induction hk : resp.length - pos using Nat.strong_induction_on generalizing cur pos with
  | _ k ih =>
    rw [readMatchQname.eq_def]
    by_cases hpos : pos < resp.length
    · have hget : resp[pos] = getU8 resp pos := by
        rw [getU8, List.getD_eq_getElem?_getD, List.getElem?_eq_getElem hpos, Option.getD_some]
      rw [List.drop_eq_getElem_cons hpos, matchQname.eq_def, if_pos hpos, Program.answer_bind, answer_readByte, hget]
      dsimp only
      generalize getU8 resp pos = llen
      by_cases h0 : llen = 0
      · rw [if_pos h0, if_pos h0]
        rfl
      rw [if_neg h0, if_neg h0]
      by_cases hc : llen &&& 0xc0 ≠ 0
      · rw [if_pos hc, if_pos hc]
        rfl
      rw [if_neg hc, if_neg hc, List.length_drop, List.drop_drop]
      by_cases hl : resp.length < pos + 1 + llen.toNat
      · rw [if_pos (by omega), if_pos hl]
        rfl
      rw [if_neg (by omega), if_neg hl, ← read_getU8 resp (pos + 1) llen.toNat (by omega)]
      by_cases hlen : (cur.takeWhile (· ≠ dot)).length = 0 ∨ (cur.takeWhile (· ≠ dot)).length ≠ llen.toNat
      · rw [if_pos (by tauto), if_pos hlen]
        rfl
      rw [if_neg hlen, Program.answer_bind, answer_readBytes]
      by_cases hs : !strncasecmpEq (Mem.read (getU8 resp) (pos + 1) llen.toNat) (cur.takeWhile (· ≠ dot))
      · rw [if_pos (by tauto), if_pos hs]
        rfl
      · rw [if_neg (by tauto), if_neg hs]
        exact ih _ (by omega) _ _ rfl
    · rw [List.drop_eq_nil_of_le (by omega), if_neg hpos, matchQname.eq_def]
      rfl

private theorem answer_readAnswers (n pos : Nat) :
    scanAnswers n (resp.drop pos) = (readAnswers resp.length n pos).answer (getU8 resp) := by
  induction n generalizing pos with
  | zero => rfl
  | succ n ih =>
    rw [scanAnswers, readAnswers]
    by_cases hpos : resp.length ≤ pos
    · rw [if_pos (List.drop_eq_nil_of_le hpos), if_pos hpos]
      rfl
    rw [if_neg (by simpa using hpos), if_neg hpos, Program.answer_bind, answer_readSkipName]
    cases (readSkipName resp.length 0 pos).answer (getU8 resp) with
    | none => rfl
    | some pos =>
      dsimp only [Option.map_some]
      rw [List.length_drop]
      by_cases h10 : resp.length < pos + 10
      · rw [if_pos (by omega), if_pos h10]
        rfl
      rw [if_neg (by omega), if_neg h10]
      simp only [Program.answer_bind, answer_readBe16, List.length_drop, List.drop_drop, getBe16_drop, Nat.add_zero]
      simp only [flowBe16_getU8]
      by_cases hrd : resp.length < pos + 10 + (getBe16 resp (pos + 8)).toNat
      · rw [if_pos (by omega), if_pos hrd]
        rfl
      rw [if_neg (by omega), if_neg hrd]
      by_cases haaaa : getBe16 resp pos = typeAaaa ∧ getBe16 resp (pos + 2) = classIn ∧
          (getBe16 resp (pos + 8)).toNat = 16
      · have hin6 : getIn6 (Mem.read (getU8 resp) (pos + 10) 16) 0 = getIn6 (resp.drop (pos + 10)) 0 := by
          rw [read_getU8 resp _ _ (by omega)]
          simp [getIn6, getBe32, getU8]
        rw [if_pos haaaa, if_pos haaaa, Program.answer_bind, answer_readBytes, hin6]
        cases extractPref64 (getIn6 (resp.drop (pos + 10)) 0) with
        | none => exact ih _
        | some r => rfl
      · rw [if_neg haaaa, if_neg haaaa]
        exact ih _

private theorem answer_readSections (domain : List Byte) (qdcount ancount : Nat) :
    (readSections resp.length domain qdcount ancount).answer (getU8 resp) =
      match matchQname domain (resp.drop 12) with
      | none => .error .invalid
      | some (cur, rest) =>
        if cur ≠ [] ∧ cur ≠ [dot] then .error .invalid
        else if rest.length < 4 then .error .invalid
        else if getBe16 rest 0 ≠ typeAaaa ∨ getBe16 rest 2 ≠ classIn then .error .invalid
        else match skipQuestions (qdcount - 1) (rest.drop 4) with
          | none => .error .invalid
          | some rest => match scanAnswers ancount rest with
            | none => .error .invalid
            | some r => .ok r := by
  rw [readSections, Program.answer_bind, answer_readMatchQname]
  cases (readMatchQname resp.length domain 12).answer (getU8 resp) with
  | none => rfl
  | some r =>
    obtain ⟨cur, pos⟩ := r
    dsimp only [Option.map_some]
    have h4 : resp.length - pos < 4 ↔ resp.length < pos + 4 := by omega
    simp only [Program.answer_ite, Program.answer_bind, Program.pure_eq, Program.answer_done, answer_readBe16,
      List.length_drop, List.drop_drop, getBe16_drop, Nat.add_zero, h4, flowBe16_getU8, answer_readSkipQuestions]
    cases (readSkipQuestions resp.length (qdcount - 1) (pos + 4)).answer (getU8 resp) with
    | none => rfl
    | some pos =>
      simp only [Option.map_some, Program.answer_bind, answer_readAnswers]
      cases (readAnswers resp.length ancount pos).answer (getU8 resp) <;> rfl

/-- **The program of the reads returns what the discoverer returns.** -/
theorem answer_readDns (expectedId : BitVec 16) (expectedDomain : List Byte) :
    (readDns resp.length expectedId expectedDomain).answer (getU8 resp) =
      parseDnsResponse resp expectedId expectedDomain := by
  unfold readDns parseDnsResponse
  simp only [Program.answer_ite, Program.answer_bind, Program.pure_eq, Program.answer_done, answer_readBe16,
    answer_readByte, flowBe16_getU8]
  -- the seven tests of the header, then the sections
  iterate 7 refine if_congr Iff.rfl rfl ?_
  exact answer_readSections ..

end

/-! ### What the program reads -/

section
variable {rlen : Nat}

/-- A name is read inside the message. -/
private theorem reads_skipName (length pos : Nat) :
    (readSkipName rlen length pos).Asks (· < rlen) fun _ => True := by
  induction hk : rlen - pos using Nat.strong_induction_on generalizing length pos with
  | _ k ih =>
    rw [readSkipName.eq_def]
    refine Program.Asks.ite (fun hpos => ?_) fun _ => trivial
    refine Program.Asks.bind (reads_byte hpos) fun b _ => ?_
    refine Program.Asks.ite (fun _ => trivial) fun _ => ?_
    refine Program.Asks.ite (fun _ => trivial) fun _ => ?_
    refine Program.Asks.ite (fun _ => trivial) fun _ => ?_
    exact ih _ (by omega) _ _ rfl

private theorem reads_skipQuestions (n pos : Nat) : (readSkipQuestions rlen n pos).Asks (· < rlen) fun _ => True := by
  induction n generalizing pos with
  | zero => trivial
  | succ n ih =>
    rw [readSkipQuestions]
    refine Program.Asks.bind (reads_skipName 0 pos) fun r _ => ?_
    cases r with
    | none => trivial
    | some pos => exact Program.Asks.ite (fun _ => trivial) fun _ => ih _

private theorem reads_matchQname (cur : List Byte) (pos : Nat) :
    (readMatchQname rlen cur pos).Asks (· < rlen) fun _ => True := by
  induction hk : rlen - pos using Nat.strong_induction_on generalizing cur pos with
  | _ k ih =>
    rw [readMatchQname.eq_def]
    refine Program.Asks.ite (fun hpos => ?_) fun _ => trivial
    refine Program.Asks.bind (reads_byte hpos) fun llen _ => ?_
    refine Program.Asks.ite (fun _ => trivial) fun _ => ?_
    refine Program.Asks.ite (fun _ => trivial) fun _ => ?_
    refine Program.Asks.ite (fun _ => trivial) fun hlen => ?_
    refine Program.Asks.ite (fun _ => trivial) fun _ => ?_
    refine Program.Asks.bind (reads_bytes (by omega)) fun s _ => ?_
    refine Program.Asks.ite (fun _ => trivial) fun _ => ?_
    exact ih _ (by omega) _ _ rfl

private theorem reads_answers (n pos : Nat) : (readAnswers rlen n pos).Asks (· < rlen) fun _ => True := by
  induction n generalizing pos with
  | zero => trivial
  | succ n ih =>
    rw [readAnswers]
    refine Program.Asks.ite (fun _ => trivial) fun _ => ?_
    refine Program.Asks.bind (reads_skipName 0 pos) fun r _ => ?_
    cases r with
    | none => trivial
    | some pos =>
      refine Program.Asks.ite (fun _ => trivial) fun h10 => ?_
      refine Program.Asks.bind (reads_be16 (by omega)) fun atype _ => ?_
      refine Program.Asks.bind (reads_be16 (by omega)) fun aclass _ => ?_
      refine Program.Asks.bind (reads_be16 (by omega)) fun rdlen _ => ?_
      refine Program.Asks.ite (fun _ => trivial) fun hrd => ?_
      refine Program.Asks.ite (fun haaaa => ?_) fun _ => ih _
      refine Program.Asks.bind (reads_bytes (by omega)) fun in6 _ => ?_
      cases extractPref64 (getIn6 in6 0) with
      | none => exact ih _
      | some r => trivial

/-- **Only bytes of the message are read**, whatever they are. -/
theorem asks_readDns (rlen : Nat) (expectedId : BitVec 16) (expectedDomain : List Byte) :
    (readDns rlen expectedId expectedDomain).Asks (· < rlen) fun _ => True := by
  unfold readDns
  refine Program.Asks.ite (fun _ => trivial) fun h12 => ?_
  refine Program.Asks.bind (reads_be16 (by omega)) fun id _ => ?_
  refine Program.Asks.ite (fun _ => trivial) fun _ => ?_
  refine Program.Asks.bind (reads_byte (by omega)) fun flags _ => ?_
  refine Program.Asks.ite (fun _ => trivial) fun _ => ?_
  refine Program.Asks.ite (fun _ => trivial) fun _ => ?_
  refine Program.Asks.bind (reads_byte (by omega)) fun rcode _ => ?_
  refine Program.Asks.ite (fun _ => trivial) fun _ => ?_
  refine Program.Asks.bind (reads_be16 (by omega)) fun qdcount _ => ?_
  refine Program.Asks.ite (fun _ => trivial) fun _ => ?_
  refine Program.Asks.bind (reads_be16 (by omega)) fun ancount _ => ?_
  refine Program.Asks.ite (fun _ => trivial) fun _ => ?_
  unfold readSections
  refine Program.Asks.bind (reads_matchQname expectedDomain 12) fun r _ => ?_
  cases r with
  | none => trivial
  | some r =>
    refine Program.Asks.ite (fun _ => trivial) fun _ => ?_
    refine Program.Asks.ite (fun _ => trivial) fun h4 => ?_
    refine Program.Asks.bind (reads_be16 (by omega)) fun qtype _ => ?_
    refine Program.Asks.bind (reads_be16 (by omega)) fun qclass _ => ?_
    refine Program.Asks.ite (fun _ => trivial) fun _ => ?_
    refine Program.Asks.bind (reads_skipQuestions _ _) fun pos _ => ?_
    cases pos with
    | none => trivial
    | some pos =>
      refine Program.Asks.bind (reads_answers _ pos) fun r _ => ?_
      cases r <;> trivial

end

end Tayga
