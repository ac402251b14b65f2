import Tayga.FlowReads
import Tayga.VnetLaw

/-!
# The walk over the IPv4 options

`gso_validate_ipv4_header` once more, as the program of its reads (`readIpv4Header`).  The walk over the options has no
fuel here: every turn moves on by at least one byte.  It reads only inside the header (`asks_readOptions`), and what it
accepts are IPv4 options up to an end-of-list, with no source route that still has an address to go to
(`gsoOptions_iff`).
-/

namespace Tayga

/-! ### The reads -/

/-- `ntohl` of the four bytes at `k`. -/
def readBe32 (k : Nat) : Reading (BitVec 32) := do
  let b0 ← readByte k
  let b1 ← readByte (k + 1)
  let b2 ← readByte (k + 2)
  let b3 ← readByte (k + 3)
  pure (ofBytes4 b0 b1 b2 b3)

/-- The reads of `gsoOptions` from the offset `off` on. -/
def readOptions (ihl off : Nat) : Reading Bool :=
  if off < ihl then do
    let kind ← readByte off
    if kind = 0 then pure true
    else if kind = 1 then readOptions ihl (off + 1)
    else if ihl < off + 2 then pure false
    else do
      let len ← readByte (off + 1)
      if len.toNat < 2 ∨ ihl < off + len.toNat then pure false
      else if kind = 131 ∨ kind = 137 then
        -- the pointer is looked at only where there is one
        if len.toNat < 3 then pure false
        else do
          let pointer ← readByte (off + 2)
          if pointer.toNat ≤ len.toNat then pure false else readOptions ihl (off + len.toNat)
      else readOptions ihl (off + len.toNat)
  else pure true
termination_by ihl - off

/-- The reads of `gsoValidateIpv4Header` behind the first byte. -/
def readIpv4Fields (e : Endian) (n : Nat) (proto verIhl : Byte) : Reading (Option Nat) :=
  let ihl := (verIhl &&& 0x0f).toNat * 4
  if verIhl >>> 4 ≠ 4 then pure none
  else do
    let proto' ← readByte 9
    if proto' ≠ proto then pure none
    else do
      let length ← readBe16 2
      if length ≠ BitVec.ofNat 16 n then pure none
      else do
        let flagsOffset ← readBe16 6
        if flagsOffset &&& (ip4FMask ||| ip4FMf) ≠ 0 then pure none
        else if ihl < 20 ∨ n < ihl then pure none
        else do
          let header ← readBytes 0 ihl
          if ipChecksum e header ≠ 0 then pure none
          else do
            let src ← readBe32 12
            if validateIp4Addr src = some .drop then pure none
            else do
              let dest ← readBe32 16
              if validateIp4Addr dest = some .drop then pure none
              else do
                let ok ← readOptions ihl 20
                pure (if ok then some ihl else none)

/-- The reads of `gsoValidateIpv4Header` in a packet of `n` bytes. -/
def readIpv4Header (e : Endian) (n : Nat) (proto : Byte) : Reading (Option Nat) :=
  if n < 20 then pure none
  else do
    let verIhl ← readByte 0
    readIpv4Fields e n proto verIhl

/-! ### What the program returns -/

section
variable (d : List Byte)

private theorem answer_readBe32 (k : Nat) : (readBe32 k).answer (getU8 d) = getBe32 d k := by
  unfold readBe32
  simp only [Program.answer_bind, answer_readByte, Program.pure_eq, Program.answer_done]
  rfl

/-- **The fuel is never used up**: any amount from the length of the options on gives what the program without fuel
returns. -/
theorem answer_readOptions {ihl fuel off : Nat} (h : ihl - off ≤ fuel) :
    (readOptions ihl off).answer (getU8 d) = gsoOptions d ihl fuel off := by
  induction fuel generalizing off with
  | zero =>
    rw [readOptions.eq_def, if_neg (by omega)]
    rfl
  | succ fuel ih =>
    rw [readOptions.eq_def, gsoOptions]
    by_cases hoff : off < ihl
    · rw [if_pos hoff, if_neg (by omega), Program.answer_bind, answer_readByte]
      dsimp only
      generalize getU8 d off = kind
      by_cases h0 : kind = 0
      · rw [if_pos h0, if_pos h0]
        rfl
      rw [if_neg h0, if_neg h0]
      by_cases h1 : kind = 1
      · rw [if_pos h1, if_pos h1]
        exact ih (by omega)
      rw [if_neg h1, if_neg h1]
      by_cases h2 : ihl < off + 2
      · rw [if_pos h2, if_pos h2]
        rfl
      rw [if_neg h2, if_neg h2, Program.answer_bind, answer_readByte]
      generalize getU8 d (off + 1) = len
      by_cases hlen : len.toNat < 2 ∨ ihl < off + len.toNat
      · rw [if_pos hlen, if_pos hlen]
        rfl
      rw [if_neg hlen, if_neg hlen]
      by_cases hroute : kind = 131 ∨ kind = 137
      · rw [if_pos hroute]
        by_cases h3 : len.toNat < 3
        · rw [if_pos h3, if_pos ⟨hroute, Or.inl h3⟩]
          rfl
        rw [if_neg h3, Program.answer_bind, answer_readByte]
        by_cases hpointer : (getU8 d (off + 2)).toNat ≤ len.toNat
        · rw [if_pos hpointer, if_pos ⟨hroute, Or.inr hpointer⟩]
          rfl
        · rw [if_neg hpointer, if_neg (by tauto)]
          exact ih (by omega)
      · rw [if_neg hroute, if_neg fun h => hroute h.1]
        exact ih (by omega)
    · rw [if_neg hoff, if_pos (by omega)]
      rfl

/-- **The program of the reads returns what `gso_validate_ipv4_header` returns.** -/
theorem answer_readIpv4Header (e : Endian) (proto : Byte) :
    (readIpv4Header e d.length proto).answer (getU8 d) = gsoValidateIpv4Header e d proto := by
  unfold readIpv4Header gsoValidateIpv4Header readIpv4Fields
  dsimp only [Ip4.ofBytes]
  by_cases hn : d.length < 20
  · rw [if_pos hn, if_pos hn]
    rfl
  rw [if_neg hn, if_neg hn, Program.answer_bind, answer_readByte]
  generalize hihl : (getU8 d 0 &&& 0x0f).toNat * 4 = ihl
  by_cases hversion : getU8 d 0 >>> 4 ≠ 4
  · rw [if_pos hversion, if_pos (Or.inl hversion)]
    rfl
  rw [if_neg hversion, Program.answer_bind, answer_readByte]
  by_cases hproto : getU8 d 9 ≠ proto
  · rw [if_pos hproto, if_pos (Or.inr (Or.inl hproto))]
    rfl
  rw [if_neg hproto, Program.answer_bind, answer_readBe16, flowBe16_getU8]
  by_cases hlength : getBe16 d 2 ≠ BitVec.ofNat 16 d.length
  · rw [if_pos hlength, if_pos (Or.inr (Or.inr (Or.inl hlength)))]
    rfl
  rw [if_neg hlength, Program.answer_bind, answer_readBe16, flowBe16_getU8]
  by_cases hflags : getBe16 d 6 &&& (ip4FMask ||| ip4FMf) ≠ 0
  · rw [if_pos hflags, if_pos (Or.inr (Or.inr (Or.inr hflags)))]
    rfl
  have hfields : ¬(getU8 d 0 >>> 4 ≠ 4 ∨ getU8 d 9 ≠ proto ∨ getBe16 d 2 ≠ BitVec.ofNat 16 d.length ∨
      getBe16 d 6 &&& (ip4FMask ||| ip4FMf) ≠ 0) := by tauto
  rw [if_neg hflags, if_neg hfields]
  by_cases hlong : ihl < 20 ∨ d.length < ihl
  · rw [if_pos hlong, if_pos (by tauto)]
    rfl
  rw [if_neg hlong, Program.answer_bind, answer_readBytes, read_getU8 d 0 ihl (by omega), List.drop_zero]
  by_cases hcksum : ipChecksum e (d.take ihl) ≠ 0
  · rw [if_pos hcksum, if_pos (by tauto)]
    rfl
  rw [if_neg hcksum, Program.answer_bind, answer_readBe32]
  by_cases hsrc : validateIp4Addr (getBe32 d 12) = some .drop
  · rw [if_pos hsrc, if_pos (by tauto)]
    rfl
  rw [if_neg hsrc, Program.answer_bind, answer_readBe32]
  by_cases hdest : validateIp4Addr (getBe32 d 16) = some .drop
  · rw [if_pos hdest, if_pos (by tauto)]
    rfl
  rw [if_neg hdest, if_neg (by tauto), Program.answer_bind, answer_readOptions d (Nat.sub_le ihl 20)]
  cases gsoOptions d ihl ihl 20 <;> rfl

end

/-! ### What the program reads -/

theorem reads_be32 {k n : Nat} (hk : k + 4 ≤ n) : (readBe32 k).Asks (· < n) fun _ => True := by
  unfold readBe32
  refine Program.Asks.bind (reads_byte (by omega)) fun b0 _ => ?_
  refine Program.Asks.bind (reads_byte (by omega)) fun b1 _ => ?_
  refine Program.Asks.bind (reads_byte (by omega)) fun b2 _ => ?_
  exact Program.Asks.bind (reads_byte (by omega)) fun b3 _ => trivial

private theorem asks_readOptions (ihl off : Nat) : (readOptions ihl off).Asks (· < ihl) fun _ => True := by
  induction hk : ihl - off using Nat.strong_induction_on generalizing off with
  | _ k ih =>
    rw [readOptions.eq_def]
    refine Program.Asks.ite (fun hoff => ?_) fun _ => trivial
    refine Program.Asks.bind (reads_byte hoff) fun kind _ => ?_
    refine Program.Asks.ite (fun _ => trivial) fun _ => ?_
    refine Program.Asks.ite (fun _ => ih _ (by omega) _ rfl) fun _ => ?_
    refine Program.Asks.ite (fun _ => trivial) fun h2 => ?_
    refine Program.Asks.bind (reads_byte (by omega)) fun len _ => ?_
    refine Program.Asks.ite (fun _ => trivial) fun hlen => ?_
    refine Program.Asks.ite (fun _ => ?_) fun _ => ih _ (by omega) _ rfl
    refine Program.Asks.ite (fun _ => trivial) fun h3 => ?_
    refine Program.Asks.bind (reads_byte (by omega)) fun pointer _ => ?_
    exact Program.Asks.ite (fun _ => trivial) fun _ => ih _ (by omega) _ rfl

/-- Behind the first byte only bytes of the header are read, however long that byte says it is. -/
private theorem asks_readIpv4Fields (e : Endian) {n : Nat} (hn : 20 ≤ n) (proto verIhl : Byte) :
    (readIpv4Fields e n proto verIhl).Asks (fun k => k < n ∧ k < max 20 ((verIhl &&& 0x0f).toNat * 4))
      fun _ => True := by
  unfold readIpv4Fields
  dsimp only
  generalize (verIhl &&& 0x0f).toNat * 4 = ihl
  -- the fixed fields are in every header
  have hfixed : ∀ {β : Type} {p : Reading β}, p.Asks (· < 20) (fun _ => True) →
      p.Asks (fun k => k < n ∧ k < max 20 ihl) fun _ => True :=
    fun hp => hp.mono (fun k hk => ⟨by omega, by omega⟩) fun _ h => h
  refine Program.Asks.ite (fun _ => trivial) fun _ => ?_
  refine Program.Asks.bind (hfixed (reads_byte (by omega))) fun proto' _ => ?_
  refine Program.Asks.ite (fun _ => trivial) fun _ => ?_
  refine Program.Asks.bind (hfixed (reads_be16 (by omega))) fun length _ => ?_
  refine Program.Asks.ite (fun _ => trivial) fun _ => ?_
  refine Program.Asks.bind (hfixed (reads_be16 (by omega))) fun flagsOffset _ => ?_
  refine Program.Asks.ite (fun _ => trivial) fun _ => ?_
  refine Program.Asks.ite (fun _ => trivial) fun hlong => ?_
  have hheader : ∀ {β : Type} {p : Reading β}, p.Asks (· < ihl) (fun _ => True) →
      p.Asks (fun k => k < n ∧ k < max 20 ihl) fun _ => True :=
    fun hp => hp.mono (fun k hk => ⟨by omega, by omega⟩) fun _ h => h
  refine Program.Asks.bind (hheader (reads_bytes (by omega))) fun header _ => ?_
  refine Program.Asks.ite (fun _ => trivial) fun _ => ?_
  refine Program.Asks.bind (hfixed (reads_be32 (by omega))) fun src _ => ?_
  refine Program.Asks.ite (fun _ => trivial) fun _ => ?_
  refine Program.Asks.bind (hfixed (reads_be32 (by omega))) fun dest _ => ?_
  refine Program.Asks.ite (fun _ => trivial) fun _ => ?_
  exact Program.Asks.bind (hheader (asks_readOptions ihl 20)) fun ok _ => trivial

/-- **Only bytes of the header are read.** -/
theorem asked_readIpv4Header (e : Endian) (d : List Byte) (proto : Byte) :
    ∀ k ∈ (readIpv4Header e d.length proto).asked (getU8 d), k < d.length ∧ k < max 20 (ip4Ihl d) := by
  unfold readIpv4Header
  by_cases hn : d.length < 20
  · rw [if_pos hn]
    exact fun k hk => absurd hk List.not_mem_nil
  · rw [if_neg hn, Program.asked_bind, answer_readByte]
    intro k hk
    rcases List.mem_append.1 hk with hk | hk
    · obtain rfl := List.mem_singleton.1 hk
      exact ⟨by omega, by omega⟩
    · exact (asks_readIpv4Fields e (Nat.le_of_not_lt hn) proto (getU8 d 0)).asked _ k hk

/-! ### Options -/

/-- An option of an IPv4 header: the one byte of a no-operation, or a kind, a length and what is behind it. -/
inductive Ip4Option where
  | noOperation
  | tlv (kind : Byte) (data : List Byte) (hkind : kind ≠ 0 ∧ kind ≠ 1) (hlen : data.length + 2 < 256)

/-- The option as it lies in the header. -/
def Ip4Option.wire : Ip4Option → List Byte
  | noOperation => [1]
  | tlv kind data _ _ => kind :: BitVec.ofNat 8 (data.length + 2) :: data

/-- A loose or a strict source route. -/
def Ip4Option.SourceRoute : Ip4Option → Prop
  | noOperation => False
  | tlv kind _ _ _ => kind = 131 ∨ kind = 137

/-- The route is used up: its pointer is greater than its length. -/
def Ip4Option.Expired : Ip4Option → Prop
  | noOperation => False
  | tlv _ data _ _ => ∃ pointer ∈ data.head?, data.length + 2 < pointer.toNat

/-- Options up to the end of the area or an end-of-list, with no source route that has not expired. -/
def OptionsOk (area : List Byte) : Prop := ∃ (options : List Ip4Option) (rest : List Byte),
  area = options.flatMap Ip4Option.wire ++ rest ∧ (rest = [] ∨ rest.head? = some 0) ∧
    ∀ o ∈ options, o.SourceRoute → o.Expired

variable {kind len : Byte} {l : List Byte}

private theorem optionsOk_nil : OptionsOk [] := ⟨[], [], rfl, Or.inl rfl, fun _ h => absurd h List.not_mem_nil⟩

private theorem optionsOk_end (l : List Byte) : OptionsOk (0 :: l) :=
  ⟨[], 0 :: l, rfl, Or.inr rfl, fun _ h => absurd h List.not_mem_nil⟩

theorem OptionsOk.cons {o : Ip4Option} (h : OptionsOk l) (ho : o.SourceRoute → o.Expired) :
    OptionsOk (o.wire ++ l) := by
  obtain ⟨options, rest, rfl, hrest, hroutes⟩ := h
  refine ⟨o :: options, rest, by rw [List.flatMap_cons, List.append_assoc], hrest, ?_⟩
  rw [List.forall_mem_cons]
  exact ⟨ho, hroutes⟩

/-- Behind a byte that ends no list there is an option. -/
private theorem OptionsOk.uncons (h : OptionsOk (kind :: l)) (h0 : kind ≠ 0) : ∃ (o : Ip4Option) (l' : List Byte),
    kind :: l = o.wire ++ l' ∧ (o.SourceRoute → o.Expired) ∧ OptionsOk l' := by
  obtain ⟨options, rest, harea, hrest, hroutes⟩ := h
  cases options with
  | nil =>
    rw [List.flatMap_nil, List.nil_append] at harea
    rcases hrest with hrest | hrest
    · exact absurd (harea.trans hrest) (List.cons_ne_nil _ _)
    · rw [← harea, List.head?_cons, Option.some.injEq] at hrest
      exact absurd hrest h0
  | cons o options =>
    rw [List.forall_mem_cons] at hroutes
    exact ⟨o, options.flatMap Ip4Option.wire ++ rest, by rw [harea, List.flatMap_cons, List.append_assoc], hroutes.1,
      options, rest, rfl, hrest, hroutes.2⟩

private theorem optionsOk_noOperation : OptionsOk (1 :: l) ↔ OptionsOk l := by
  constructor
  · intro h
    obtain ⟨o, l', harea, -, hl'⟩ := h.uncons (by decide)
    cases o with
    | noOperation =>
      rw [Ip4Option.wire, List.singleton_append, List.cons.injEq] at harea
      exact harea.2 ▸ hl'
    | tlv kind data hkind hlen =>
      rw [Ip4Option.wire, List.cons_append, List.cons.injEq] at harea
      exact absurd harea.1.symm hkind.2
  · exact fun h => h.cons (o := .noOperation) False.elim

private theorem not_optionsOk_cut (h0 : kind ≠ 0) (h1 : kind ≠ 1) : ¬OptionsOk [kind] := by
  intro h
  obtain ⟨o, l', harea, -⟩ := h.uncons h0
  cases o with
  | noOperation =>
    rw [Ip4Option.wire, List.singleton_append, List.cons.injEq] at harea
    exact h1 harea.1
  | tlv kind' data hkind hlen =>
    rw [Ip4Option.wire, List.cons_append, List.cons_append, List.cons.injEq] at harea
    cases harea.2

private theorem optionsOk_tlv (h0 : kind ≠ 0) (h1 : kind ≠ 1) : OptionsOk (kind :: len :: l) ↔
    2 ≤ len.toNat ∧ len.toNat - 2 ≤ l.length ∧
      (kind = 131 ∨ kind = 137 → ∃ pointer ∈ (l.take (len.toNat - 2)).head?, len.toNat < pointer.toNat) ∧
      OptionsOk (l.drop (len.toNat - 2)) := by
  constructor
  · intro h
    obtain ⟨o, l', harea, hroute, hl'⟩ := h.uncons h0
    cases o with
    | noOperation =>
      rw [Ip4Option.wire, List.singleton_append, List.cons.injEq] at harea
      exact absurd harea.1 h1
    | tlv kind' data hkind hlen =>
      rw [Ip4Option.wire, List.cons_append, List.cons_append, List.cons.injEq, List.cons.injEq] at harea
      obtain ⟨rfl, rfl, rfl⟩ := harea
      have hdata : (BitVec.ofNat 8 (data.length + 2)).toNat = data.length + 2 := by
        rw [BitVec.toNat_ofNat, Nat.mod_eq_of_lt hlen]
      rw [hdata, Nat.add_sub_cancel, List.take_left, List.drop_left, List.length_append]
      exact ⟨by omega, by omega, hroute, hl'⟩
  · rintro ⟨h2, hle, hroute, hl'⟩
    have hlen : (l.take (len.toNat - 2)).length + 2 = len.toNat := by
      rw [List.length_take]
      omega
    have hwire : kind :: len :: l = (Ip4Option.tlv kind (l.take (len.toNat - 2)) ⟨h0, h1⟩
        (by have := len.isLt; omega)).wire ++ l.drop (len.toNat - 2) := by
      rw [Ip4Option.wire, hlen, BitVec.ofNat_toNat, BitVec.setWidth_eq, List.cons_append, List.cons_append,
        List.take_append_drop]
    rw [hwire]
    refine hl'.cons fun hr => ?_
    obtain ⟨pointer, hp, hlt⟩ := hroute hr
    exact ⟨pointer, hp, by omega⟩

/-! ### The walk accepts exactly these -/

section
variable {d : List Byte} {ihl off : Nat}

private theorem drop_area (hihl : ihl ≤ d.length) (hoff : off < ihl) :
    (d.take ihl).drop off = getU8 d off :: (d.take ihl).drop (off + 1) := by
  have hlen : off < (d.take ihl).length := by
    rw [List.length_take]
    omega
  rw [List.drop_eq_getElem_cons hlen, List.getElem_take, getU8, List.getD_eq_getElem?_getD,
    List.getElem?_eq_getElem (by omega), Option.getD_some]

/-- The pointer of a route lies behind its length, where the option has a byte there. -/
private theorem pointer_area (hihl : ihl ≤ d.length) {len : Nat} (h2 : 2 ≤ len) (hlen : off + len ≤ ihl) :
    (∃ pointer ∈ (((d.take ihl).drop (off + 2)).take (len - 2)).head?, len < pointer.toNat) ↔
      ¬(len < 3 ∨ (getU8 d (off + 2)).toNat ≤ len) := by
  by_cases h3 : len < 3
  · rw [show len - 2 = 0 by omega, List.take_zero]
    simp [h3]
  · obtain ⟨m, hm⟩ : ∃ m, len - 2 = m + 1 := ⟨len - 3, by omega⟩
    rw [drop_area hihl (by omega), hm, List.take_succ_cons, List.head?_cons]
    simp [h3]

/-- **The walk accepts an options area exactly when it is well formed.** -/
theorem gsoOptions_iff (hihl : ihl ≤ d.length) {fuel : Nat} (hfuel : ihl - off ≤ fuel) :
    gsoOptions d ihl fuel off = true ↔ OptionsOk ((d.take ihl).drop off) := by
  have hend : ∀ {k : Nat}, ihl ≤ k → (d.take ihl).drop k = [] := fun hk =>
    List.drop_eq_nil_of_le (by rw [List.length_take]; omega)
  induction fuel generalizing off with
  | zero =>
    rw [hend (by omega), gsoOptions]
    exact iff_of_true rfl optionsOk_nil
  | succ fuel ih =>
    rw [gsoOptions]
    by_cases hoff : ihl ≤ off
    · rw [if_pos hoff, hend hoff]
      exact iff_of_true rfl optionsOk_nil
    rw [if_neg hoff, drop_area hihl (by omega)]
    dsimp only
    generalize getU8 d off = kind
    by_cases h0 : kind = 0
    · rw [if_pos h0, h0]
      exact iff_of_true rfl (optionsOk_end _)
    rw [if_neg h0]
    by_cases h1 : kind = 1
    · rw [if_pos h1, h1, optionsOk_noOperation]
      exact ih (by omega)
    rw [if_neg h1]
    by_cases h2 : ihl < off + 2
    · rw [if_pos h2, hend (by omega)]
      exact iff_of_false Bool.false_ne_true (not_optionsOk_cut h0 h1)
    rw [if_neg h2, drop_area hihl (by omega), optionsOk_tlv h0 h1, List.drop_drop, List.length_drop, List.length_take]
    generalize getU8 d (off + 1) = len
    by_cases hlen : len.toNat < 2 ∨ ihl < off + len.toNat
    · rw [if_pos hlen]
      exact iff_of_false Bool.false_ne_true (by omega)
    have hnext : gsoOptions d ihl fuel (off + len.toNat) = true ↔ OptionsOk ((d.take ihl).drop (off + len.toNat)) :=
      ih (by omega)
    rw [if_neg hlen, pointer_area hihl (by omega) (by omega), show off + 1 + 1 + (len.toNat - 2) = off + len.toNat by
      omega]
    by_cases hroute : (kind = 131 ∨ kind = 137) ∧ (len.toNat < 3 ∨ (getU8 d (off + 2)).toNat ≤ len.toNat)
    · rw [if_pos hroute]
      exact iff_of_false Bool.false_ne_true fun h => h.2.2.1 hroute.1 hroute.2
    · rw [if_neg hroute, hnext]
      exact ⟨fun h => ⟨by omega, by omega, fun hr hp => hroute ⟨hr, hp⟩, h⟩, fun h => h.2.2.2⟩

end

/-- What `gso_validate_ipv4_header` asks of a header besides its options. -/
structure FixedFields (e : Endian) (d : List Byte) (proto : Byte) : Prop where
  hlen : 20 ≤ d.length
  hversion : (Ip4.ofBytes d).verIhl >>> 4 = 4
  hproto : (Ip4.ofBytes d).proto = proto
  hlength : (Ip4.ofBytes d).length = BitVec.ofNat 16 d.length
  hwhole : (Ip4.ofBytes d).flagsOffset &&& (ip4FMask ||| ip4FMf) = 0
  hihl : 20 ≤ ip4Ihl d ∧ ip4Ihl d ≤ d.length
  hcksum : ipChecksum e (d.take (ip4Ihl d)) = 0
  hsrc : validateIp4Addr (Ip4.ofBytes d).src ≠ some .drop
  hdest : validateIp4Addr (Ip4.ofBytes d).dest ≠ some .drop

private theorem gsoValidateIpv4Header_eq_some {e : Endian} {d : List Byte} {proto : Byte} {ihl : Nat} :
    gsoValidateIpv4Header e d proto = some ihl ↔
      FixedFields e d proto ∧ ihl = ip4Ihl d ∧ OptionsOk ((d.take ihl).drop 20) := by
  unfold gsoValidateIpv4Header
  dsimp only
  rw [← ip4Ihl]
  by_cases hlen : d.length < 20
  · rw [if_pos hlen]
    exact iff_of_false (Option.some_ne_none _).symm fun h => absurd h.1.hlen (by omega)
  rw [if_neg hlen]
  by_cases hfields : (Ip4.ofBytes d).verIhl >>> 4 ≠ 4 ∨ (Ip4.ofBytes d).proto ≠ proto ∨
      (Ip4.ofBytes d).length ≠ BitVec.ofNat 16 d.length ∨
      (Ip4.ofBytes d).flagsOffset &&& (ip4FMask ||| ip4FMf) ≠ 0
  · rw [if_pos hfields]
    refine iff_of_false (Option.some_ne_none _).symm fun h => ?_
    rcases hfields with hf | hf | hf | hf
    · exact hf h.1.hversion
    · exact hf h.1.hproto
    · exact hf h.1.hlength
    · exact hf h.1.hwhole
  rw [if_neg hfields]
  by_cases hrest : ip4Ihl d < 20 ∨ d.length < ip4Ihl d ∨ ipChecksum e (d.take (ip4Ihl d)) ≠ 0 ∨
      validateIp4Addr (Ip4.ofBytes d).src = some .drop ∨ validateIp4Addr (Ip4.ofBytes d).dest = some .drop
  · rw [if_pos hrest]
    refine iff_of_false (Option.some_ne_none _).symm fun h => ?_
    have hihl := h.1.hihl
    rcases hrest with hf | hf | hf | hf | hf
    · omega
    · omega
    · exact hf h.1.hcksum
    · exact h.1.hsrc hf
    · exact h.1.hdest hf
  rw [if_neg hrest]
  simp only [not_or, not_not, not_lt] at hfields hrest hlen
  have hfixed : FixedFields e d proto := ⟨hlen, hfields.1, hfields.2.1, hfields.2.2.1, hfields.2.2.2,
    ⟨hrest.1, hrest.2.1⟩, hrest.2.2.1, hrest.2.2.2.1, hrest.2.2.2.2⟩
  have hwalk : gsoOptions d (ip4Ihl d) (ip4Ihl d) 20 = true ↔ OptionsOk ((d.take (ip4Ihl d)).drop 20) :=
    gsoOptions_iff hrest.2.1 (by omega)
  cases hoptions : gsoOptions d (ip4Ihl d) (ip4Ihl d) 20 with
  | true =>
    rw [hoptions] at hwalk
    simp only [Bool.not_true, Bool.false_eq_true, if_false, Option.some.injEq]
    exact ⟨fun h => ⟨hfixed, h.symm, h ▸ hwalk.1 rfl⟩, fun h => h.2.1.symm⟩
  | false =>
    rw [hoptions] at hwalk
    simp only [Bool.not_false, if_true]
    refine iff_of_false (Option.some_ne_none _).symm fun h => ?_
    exact Bool.false_ne_true (hwalk.2 (h.2.1 ▸ h.2.2))

/-- **The walk over the options**: it comes to an end, with any fuel from the length of the options on; it reads only
inside the header; and a header that is right otherwise is accepted exactly when its options area is well formed. -/
theorem option_walk (e : Endian) (d : List Byte) (proto : Byte) :
    (∀ fuel, ip4Ihl d - 20 ≤ fuel →
      gsoOptions d (ip4Ihl d) fuel 20 = (readOptions (ip4Ihl d) 20).answer (getU8 d)) ∧
    (readIpv4Header e d.length proto).answer (getU8 d) = gsoValidateIpv4Header e d proto ∧
    (∀ k ∈ (readIpv4Header e d.length proto).asked (getU8 d), k < d.length ∧ k < max 20 (ip4Ihl d)) ∧
    ∀ ihl, gsoValidateIpv4Header e d proto = some ihl ↔
      FixedFields e d proto ∧ ihl = ip4Ihl d ∧ OptionsOk ((d.take ihl).drop 20) :=
  ⟨fun _ hfuel => (answer_readOptions d hfuel).symm, answer_readIpv4Header d e proto, asked_readIpv4Header e d proto,
    fun _ => gsoValidateIpv4Header_eq_some⟩

/-- A header with a no-operation and a loose source route that has expired. -/
def expiredRoute : List Byte :=
  [0x46, 0x00, 0x00, 0x18, 0x00, 0x00, 0x40, 0x00, 0x40, 0x06, 0xb1, 0x55,
    0xc0, 0x00, 0x02, 0x01, 0xc0, 0x00, 0x02, 0x02, 0x01, 0x83, 0x03, 0x04]

theorem option_walk_expired : FixedFields .little expiredRoute 6 ∧ OptionsOk [1, 131, 3, 4] := by
  obtain ⟨-, -, -, hwalk⟩ := option_walk .little expiredRoute 6
  obtain ⟨hfixed, -, hoptions⟩ := (hwalk 24).1 (by decide +kernel)
  exact ⟨hfixed, hoptions⟩

end Tayga
