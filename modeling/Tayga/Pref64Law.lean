import Tayga.Synthesis

/-!
# What the helper takes for a prefix

`extract_pref64` looks for a well-known address at six places, from the longest prefix to the shortest, and takes the
first match (`extractPref64_eq`).  It never looks at the octets around the address: the reserved octet and the suffix
may be anything.  So it is exact on the addresses whose reserved octet and suffix are zero (`extractPref64_exact`).
-/

namespace Tayga

open BitPrefix

/-! ### The places of the address -/

/-- The IPv4 address behind the first `len` bits of `x`, around the reserved octet. -/
def carried (x : In6) (len : Nat) : In4 :=
  let b := getU8 (beIn6 x)
  match len with
  | 32 => ofBytes4 (b 4) (b 5) (b 6) (b 7)
  | 40 => ofBytes4 (b 5) (b 6) (b 7) (b 9)
  | 48 => ofBytes4 (b 6) (b 7) (b 9) (b 10)
  | 56 => ofBytes4 (b 7) (b 9) (b 10) (b 11)
  | 64 => ofBytes4 (b 9) (b 10) (b 11) (b 12)
  | _ => ofBytes4 (b 12) (b 13) (b 14) (b 15)

/-- One of the two well-known addresses. -/
def IsWka (a : In4) : Prop := a = wka1 ∨ a = wka2

instance : DecidablePred IsWka := fun _ => inferInstanceAs (Decidable (_ ∨ _))

/-- The longest prefix length at which `x` carries a well-known address. -/
def firstCarried (x : In6) : Option Nat := [96, 64, 56, 48, 40, 32].find? fun len => decide (IsWka (carried x len))

private theorem firstCarried_mem {x : In6} {len : Nat} (h : firstCarried x = some len) : len ∈ prefixLens := by
  have hmem := List.mem_of_find?_eq_some h
  simp only [List.mem_cons, List.not_mem_nil, or_false] at hmem
  rcases hmem with rfl | rfl | rfl | rfl | rfl | rfl <;> decide

/-- What is embedded is carried. -/
private theorem carried_embed {len : Nat} (hl : len ∈ prefixLens) (p : In6) (a : In4) :
    carried (embed p len a) len = a := by
  obtain ⟨b0, b1, b2, b3, b4, b5, b6, b7, b8, b9, b10, b11, b12, b13, b14, b15, rfl⟩ := exists_bytes6 p
  obtain ⟨a0, a1, a2, a3, rfl⟩ := exists_bytes4 a
  rcases prefixLens_cases hl with rfl | rfl | rfl | rfl | rfl | rfl <;>
    simp [carried, embed, beIn6, be32, getU8]

private theorem matchV4_eq (b0 b1 b2 b3 : Byte) : matchV4 b0 b1 b2 b3 = decide (IsWka (ofBytes4 b0 b1 b2 b3)) := by
  have key : ∀ a : In4, [b0, b1, b2, b3] = be32 a ↔ ofBytes4 b0 b1 b2 b3 = a := by
    intro a
    obtain ⟨a0, a1, a2, a3, rfl⟩ := exists_bytes4 a
    rw [ofBytes4_inj]
    simp [be32]
  unfold matchV4
  rw [decide_eq_decide.2 (key wka1), decide_eq_decide.2 (key wka2)]
  exact (Bool.decide_or _ _).symm

private theorem getIn6_eq_zero {res : List Byte} (h : res.length = 16) :
    getIn6 res 0 = 0 ↔ res = List.replicate 16 0 := by
  match res, h with
  | [b0, b1, b2, b3, b4, b5, b6, b7, b8, b9, b10, b11, b12, b13, b14, b15], _ =>
    have h6 : (0 : In6) = ofWords6 (ofBytes4 0 0 0 0) (ofBytes4 0 0 0 0) (ofBytes4 0 0 0 0) (ofBytes4 0 0 0 0) := by
      decide
    rw [getIn6_bytes, h6, ofWords6_inj, ofBytes4_inj, ofBytes4_inj, ofBytes4_inj, ofBytes4_inj]
    simp only [List.replicate, List.cons.injEq, and_assoc, and_true]

/-- The bytes in front of the prefix length, with zeros behind them, are the prefix. -/
private theorem getIn6_take {len i : Nat} (h : (len, i) ∈ [(96, 12), (64, 8), (56, 7), (48, 6), (40, 5), (32, 4)])
    (x : In6) :
    getIn6 ((beIn6 x).take i ++ List.replicate (16 - i) 0) 0 = x &&& mask 128 len := by
  have h0 : (0 : In4) = ofBytes4 0 0 0 0 := by decide
  obtain ⟨b0, b1, b2, b3, b4, b5, b6, b7, b8, b9, b10, b11, b12, b13, b14, b15, rfl⟩ := exists_bytes6 x
  simp only [List.mem_cons, Prod.mk.injEq, List.not_mem_nil, or_false] at h
  rcases h with ⟨rfl, rfl⟩ | ⟨rfl, rfl⟩ | ⟨rfl, rfl⟩ | ⟨rfl, rfl⟩ | ⟨rfl, rfl⟩ | ⟨rfl, rfl⟩ <;>
    rw [and_mask_eq (by decide)] <;>
    simp [embed, h0, beIn6_ofBytes, getIn6_bytes, List.replicate]

/-- A search whose result is looked up, as a chain of cases. -/
private theorem find?_bind {α β : Type} (p : α → Prop) [DecidablePred p] (f : α → Option β) (l : List α) :
    (l.find? fun a => decide (p a)).bind f = l.foldr (fun a r => if p a then f a else r) none := by
  induction l with
  | nil => rfl
  | cons a l ih =>
    rw [List.find?_cons, List.foldr_cons, ← ih]
    by_cases h : p a
    · simp [h]
    · simp [h]

/-- The prefix that is found: nothing if it is empty. -/
def foundPrefix (x : In6) (len : Nat) : Option (Nat × In6) :=
  if x &&& mask 128 len = 0 then none else some (len, x &&& mask 128 len)

/-- **`extract_pref64`**: the first match, unless the address is excluded or the prefix empty. -/
theorem extractPref64_eq (x : In6) : extractPref64 x =
    if excludedBytes (beIn6 x) then none else (firstCarried x).bind (foundPrefix x) := by
  have hfound : ∀ len i, (len, i) ∈ [(96, 12), (64, 8), (56, 7), (48, 6), (40, 5), (32, 4)] →
      (if (beIn6 x).take i ++ List.replicate (16 - i) 0 = List.replicate 16 0 then none
        else some (len, getIn6 ((beIn6 x).take i ++ List.replicate (16 - i) 0) 0)) = foundPrefix x len := by
    intro len i hmem
    have hi : i ≤ 16 := by
      simp only [List.mem_cons, Prod.mk.injEq, List.not_mem_nil, or_false] at hmem
      omega
    have hlen : ((beIn6 x).take i ++ List.replicate (16 - i) 0).length = 16 := by
      rw [List.length_append, List.length_take, List.length_replicate, length_beIn6]
      omega
    unfold foundPrefix
    rw [← getIn6_take hmem x]
    simp only [getIn6_eq_zero hlen]
  unfold extractPref64
  dsimp only
  refine if_congr Iff.rfl rfl ?_
  simp only [matchV4_eq, decide_eq_true_eq]
  rw [hfound 96 12 (by decide), hfound 64 8 (by decide), hfound 56 7 (by decide), hfound 48 6 (by decide),
    hfound 40 5 (by decide), hfound 32 4 (by decide)]
  unfold firstCarried
  rw [find?_bind]
  rfl

/-! ### Exactness -/

/-- The reserved octet and the suffix are zero: nothing but the prefix and the IPv4 address is there. -/
def Padded (x : In6) (len : Nat) : Prop := embed x len (carried x len) = x

instance (x : In6) (len : Nat) : Decidable (Padded x len) := inferInstanceAs (Decidable (_ = _))

/-- `extract_pref64` finds in `x` the prefix and the length that `x` is synthesized from with a well-known address, and
nothing else. -/
def ExactAt (x : In6) : Prop := ∀ len p, extractPref64 x = some (len, p) ↔
  len ∈ prefixLens ∧ Normal p len ∧ p ≠ 0 ∧ excludedBytes (beIn6 x) = false ∧
    ∃ a, IsWka a ∧ synthesizePref64 p len a = some x

/-- A prefix with zero host bits that is not empty is found in what is synthesized from it. -/
private theorem extractPref64_synthesize {len : Nat} (hl : len ∈ prefixLens) {p x : In6} (hp : Normal p len)
    (hne : p ≠ 0)
    {a : In4} (ha : IsWka a) (hs : synthesizePref64 p len a = some x) (hx : excludedBytes (beIn6 x) = false) :
    extractPref64 x = some (len, p) := by
  rw [synthesizePref64_eq hl] at hs
  obtain rfl := Option.some.inj hs
  have hmask : p &&& mask 128 len = p := hp
  rw [extractPref64_embed hl p ha hx (by rwa [hmask]), hmask]

private theorem normal_mask {len : Nat} (hl : len ∈ prefixLens) (x : In6) :
    BitPrefix.Normal (x &&& mask 128 len) len := by
  unfold BitPrefix.Normal
  rw [and_mask_eq hl, and_mask_eq hl, embed_embed hl]

/-- What is synthesized from a prefix outside the excluded ranges is outside of them. -/
private theorem not_excluded_embed {len : Nat} (hl : len ∈ prefixLens) {p : In6} (hp : Normal p len)
    (hx : excludedBytes (beIn6 p) = false) {a : In4} (ha : IsWka a) :
    excludedBytes (beIn6 (embed p len a)) = false := by
  have hp0 : p = embed p len 0 := by
    rw [← and_mask_eq hl]
    exact hp.symm
  have h0 : (0 : In4) = ofBytes4 0 0 0 0 := by decide
  have hwka : ∃ b, a = ofBytes4 192 0 0 b := by
    rcases ha with rfl | rfl
    · exact ⟨170, by decide⟩
    · exact ⟨171, by decide⟩
  obtain ⟨b, rfl⟩ := hwka
  rw [hp0] at hx
  clear hp0 hp
  obtain ⟨b0, b1, b2, b3, b4, b5, b6, b7, b8, b9, b10, b11, b12, b13, b14, b15, rfl⟩ := exists_bytes6 p
  rcases prefixLens_cases hl with rfl | rfl | rfl | rfl | rfl | rfl <;>
    simp_all [embed, beIn6, be32, getU8, excludedBytes, List.replicate]

/-- What is found is exact unless something other than zeros lies around the address of the first match. -/
private theorem exactAt_iff (x : In6) : ExactAt x ↔ excludedBytes (beIn6 x) ∨
    ∀ len, firstCarried x = some len → x &&& mask 128 len = 0 ∨ Padded x len := by
  unfold ExactAt
  rw [extractPref64_eq]
  cases hx : excludedBytes (beIn6 x) with
  | true => simp
  | false =>
    simp only [Bool.false_eq_true, if_false, false_or, true_and]
    constructor
    · intro h len hfirst
      refine or_iff_not_imp_left.2 fun hne => ?_
      have hl := firstCarried_mem hfirst
      have hfound : (firstCarried x).bind (foundPrefix x) = some (len, x &&& mask 128 len) := by
        rw [hfirst, Option.bind_some, foundPrefix, if_neg hne]
      obtain ⟨-, -, -, a, ha, hs⟩ := (h len _).1 hfound
      rw [synthesizePref64_eq hl, and_mask_eq hl, embed_embed hl] at hs
      have hembed : embed x len a = x := Option.some.inj hs
      unfold Padded
      have hcarried : carried x len = a := by
        have h := carried_embed hl x a
        rwa [hembed] at h
      rw [hcarried, hembed]
    · intro h len p
      constructor
      · intro hfound
        obtain ⟨len', hfirst, hp⟩ := Option.bind_eq_some_iff.1 hfound
        unfold foundPrefix at hp
        split at hp
        · cases hp
        next hne =>
        cases hp
        have hl := firstCarried_mem hfirst
        refine ⟨hl, normal_mask hl x, hne, carried x len, ?_, ?_⟩
        · unfold firstCarried at hfirst
          have hwka := List.find?_some hfirst
          exact of_decide_eq_true hwka
        · rw [synthesizePref64_eq hl, and_mask_eq hl, embed_embed hl]
          exact congrArg some ((h len hfirst).resolve_left hne)
      · rintro ⟨hl, hp, hne, a, ha, hs⟩
        have hext := extractPref64_synthesize hl hp hne ha hs hx
        rwa [extractPref64_eq, if_neg (by rw [hx]; decide)] at hext

/-- **`extract_pref64` is exact** at an address that is excluded or carries no well-known address, and where the first
match has an empty prefix or a zero reserved octet and suffix; at no other.  It recovers every prefix that is not
excluded. -/
theorem extractPref64_exact (x : In6) :
    (ExactAt x ↔ excludedBytes (beIn6 x) ∨
      ∀ len, firstCarried x = some len → x &&& mask 128 len = 0 ∨ Padded x len) ∧
    ∀ len ∈ prefixLens, ∀ p, Normal p len → excludedBytes (beIn6 p) = false → ∀ a, IsWka a →
      ∃ y, synthesizePref64 p len a = some y ∧ extractPref64 y = some (len, p) := by
  refine ⟨exactAt_iff x, fun len hl p hp hpx a ha => ⟨_, synthesizePref64_eq hl p a, ?_⟩⟩
  have hne : p ≠ 0 := by
    rintro rfl
    exact absurd hpx (by decide)
  exact extractPref64_synthesize hl hp hne ha (synthesizePref64_eq hl p a) (not_excluded_embed hl hp hpx ha)

/-- A suffix behind the address: the prefix is taken all the same, though nothing synthesizes this address. -/
theorem not_exactAt_suffix : ¬ExactAt 0x20010db80000000000c00000aa000001 := by
  intro h
  have hfound : extractPref64 0x20010db80000000000c00000aa000001 = some (64, 0x20010db8000000000000000000000000) := by
    decide
  obtain ⟨-, -, -, -, a, ha, hs⟩ := (h _ _).1 hfound
  rcases ha with rfl | rfl <;> exact absurd hs (by decide)

end Tayga
