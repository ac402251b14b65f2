import Tayga.Reload

/-!
# The two grammars of a mapping

The `map` directive of the configuration file and a line of the map file spell a mapping in the same way, but they are
read by two parsers.  Both cut each side at its first slash, read the length behind it, and check the pair; they differ
in one thing only: the configuration file reads an empty length as zero, the map file refuses it.
-/

namespace Tayga

variable {libc : Libc} {v4 v6 : List Char}

/-! ### What a pair of strings spells -/

/-- The text behind the slash is empty. -/
def EmptyLength (arg : List Char) : Prop := (cutSlash arg).map Prod.snd = some []

instance (arg : List Char) : Decidable (EmptyLength arg) := inferInstanceAs (Decidable (_ = _))

/-- One side of a mapping spells the network `a/l`: the length is a number, or empty for zero; without a slash it is the
whole width.  No host bit is set, and only `/0` may have a reserved base. -/
structure Spells {w : Nat} (pton : List Char → Option (BitVec w)) (mask : Nat → BitVec w) (reserved : BitVec w → Bool)
    (arg : List Char) (a : BitVec w) (l : Nat) : Prop where
  addr : pton (entryAddr arg) = some a
  len : match cutSlash arg with
    | none => l = w
    | some (_, t) => (strtol t).rest = [] ∧ (strtol t).val = l
  width : l ≤ w
  hostBits : a &&& ~~~mask l = 0
  usable : l ≠ 0 → reserved a = false

/-- The IPv4 side. -/
def Spells4 (libc : Libc) (arg : List Char) (a : In4) (l : Nat) : Prop :=
  Spells libc.inetPton4 ip4Mask reserved4 arg a l

/-- The IPv6 side. -/
def Spells6 (libc : Libc) (arg : List Char) (b : In6) (k : Nat) : Prop :=
  Spells libc.inetPton6 ip6Mask (fun b => (validateIp6Addr b).isSome) arg b k

/-- The two parsers agree on a pair of strings: what the map file refuses the directive refuses, and what the map file
accepts the directive inserts, with the same addresses, masks and lengths. -/
def SameEntry (g : Gcfg) (libc : Libc) (ln line : Nat) (v4 v6 : List Char) : Prop :=
  match parseMapEntry g libc line v4 v6 with
  | none => configMap g libc ln v4 v6 = .error .reject
  | some s => configMap g libc ln v4 v6 = insertStatic g { s with lineNo := ln, origin := .conffile }

/-! ### The common part -/

/-- The length `parse_prefix` reads. -/
def prefixLength (width : Nat) (arg : List Char) : Option Nat :=
  match cutSlash arg with
  | none => some width
  | some (_, t) =>
    if (strtol t).rest ≠ [] then none
    else if (strtol t).val < 0 ∨ (width : Int) < (strtol t).val then none else some (strtol t).val.toNat

/-- The checks both parsers make once the lengths are known. -/
def checkedPair (libc : Libc) (len4 len6 : Option Nat) (v4 v6 : List Char) : Option (Map4 × Map6) := do
  let l ← len4
  let a ← libc.inetPton4 (entryAddr v4)
  let mask4 ← calcIp4Mask a l
  let k ← len6
  let b ← libc.inetPton6 (entryAddr v6)
  let mask6 ← calcIp6Mask b k
  if 128 - k < 32 - l then none
  else if l ≠ 0 ∧ reserved4 a then none
  else if k ≠ 0 ∧ (validateIp6Addr b).isSome then none
  else some (⟨a, mask4, l, .static⟩, ⟨b, mask6, k, .static⟩)

private theorem cutSlash_eq_none {arg : List Char} : cutSlash arg = none ↔ '/' ∉ arg := by
  unfold cutSlash
  split <;> simp_all

/-- One side of the directive. -/
private theorem mapSide_eq {α : Type} (pton : List Char → Option α) (width : Nat) (arg : List Char) :
    mapSide pton width arg = (prefixLength width arg).bind fun l => (pton (entryAddr arg)).map fun a => (a, l) := by
  unfold mapSide prefixLength entryAddr parsePrefix
  rcases hc : cutSlash arg with _ | ⟨addr, t⟩
  · rw [if_neg (cutSlash_eq_none.1 hc)]
    rfl
  · have hslash : '/' ∈ arg := by
      by_contra hno
      rw [cutSlash_eq_none.2 hno] at hc
      cases hc
    rw [if_pos hslash]
    simp only [Option.elim]
    cases pton addr with
    | none => cases (if (strtol t).rest ≠ [] then none else _) <;> rfl
    | some a =>
      dsimp only
      by_cases hrest : (strtol t).rest ≠ []
      · rw [if_pos hrest, if_pos hrest]
        rfl
      · rw [if_neg hrest, if_neg hrest]
        split <;> rfl

/-- A number that overflows is out of range anyway. -/
private theorem strtol_overflow {t : List Char} (h : (strtol t).overflow) :
    (strtol t).val < 0 ∨ 128 < (strtol t).val := by
  unfold strtol at h ⊢
  dsimp only at h ⊢
  generalize (if (t.dropWhile isSpaceC).head? = some '-' ∨ (t.dropWhile isSpaceC).head? = some '+' then
    (t.dropWhile isSpaceC).drop 1 else t.dropWhile isSpaceC) = u at h ⊢
  by_cases hd : u.takeWhile Char.isDigit = []
  · rw [if_pos hd] at h
    cases h
  · rw [if_neg hd] at h ⊢
    generalize digitsVal 0 (u.takeWhile Char.isDigit) = n at h ⊢
    split
    · rename_i hneg
      rw [if_pos hneg] at h
      by_cases hn : 2 ^ 63 < n
      · rw [if_pos hn]
        exact Or.inl (show (-2 ^ 63 : Int) < 0 by decide)
      · rw [if_neg hn] at h
        cases h
    · rename_i hneg
      rw [if_neg hneg] at h
      by_cases hn : 2 ^ 63 ≤ n
      · rw [if_pos hn]
        exact Or.inr (show (128 : Int) < 2 ^ 63 - 1 by decide)
      · rw [if_neg hn] at h
        cases h

/-- The lengths the two parsers read differ in the empty one only. -/
theorem entryLen_eq {width : Nat} (hw : width ≤ 128) (arg : List Char) :
    entryLen width arg = if EmptyLength arg then none else prefixLength width arg := by
  unfold entryLen prefixLength
  rcases hc : cutSlash arg with _ | ⟨addr, t⟩
  · have hne : ¬EmptyLength arg := by simp [EmptyLength, hc]
    rw [if_neg hne]
  · have hempty : EmptyLength arg ↔ t = [] := by simp [EmptyLength, hc]
    dsimp only
    by_cases ht : t = []
    · rw [if_pos (hempty.2 ht), if_pos (Or.inr (Or.inl ht))]
    rw [if_neg fun h => ht (hempty.1 h)]
    by_cases hover : (strtol t).overflow
    · have hrange : (strtol t).val < 0 ∨ (width : Int) < (strtol t).val := by
        rcases strtol_overflow hover with h | h
        · exact Or.inl h
        · exact Or.inr (by omega)
      rw [if_pos (Or.inl hover), if_pos hrange]
      split <;> rfl
    · by_cases hrest : (strtol t).rest ≠ []
      · rw [if_pos hrest, if_pos (Or.inr (Or.inr (Or.inl hrest)))]
      · rw [if_neg hrest]
        by_cases hrange : (strtol t).val < 0 ∨ (width : Int) < (strtol t).val
        · rw [if_pos hrange, if_pos (Or.inr (Or.inr (Or.inr hrange)))]
        · rw [if_neg hrange, if_neg]
          rintro (h | h | h | h)
          · exact hover h
          · exact ht h
          · exact hrest h
          · exact hrange h

private theorem configMap_eq (g : Gcfg) (ln : Nat) : configMap g libc ln v4 v6 =
    match checkedPair libc (prefixLength 32 v4) (prefixLength 128 v6) v4 v6 with
    | none => .error .reject
    | some m => insertStatic g ⟨m.1, m.2, ln, .conffile⟩ := by
  unfold configMap checkedPair
  rw [mapSide_eq, mapSide_eq]
  cases prefixLength 32 v4 with
  | none => rfl
  | some l =>
    cases libc.inetPton4 (entryAddr v4) with
    | none => rfl
    | some a =>
      simp only [Option.bind_some, Option.map_some, Option.bind_eq_bind]
      cases calcIp4Mask a l with
      | none => rfl
      | some mask4 =>
        cases prefixLength 128 v6 with
        | none => rfl
        | some k =>
          cases libc.inetPton6 (entryAddr v6) with
          | none => rfl
          | some b =>
            simp only [Option.bind_some, Option.map_some]
            cases calcIp6Mask b k with
            | none => rfl
            | some mask6 =>
              simp only [Option.bind_some]
              split
              · rfl
              split
              · rfl
              split <;> rfl

theorem parseMapEntry_eq (g : Gcfg) (line : Nat) : parseMapEntry g libc line v4 v6 =
    if g.oom then none
    else (checkedPair libc (entryLen 32 v4) (entryLen 128 v6) v4 v6).map fun m => ⟨m.1, m.2, line, .mapfile⟩ := by
  unfold parseMapEntry checkedPair
  by_cases hoom : g.oom
  · rw [if_pos hoom, if_pos hoom]
  rw [if_neg hoom, if_neg hoom]
  cases entryLen 32 v4 with
  | none => rfl
  | some l =>
    cases entryLen 128 v6 with
    | none =>
      dsimp only
      cases libc.inetPton4 (entryAddr v4) with
      | none => rfl
      | some a => simp
    | some k =>
      dsimp only
      cases libc.inetPton4 (entryAddr v4) with
      | none => simp
      | some a =>
        cases libc.inetPton6 (entryAddr v6) with
        | none => simp
        | some b =>
          cases hm : calcIp4Mask a l with
          | none => simp [hm]
          | some mask4 =>
            cases hk : calcIp6Mask b k with
            | none => simp [hm, hk]
            | some mask6 =>
              simp only [hm, hk, Option.bind_some, Option.bind_eq_bind]
              split
              · rfl
              split
              · rfl
              split <;> rfl

/-! ### The pairs the directive accepts -/

private theorem prefixLength_eq_some {w : Nat} {arg : List Char} {l : Nat} : prefixLength w arg = some l ↔
    (match cutSlash arg with
      | none => l = w
      | some (_, t) => (strtol t).rest = [] ∧ (strtol t).val = l) ∧ l ≤ w := by
  unfold prefixLength
  rcases cutSlash arg with _ | ⟨addr, t⟩
  · simp only [Option.some.injEq]
    omega
  · dsimp only
    by_cases hrest : (strtol t).rest ≠ []
    · rw [if_pos hrest]
      simp [hrest]
    rw [if_neg hrest]
    rw [not_not] at hrest
    split
    · rename_i hrange
      simp only [hrest, true_and, reduceCtorEq, false_iff, not_and]
      omega
    · rename_i hrange
      simp only [hrest, true_and, Option.some.injEq]
      omega

private theorem mask_spells {w k n : Nat} {x m m' : BitVec w} :
    (if n < k then none else if x ≠ 0 then none else some m') = some m ↔ k ≤ n ∧ x = 0 ∧ m' = m := by
  by_cases hk : n < k
  · rw [if_pos hk]
    simp only [reduceCtorEq, false_iff, not_and]
    omega
  rw [if_neg hk]
  by_cases hx : x = 0
  · rw [if_neg (not_not.2 hx), Option.some.injEq]
    exact ⟨fun h => ⟨by omega, hx, h⟩, fun h => h.2.2⟩
  · rw [if_pos hx]
    simp only [reduceCtorEq, false_iff]
    exact fun h => hx h.2.1

private theorem calcIp4Mask_spells {a m : In4} {l : Nat} :
    calcIp4Mask a l = some m ↔ l ≤ 32 ∧ a &&& ~~~ip4Mask l = 0 ∧ ip4Mask l = m := mask_spells

private theorem calcIp6Mask_spells {b m : In6} {k : Nat} :
    calcIp6Mask b k = some m ↔ k ≤ 128 ∧ b &&& ~~~ip6Mask k = 0 ∧ ip6Mask k = m := mask_spells

/-- **The directive accepts the pairs that spell two networks**, the IPv6 one with room for the IPv4 suffix, and reads
these. -/
theorem checkedPair_eq_some {m : Map4 × Map6} :
    checkedPair libc (prefixLength 32 v4) (prefixLength 128 v6) v4 v6 = some m ↔
      ∃ a l b k, Spells4 libc v4 a l ∧ Spells6 libc v6 b k ∧ 32 - l ≤ 128 - k ∧
        m = (⟨a, ip4Mask l, l, .static⟩, ⟨b, ip6Mask k, k, .static⟩) := by
  unfold checkedPair
  constructor
  · intro hm
    simp only [Option.bind_eq_bind, Option.bind_eq_some_iff] at hm
    obtain ⟨l, hl, a, ha, mask4, hmask4, k, hk, b, hb, mask6, hmask6, hm⟩ := hm
    obtain ⟨hl4, hw4⟩ := prefixLength_eq_some.1 hl
    obtain ⟨hl6, hw6⟩ := prefixLength_eq_some.1 hk
    obtain ⟨-, hbits4, rfl⟩ := calcIp4Mask_spells.1 hmask4
    obtain ⟨-, hbits6, rfl⟩ := calcIp6Mask_spells.1 hmask6
    split at hm
    · cases hm
    split at hm
    · cases hm
    split at hm
    · cases hm
    rename_i hfit hres4 hres6
    refine ⟨a, l, b, k, ⟨ha, hl4, hw4, hbits4, fun h0 => ?_⟩, ⟨hb, hl6, hw6, hbits6, fun h0 => ?_⟩, by omega,
      (Option.some.inj hm).symm⟩
    · simpa using fun hr => hres4 ⟨h0, hr⟩
    · simpa using fun hr => hres6 ⟨h0, hr⟩
  · rintro ⟨a, l, b, k, h4, h6, hfit, rfl⟩
    have hl := prefixLength_eq_some.2 ⟨h4.len, h4.width⟩
    have hk := prefixLength_eq_some.2 ⟨h6.len, h6.width⟩
    have hmask4 := calcIp4Mask_spells.2 ⟨h4.width, h4.hostBits, rfl⟩
    have hmask6 := calcIp6Mask_spells.2 ⟨h6.width, h6.hostBits, rfl⟩
    have hres4 : ¬(l ≠ 0 ∧ reserved4 a = true) := fun h => by simp [h4.usable h.1] at h
    have hres6 : ¬(k ≠ 0 ∧ (validateIp6Addr b).isSome = true) := fun h => by simp [h6.usable h.1] at h
    simp only [hl, h4.addr, hmask4, hk, h6.addr, hmask6, Option.bind_eq_bind, Option.bind_some]
    rw [if_neg (by omega), if_neg hres4, if_neg hres6]

private theorem checkedPair_isSome : (checkedPair libc (prefixLength 32 v4) (prefixLength 128 v6) v4 v6).isSome ↔
    ∃ a l b k, Spells4 libc v4 a l ∧ Spells6 libc v6 b k ∧ 32 - l ≤ 128 - k := by
  simp only [Option.isSome_iff_exists, checkedPair_eq_some]
  constructor
  · rintro ⟨m, a, l, b, k, h4, h6, hfit, -⟩
    exact ⟨a, l, b, k, h4, h6, hfit⟩
  · rintro ⟨a, l, b, k, h4, h6, hfit⟩
    exact ⟨_, a, l, b, k, h4, h6, hfit, rfl⟩

/-- The map file refuses an empty length. -/
theorem checkedPair_empty (h : EmptyLength v4 ∨ EmptyLength v6) :
    checkedPair libc (entryLen 32 v4) (entryLen 128 v6) v4 v6 = none := by
  rw [entryLen_eq (by omega), entryLen_eq (by omega)]
  rcases h with he | he
  · rw [if_pos he]
    rfl
  · rw [if_pos he]
    unfold checkedPair
    simp

private theorem insertStatic_oom {g : Gcfg} (hoom : g.oom) (s : MapStatic) : insertStatic g s = .error .reject := by
  unfold insertStatic
  rw [if_pos hoom]
  rfl

/-- An entry can be inserted into empty lists. -/
private theorem insertStatic_empty {g : Gcfg} (h4 : g.map4List = []) (h6 : g.map6List = []) (hoom : g.oom = false)
    (s : MapStatic) : ∃ g', insertStatic g s = .ok g' := by
  unfold insertStatic
  simp only [hoom, newStatic, insertMap4, insertMap6, Gcfg.setStatic, h4, h6, List.find?_nil, orReject]
  exact ⟨_, rfl⟩

/-- **Where the two grammars agree**: on every pair of strings, except those that spell two networks with an empty
length among them. -/
theorem map_grammars (libc : Libc) (v4 v6 : List Char) :
    (∀ (g : Gcfg) (ln line : Nat), SameEntry g libc ln line v4 v6) ↔
      ¬((EmptyLength v4 ∨ EmptyLength v6) ∧
        ∃ a l b k, Spells4 libc v4 a l ∧ Spells6 libc v6 b k ∧ 32 - l ≤ 128 - k) := by
  rw [← checkedPair_isSome]
  constructor
  · rintro h ⟨hempty, hsome⟩
    obtain ⟨m, hm⟩ := Option.isSome_iff_exists.1 hsome
    -- the directive inserts the entry into the lists of a fresh configuration
    have hfresh := h (configInit .little 0) 0 0
    unfold SameEntry at hfresh
    rw [parseMapEntry_eq, checkedPair_empty hempty] at hfresh
    simp only [Option.map_none, ite_self] at hfresh
    rw [configMap_eq, hm] at hfresh
    obtain ⟨g', hg'⟩ := insertStatic_empty (g := configInit .little 0) rfl rfl rfl ⟨m.1, m.2, 0, .conffile⟩
    dsimp only at hfresh
    rw [hg'] at hfresh
    cases hfresh
  · intro h g ln line
    have hsame : checkedPair libc (entryLen 32 v4) (entryLen 128 v6) v4 v6 =
        checkedPair libc (prefixLength 32 v4) (prefixLength 128 v6) v4 v6 := by
      by_cases hempty : EmptyLength v4 ∨ EmptyLength v6
      · rw [checkedPair_empty hempty]
        exact (Option.not_isSome_iff_eq_none.1 fun hs => h ⟨hempty, hs⟩).symm
      · rw [not_or] at hempty
        rw [entryLen_eq (by omega), entryLen_eq (by omega), if_neg hempty.1, if_neg hempty.2]
    unfold SameEntry
    rw [parseMapEntry_eq, hsame, configMap_eq]
    generalize checkedPair libc (prefixLength 32 v4) (prefixLength 128 v6) v4 v6 = m
    by_cases hoom : g.oom
    · rw [if_pos hoom]
      cases m with
      | none => rfl
      | some m => exact insertStatic_oom hoom _
    · rw [if_neg hoom]
      cases m <;> rfl

/-- `inet_pton` on the addresses of a default mapping. -/
def defaultLibc : Libc where
  inetPton4 s := if s = "0.0.0.0".toList then some 0 else none
  inetPton6 s := if s = "64:ff9b::".toList then some 0x0064ff9b000000000000000000000000 else none

/-- The directive accepts `0.0.0.0/` as a network, the map file refuses it. -/
theorem not_sameEntry_default :
    ¬∀ (g : Gcfg) (ln line : Nat), SameEntry g defaultLibc ln line "0.0.0.0/".toList "64:ff9b::/96".toList := by
  intro h
  have hs := h (configInit .little 0) 1 1
  have hnone : parseMapEntry (configInit .little 0) defaultLibc 1 "0.0.0.0/".toList "64:ff9b::/96".toList = none := by
    decide
  unfold SameEntry at hs
  rw [hnone] at hs
  have hok :
      (configMap (configInit .little 0) defaultLibc 1 "0.0.0.0/".toList "64:ff9b::/96".toList).toOption.isSome := by
    decide
  rw [hs] at hok
  cases hok

end Tayga
