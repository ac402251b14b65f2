import Tayga.MapList
import Tayga.Lib.BitPrefix

/-!
# Map entries as networks

The masks the source computes are prefix masks (`ip4Mask_eq`, `ip6Mask_eq`), so the half of a map entry with no host
bits is a network, and `find_map4` and `find_map6` test membership in it (`Map4.Wf.covers_iff`,
`Map6.Wf.covers_iff`).
-/

namespace Tayga

open BitPrefix

/-! ### Masks -/

theorem ip4Mask_eq {len : Nat} (h : len ≤ 32) : ip4Mask len = mask 32 len := by
  have key : ∀ l : Fin 33, ip4Mask l = mask 32 l := by decide
  exact key ⟨len, by omega⟩

theorem ip6Mask_eq {len : Nat} (h : len ≤ 128) : ip6Mask len = mask 128 len := by
  have key : ∀ l : Fin 129, ip6Mask l = mask 128 l := by decide +kernel
  exact key ⟨len, by omega⟩

private theorem and_not_eq_zero {w : Nat} {a m : BitVec w} : a &&& ~~~m = 0#w ↔ a &&& m = a := by
  constructor
  · intro h
    apply BitVec.eq_of_getLsbD_eq
    intro i hi
    have hb := congrArg (fun x => x.getLsbD i) h
    simp only [BitVec.getLsbD_and, BitVec.getLsbD_not, hi, decide_true, Bool.true_and, BitVec.getLsbD_zero] at hb ⊢
    cases ha : a.getLsbD i <;> cases hm : m.getLsbD i <;> simp_all
  · intro h
    apply BitVec.eq_of_getLsbD_eq
    intro i hi
    have hb := congrArg (fun x => x.getLsbD i) h
    simp only [BitVec.getLsbD_and, BitVec.getLsbD_not, hi, decide_true, Bool.true_and, BitVec.getLsbD_zero] at hb ⊢
    cases ha : a.getLsbD i <;> cases hm : m.getLsbD i <;> simp_all

/-- `calc_ip4_mask` accepts exactly the networks. -/
theorem calcIp4Mask_eq_some {addr : In4} {len : Nat} {m : In4} :
    calcIp4Mask addr len = some m ↔ len ≤ 32 ∧ m = ip4Mask len ∧ Normal addr len := by
  unfold calcIp4Mask BitPrefix.Normal
  by_cases hl : 32 < len
  · simp only [hl, if_true, reduceCtorEq, false_iff]
    omega
  · rw [if_neg hl, ip4Mask_eq (by omega)]
    by_cases hn : addr &&& ~~~mask 32 len = 0#32
    · rw [if_neg (by simpa using hn), and_not_eq_zero.1 hn]
      simp only [Option.some.injEq, and_true]
      exact ⟨fun h => ⟨by omega, h.symm⟩, fun h => h.2.symm⟩
    · rw [if_pos (by simpa using hn)]
      simp only [reduceCtorEq, false_iff, not_and]
      exact fun _ _ h => hn (and_not_eq_zero.2 h)

/-- `calc_ip6_mask` accepts exactly the networks. -/
theorem calcIp6Mask_eq_some {addr : In6} {len : Nat} {m : In6} :
    calcIp6Mask addr len = some m ↔ len ≤ 128 ∧ m = ip6Mask len ∧ Normal addr len := by
  unfold calcIp6Mask BitPrefix.Normal
  by_cases hl : 128 < len
  · simp only [hl, if_true, reduceCtorEq, false_iff]
    omega
  · rw [if_neg hl, ip6Mask_eq (by omega)]
    by_cases hn : addr &&& ~~~mask 128 len = 0#128
    · rw [if_neg (by simpa using hn), and_not_eq_zero.1 hn]
      simp only [Option.some.injEq, and_true]
      exact ⟨fun h => ⟨by omega, h.symm⟩, fun h => h.2.symm⟩
    · rw [if_pos (by simpa using hn)]
      simp only [reduceCtorEq, false_iff, not_and]
      exact fun _ _ h => hn (and_not_eq_zero.2 h)

/-! ### Entries -/

/-- The IPv4 half of an entry is a network. -/
structure Map4.Wf (m : Map4) : Prop where
  len_le : m.prefixLen ≤ 32
  mask_eq : m.mask = ip4Mask m.prefixLen
  normal : Normal m.addr m.prefixLen

/-- The IPv6 half of an entry is a network. -/
structure Map6.Wf (m : Map6) : Prop where
  len_le : m.prefixLen ≤ 128
  mask_eq : m.mask = ip6Mask m.prefixLen
  normal : Normal m.addr m.prefixLen

theorem Map4.Wf.covers_iff {m : Map4} (h : m.Wf) {a : In4} : m.covers a = true ↔ InNet a m.addr m.prefixLen := by
  rw [Map4.covers, InNet, h.mask_eq, ip4Mask_eq h.len_le, BitVec.and_comm, decide_eq_true_iff]

theorem Map6.Wf.covers_iff {m : Map6} (h : m.Wf) {a : In6} : m.covers a = true ↔ InNet a m.addr m.prefixLen := by
  rw [Map6.covers, InNet, h.mask_eq, ip6Mask_eq h.len_le, decide_eq_true_iff]

/-- An entry covers its own base address. -/
theorem Map4.Wf.covers_addr {m : Map4} (h : m.Wf) : m.covers m.addr = true := h.covers_iff.2 h.normal.inNet

theorem Map6.Wf.covers_addr {m : Map6} (h : m.Wf) : m.covers m.addr = true := h.covers_iff.2 h.normal.inNet

/-- A host entry covers one address. -/
theorem Map4.Wf.covers_host {m : Map4} (h : m.Wf) (hl : m.prefixLen = 32) {a : In4} :
    m.covers a = true ↔ a = m.addr := by
  rw [h.covers_iff, hl, inNet_full]

theorem Map6.Wf.covers_host {m : Map6} (h : m.Wf) (hl : m.prefixLen = 128) {a : In6} :
    m.covers a = true ↔ a = m.addr := by
  rw [h.covers_iff, hl, inNet_full]

/-- Two entries with the same length that cover a common address are the same network. -/
theorem Map4.Wf.same_of_covers {m n : Map4} (hm : m.Wf) (hn : n.Wf) (hl : m.prefixLen = n.prefixLen) {a : In4}
    (ha : m.covers a = true) (hb : n.covers a = true) : m.same n = true := by
  have hma := hm.covers_iff.1 ha
  have hna := hn.covers_iff.1 hb
  rw [hl] at hma
  simp [Map4.same, hl, hma.unique hna]

/-- The conflict test of `insert_map6` is overlap. -/
theorem Map6.Wf.clash_iff {s m : Map6} (hs : s.Wf) (hm : m.Wf) :
    s.clash m = true ↔ Overlap s.addr s.prefixLen m.addr m.prefixLen := by
  unfold Map6.clash
  split
  · rename_i hl
    rw [hs.covers_iff]
    exact ⟨Or.inr, fun h => h.inNet_of_le (by omega) hs.normal⟩
  · rename_i hl
    rw [hm.covers_iff]
    exact ⟨Or.inl, fun h => h.symm.inNet_of_le (by omega) hm.normal⟩

/-- Entries that do not conflict cover no common address. -/
theorem Map6.Wf.clash_of_covers {s m : Map6} (hs : s.Wf) (hm : m.Wf) {a : In6} (ha : s.covers a = true)
    (hb : m.covers a = true) : s.clash m = true :=
  (hs.clash_iff hm).2 ((hs.covers_iff.1 ha).overlap (hm.covers_iff.1 hb))

/-- Two overlapping entries cover a common address. -/
theorem Map6.Wf.exists_covers_of_clash {s m : Map6} (hs : s.Wf) (hm : m.Wf) (h : s.clash m = true) :
    ∃ a, s.covers a = true ∧ m.covers a = true := by
  rcases (hs.clash_iff hm).1 h with h | h
  · exact ⟨s.addr, hs.covers_addr, hm.covers_iff.2 h⟩
  · exact ⟨m.addr, hs.covers_iff.2 h, hm.covers_addr⟩

end Tayga
