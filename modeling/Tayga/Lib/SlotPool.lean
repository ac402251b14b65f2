import Mathlib.Algebra.BigOperators.Group.Finset.Basic
import Mathlib.Data.List.Range
import Mathlib.Data.Multiset.Bind
import Mathlib.Tactic.Abel

/-!
# Slots in stacks, rings and linked lists

Slot numbers that move between containers held in arrays: a stack with its count (`stack`), a ring with a head and a
count (`ring`), and a list linked through a `next` array (`Linked`, read back by `walk`).  Every container is read as
the list of the slots in it; pushes and pops are then `++ [x]` and the list without its end.

`Bins` is the common view: a list of slots for each place.  Moving slots from one place to another leaves the slots
of all places together the same up to order (`Bins.move`), so a partition of the slots stays one.
-/

namespace SlotPool

variable {α : Type*}

/-! ### Stacks -/

/-- The slots on an array stack, the bottom first. -/
def stack (a : Nat → α) (n : Nat) : List α := (List.range n).map a

@[simp] theorem stack_zero (a : Nat → α) : stack a 0 = [] := rfl

@[simp] theorem length_stack (a : Nat → α) (n : Nat) : (stack a n).length = n := by
  simp [stack]

theorem stack_succ (a : Nat → α) (n : Nat) : stack a (n + 1) = stack a n ++ [a n] := by
  simp [stack, List.range_succ]

theorem stack_push (a : Nat → α) (n : Nat) (x : α) : stack (Function.update a n x) (n + 1) = stack a n ++ [x] := by
  rw [stack_succ, Function.update_self]
  refine congrArg (· ++ [x]) (List.map_congr_left fun i hi => Function.update_of_ne ?_ _ _)
  exact Nat.ne_of_lt (List.mem_range.mp hi)

/-! ### Rings -/

/-- The slots in a ring of `cap` cells, the next one to leave first. -/
def ring (cap : Nat) (a : Nat → α) (head count : Nat) : List α :=
  (List.range count).map fun i => a ((head + i) % cap)

@[simp] theorem ring_zero (cap : Nat) (a : Nat → α) (head : Nat) : ring cap a head 0 = [] := rfl

@[simp] theorem length_ring (cap : Nat) (a : Nat → α) (head count : Nat) : (ring cap a head count).length = count := by
  simp [ring]

/-- Only the cell of the head matters, not how often the counter went round. -/
theorem ring_congr_head {cap head head' : Nat} (h : head % cap = head' % cap) (a : Nat → α) (count : Nat) :
    ring cap a head count = ring cap a head' count := by
  refine List.map_congr_left fun i _ => congrArg a ?_
  rw [Nat.add_mod, h, ← Nat.add_mod]

theorem ring_push {cap count : Nat} (h : count < cap) (a : Nat → α) (head : Nat) (x : α) :
    ring cap (Function.update a ((head + count) % cap) x) head (count + 1) = ring cap a head count ++ [x] := by
  unfold ring
  rw [List.range_succ, List.map_append, List.map_singleton, Function.update_self]
  refine congrArg (· ++ [x]) (List.map_congr_left fun i hi => Function.update_of_ne ?_ _ _)
  -- the cells of a ring that is not full are distinct
  have hi := List.mem_range.mp hi
  intro he
  have hd : (head + count - (head + i)) % cap = 0 := Nat.sub_mod_eq_zero_of_mod_eq he.symm
  rw [Nat.mod_eq_of_lt (by omega)] at hd
  omega

theorem ring_pop (cap : Nat) (a : Nat → α) (head count : Nat) :
    ring cap a head (count + 1) = a (head % cap) :: ring cap a (head + 1) count := by
  unfold ring
  rw [List.range_succ_eq_map, List.map_cons, List.map_map, Nat.add_zero]
  refine congrArg _ (List.map_congr_left fun i _ => ?_)
  simp only [Function.comp_apply, Nat.succ_eq_add_one]
  rw [Nat.add_right_comm, Nat.add_assoc]

/-! ### Linked lists -/

/-- `l` is the list that starts at `first` and follows `next` to its end. -/
inductive Linked (next : Nat → Option Nat) : Option Nat → List Nat → Prop
  | nil : Linked next none []
  | cons {a : Nat} {l : List Nat} : Linked next (next a) l → Linked next (some a) (a :: l)

/-- The first `fuel` slots of the list that starts at `first`. -/
def walk (next : Nat → Option Nat) : Nat → Option Nat → List Nat
  | 0, _ => []
  | _, none => []
  | fuel + 1, some a => a :: walk next fuel (next a)

@[simp] theorem walk_none (next : Nat → Option Nat) (fuel : Nat) : walk next fuel none = [] := by
  cases fuel <;> rfl

namespace Linked

variable {next next' : Nat → Option Nat} {first : Option Nat} {l l' : List Nat}

theorem walk_eq (h : Linked next first l) {fuel : Nat} (hf : l.length ≤ fuel) : walk next fuel first = l := by
  induction h generalizing fuel with
  | nil => simp
  | cons h ih =>
    cases fuel with
    | zero => simp at hf
    | succ fuel => rw [walk, ih (by simpa using hf)]

theorem congr (h : Linked next first l) (he : ∀ a ∈ l, next' a = next a) : Linked next' first l := by
  induction h with
  | nil => exact .nil
  | @cons a l h ih =>
    refine .cons ?_
    rw [he a (by simp)]
    exact ih fun b hb => he b (by simp [hb])

/-- Appending `b` after the last element: its link is written, the new last one has none. -/
theorem snoc (h : Linked next first l) (hl : l ≠ []) (hn : l.Nodup) {b : Nat} (hb : b ∉ l) :
    Linked (Function.update (Function.update next b none) (l.getLast hl) (some b)) first (l ++ [b]) := by
  induction h with
  | nil => exact absurd rfl hl
  | @cons a l h ih =>
    have hab : a ≠ b := fun e => hb (by simp [e])
    have hbl : b ∉ l := fun hm => hb (by simp [hm])
    cases l with
    | nil =>
      refine .cons ?_
      rw [List.getLast_singleton, Function.update_self]
      refine .cons ?_
      rw [Function.update_of_ne hab.symm, Function.update_self]
      exact .nil
    | cons c l =>
      refine .cons ?_
      have hne : a ≠ (c :: l).getLast (by simp) := fun e =>
        (List.nodup_cons.mp hn).1 (e ▸ List.getLast_mem _)
      rw [List.getLast_cons (by simp), Function.update_of_ne hne, Function.update_of_ne hab]
      exact ih (by simp) (List.nodup_cons.mp hn).2 hbl

end Linked

/-! ### Bins -/

/-- The slots of all the places together. -/
def Bins {P : Type*} (places : Finset P) (c : P → List α) : Multiset α := ∑ p ∈ places, (c p : Multiset α)

section Bins

variable {P : Type*} {places : Finset P} {c c' : P → List α}

theorem Bins.congr (h : ∀ p ∈ places, c' p = c p) : Bins places c' = Bins places c :=
  Finset.sum_congr rfl fun p hp => by rw [h p hp]

theorem Bins.mem {x : α} : x ∈ Bins places c ↔ ∃ p ∈ places, x ∈ c p := by
  simp [Bins, Multiset.mem_sum]

theorem Bins.card (places : Finset P) (c : P → List α) :
    (Bins places c).card = ∑ p ∈ places, (c p).length := by
  simp [Bins]

variable [DecidableEq P]

theorem Bins.split {p : P} (hp : p ∈ places) (c : P → List α) :
    Bins places c = (c p : Multiset α) + Bins (places.erase p) c :=
  (Finset.add_sum_erase places _ hp).symm

/-- The slots `m` move from `p` to `q`. -/
theorem Bins.move {p q : P} (hp : p ∈ places) (hq : q ∈ places) (hpq : p ≠ q) {m : List α}
    (hcp : (c p).Perm (c' p ++ m)) (hcq : (c' q).Perm (c q ++ m))
    (ho : ∀ r ∈ places, r ≠ p → r ≠ q → c' r = c r) : Bins places c' = Bins places c := by
  have hq' : q ∈ places.erase p := Finset.mem_erase.mpr ⟨hpq.symm, hq⟩
  rw [Bins.split hp c', Bins.split hp c, Bins.split hq' c', Bins.split hq' c]
  have hr : Bins ((places.erase p).erase q) c' = Bins ((places.erase p).erase q) c := by
    refine Bins.congr fun r hr => ?_
    simp only [Finset.mem_erase] at hr
    exact ho r hr.2.2 hr.2.1 hr.1
  rw [hr, Multiset.coe_eq_coe.mpr hcp, Multiset.coe_eq_coe.mpr hcq, ← Multiset.coe_add, ← Multiset.coe_add]
  abel

theorem Bins.le {p : P} (hp : p ∈ places) (c : P → List α) : (c p : Multiset α) ≤ Bins places c := by
  rw [Bins.split hp c]
  exact Multiset.le_add_right _ _

theorem Bins.add_le {p q : P} (hp : p ∈ places) (hq : q ∈ places) (hpq : p ≠ q) (c : P → List α) :
    (c p : Multiset α) + (c q : Multiset α) ≤ Bins places c := by
  rw [Bins.split hp c]
  gcongr
  exact Bins.le (Finset.mem_erase.mpr ⟨hpq.symm, hq⟩) c

theorem Bins.nodup {p : P} (h : (Bins places c).Nodup) (hp : p ∈ places) : (c p).Nodup :=
  Multiset.coe_nodup.mp (Multiset.nodup_of_le (Bins.le hp c) h)

/-- When no slot occurs twice, it is in one place only. -/
theorem Bins.eq_of_mem {p q : P} (h : (Bins places c).Nodup) (hp : p ∈ places) (hq : q ∈ places) {x : α}
    (hxp : x ∈ c p) (hxq : x ∈ c q) : p = q := by
  by_contra hpq
  have hn := Multiset.nodup_of_le (Bins.add_le hp hq hpq c) h
  rw [Multiset.nodup_add] at hn
  exact Multiset.disjoint_left.mp hn.2.2 hxp hxq

end Bins

attribute [irreducible] Bins

end SlotPool
