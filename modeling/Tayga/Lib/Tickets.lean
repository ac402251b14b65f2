import Mathlib.Data.List.Nodup
import Tayga.Lib.Program

/-!
# Tickets from a shared counter

Programs that draw tickets from a counter they share and use them.  A program spends its tickets (`Spends`) if it uses
only what it was handed, in that order and at most once each.  Where the counter hands out consecutive blocks, every
program of any interleaving has tickets of its own for what it has used, and no two programs have one in common
(`exists_tickets`).
-/

namespace Program

variable {Op : Type} {Ans : Op → Type} {α β K J : Type}

/-- What operations have to do with tickets: those the answer hands over, and those the operation uses. -/
structure Tickets (Op : Type) (Ans : Op → Type) (K : Type) where
  handed : (op : Op) → Ans op → List K
  used : Op → List K

/-- Whatever the answers, the program uses only tickets of `rest` and those it is handed, in this order and each once;
what is left at the end satisfies `Q`. -/
def Spends (v : Tickets Op Ans K) : List K → Program Op Ans α → (List K → α → Prop) → Prop
  | rest, .done a, Q => Q rest a
  | rest, .call op next, Q => ∃ kept, List.Sublist (v.used op ++ kept) rest ∧
    ∀ x, Spends v (kept ++ v.handed op x) (next x) Q

namespace Spends

variable {v : Tickets Op Ans K} {p : Program Op Ans α} {rest : List K} {Q Q' : List K → α → Prop}

/-- An operation that uses nothing. -/
theorem call {op : Op} {next : Ans op → Program Op Ans α} (hused : v.used op = [])
    (h : ∀ x, Spends v (rest ++ v.handed op x) (next x) Q) : Spends v rest (.call op next) Q :=
  ⟨rest, by rw [hused]; exact List.Sublist.refl _, h⟩

theorem mono (h : Spends v rest p Q) (hQ : ∀ kept a, Q kept a → Q' kept a) : Spends v rest p Q' := by
  induction p generalizing rest with
  | done a => exact hQ rest a h
  | call op next ih =>
    obtain ⟨kept, hkept, h⟩ := h
    exact ⟨kept, hkept, fun x => ih x (h x)⟩

/-- **Two programs one after the other.** -/
theorem bind {f : α → Program Op Ans β} {Q : List K → β → Prop}
    (h : Spends v rest p fun kept a => Spends v kept (f a) Q) : Spends v rest (p >>= f) Q := by
  induction p generalizing rest with
  | done a => exact h
  | call op next ih =>
    obtain ⟨kept, hkept, h⟩ := h
    exact ⟨kept, hkept, fun x => ih x (h x)⟩

theorem ite {c : Prop} [Decidable c] {p q : Program Op Ans α} (hp : c → Spends v rest p Q)
    (hq : ¬c → Spends v rest q Q) : Spends v rest (if c then p else q) Q := by
  by_cases h : c
  · rw [if_pos h]
    exact hp h
  · rw [if_neg h]
    exact hq h

/-- A program that has to do with no tickets keeps what it has. -/
theorem of_asks {R : α → Prop} (h : p.Asks (fun op => v.used op = [] ∧ ∀ x, v.handed op x = []) R) :
    Spends v rest p fun kept a => kept = rest ∧ R a := by
  induction p with
  | done a => exact ⟨rfl, h⟩
  | call op next ih =>
    refine call h.1.1 fun x => ?_
    rw [h.1.2 x, List.append_nil]
    exact ih x (h.2 x)

/-- **Another account** in which every operation uses less. -/
theorem used_le {w : Tickets Op Ans K} {R : α → Prop} (h : Spends v rest p Q)
    (hp : p.Asks (fun op => List.Sublist (w.used op) (v.used op) ∧ ∀ x, w.handed op x = v.handed op x) R) :
    Spends w rest p Q := by
  induction p generalizing rest with
  | done a => exact h
  | call op next ih =>
    obtain ⟨kept, hkept, h⟩ := h
    obtain ⟨⟨hless, hsame⟩, hp⟩ := hp
    refine ⟨kept, (hless.append_right kept).trans hkept, fun x => ?_⟩
    rw [hsame x]
    exact ih x (h x) (hp x)

/-- **A trace so far** has used tickets it was handed, in this order and each once. -/
theorem steps {q : Program Op Ans α} {t : List (Sigma Ans)} (h : Spends v rest p Q) (ht : p.Steps t q) :
    List.Sublist (t.flatMap fun e => v.used e.1) (rest ++ t.flatMap fun e => v.handed e.1 e.2) := by
  induction t generalizing p rest with
  | nil => exact List.nil_sublist _
  | cons e t ih =>
    obtain ⟨next, rfl, ht⟩ := ht
    obtain ⟨kept, hkept, h⟩ := h
    have htail := ih (h e.2) ht
    rw [List.flatMap_cons, List.flatMap_cons, ← List.append_assoc rest]
    calc List.Sublist (v.used e.1 ++ t.flatMap fun e => v.used e.1)
          (v.used e.1 ++ (kept ++ v.handed e.1 e.2 ++ t.flatMap fun e => v.handed e.1 e.2)) :=
        htail.append_left _
      _ = v.used e.1 ++ kept ++ (v.handed e.1 e.2 ++ t.flatMap fun e => v.handed e.1 e.2) := by
        simp only [List.append_assoc]
      List.Sublist _ (rest ++ (v.handed e.1 e.2 ++ t.flatMap fun e => v.handed e.1 e.2)) := hkept.append_right _
      _ = _ := (List.append_assoc _ _ _).symm

end Spends

/-- As long as the answers are good, the program uses all it has and all it is handed, in this order and each once.
After an answer that is not it still spends. -/
def UsesUp (v : Tickets Op Ans K) (good : (op : Op) → Ans op → Prop) : List K → Program Op Ans α → Prop
  | rest, .done _ => rest = []
  | rest, .call op next => ∃ kept, v.used op ++ kept = rest ∧ ∀ x,
    (good op x → UsesUp v good (kept ++ v.handed op x) (next x)) ∧
    (¬good op x → Spends v (kept ++ v.handed op x) (next x) fun _ _ => True)

namespace UsesUp

variable {v : Tickets Op Ans K} {good : (op : Op) → Ans op → Prop} {p : Program Op Ans α} {rest : List K}

theorem spends (h : UsesUp v good rest p) : Spends v rest p fun _ _ => True := by
  induction p generalizing rest with
  | done a => trivial
  | call op next ih =>
    obtain ⟨kept, rfl, h⟩ := h
    refine ⟨kept, List.Sublist.refl _, fun x => ?_⟩
    by_cases hx : good op x
    · exact ih x ((h x).1 hx)
    · exact (h x).2 hx

/-- An operation that uses nothing. -/
theorem call {op : Op} {next : Ans op → Program Op Ans α} (hused : v.used op = [])
    (h : ∀ x, UsesUp v good (rest ++ v.handed op x) (next x)) : UsesUp v good rest (.call op next) :=
  ⟨rest, by rw [hused]; rfl, fun x => ⟨fun _ => h x, fun _ => (h x).spends⟩⟩

theorem ite {c : Prop} [Decidable c] {p q : Program Op Ans α} (hp : c → UsesUp v good rest p)
    (hq : ¬c → UsesUp v good rest q) : UsesUp v good rest (if c then p else q) := by
  by_cases h : c
  · rw [if_pos h]
    exact hp h
  · rw [if_neg h]
    exact hq h

/-- A program behind one that has to do with no tickets. -/
theorem of_asks_bind {f : α → Program Op Ans β} {R : α → Prop}
    (h : p.Asks (fun op => v.used op = [] ∧ ∀ x, v.handed op x = []) R) (hf : ∀ a, UsesUp v good rest (f a)) :
    UsesUp v good rest (p >>= f) := by
  induction p with
  | done a => exact hf a
  | call op next ih =>
    refine call h.1.1 fun x => ?_
    rw [h.1.2 x, List.append_nil]
    exact ih x (h.2 x)

theorem of_asks {R : α → Prop} (h : p.Asks (fun op => v.used op = [] ∧ ∀ x, v.handed op x = []) R) :
    UsesUp v good [] p := by
  rw [← bind_done p]
  exact of_asks_bind h fun _ => rfl

/-- A program in front of one that has to do with no tickets. -/
theorem bind_of_asks {f : α → Program Op Ans β} {R : β → Prop} (h : UsesUp v good rest p)
    (hf : ∀ a, (f a).Asks (fun op => v.used op = [] ∧ ∀ x, v.handed op x = []) R) : UsesUp v good rest (p >>= f) := by
  induction p generalizing rest with
  | done a =>
    obtain rfl : rest = [] := h
    exact of_asks (hf a)
  | call op next ih =>
    obtain ⟨kept, hkept, h⟩ := h
    refine ⟨kept, hkept, fun x => ⟨fun hx => ih x ((h x).1 hx), fun hx => ?_⟩⟩
    exact Spends.bind (((h x).2 hx).mono fun kept a _ => (Spends.of_asks (hf a)).mono fun _ _ _ => trivial)

/-- **Another account** in which every operation uses the same. -/
theorem used_eq {w : Tickets Op Ans K} {R : α → Prop} (h : UsesUp v good rest p)
    (hp : p.Asks (fun op => w.used op = v.used op ∧ ∀ x, w.handed op x = v.handed op x) R) :
    UsesUp w good rest p := by
  induction p generalizing rest with
  | done a => exact h
  | call op next ih =>
    obtain ⟨kept, hkept, h⟩ := h
    obtain ⟨⟨hsame, hhanded⟩, hp⟩ := hp
    refine ⟨kept, hsame ▸ hkept, fun x => ?_⟩
    rw [hhanded x]
    refine ⟨fun hx => ih x ((h x).1 hx) (hp x), fun hx => ((h x).2 hx).used_le ((hp x).mono ?_ fun _ h => h)⟩
    exact fun op h => ⟨h.1 ▸ List.Sublist.refl _, h.2⟩

/-- **A complete trace** of good answers has used all the tickets it was handed. -/
theorem runs {t : List (Sigma Ans)} {r : α} (h : UsesUp v good rest p) (ht : p.Runs t r)
    (hgood : ∀ e ∈ t, good e.1 e.2) :
    (t.flatMap fun e => v.used e.1) = rest ++ t.flatMap fun e => v.handed e.1 e.2 := by
  induction p generalizing t rest with
  | done a =>
    obtain ⟨rfl, rfl⟩ := ht
    obtain rfl : rest = [] := h
    rfl
  | call op next ih =>
    obtain ⟨x, t, rfl, ht⟩ := ht
    obtain ⟨kept, rfl, h⟩ := h
    have hx := hgood _ List.mem_cons_self
    have htail := ih x ((h x).1 hx) ht fun e he => hgood e (List.mem_cons_of_mem _ he)
    rw [List.flatMap_cons, List.flatMap_cons, htail, List.append_assoc, List.append_assoc]

end UsesUp

/-- A complete trace is a trace so far. -/
theorem Runs.steps {p : Program Op Ans α} {t : List (Sigma Ans)} {r : α} (h : p.Runs t r) : p.Steps t (.done r) := by
  induction p generalizing t with
  | done a =>
    obtain ⟨rfl, rfl⟩ := h
    rfl
  | call op next ih =>
    obtain ⟨x, t', rfl, h⟩ := h
    exact ⟨next, rfl, ih x h⟩

/-! ### The counter -/

variable [DecidableEq J] {v : Tickets Op Ans K} {count : Op → Nat} {number : Nat → K} {j j' : J} {n m : Nat}
  {run : List (J × Sigma Ans)}

/-- The numbers the operations of program `j` draw, if the counter begins at `n`. -/
def numbers (count : Op → Nat) (j : J) : Nat → List (J × Sigma Ans) → List Nat
  | _, [] => []
  | n, e :: run => (if e.1 = j then List.range' n (count e.2.1) else []) ++ numbers count j (n + count e.2.1) run

/-- The answers hand over the tickets of consecutive numbers. -/
def CountsFrom (v : Tickets Op Ans K) (count : Op → Nat) (number : Nat → K) : Nat → List (J × Sigma Ans) → Prop
  | _, [] => True
  | n, e :: run => v.handed e.2.1 e.2.2 = (List.range' n (count e.2.1)).map number ∧
    CountsFrom v count number (n + count e.2.1) run

theorem le_of_mem_numbers (h : m ∈ numbers count j n run) : n ≤ m := by
  induction run generalizing n with
  | nil => cases h
  | cons e run ih =>
    rcases List.mem_append.1 h with h | h
    · split at h
      · exact (List.mem_range'_1.1 h).1
      · cases h
    · exact Nat.le_trans (Nat.le_add_right _ _) (ih h)

/-- No number is drawn twice. -/
theorem nodup_numbers : (numbers count j n run).Nodup := by
  induction run generalizing n with
  | nil => exact List.nodup_nil
  | cons e run ih =>
    refine List.nodup_append'.2 ⟨?_, ih, fun m hm hm' => ?_⟩
    · split
      · exact List.nodup_range'
      · exact List.nodup_nil
    · have hle := le_of_mem_numbers hm'
      split at hm
      · have := (List.mem_range'_1.1 hm).2
        omega
      · cases hm

theorem disjoint_numbers (hne : j ≠ j') : List.Disjoint (numbers count j n run) (numbers count j' n run) := by
  induction run generalizing n with
  | nil => exact List.disjoint_nil_left _
  | cons e run ih =>
    intro m hm hm'
    rcases List.mem_append.1 hm with hm | hm <;> rcases List.mem_append.1 hm' with hm' | hm'
    · split at hm
      · next hj =>
        rw [if_neg fun hj' => hne (hj.symm.trans hj')] at hm'
        cases hm'
      · cases hm
    · have hle := le_of_mem_numbers hm'
      split at hm
      · have := (List.mem_range'_1.1 hm).2
        omega
      · cases hm
    · have hle := le_of_mem_numbers hm
      split at hm'
      · have := (List.mem_range'_1.1 hm').2
        omega
      · cases hm'
    · exact ih hm hm'

/-- What a program is handed are the tickets of its numbers. -/
theorem CountsFrom.handed (h : CountsFrom v count number n run) (j : J) :
    ((project j run).flatMap fun e => v.handed e.1 e.2) = (numbers count j n run).map number := by
  induction run generalizing n with
  | nil => rfl
  | cons e run ih =>
    rw [numbers, List.map_append, ← ih h.2, project, List.filterMap_cons]
    by_cases hj : e.1 = j
    · rw [if_pos hj, if_pos hj, ← h.1]
      rfl
    · rw [if_neg hj, if_neg hj]
      rfl

/-- **Every program has tickets of its own**, whatever the interleaving: for what it has used it has drawn as many
numbers, none of them twice and none that another program has drawn. -/
theorem exists_tickets {prog : J → Program Op Ans α} {S : J → Prop} {Q : J → List K → α → Prop}
    (hrun : Interleaved prog run) (hcount : CountsFrom v count number n run)
    (h : ∀ j, S j → Spends v [] (prog j) (Q j)) :
    ∃ tickets : J → List Nat,
      (∀ j, S j → (tickets j).map number = (project j run).flatMap fun e => v.used e.1) ∧
      (∀ j, List.Sublist (tickets j) (numbers count j n run)) ∧ (∀ j, (tickets j).Nodup) ∧
      ∀ j j', j ≠ j' → List.Disjoint (tickets j) (tickets j') := by
  have hexists : ∀ j, ∃ l, (S j → l.map number = (project j run).flatMap fun e => v.used e.1) ∧
      List.Sublist l (numbers count j n run) := by
    intro j
    by_cases hS : S j
    · obtain ⟨q, hq⟩ := hrun j
      have hused := (h j hS).steps hq
      rw [List.nil_append, hcount.handed j] at hused
      obtain ⟨l, hl, heq⟩ := List.sublist_map_iff.1 hused
      exact ⟨l, fun _ => heq.symm, hl⟩
    · exact ⟨[], fun h => absurd h hS, List.nil_sublist _⟩
  choose tickets htickets using hexists
  refine ⟨tickets, fun j => (htickets j).1, fun j => (htickets j).2, fun j => (htickets j).2.nodup nodup_numbers,
    fun j j' hne m hm hm' => ?_⟩
  exact disjoint_numbers hne ((htickets j).2.subset hm) ((htickets j').2.subset hm')

end Program
