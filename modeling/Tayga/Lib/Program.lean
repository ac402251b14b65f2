import Mathlib.Data.List.Basic

/-!
# Programs with effects

A program that calls the outside world: it asks for operations `Op` one after the other, goes on with each answer, and
at last returns.  What it does is a trace of operations with their answers; `Runs` holds for the complete traces of a
program and `Steps` for the traces so far.  Nothing is assumed about the answers, so a fact about all traces holds in
every environment, and for a program that other programs interrupt between any two operations (`Interleaved`).
-/

/-- A program with result `α`. -/
inductive Program (Op : Type) (Ans : Op → Type) (α : Type) where
  | done (a : α)
  | call (op : Op) (next : Ans op → Program Op Ans α)

namespace Program

variable {Op : Type} {Ans : Op → Type} {α β : Type}

/-- Go on with the result. -/
def bind : Program Op Ans α → (α → Program Op Ans β) → Program Op Ans β
  | .done a, f => f a
  | .call op next, f => .call op fun x => (next x).bind f

instance : Monad (Program Op Ans) where
  pure := .done
  bind := bind

/-- One operation. -/
def ask (op : Op) : Program Op Ans (Ans op) := .call op .done

@[simp] theorem pure_eq (a : α) : (pure a : Program Op Ans α) = .done a := rfl

@[simp] theorem done_bind (a : α) (f : α → Program Op Ans β) : (.done a : Program Op Ans α) >>= f = f a := rfl

@[simp] theorem call_bind (op : Op) (next : Ans op → Program Op Ans α) (f : α → Program Op Ans β) :
    (.call op next : Program Op Ans α) >>= f = .call op fun x => next x >>= f := rfl

@[simp] theorem ask_bind (op : Op) (f : Ans op → Program Op Ans β) : ask op >>= f = .call op f := rfl

theorem bind_done (p : Program Op Ans α) : p >>= .done = p := by
  induction p with
  | done a => rfl
  | call op next ih =>
    rw [call_bind]
    exact congrArg _ (funext ih)

theorem bind_assoc {γ : Type} (p : Program Op Ans α) (f : α → Program Op Ans β) (g : β → Program Op Ans γ) :
    p >>= f >>= g = p >>= fun a => f a >>= g := by
  induction p with
  | done a => rfl
  | call op next ih =>
    rw [call_bind, call_bind, call_bind]
    exact congrArg _ (funext ih)

instance : LawfulMonad (Program Op Ans) := LawfulMonad.mk' _ bind_done (fun _ _ => rfl) bind_assoc

/-! ### Traces -/

/-- The complete traces of a program, with the result. -/
def Runs : Program Op Ans α → List (Sigma Ans) → α → Prop
  | .done a, t, r => t = [] ∧ r = a
  | .call op next, t, r => ∃ x t', t = ⟨op, x⟩ :: t' ∧ (next x).Runs t' r

@[simp] theorem runs_done {a r : α} {t : List (Sigma Ans)} : (.done a : Program Op Ans α).Runs t r ↔ t = [] ∧ r = a :=
  Iff.rfl

@[simp] theorem runs_call {op : Op} {next : Ans op → Program Op Ans α} {t : List (Sigma Ans)} {r : α} :
    (call op next).Runs t r ↔ ∃ x t', t = ⟨op, x⟩ :: t' ∧ (next x).Runs t' r := Iff.rfl

/-- **The traces of two programs one after the other.** -/
theorem runs_bind {p : Program Op Ans α} {f : α → Program Op Ans β} {t : List (Sigma Ans)} {r : β} :
    (p >>= f).Runs t r ↔ ∃ t₁ t₂ a, t = t₁ ++ t₂ ∧ p.Runs t₁ a ∧ (f a).Runs t₂ r := by
  induction p generalizing t with
  | done a =>
    rw [done_bind]
    constructor
    · intro h
      exact ⟨[], t, a, rfl, ⟨rfl, rfl⟩, h⟩
    · rintro ⟨t₁, t₂, b, rfl, ⟨rfl, rfl⟩, h⟩
      exact h
  | call op next ih =>
    rw [call_bind, runs_call]
    constructor
    · rintro ⟨x, t', rfl, h⟩
      obtain ⟨t₁, t₂, a, rfl, h₁, h₂⟩ := (ih x).1 h
      exact ⟨⟨op, x⟩ :: t₁, t₂, a, rfl, ⟨x, t₁, rfl, h₁⟩, h₂⟩
    · rintro ⟨t₁, t₂, a, rfl, ⟨x, t₁', rfl, h₁⟩, h₂⟩
      exact ⟨x, t₁' ++ t₂, rfl, (ih x).2 ⟨t₁', t₂, a, rfl, h₁, h₂⟩⟩

/-- The traces so far, with the program still to be run. -/
def Steps : Program Op Ans α → List (Sigma Ans) → Program Op Ans α → Prop
  | p, [], q => q = p
  | p, e :: t, q => ∃ next, p = .call e.1 next ∧ (next e.2).Steps t q

/-! ### Environments -/

/-- The run in an environment with a state that answers every operation. -/
def exec {σ : Type} (env : (op : Op) → σ → Ans op × σ) : Program Op Ans α → σ → List (Sigma Ans) × α × σ
  | .done a, s => ([], a, s)
  | .call op next, s =>
    let r := exec env (next (env op s).1) (env op s).2
    (⟨op, (env op s).1⟩ :: r.1, r.2)

theorem runs_exec {σ : Type} (env : (op : Op) → σ → Ans op × σ) (p : Program Op Ans α) (s : σ) :
    p.Runs (p.exec env s).1 (p.exec env s).2.1 := by
  induction p generalizing s with
  | done a => exact ⟨rfl, rfl⟩
  | call op next ih => exact ⟨_, _, rfl, ih _ _⟩

/-- What two programs one after the other end with. -/
theorem exec_bind {σ : Type} (env : (op : Op) → σ → Ans op × σ) (p : Program Op Ans α) (f : α → Program Op Ans β)
    (s : σ) :
    ((p >>= f).exec env s).2 = ((f (p.exec env s).2.1).exec env (p.exec env s).2.2).2 := by
  induction p generalizing s with
  | done a => rfl
  | call op next ih => exact ih _ _

/-! ### What a program asks -/

/-- Whatever the answers, the program asks only operations of `P` and returns only results of `Q`. -/
def Asks (P : Op → Prop) (Q : α → Prop) : Program Op Ans α → Prop
  | .done a => Q a
  | .call op next => P op ∧ ∀ x, (next x).Asks P Q

variable {P : Op → Prop} {Q : α → Prop}

@[simp] theorem asks_done {a : α} : (.done a : Program Op Ans α).Asks P Q ↔ Q a := Iff.rfl

@[simp] theorem asks_call {op : Op} {next : Ans op → Program Op Ans α} :
    (call op next).Asks P Q ↔ P op ∧ ∀ x, (next x).Asks P Q := Iff.rfl

/-- **Two programs one after the other**: the second may rely on what the first returns. -/
theorem Asks.bind {p : Program Op Ans α} {f : α → Program Op Ans β} {R : β → Prop} (hp : p.Asks P Q)
    (hf : ∀ a, Q a → (f a).Asks P R) : (p >>= f).Asks P R := by
  induction p with
  | done a => exact hf a hp
  | call op next ih => exact ⟨hp.1, fun x => ih x (hp.2 x)⟩

theorem Asks.mono {p : Program Op Ans α} {P' : Op → Prop} {Q' : α → Prop} (hp : p.Asks P Q) (hP : ∀ op, P op → P' op)
    (hQ : ∀ a, Q a → Q' a) : p.Asks P' Q' := by
  induction p with
  | done a => exact hQ a hp
  | call op next ih => exact ⟨hP op hp.1, fun x => ih x (hp.2 x)⟩

theorem Asks.ite {c : Prop} [Decidable c] {p q : Program Op Ans α} (hp : c → p.Asks P Q) (hq : ¬c → q.Asks P Q) :
    (if c then p else q).Asks P Q := by
  by_cases h : c
  · rw [if_pos h]
    exact hp h
  · rw [if_neg h]
    exact hq h

/-- What a run asks and returns. -/
theorem Asks.runs {p : Program Op Ans α} (h : p.Asks P Q) {t : List (Sigma Ans)} {r : α} (hr : p.Runs t r) :
    (∀ e ∈ t, P e.1) ∧ Q r := by
  induction p generalizing t with
  | done a =>
    obtain ⟨rfl, rfl⟩ := hr
    exact ⟨fun e he => absurd he List.not_mem_nil, h⟩
  | call op next ih =>
    obtain ⟨x, t', rfl, hr⟩ := hr
    rw [List.forall_mem_cons]
    exact ⟨⟨h.1, (ih x (h.2 x) hr).1⟩, (ih x (h.2 x) hr).2⟩

/-- The result when every operation has its fixed answer. -/
def answer (ans : (op : Op) → Ans op) : Program Op Ans α → α
  | .done a => a
  | .call op next => (next (ans op)).answer ans

@[simp] theorem answer_done (ans : (op : Op) → Ans op) (a : α) : (.done a : Program Op Ans α).answer ans = a := rfl

@[simp] theorem answer_call (ans : (op : Op) → Ans op) (op : Op) (next : Ans op → Program Op Ans α) :
    (call op next).answer ans = (next (ans op)).answer ans := rfl

@[simp] theorem answer_bind (ans : (op : Op) → Ans op) (p : Program Op Ans α) (f : α → Program Op Ans β) :
    (p >>= f).answer ans = (f (p.answer ans)).answer ans := by
  induction p with
  | done a => rfl
  | call op next ih => exact ih (ans op)

@[simp] theorem answer_ite (ans : (op : Op) → Ans op) (c : Prop) [Decidable c] (p q : Program Op Ans α) :
    (if c then p else q).answer ans = if c then p.answer ans else q.answer ans := by
  split <;> rfl

/-- The operations asked when every operation has its fixed answer. -/
def asked (ans : (op : Op) → Ans op) : Program Op Ans α → List Op
  | .done _ => []
  | .call op next => op :: (next (ans op)).asked ans

@[simp] theorem asked_done (ans : (op : Op) → Ans op) (a : α) : (.done a : Program Op Ans α).asked ans = [] := rfl

@[simp] theorem asked_call (ans : (op : Op) → Ans op) (op : Op) (next : Ans op → Program Op Ans α) :
    (call op next).asked ans = op :: (next (ans op)).asked ans := rfl

@[simp] theorem asked_bind (ans : (op : Op) → Ans op) (p : Program Op Ans α) (f : α → Program Op Ans β) :
    (p >>= f).asked ans = p.asked ans ++ (f (p.answer ans)).asked ans := by
  induction p with
  | done a => rfl
  | call op next ih => exact congrArg _ (ih (ans op))

theorem Asks.asked {p : Program Op Ans α} (h : p.Asks P Q) (ans : (op : Op) → Ans op) : ∀ op ∈ p.asked ans, P op := by
  induction p with
  | done a =>
    intro op hop
    cases hop
  | call op next ih =>
    intro op' hop
    rcases List.mem_cons.1 hop with rfl | hop
    · exact h.1
    · exact ih (ans op) (h.2 (ans op)) op' hop

theorem Asks.answer {p : Program Op Ans α} (h : p.Asks P Q) (ans : (op : Op) → Ans op) : Q (p.answer ans) := by
  induction p with
  | done a => exact h
  | call op next ih => exact ih (ans op) (h.2 (ans op))

/-- Whatever the answers, the program asks at most `n` operations. -/
def Within : Nat → Program Op Ans α → Prop
  | _, .done _ => True
  | 0, .call _ _ => False
  | n + 1, .call _ next => ∀ x, (next x).Within n

theorem Within.done (n : Nat) (a : α) : (.done a : Program Op Ans α).Within n := by
  cases n <;> trivial

theorem Within.zero {p : Program Op Ans α} (h : p.Within 0) : ∃ a, p = .done a := by
  cases p with
  | done a => exact ⟨a, rfl⟩
  | call op next => cases h

theorem Within.mono {p : Program Op Ans α} {n m : Nat} (h : p.Within n) (hle : n ≤ m) : p.Within m := by
  induction p generalizing n m with
  | done a => exact .done m a
  | call op next ih =>
    cases n with
    | zero => cases h
    | succ n =>
      obtain ⟨m, rfl⟩ : ∃ k, m = k + 1 := ⟨m - 1, by omega⟩
      exact fun x => ih x (h x) (by omega)

/-! ### Several programs -/

/-- The part of a run of several programs that one of them did. -/
def project {J : Type} [DecidableEq J] (j : J) (run : List (J × Sigma Ans)) : List (Sigma Ans) :=
  run.filterMap fun e => if e.1 = j then some e.2 else none

/-- A run of several programs, interrupting each other between any two operations. -/
def Interleaved {J : Type} [DecidableEq J] (prog : J → Program Op Ans α) (run : List (J × Sigma Ans)) : Prop :=
  ∀ j, ∃ q, (prog j).Steps (project j run) q

end Program
