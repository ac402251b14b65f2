import Mathlib.Logic.Function.Iterate
import Tayga.Lib.Program
import Tayga.Lib.Run

/-!
# Threads with a shared state

Every thread runs a program whose operations act on one shared state, and the threads interrupt each other between any
two operations.  A thread proves its outline against what the others may do meanwhile (`Outline`).  Where the guarantee
of each thread is what the others rely on, one operation of one thread keeps the outlines of all
(`Threads.Outlined.run`), so they may be proved one thread at a time.
-/

namespace Program

variable {Op : Type} {Ans : Op → Type} {α β γ σ : Type}

/-- The side of one thread: how its operations act on the state, what holds between any two operations, what it relies
on the others to do, and what it guarantees of its own. -/
structure Side (Op : Type) (Ans : Op → Type) (σ : Type) where
  env : (op : Op) → σ → Ans op × σ
  inv : σ → Prop
  rely : σ → σ → Prop
  guar : σ → σ → Prop
  rely_refl : ∀ s, rely s s
  rely_trans : ∀ {s s' s''}, rely s s' → rely s' s'' → rely s s''

/-- The others do not make the assertion false. -/
def Side.Stable (v : Side Op Ans σ) (P : σ → Prop) : Prop := ∀ s s', v.rely s s' → v.inv s' → P s → P s'

/-- Whatever the others do between its operations, the program keeps the invariant and the guarantee, and what it ends
with satisfies `Q` for as long as it rests. -/
def Outline (v : Side Op Ans σ) : Program Op Ans α → (α → σ → Prop) → σ → Prop
  | .done a, Q, s => ∀ s', v.rely s s' → v.inv s' → Q a s'
  | .call op next, Q, s => ∀ s', v.rely s s' → v.inv s' →
    v.inv (v.env op s').2 ∧ v.guar s' (v.env op s').2 ∧ Outline v (next (v.env op s').1) Q (v.env op s').2

namespace Outline

variable {v : Side Op Ans σ} {p : Program Op Ans α} {Q Q' : α → σ → Prop} {s s' : σ}

/-- The others do not break an outline. -/
theorem stable (h : Outline v p Q s) (hr : v.rely s s') : Outline v p Q s' := by
  cases p with
  | done a => exact fun t ht => h t (v.rely_trans hr ht)
  | call op next => exact fun t ht => h t (v.rely_trans hr ht)

theorem of_rely (h : ∀ s', v.rely s s' → v.inv s' → Outline v p Q s') : Outline v p Q s := by
  cases p with
  | done a => exact fun t ht hi => h t ht hi t (v.rely_refl t) hi
  | call op next => exact fun t ht hi => h t ht hi t (v.rely_refl t) hi

theorem done {a : α} (hQ : v.Stable (Q a)) (h : Q a s) : Outline v (.done a) Q s := fun s' hr hi => hQ s s' hr hi h

/-- The first operation, from a stable assertion. -/
theorem call {op : Op} {next : Ans op → Program Op Ans α} {P : σ → Prop} (hP : v.Stable P) (h : P s)
    (hop : ∀ s, v.inv s → P s → v.inv (v.env op s).2 ∧ v.guar s (v.env op s).2 ∧
      Outline v (next (v.env op s).1) Q (v.env op s).2) : Outline v (.call op next) Q s :=
  fun s' hr hi => hop s' hi (hP s s' hr hi h)

theorem mono (h : Outline v p Q s) (hQ : ∀ a s, v.inv s → Q a s → Q' a s) : Outline v p Q' s := by
  induction p generalizing s with
  | done a => exact fun s' hr hi => hQ a s' hi (h s' hr hi)
  | call op next ih =>
    intro s' hr hi
    obtain ⟨hinv, hguar, hnext⟩ := h s' hr hi
    exact ⟨hinv, hguar, ih _ hnext⟩

/-- **Two programs one after the other.** -/
theorem bind {f : α → Program Op Ans β} {Q : β → σ → Prop} (h : Outline v p (fun a => Outline v (f a) Q) s) :
    Outline v (p >>= f) Q s := by
  induction p generalizing s with
  | done a => exact of_rely h
  | call op next ih =>
    intro s' hr hi
    obtain ⟨hinv, hguar, hnext⟩ := h s' hr hi
    exact ⟨hinv, hguar, ih _ hnext⟩

/-- A loop over a list, with an assertion about what is left of it. -/
theorem foldlM {f : β → γ → Program Op Ans β} {J : List γ → β → σ → Prop} (hJ : ∀ l b, v.Stable (J l b))
    (hstep : ∀ a l b s, v.inv s → J (a :: l) b s → Outline v (f b a) (J l) s) {l : List γ} {b : β} (h : J l b s) :
    Outline v (l.foldlM f b) (J []) s := by
  induction l generalizing b s with
  | nil => exact done (hJ [] b) h
  | cons a l ih =>
    rw [List.foldlM_cons]
    refine bind (of_rely fun s' hr hi => ?_)
    exact (hstep a l b s' hi (hJ _ _ s s' hr hi h)).mono fun b s _ hb => ih hb

end Outline

/-! ### All threads -/

/-- The shared state, and what every thread has still to do. -/
structure Threads (T : Type) (Op : Type) (Ans : Op → Type) (α σ : Type) where
  state : σ
  program : T → Program Op Ans α

namespace Threads

variable {T : Type} {v : T → Side Op Ans σ} {Q : T → α → σ → Prop} {m : Threads T Op Ans α σ} {t : T}

/-- One operation of one thread. -/
def run [DecidableEq T] (env : T → (op : Op) → σ → Ans op × σ) (m : Threads T Op Ans α σ) (t : T) : Threads T Op Ans
    α σ :=
  match m.program t with
  | .done _ => m
  | .call op next => ⟨(env t op m.state).2, Function.update m.program t (next (env t op m.state).1)⟩

/-- The thread begins a program. -/
def start [DecidableEq T] (m : Threads T Op Ans α σ) (t : T) (p : Program Op Ans α) : Threads T Op Ans α σ :=
  ⟨m.state, Function.update m.program t p⟩

/-- **A thread that runs alone ends.** -/
theorem iterate_run [DecidableEq T] (env : T → (op : Op) → σ → Ans op × σ) {p : Program Op Ans α}
    (h : m.program t = p) : (fun m => m.run env t)^[(p.exec (env t) m.state).1.length] m =
      ⟨(p.exec (env t) m.state).2.2, Function.update m.program t (.done (p.exec (env t) m.state).2.1)⟩ := by
  induction p generalizing m with
  | done a =>
    have e : Function.update m.program t (.done a) = m.program := by
      rw [← h]
      exact Function.update_eq_self _ _
    simp only [exec, e]
    rfl
  | call op next ih =>
    have hrun : m.run env t = ⟨(env t op m.state).2, Function.update m.program t (next (env t op m.state).1)⟩ := by
      unfold run
      rw [h]
    have hnext := ih (env t op m.state).1 (m := m.run env t) (by rw [hrun]; exact Function.update_self _ _ _)
    rw [hrun] at hnext
    simp only [Function.update_idem] at hnext
    simp only [exec, List.length_cons, Function.iterate_succ_apply, hrun]
    exact hnext

/-- Every operation of a thread brings it closer to its end. -/
theorem within_run [DecidableEq T] (env : T → (op : Op) → σ → Ans op × σ) {n : Nat} (h : (m.program t).Within n)
    (schedule : List T) : ((Run.run (run env) m schedule).program t).Within (n - schedule.count t) := by
  induction schedule generalizing m n with
  | nil => exact h
  | cons u l ih =>
    rw [Run.run_cons]
    by_cases hu : u = t
    · subst hu
      rw [List.count_cons_self, Nat.add_comm, Nat.sub_add_eq]
      refine ih ?_
      unfold run
      cases hp : m.program u with
      | done a =>
        rw [hp]
        exact .done _ a
      | call op next =>
        rw [hp] at h
        cases n with
        | zero => cases h
        | succ n =>
          simp only [Function.update_self]
          exact h _
    · rw [List.count_cons_of_ne hu]
      refine ih ?_
      unfold run
      cases hp : m.program u with
      | done a => exact h
      | call op next =>
        simp only [Function.update_of_ne (Ne.symm hu)]
        exact h

/-- The invariant holds, and every thread has its outline. -/
structure Outlined (v : T → Side Op Ans σ) (Q : T → α → σ → Prop) (m : Threads T Op Ans α σ) : Prop where
  inv : ∀ t, (v t).inv m.state
  outline : ∀ t, Outline (v t) (m.program t) (Q t) m.state

namespace Outlined

/-- The result of a thread that has ended. -/
theorem result (h : Outlined v Q m) {a : α} (ha : m.program t = .done a) : Q t a m.state := by
  have ho := h.outline t
  rw [ha] at ho
  exact ho m.state ((v t).rely_refl _) (h.inv t)

/-- A thread that has ended changes its part of the state. -/
theorem outside (h : Outlined v Q m) {a : α} (ha : m.program t = .done a) {s : σ} (hinv : ∀ u, (v u).inv s)
    (hrely : ∀ u, u ≠ t → (v u).rely m.state s) (hQ : (v t).Stable (Q t a)) (hs : Q t a s) :
    Outlined v Q ⟨s, m.program⟩ := by
  refine ⟨hinv, fun u => ?_⟩
  by_cases hu : u = t
  · subst hu
    show Outline (v u) (m.program u) (Q u) s
    rw [ha]
    exact Outline.done hQ hs
  · exact (h.outline u).stable (hrely u hu)

variable [DecidableEq T]

/-- **One operation of one thread keeps every outline.** -/
theorem run (h : Outlined v Q m) (hinv : ∀ t u s, (v t).inv s → (v u).inv s)
    (hrely : ∀ t u s s', u ≠ t → (v t).guar s s' → (v u).rely s s') (t : T) :
    Outlined v Q (m.run (fun t => (v t).env) t) := by
  have ho := h.outline t
  unfold Threads.run
  cases hp : m.program t with
  | done a => exact h
  | call op next =>
    rw [hp] at ho
    obtain ⟨hi, hg, hnext⟩ := ho m.state ((v t).rely_refl _) (h.inv t)
    refine ⟨fun u => hinv t u _ hi, fun u => ?_⟩
    by_cases hu : u = t
    · subst hu
      simpa only [Function.update_self] using hnext
    · simp only [Function.update_of_ne hu]
      exact (h.outline u).stable (hrely t u _ _ hu hg)

/-- One operation of a thread is what the thread guarantees. -/
theorem guar_run (h : Outlined v Q m) (t : T) (hrefl : ∀ s, (v t).guar s s) :
    (v t).guar m.state (m.run (fun t => (v t).env) t).state := by
  have ho := h.outline t
  unfold Threads.run
  cases hp : m.program t with
  | done a => exact hrefl _
  | call op next =>
    rw [hp] at ho
    exact (ho m.state ((v t).rely_refl _) (h.inv t)).2.1

/-- **A run of all threads keeps every outline.** -/
theorem runs (h : Outlined v Q m) (hinv : ∀ t u s, (v t).inv s → (v u).inv s)
    (hrely : ∀ t u s s', u ≠ t → (v t).guar s s' → (v u).rely s s') (schedule : List T) :
    Outlined v Q (Run.run (Threads.run fun t => (v t).env) m schedule) := by
  induction schedule generalizing m with
  | nil => exact h
  | cons t l ih => exact ih (h.run hinv hrely t)

/-- What every operation guarantees holds between the beginning of a run and its end. -/
theorem guar_runs (h : Outlined v Q m) (hinv : ∀ t u s, (v t).inv s → (v u).inv s)
    (hrely : ∀ t u s s', u ≠ t → (v t).guar s s' → (v u).rely s s') {R : σ → σ → Prop} (hrefl : ∀ s, R s s)
    (htrans : ∀ {s s' s''}, R s s' → R s' s'' → R s s'') (hguar : ∀ t s s', (v t).guar s s' → R s s')
    (hself : ∀ t s, (v t).guar s s) (schedule : List T) :
    R m.state (Run.run (Threads.run fun t => (v t).env) m schedule).state := by
  induction schedule generalizing m with
  | nil => exact hrefl _
  | cons t l ih => exact htrans (hguar t _ _ (h.guar_run t (hself t))) (ih (h.run hinv hrely t))

/-- A thread that has ended changes its part of the state and begins a program. -/
theorem start (h : Outlined v Q m) {s : σ} (hinv : ∀ u, (v u).inv s) (hrely : ∀ u, u ≠ t → (v u).rely m.state s)
    {p : Program Op Ans α} (hp : Outline (v t) p (Q t) s) : Outlined v Q (Threads.start ⟨s, m.program⟩ t p) := by
  refine ⟨hinv, fun u => ?_⟩
  by_cases hu : u = t
  · subst hu
    simpa only [Threads.start, Function.update_self] using hp
  · simpa only [Threads.start, Function.update_of_ne hu] using (h.outline u).stable (hrely u hu)

end Outlined

end Threads

end Program
