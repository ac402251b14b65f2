import Tayga.Lib.Run
import Tayga.Lookups
import Tayga.ReloadProofs
import Tayga.Startup

/-!
# Runs of the mapper

The mapper as a system of threads.  A worker looks an address up in two steps, the cache probe and, after a miss, the
slow path under the map mutex; between the two every other thread may run.  The main thread does the maintenance
passes and the reloads.  The invariant holds in every state reached from a startup as long as no lookup revives a
shadowed lease (`SysInv.run`).
-/

namespace Tayga

/-! ### The system -/

/-- One lookup of a worker. -/
inductive Lookup where
  | four (addr4 : In4)
  | six (addr6 : In6) (dynAlloc : Bool)
deriving Repr, DecidableEq

/-- Every caller that asks for an assignment has checked the address. -/
def Lookup.Checked : Lookup → Prop
  | .four _ => True
  | .six addr6 dynAlloc => dynAlloc = true → validateIp6Addr addr6 = none

instance (l : Lookup) : Decidable l.Checked := by
  cases l <;> unfold Lookup.Checked <;> infer_instance

/-- The state after the cache probe of a lookup, if it hits. -/
def Lookup.probe (g : Gcfg) : Lookup → Option Gcfg
  | .four addr4 => (probe4 g addr4).map Prod.snd
  | .six addr6 _ => (probe6 g addr6).map Prod.snd

/-- The state after the slow path of a lookup. -/
def Lookup.slow (g : Gcfg) : Lookup → Gcfg
  | .four addr4 => (slow4 g addr4).2
  | .six addr6 dynAlloc => (slow6 g addr6 dynAlloc).2

/-- The mapper, the lookups of the workers that have missed the cache, and the observed time of the write to disk
that the main thread is in. -/
structure System where
  map : Gcfg
  pending : Nat → Option Lookup
  writing : Option Int

/-- A step of one of the threads, of the clock, or of the allocator. -/
inductive Event where
  | look (worker : Nat) (l : Lookup)
  | finish (worker : Nat)
  | cacheMaint
  | dynamicMaint (shutdown : Bool)
  | written (failed : Bool)
  | reload (file : Option MapFileRead)
  | tick (time : Int)
  | alloc (fails : Bool)

/-- What an event does; an event that cannot happen in a state does nothing. -/
def step (libc : Libc) (s : System) : Event → System
  | .look w l =>
    if s.pending w = none ∧ l.Checked then
      match l.probe s.map with
      | some g => { s with map := g }
      | none => { s with pending := Function.update s.pending w (some l) }
    else s
  | .finish w =>
    match s.pending w with
    | some l => { s with
        map := l.slow s.map
        pending := Function.update s.pending w none }
    | none => s
  | .cacheMaint => if s.writing.isSome then s else { s with map := addrmapMaint s.map }
  | .dynamicMaint shutdown =>
    if s.writing.isSome then s
    else
      let r := Tayga.dynamicMaint s.map shutdown
      { s with
        map := r.1
        writing := r.2.map Prod.snd }
  | .written failed =>
    match s.writing with
    | some t => { s with
        map := dynamicMaintDone s.map t failed
        writing := none }
    | none => s
  | .reload file => if s.writing.isSome then s else { s with map := (addrmapReload s.map libc file).2 }
  | .tick t => if s.map.now ≤ t then { s with map := { s.map with now := t } } else s
  | .alloc fails => { s with map := { s.map with oom := fails } }

/-- The system when the workers start. -/
def System.start (g : Gcfg) : System := ⟨g, fun _ => none, none⟩

/-! ### The invariant of the system -/

/-- The invariant of the mapper, and every pending lookup was checked. -/
structure SysInv (s : System) : Prop where
  inv : Inv s.map
  checked : ∀ w l, s.pending w = some l → l.Checked

/-- The slow path of the lookup would bring a shadowed lease back into use. -/
def Lookup.Revives (g : Gcfg) : Lookup → Prop
  | .six addr6 true => findMap6 g addr6 = none ∧ ∃ d ∈ reactivated g addr6, Shadowed g d
  | _ => False

/-- The event does not make a pending lookup bring a shadowed lease back. -/
def RevivesNothing (s : System) : Event → Prop
  | .finish w => ∀ l ∈ s.pending w, ¬ l.Revives s.map
  | _ => True

instance (g : Gcfg) (d : Nat) : Decidable (Shadowed g d) := by
  unfold Shadowed
  infer_instance

instance (g : Gcfg) (l : Lookup) : Decidable (l.Revives g) := by
  unfold Lookup.Revives
  split <;> infer_instance

instance (s : System) (e : Event) : Decidable (RevivesNothing s e) := by
  unfold RevivesNothing
  split <;> infer_instance

section Steps

variable {g : Gcfg} {libc : Libc}

/-- A probe that hits refreshes one entry. -/
theorem Lookup.probe_eq_some {l : Lookup} {g' : Gcfg} (hp : l.probe g = some g') : ∃ c, g' = touch g c := by
  cases l with
  | four a =>
    obtain ⟨⟨x, g''⟩, hr, rfl⟩ := Option.map_eq_some_iff.1 hp
    obtain ⟨-, c, -, -, rfl⟩ := probe4_eq_some.1 hr
    exact ⟨c, rfl⟩
  | six x dyn =>
    obtain ⟨⟨a, g''⟩, hr, rfl⟩ := Option.map_eq_some_iff.1 hp
    obtain ⟨-, c, -, -, rfl⟩ := probe6_eq_some.1 hr
    exact ⟨c, rfl⟩

theorem Inv.slow (h : Inv g) {l : Lookup} (hl : l.Checked) (hb : ¬ l.Revives g) : Inv (l.slow g) := by
  cases l with
  | four a => exact h.slow4 a
  | six x dyn =>
    refine h.slow6 hl fun hx hdyn d hre hs => ?_
    subst hdyn
    exact hb ⟨hx, d, hre, hs⟩

theorem Inv.tick (h : Inv g) (t : Int) : Inv { g with now := t } :=
  h.bookkeeping (by constructor <;> intros <;> rfl) rfl rfl rfl

theorem Inv.alloc (h : Inv g) (b : Bool) : Inv { g with oom := b } :=
  h.bookkeeping (by constructor <;> intros <;> rfl) rfl rfl rfl

theorem Base.tick (h : Base g) (t : Int) : Base { g with now := t } :=
  h.bookkeeping (by constructor <;> intros <;> rfl) rfl rfl rfl

theorem Base.alloc (h : Base g) (b : Bool) : Base { g with oom := b } :=
  h.bookkeeping (by constructor <;> intros <;> rfl) rfl rfl rfl

theorem Base.slow (h : Base g) {l : Lookup} (hl : l.Checked) : Base (l.slow g) := by
  cases l with
  | four a => exact h.slow4 a
  | six x dyn => exact h.slow6 hl

/-- What the operations keep a step keeps. -/
theorem step_map_induct {P : Gcfg → Prop} {s : System} (h : P s.map) (htouch : ∀ c, P (touch s.map c)) {e : Event}
    (hslow : ∀ w l, e = .finish w → s.pending w = some l → P (l.slow s.map)) (hcache : P (addrmapMaint s.map))
    (hmaint : ∀ b, P (dynamicMaint s.map b).1) (hdone : ∀ t b, P (dynamicMaintDone s.map t b))
    (hreload : ∀ file, P (addrmapReload s.map libc file).2) (htick : ∀ t, P { s.map with now := t })
    (halloc : ∀ b, P { s.map with oom := b }) : P (step libc s e).map := by
  cases e with
  | look w l =>
    simp only [Tayga.step]
    split
    · cases hp : l.probe s.map with
      | some g =>
        obtain ⟨c, rfl⟩ := Lookup.probe_eq_some hp
        exact htouch c
      | none => exact h
    · exact h
  | finish w =>
    simp only [Tayga.step]
    cases hp : s.pending w with
    | none => exact h
    | some l => exact hslow w l rfl hp
  | cacheMaint =>
    simp only [Tayga.step]
    split
    · exact h
    · exact hcache
  | dynamicMaint shutdown =>
    simp only [Tayga.step]
    split
    · exact h
    · exact hmaint shutdown
  | written failed =>
    simp only [Tayga.step]
    split
    · exact hdone _ failed
    · exact h
  | reload file =>
    simp only [Tayga.step]
    split
    · exact h
    · exact hreload file
  | tick t =>
    simp only [Tayga.step]
    split
    · exact htick t
    · exact h
  | alloc fails => exact halloc fails

/-- A lookup that is pending after a step was pending before it, or has just missed the cache. -/
theorem step_pending {s : System} {e : Event} {w : Nat} {l : Lookup} (h : (step libc s e).pending w = some l) :
    s.pending w = some l ∨ e = .look w l ∧ l.Checked := by
  cases e with
  | look v k =>
    simp only [Tayga.step] at h
    split at h
    · rename_i hv
      cases hp : k.probe s.map with
      | some g =>
        rw [hp] at h
        exact Or.inl h
      | none =>
        rw [hp] at h
        by_cases e : w = v
        · subst e
          simp only [Function.update_self, Option.some.injEq] at h
          subst h
          exact Or.inr ⟨rfl, hv.2⟩
        · simp only [Function.update_of_ne e] at h
          exact Or.inl h
    · exact Or.inl h
  | finish v =>
    simp only [Tayga.step] at h
    cases hp : s.pending v with
    | none =>
      rw [hp] at h
      exact Or.inl h
    | some k =>
      rw [hp] at h
      by_cases e : w = v
      · subst e
        simp at h
      · simp only [Function.update_of_ne e] at h
        exact Or.inl h
  | alloc fails => exact Or.inl h
  | _ =>
    simp only [Tayga.step] at h
    split at h <;> exact Or.inl h

/-- Every step that revives no shadowed lease keeps the invariant. -/
theorem SysInv.step {s : System} (h : SysInv s) {e : Event} (he : RevivesNothing s e) : SysInv (step libc s e) where
  inv := step_map_induct h.inv (fun c => h.inv.touch c)
    (fun w l hw hp => h.inv.slow (h.checked w l hp) (by subst hw; exact he l hp)) h.inv.addrmapMaint
    h.inv.dynamicMaint h.inv.dynamicMaintDone (h.inv.addrmapReload libc) h.inv.tick h.inv.alloc
  checked w l hw := (step_pending hw).elim (h.checked w l) And.right

/-- The base invariant of the mapper, and every pending lookup was checked. -/
structure SysBase (s : System) : Prop where
  base : Base s.map
  checked : ∀ w l, s.pending w = some l → l.Checked

theorem SysInv.sysBase {s : System} (h : SysInv s) : SysBase s := ⟨h.inv.base, h.checked⟩

/-- Every step keeps the base invariant. -/
theorem SysBase.step {s : System} (h : SysBase s) (e : Event) : SysBase (step libc s e) where
  base := step_map_induct h.base (fun c => h.base.touch c) (fun w l _ hp => h.base.slow (h.checked w l hp))
    h.base.addrmapMaint h.base.dynamicMaint h.base.dynamicMaintDone (h.base.addrmapReload libc) h.base.tick
    h.base.alloc
  checked w l hw := (step_pending hw).elim (h.checked w l) And.right

/-- The invariant holds after every run that revives no shadowed lease. -/
theorem SysInv.run {s : System} (h : SysInv s) {es : List Event} (ha : Run.Along (Tayga.step libc) RevivesNothing s
    es) :
    SysInv (Run.run (Tayga.step libc) s es) :=
  ha.inv (fun _ _ h he => h.step he) h

theorem Inv.start (h : Inv g) : SysInv (.start g) := ⟨h, fun _ _ hw => by cases hw⟩

theorem Base.start (h : Base g) : SysBase (.start g) := ⟨h, fun _ _ hw => by cases hw⟩

end Steps

/-! ### A sample network -/

/-- The host `2001:db8::42`. -/
def sampleHost : In6 := 0x20010db8000000000000000000000042

/-- The host `2001:db8::99`. -/
def sampleOther : In6 := 0x20010db8000000000000000000000099

/-- The host gets a lease, of `198.18.0.4`, which becomes idle; then the file is reloaded. -/
def sampleIdle (file : String) : List Event :=
  [.reload (some ⟨[], false⟩), .look 0 (.six sampleHost true), .finish 0, .tick 1000200, .cacheMaint, .tick 1010000,
    .dynamicMaint false, .reload (some ⟨file.toList, false⟩)]

/-- After that the host sends again. -/
def sampleRun (file : String) : List Event := sampleIdle file ++ [.look 0 (.six sampleHost true), .finish 0]

end Tayga
