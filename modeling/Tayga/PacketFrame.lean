import Mathlib.Algebra.Group.Nat.Defs
import Mathlib.Logic.Function.Basic

/-!
# The lifetime of a packet frame

The pool of frames the dispatcher and the asynchronous writer hand packets over in.  A token names one use of one
frame: the generation of a frame grows with every acquisition, so a token of an earlier use is stale.  Every
operation either succeeds or reports an `errno` and changes nothing.
-/

namespace Tayga

/-- The `errno` values the frame operations set. -/
inductive Errno where
  | einval
  | estale
  | eshutdown
  | ebusy
  | eoverflow
  | enobufs
deriving Repr, DecidableEq

/-- `enum packet_frame_state`. -/
inductive FrameState where
  | free
  | rxPosted
  | received
  | translating
  | pendingTx
  | txSubmitted
  | completed
deriving Repr, DecidableEq

/-- `struct packet_frame`; of the storage only whether there is one. -/
structure PacketFrame where
  storage : Bool
  capacity : Nat
  offset : Nat
  length : Nat
  generation : Nat
  state : FrameState
deriving Repr, DecidableEq

/-- `struct packet_frame_token`. -/
structure PacketFrameToken where
  slot : Nat
  generation : Nat
  poolIdentity : Nat
deriving Repr, DecidableEq

/-- `struct packet_frame_pool`. -/
structure PacketFramePool where
  frames : Nat → PacketFrame
  count : Nat
  identity : Nat
  stopping : Bool
  backendClosed : Bool

/-- `packet_frame_geometry`. -/
def PacketFrame.geometry (f : PacketFrame) : Bool :=
  f.storage && f.offset ≤ f.capacity && f.length ≤ f.capacity - f.offset

namespace PacketFramePool

/-- `packet_frame_pool_init`. -/
def init (frames : Nat → PacketFrame) (count identity : Nat) : Except Errno PacketFramePool :=
  if count = 0 ∨ identity = 0 then .error .einval
  else if (List.range count).any fun i => !(frames i).storage || (frames i).capacity = 0 then .error .einval
  else .ok
    { frames := fun i => { frames i with
        offset := 0
        length := 0
        generation := 0
        state := .free }
      count := count
      identity := identity
      stopping := false
      backendClosed := false }

/-- Write one frame back. -/
def setFrame (p : PacketFramePool) (slot : Nat) (f : PacketFrame) : PacketFramePool :=
  { p with frames := Function.update p.frames slot f }

/-- `packet_frame_lookup`: the frame of a token that is neither stale nor foreign. -/
def lookup (p : PacketFramePool) (token : PacketFrameToken) : Except Errno PacketFrame :=
  if token.poolIdentity ≠ p.identity ∨ p.count ≤ token.slot ∨ token.generation = 0 ∨
    (p.frames token.slot).generation ≠ token.generation then .error .estale
  else .ok (p.frames token.slot)

/-- `packet_frame_acquire`. -/
def acquire (p : PacketFramePool) (slot : Nat) : Except Errno (PacketFramePool × PacketFrameToken) :=
  if p.count ≤ slot then .error .einval
  else if p.stopping then .error .eshutdown
  else
    let f := p.frames slot
    if f.state ≠ .free then .error .ebusy
    else if f.generation = 2 ^ 64 - 1 then .error .eoverflow
    else .ok (p.setFrame slot { f with
        generation := f.generation + 1
        offset := 0
        length := 0
        state := .received }, ⟨slot, f.generation + 1, p.identity⟩)

/-- The moves between states `packet_frame_transition` allows. -/
def allowed (p : PacketFramePool) (f : PacketFrame) : FrameState → Bool
  | .rxPosted => f.state = .received && !p.stopping && f.length = 0
  | .received => f.state = .rxPosted
  | .translating => f.state = .received
  | .pendingTx => f.state = .translating
  | .txSubmitted => (f.state = .translating || f.state = .pendingTx) && !p.backendClosed && f.length ≠ 0
  | .completed => f.state = .txSubmitted
  | .free => f.state = .received || f.state = .translating || f.state = .pendingTx || f.state = .completed

/-- `packet_frame_transition`. -/
def transition (p : PacketFramePool) (token : PacketFrameToken) (state : FrameState) : Except Errno PacketFramePool :=
  match p.lookup token with
  | .error e => .error e
  | .ok f =>
    if !p.allowed f state then .error .ebusy
    else if state ≠ .free ∧ !f.geometry then .error .einval
    else if state = .free then .ok (p.setFrame token.slot { f with
        state := state
        length := 0
        offset := 0 })
    else .ok (p.setFrame token.slot { f with state := state })

/-- A transition whose result the caller ignores. -/
def attempt (p : PacketFramePool) (token : PacketFrameToken) (state : FrameState) : PacketFramePool :=
  match p.transition token state with
  | .ok p => p
  | .error _ => p

/-- `packet_frame_prepend`. -/
def prepend (p : PacketFramePool) (token : PacketFrameToken) (bytes : Nat) : Except Errno PacketFramePool :=
  match p.lookup token with
  | .error e => .error e
  | .ok f =>
    if f.state ≠ .translating then .error .ebusy
    else if !f.geometry then .error .einval
    else if f.offset < bytes then .error .enobufs
    else .ok (p.setFrame token.slot { f with
        offset := f.offset - bytes
        length := f.length + bytes })

/-- `packet_frame_unpublished_rollback`. -/
def unpublishedRollback (p : PacketFramePool) (token : PacketFrameToken) : Except Errno PacketFramePool :=
  match p.lookup token with
  | .error e => .error e
  | .ok f =>
    if f.state = .rxPosted then .ok (p.setFrame token.slot { f with state := .received })
    else if f.state = .txSubmitted then .ok (p.setFrame token.slot { f with state := .pendingTx })
    else .error .ebusy

/-- `packet_frame_stop`. -/
def stop (p : PacketFramePool) : PacketFramePool := { p with stopping := true }

/-- `packet_frame_backend_closed`: the frames the kernel still owned are complete. -/
def closeBackend (p : PacketFramePool) : Except Errno PacketFramePool :=
  if !p.stopping then .error .einval
  else .ok { p with
    backendClosed := true
    frames := fun i =>
      if i < p.count ∧ ((p.frames i).state = .rxPosted ∨ (p.frames i).state = .txSubmitted) then
        { p.frames i with state := .completed }
      else p.frames i }

/-- `packet_frame_can_unmap`. -/
def canUnmap (p : PacketFramePool) : Bool :=
  p.backendClosed && (List.range p.count).all fun i => (p.frames i).state = .free

/-! ### Ignored transitions -/

/-- The frame of a packet that is taken stays acquired. -/
theorem attempt_translating {p : PacketFramePool} {token : PacketFrameToken} {f : PacketFrame}
    (hl : p.lookup token = .ok f)
    (hs : f.state = .received) : ∃ st, (st = .received ∨ st = .translating) ∧
      p.attempt token .translating = p.setFrame token.slot { f with state := st } := by
  have hf : p.frames token.slot = f := by
    unfold lookup at hl
    split at hl
    · cases hl
    · exact Except.ok.inj hl
  by_cases hg : f.geometry
  · refine ⟨.translating, .inr rfl, ?_⟩
    simp [attempt, transition, hl, allowed, hs, hg]
  · refine ⟨.received, .inl rfl, ?_⟩
    have hself : p.setFrame token.slot { f with state := .received } = p := by
      unfold setFrame
      rw [← hs, ← hf, Function.update_eq_self]
    simp [attempt, transition, hl, allowed, hs, hg, hself]

/-- The frame of a packet that is given back is free. -/
theorem attempt_free {p : PacketFramePool} {token : PacketFrameToken} {f : PacketFrame} (hl : p.lookup token = .ok f)
    (hs : f.state = .received ∨ f.state = .translating) :
    p.attempt token .free = p.setFrame token.slot { f with
      state := .free
      length := 0
      offset := 0 } := by
  rcases hs with hs | hs <;>
    simp [attempt, transition, hl, allowed, hs]

theorem lookup_setFrame {p : PacketFramePool} {token : PacketFrameToken} {f g : PacketFrame}
    (hl : p.lookup token = .ok f)
    (hg : g.generation = f.generation) : (p.setFrame token.slot g).lookup token = .ok g := by
  unfold lookup at hl ⊢
  split at hl
  · cases hl
  · rename_i h
    obtain rfl := Except.ok.inj hl
    simp only [not_or, Nat.not_le, ne_eq, Decidable.not_not] at h
    obtain ⟨h1, h2, h3, h4⟩ := h
    simp [setFrame, h1, h2, h3, h4, hg]

end PacketFramePool

end Tayga
