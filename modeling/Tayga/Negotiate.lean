import Tayga.Gcfg
import Tayga.Lib.Program

/-!
# Negotiation of the TUN offloads

`tun_negotiate` offers the queues of the TUN device one mask of offloads after the other until all of them accept one.
The kernel's answers are left open.  The key fact is about one mask: if every queue accepts it, it is the last mask each
of them has accepted (`lastAccepted_applyAll`); from it the recorded state agrees with what the queues were left with
(`negotiation`).
-/

namespace Tayga

open Program

/-! ### Masks and modes -/

/-- `enum tun_offload_mode`. -/
inductive TunOffloadMode where
  | off
  | tcp
  | auto
  | udp
deriving Repr, DecidableEq

/-- `TCP_OFFLOAD_FLAGS`: `TUN_F_CSUM`, `TUN_F_TSO4` and `TUN_F_TSO6`. -/
def tcpOffloadFlags : BitVec 32 := 0x01 ||| 0x02 ||| 0x04

/-- `UDP_OFFLOAD_FLAGS`: `TUN_F_USO4` and `TUN_F_USO6` as well. -/
def udpOffloadFlags : BitVec 32 := tcpOffloadFlags ||| 0x20 ||| 0x40

def eintr : Int := 4

def ebadf : Int := 9

def enodev : Int := 19

/-- What `tun_negotiate` records in `gcfg`. -/
structure TunOffload where
  complete : Bool
  hasUso : Bool
  flags : BitVec 32
  effective : TunOffloadMode
  reason : String
  errno : Int
  queue : Int
deriving Repr, DecidableEq

/-! ### The program -/

/-- `ioctl (fd, TUNSETOFFLOAD, mask)`. -/
inductive TunOp where
  | setOffload (fd : Int) (mask : BitVec 32)
deriving Repr, DecidableEq

/-- Success, or `errno`. -/
abbrev TunOp.Ans : TunOp → Type
  | .setOffload _ _ => Except Int Unit

abbrev TunProg (α : Type) := Program TunOp TunOp.Ans α

/-- One queue: an interrupted call is repeated, `retries` times at most. -/
def setOffload (fd : Int) (mask : BitVec 32) (retries : Nat) : TunProg (Except Int Unit) :=
  .call (.setOffload fd mask) fun
    | .ok () => .done (.ok ())
    | .error errno =>
      match retries with
      | 0 => .done (.error errno)
      | retries + 1 => if errno = eintr then setOffload fd mask retries else .done (.error errno)

/-- One mask, for the queues with these numbers and descriptors: the first queue that refuses it, with `errno`. -/
def applyMask (mask : BitVec 32) : List (Int × Int) → TunProg (Option (Int × Int))
  | [] => .done none
  | (q, fd) :: fds => do
    match ← setOffload fd mask 2 with
    | .ok () => applyMask mask fds
    | .error errno => return some (q, errno)

/-- The descriptors with their numbers: the primary one is number -1. -/
def numbered (primary : Int) (queues : List Int) : List (Int × Int) :=
  (-1, primary) :: queues.zipIdx.map fun x => (x.2, x.1)

/-- The candidates one after the other. -/
def tryMasks (fds : List (Int × Int)) : List (BitVec 32) → TunOffload → TunProg (Except Error Unit × TunOffload)
  | [], o => .done (.error .reject, o)
  | mask :: masks, o => do
    match ← applyMask mask fds with
    | some (q, errno) =>
      let o := { o with
        errno := errno
        queue := q
        reason := if mask = udpOffloadFlags then "udp_unavailable" else "offload_unavailable" }
      if mask = 0 ∨ errno = ebadf ∨ errno = enodev then return (.error .reject, o)
      else tryMasks fds masks o
    | none =>
      let hasUso : Bool := mask = udpOffloadFlags
      return (.ok (), { o with
        flags := mask
        hasUso := hasUso
        effective := if hasUso then .udp else if mask ≠ 0 then .tcp else .off
        complete := true })

/-- The masks that are offered. -/
def candidates (requested : TunOffloadMode) (hasVnet : Bool) : List (BitVec 32) :=
  (if hasVnet ∧ (requested = .auto ∨ requested = .udp) then [udpOffloadFlags] else []) ++
  (if hasVnet ∧ (requested = .auto ∨ requested = .tcp) then [tcpOffloadFlags] else []) ++
  (if requested = .auto ∨ requested = .off then [0] else [])

/-- `tun_negotiate`. -/
def tunNegotiate (o : TunOffload) (primary : Int) (queues : List Int) (requested : TunOffloadMode) (hasVnet : Bool) :
    TunProg (Except Error Unit × TunOffload) :=
  tryMasks (numbered primary queues) (candidates requested hasVnet)
    { complete := false
      hasUso := false
      flags := 0
      effective := .off
      reason := if !hasVnet ∧ requested = .auto then "vnet_unavailable" else "none"
      errno := if hasVnet ∨ requested ≠ .auto then 0 else o.errno
      queue := -1 }

/-! ### What the queues were left with -/

/-- The mask a descriptor accepts in a call. -/
def acceptance (fd : Int) : Sigma TunOp.Ans → Option (BitVec 32)
  | ⟨.setOffload fd' mask, .ok ()⟩ => if fd' = fd then some mask else none
  | ⟨.setOffload _ _, .error _⟩ => none

/-- The last mask a descriptor has accepted. -/
def lastAccepted (t : List (Sigma TunOp.Ans)) (fd : Int) : Option (BitVec 32) := (t.filterMap (acceptance fd)).getLast?

/-- Only this mask was offered. -/
def Offered (mask : BitVec 32) (t : List (Sigma TunOp.Ans)) : Prop := ∀ e ∈ t, ∃ fd, e.1 = .setOffload fd mask

variable {t t₁ t₂ : List (Sigma TunOp.Ans)} {fd : Int} {mask : BitVec 32}

private theorem eq_of_acceptance {fd' : Int} {m : BitVec 32} {ans : TunOp.Ans (.setOffload fd' mask)}
    (h : acceptance fd ⟨.setOffload fd' mask, ans⟩ = some m) : m = mask := by
  cases ans with
  | error errno => cases h
  | ok u =>
    by_cases hfd : fd' = fd
    · rw [acceptance, if_pos hfd] at h
      exact (Option.some.inj h).symm
    · rw [acceptance, if_neg hfd] at h
      cases h

private theorem lastAccepted_append : lastAccepted (t₁ ++ t₂) fd = (lastAccepted t₂ fd).or (lastAccepted t₁ fd) := by
  unfold lastAccepted
  rw [List.filterMap_append, List.getLast?_append]

/-- What was accepted before stays the last one as long as no other mask is offered. -/
private theorem lastAccepted_offered (h : lastAccepted t₁ fd = some mask) (ht : Offered mask t₂) :
    lastAccepted (t₁ ++ t₂) fd = some mask := by
  rw [lastAccepted_append, h]
  cases hlast : lastAccepted t₂ fd with
  | none => rfl
  | some m =>
    obtain ⟨⟨op, ans⟩, hmem, hm⟩ := List.mem_filterMap.1 (List.mem_of_getLast? hlast)
    obtain ⟨fd', hop⟩ := ht _ hmem
    obtain rfl : op = .setOffload fd' mask := hop
    rw [eq_of_acceptance hm]
    rfl

private theorem runs_setOffload {retries : Nat} {r : Except Int Unit} (h : (setOffload fd mask retries).Runs t r) :
    Offered mask t ∧ (r = .ok () → lastAccepted t fd = some mask) := by
  induction retries generalizing t with
  | zero =>
    unfold setOffload at h
    obtain ⟨ans, t', rfl, h⟩ := h
    rcases ans with errno | ⟨⟩
    · obtain ⟨rfl, rfl⟩ := h
      exact ⟨by simp [Offered], nofun⟩
    · obtain ⟨rfl, rfl⟩ := h
      exact ⟨by simp [Offered], fun _ => by simp [lastAccepted, acceptance]⟩
  | succ n ih =>
    unfold setOffload at h
    obtain ⟨ans, t', rfl, h⟩ := h
    rcases ans with errno | ⟨⟩
    · dsimp only at h
      split at h
      · obtain ⟨hoff, hlast⟩ := ih h
        refine ⟨?_, fun hr => ?_⟩
        · simpa [Offered] using hoff
        · rw [← hlast hr]
          rfl
      · obtain ⟨rfl, rfl⟩ := h
        exact ⟨by simp [Offered], nofun⟩
    · obtain ⟨rfl, rfl⟩ := h
      exact ⟨by simp [Offered], fun _ => by simp [lastAccepted, acceptance]⟩

theorem Offered.append (h₁ : Offered mask t₁) (h₂ : Offered mask t₂) : Offered mask (t₁ ++ t₂) := by
  intro e he
  rcases List.mem_append.1 he with he | he
  · exact h₁ e he
  · exact h₂ e he

/-- **One mask**: if all queues accept it, it is the last one each of them has accepted. -/
theorem runs_applyMask {fds : List (Int × Int)} {r : Option (Int × Int)} (h : (applyMask mask fds).Runs t r) :
    Offered mask t ∧ (r = none → ∀ x ∈ fds, lastAccepted t x.2 = some mask) := by
  induction fds generalizing t with
  | nil =>
    obtain ⟨rfl, rfl⟩ := h
    exact ⟨by simp [Offered], fun _ => by simp⟩
  | cons x fds ih =>
    unfold applyMask at h
    obtain ⟨t₁, t₂, a, rfl, h₁, h₂⟩ := runs_bind.1 h
    obtain ⟨hoff₁, hlast₁⟩ := runs_setOffload h₁
    cases a with
    | error errno =>
      obtain ⟨rfl, rfl⟩ := h₂
      exact ⟨hoff₁.append (by simp [Offered]), nofun⟩
    | ok u =>
      obtain ⟨hoff₂, hlast₂⟩ := ih h₂
      refine ⟨hoff₁.append hoff₂, fun hr y hy => ?_⟩
      rcases List.mem_cons.1 hy with rfl | hy
      · exact lastAccepted_offered (hlast₁ rfl) hoff₂
      · rw [lastAccepted_append, hlast₂ hr y hy]
        rfl

/-- No offload is recorded as active. -/
structure TunOffload.Inactive (o : TunOffload) : Prop where
  hcomplete : o.complete = false
  hasUso : o.hasUso = false
  hflags : o.flags = 0
  heffective : o.effective = .off

/-- The flags, the mode and the completion that are recorded for a mask. -/
structure TunOffload.Records (o : TunOffload) (mask : BitVec 32) : Prop where
  hcomplete : o.complete = true
  hasUso : o.hasUso = true ↔ mask = udpOffloadFlags
  hflags : o.flags = mask
  heffective : o.effective = if mask = udpOffloadFlags then .udp else if mask ≠ 0 then .tcp else .off

/-- **The candidates**: the one that is recorded is the last one each queue has accepted. -/
theorem runs_tryMasks {fds : List (Int × Int)} {masks : List (BitVec 32)} {o o' : TunOffload} {r : Except Error Unit}
    (ho : o.Inactive) (h : (tryMasks fds masks o).Runs t (r, o')) :
    match r with
    | .ok () => ∃ mask ∈ masks, (∀ x ∈ fds, lastAccepted t x.2 = some mask) ∧ o'.Records mask
    | .error _ => o'.Inactive := by
  induction masks generalizing t o with
  | nil =>
    obtain ⟨rfl, h⟩ := h
    cases h
    exact ho
  | cons mask masks ih =>
    unfold tryMasks at h
    obtain ⟨t₁, t₂, a, rfl, h₁, h₂⟩ := runs_bind.1 h
    cases a with
    | none =>
      obtain ⟨rfl, h₂⟩ := h₂
      cases h₂
      refine ⟨mask, List.mem_cons_self, fun x hx => ?_, ⟨rfl, by simp, rfl, by simp⟩⟩
      rw [List.append_nil]
      exact (runs_applyMask h₁).2 rfl x hx
    | some x =>
      dsimp only at h₂
      split at h₂
      · obtain ⟨rfl, h₂⟩ := h₂
        cases h₂
        exact ⟨ho.hcomplete, ho.hasUso, ho.hflags, ho.heffective⟩
      · have hrest := ih (by exact ⟨ho.hcomplete, ho.hasUso, ho.hflags, ho.heffective⟩) h₂
        cases r with
        | error e => exact hrest
        | ok u =>
          obtain ⟨mask', hmem, hlast, hrec⟩ := hrest
          refine ⟨mask', List.mem_cons_of_mem _ hmem, fun x hx => ?_, hrec⟩
          rw [lastAccepted_append, hlast x hx]
          rfl

/-- A mode with its mask is allowed by the requested one. -/
def Allowed (requested : TunOffloadMode) (hasVnet : Bool) (o : TunOffload) : Prop :=
  (requested = .auto ∨ o.effective = requested) ∧ (o.flags ≠ 0 → hasVnet)

private theorem mem_candidates {requested : TunOffloadMode} {hasVnet : Bool} : mask ∈ candidates requested hasVnet ↔
    (hasVnet ∧ (requested = .auto ∨ requested = .udp)) ∧ mask = udpOffloadFlags ∨
    (hasVnet ∧ (requested = .auto ∨ requested = .tcp)) ∧ mask = tcpOffloadFlags ∨
    (requested = .auto ∨ requested = .off) ∧ mask = 0 := by
  unfold candidates
  simp only [List.mem_append, List.mem_ite_nil_right, List.mem_singleton, or_assoc]

private theorem allowed_of_candidate {requested : TunOffloadMode} {hasVnet : Bool} {o : TunOffload}
    (hmask : mask ∈ candidates requested hasVnet) (h : o.Records mask) : Allowed requested hasVnet o := by
  unfold Allowed
  rw [h.heffective, h.hflags]
  rcases mem_candidates.1 hmask with ⟨⟨hvnet, hreq⟩, rfl⟩ | ⟨⟨hvnet, hreq⟩, rfl⟩ | ⟨hreq, rfl⟩
  · rw [if_pos rfl]
    exact ⟨hreq.imp_right Eq.symm, fun _ => hvnet⟩
  · rw [if_neg (by decide), if_pos (by decide)]
    exact ⟨hreq.imp_right Eq.symm, fun _ => hvnet⟩
  · rw [if_neg (by decide), if_neg (by decide)]
    exact ⟨hreq.imp_right Eq.symm, fun hne => absurd rfl hne⟩

private theorem numbered_descriptors {primary : Int} {queues : List Int} {fd : Int} (h : fd ∈ primary :: queues) :
    ∃ q, (q, fd) ∈ numbered primary queues := by
  unfold numbered
  rcases List.mem_cons.1 h with rfl | h
  · exact ⟨-1, List.mem_cons_self⟩
  · obtain ⟨i, hi, rfl⟩ := List.getElem_of_mem h
    refine ⟨i, List.mem_cons_of_mem _ (List.mem_map.2 ⟨(queues[i], i), ?_, rfl⟩)⟩
    exact List.mk_mem_zipIdx_iff_getElem?.2 (List.getElem?_eq_getElem hi)

/-- **The negotiation**, whatever the queues answer: on success the recorded flags are the last mask that the primary
descriptor and every queue have accepted, and mode and flags agree with it and with the request; on failure no offload
is recorded as active. -/
theorem negotiation {σ : Type} (o : TunOffload) (primary : Int) (queues : List Int) (requested : TunOffloadMode)
    (hasVnet : Bool) (kernel : (op : TunOp) → σ → op.Ans × σ) (s : σ) :
    let run := (tunNegotiate o primary queues requested hasVnet).exec kernel s
    let recorded := run.2.1.2
    match run.2.1.1 with
    | .ok () => (∀ fd ∈ primary :: queues, lastAccepted run.1 fd = some recorded.flags) ∧
      recorded.Records recorded.flags ∧ Allowed requested hasVnet recorded
    | .error _ => recorded.Inactive := by
  intro run recorded
  have hruns : (tunNegotiate o primary queues requested hasVnet).Runs run.1 (run.2.1.1, recorded) :=
    runs_exec kernel _ s
  generalize run.2.1.1 = r at hruns ⊢
  have hresult := runs_tryMasks (by exact ⟨rfl, rfl, rfl, rfl⟩) hruns
  cases r with
  | error e => exact hresult
  | ok u =>
    obtain ⟨mask, hmem, hlast, hrec⟩ := hresult
    refine ⟨fun fd hfd => ?_, ?_, allowed_of_candidate hmem hrec⟩
    · obtain ⟨q, hq⟩ := numbered_descriptors hfd
      rw [hrec.hflags]
      exact hlast _ hq
    · rwa [hrec.hflags]

/-- A queue that refuses the segmentation of UDP: the primary descriptor is set once more, and all are left with the
mask for TCP. -/
example : ((tunNegotiate ⟨false, false, 0, .off, "none", 0, -1⟩ 3 [4] .auto true).exec
    (fun | .setOffload fd mask, s => (if fd = 4 ∧ mask = udpOffloadFlags then .error 22 else .ok (), s)) ()).2.1 =
    (.ok (), ⟨true, false, tcpOffloadFlags, .tcp, "udp_unavailable", 22, 0⟩) := by
  decide +kernel

end Tayga
