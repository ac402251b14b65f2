import Tayga.Parsing

/-!
# The upper layer of an IPv6 packet

The upper layer is behind all the headers that may stand in front of it, the Authentication header and the headers
behind a fragment header included (`UpperLayer`).  The parser goes over some of them, so it finds the same upper layer
or one of the headers in front of it (`WellFormed6.upperLayer_iff`).
-/

namespace Tayga

/-- The headers in front of the upper layer: hop-by-hop options, routing, fragment, authentication and destination
options. -/
def extProtocols : List Byte := [0, 43, 44, 51, 60]

/-- From the header of protocol `proto` at the front of the data on, the upper layer is `rest`, of protocol `proto'`.
A fragment header is gone through if its offset and flags have no bit of `mask`. -/
inductive UpperLayer (mask : BitVec 16) : Byte → List Byte → Byte → List Byte → Prop where
  | here {proto data} (hproto : proto ∉ extProtocols) : UpperLayer mask proto data proto data
  | options {proto h d proto' rest} (hproto : isExt proto) (hlen : h.length = hdrLen h)
      (hd : UpperLayer mask (getU8 h 0) d proto' rest) : UpperLayer mask proto (h ++ d) proto' rest
  | auth {h d proto' rest} (hlen : h.length = ((getU8 h 1).toNat + 2) * 4)
      (hd : UpperLayer mask (getU8 h 0) d proto' rest) : UpperLayer mask 51 (h ++ d) proto' rest
  | fragment {f d proto' rest} (hlen : f.length = 8) (hmask : (Ip6Frag.ofBytes f).offsetFlags &&& mask = 0)
      (hd : UpperLayer mask (Ip6Frag.ofBytes f).nextHeader d proto' rest) : UpperLayer mask 44 (f ++ d) proto' rest

variable {mask : BitVec 16} {em : Bool} {d h data rest : List Byte} {proto proto' : Byte} {hs : List ExtHdr}
  {frag : Option Ip6Frag}

private theorem isExt_mem (h : isExt proto) : proto ∈ extProtocols := by
  simp only [isExt, Bool.or_eq_true, decide_eq_true_eq] at h
  rcases h with (rfl | rfl) | rfl <;> decide

namespace UpperLayer

theorem here_iff (hproto : proto ∉ extProtocols) :
    UpperLayer mask proto data proto' rest ↔ proto' = proto ∧ rest = data := by
  constructor
  · intro h
    cases h with
    | here => exact ⟨rfl, rfl⟩
    | options hext => exact absurd (isExt_mem hext) hproto
    | auth | fragment => exact absurd (by decide) hproto
  · rintro ⟨rfl, rfl⟩
    exact .here hproto

private theorem options_iff (hext : isExt proto) (hlen : h.length = hdrLen h) :
    UpperLayer mask proto (h ++ d) proto' rest ↔ UpperLayer mask (getU8 h 0) d proto' rest := by
  refine ⟨fun hu => ?_, .options hext hlen⟩
  generalize hdata : h ++ d = data at hu
  cases hu with
  | here hproto => exact absurd (isExt_mem hext) hproto
  | @options _ h' d' _ _ _ hlen' hd' =>
    have hsame : hdrLen h = hdrLen h' := by rw [← hdrLen_append hlen, hdata, hdrLen_append hlen']
    obtain ⟨rfl, rfl⟩ := List.append_inj hdata (by rw [hlen, hlen', hsame])
    exact hd'
  | auth | fragment => exact absurd hext (by decide)

private theorem fragment_iff {f : List Byte} (hlen : f.length = 8) : UpperLayer mask 44 (f ++ d) proto' rest ↔
    (Ip6Frag.ofBytes f).offsetFlags &&& mask = 0 ∧ UpperLayer mask (Ip6Frag.ofBytes f).nextHeader d proto' rest := by
  refine ⟨fun hu => ?_, fun h => .fragment hlen h.1 h.2⟩
  generalize hdata : f ++ d = data at hu
  cases hu with
  | here hproto => exact absurd (by decide) hproto
  | options hext => exact absurd hext (by decide)
  | @fragment f' d' _ _ hlen' hmask hd' =>
    obtain ⟨rfl, rfl⟩ := List.append_inj hdata (by rw [hlen, hlen'])
    exact ⟨hmask, hd'⟩

end UpperLayer

/-- The loop of the parser stays in front of the upper layer. -/
private theorem ExtHeaders.upperLayer_iff {proto1 : Byte} {rest1 : List Byte}
    (h : ExtHeaders proto data hs proto1 rest1) :
    UpperLayer mask proto data proto' rest ↔ UpperLayer mask proto1 rest1 proto' rest := by
  induction h with
  | nil => exact Iff.rfl
  | cons hext hlen _ ih => rw [UpperLayer.options_iff hext hlen, ih]

/-- **What the parser stops at** is the upper layer, or has it behind it. -/
theorem WellFormed6.upperLayer_iff (h : WellFormed6 em d hs frag proto data) :
    UpperLayer mask (Ip6.ofBytes d).nextHeader (ip6Data d) proto' rest ↔
    (∀ f ∈ frag, f.offsetFlags &&& mask = 0) ∧ UpperLayer mask proto data proto' rest := by
  obtain ⟨proto1, rest1, hchain, hbehind⟩ := h.hchain
  rw [hchain.upperLayer_iff]
  cases hbehind with
  | whole => simp
  | frag hlen => rw [UpperLayer.fragment_iff hlen]; simp

/-! ### ICMP messages -/

/-- An ICMP or ICMPv6 message other than an echo request. -/
def OtherMessage (proto type : Byte) : Prop := proto = 1 ∧ type ≠ 8 ∨ proto = 58 ∧ type ≠ 128

/-- An ICMP or ICMPv6 error. -/
def ErrorMessage (proto type : Byte) : Prop :=
  proto = 1 ∧ type ∈ ([3, 4, 5, 11, 12] : List Byte) ∨ proto = 58 ∧ type.toNat < 128

theorem ErrorMessage.other {type : Byte} (h : ErrorMessage proto type) : OtherMessage proto type := by
  refine h.imp (fun h => ⟨h.1, ?_⟩) fun h => ⟨h.1, ?_⟩
  · rintro rfl
    exact absurd h.2 (by decide)
  · rintro rfl
    exact absurd h.2 (by decide)

/-- The upper layer behind the header of protocol `proto` is a message of the kind `P`. -/
def Carries (mask : BitVec 16) (P : Byte → Byte → Prop) (proto : Byte) (data : List Byte) : Prop :=
  ∃ proto' rest, UpperLayer mask proto data proto' rest ∧ rest ≠ [] ∧ P proto' (getU8 rest 0)

/-- The packet is or, if it is a fragment, begins with a message of the kind `P`. -/
def Carries6 (mask : BitVec 16) (P : Byte → Byte → Prop) (d : List Byte) : Prop :=
  Carries mask P (Ip6.ofBytes d).nextHeader (ip6Data d)

/-- The parser stops in front of a header it does not go over, and behind that is a message of the kind `P`. -/
structure Hidden (mask : BitVec 16) (P : Byte → Byte → Prop) (p : Pkt6) : Prop where
  hstop : p.dataProto ∈ extProtocols
  hfrag : ∀ f ∈ p.frag, f.offsetFlags &&& mask = 0
  hcarries : Carries mask P p.dataProto p.data

/-- A message that the parser does not see is hidden behind a header it does not go over. -/
theorem carries6_hidden {P : Byte → Byte → Prop} {p : Pkt6} (hP : ∀ proto type, P proto type → OtherMessage proto type)
    (h : WellFormed6 em d hs p.frag p.dataProto p.data) :
    Carries6 mask P d ∧ ¬(p.dataProto = 58 ∧ p.icmp.type ≠ 128) ↔ Hidden mask P p := by
  constructor
  · rintro ⟨⟨proto', rest, hupper, hne, hmessage⟩, hother⟩
    obtain ⟨hfrag, hupper⟩ := h.upperLayer_iff.1 hupper
    refine ⟨?_, hfrag, proto', rest, hupper, hne, hmessage⟩
    by_contra hstop
    obtain ⟨rfl, rfl⟩ := (UpperLayer.here_iff hstop).1 hupper
    rcases hP _ _ hmessage with hicmp | hicmp
    · exact h.hicmp4 hicmp.1
    · exact hother hicmp
  · rintro ⟨hstop, hfrag, proto', rest, hupper, hne, hmessage⟩
    refine ⟨⟨proto', rest, h.upperLayer_iff.2 ⟨hfrag, hupper⟩, hne, hmessage⟩, fun hother => ?_⟩
    rw [hother.1] at hstop
    exact absurd hstop (by decide)

end Tayga
