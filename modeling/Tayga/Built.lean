import Tayga.FragmentLaw
import Tayga.TransportLaw

/-!
# What the parser makes of a built packet

An IPv6 packet as the translator builds it, of a header, perhaps a fragment header, and data (`packet6`): `parse_ip6`
takes it apart again (`parseIp6_packet6`), unless one of the addresses is reserved (`parseIp6_reserved`).
-/

namespace Tayga

variable {h : Ip6} {frag : Option Ip6Frag} {proto : Byte} {data : List Byte} {vhdr : Option VnetHdr} {em : Bool}

/-- The bytes of a fragment header, if there is one. -/
def fragBytes (frag : Option Ip6Frag) : List Byte := frag.elim [] Ip6Frag.toBytes

/-- A packet of a header, perhaps a fragment header, and data. -/
def packet6 (h : Ip6) (frag : Option Ip6Frag) (data : List Byte) : List Byte :=
  h.toBytes ++ (fragBytes frag ++ data)

/-- The headers of a packet fit each other and its data, of protocol `proto`. -/
structure Fitting (h : Ip6) (frag : Option Ip6Frag) (proto : Byte) (data : List Byte) : Prop where
  hversion : h.verTcFl >>> 28 = 6
  hlen : h.payloadLength.toNat = (fragBytes frag ++ data).length
  hnext : h.nextHeader = frag.elim proto fun _ => 44
  hproto : proto ∉ ([0, 1, 43, 44, 60] : List Byte)
  hfrag : ∀ f ∈ frag, f.nextHeader = proto ∧ (f.offsetFlags &&& ip6FMf ≠ 0 → data.length % 8 = 0) ∧
    (f.offsetFlags &&& ip6FMask).toNat + data.length ≤ 65535
  hicmp : proto = 58 → frag = none ∧ 8 ≤ data.length

theorem length_fragBytes (frag : Option Ip6Frag) : (fragBytes frag).length = frag.elim 0 fun _ => 8 := by
  cases frag <;> rfl

private theorem ip6Data_packet6 (hlen : h.payloadLength.toNat = (fragBytes frag ++ data).length) :
    ip6Data (packet6 h frag data) = fragBytes frag ++ data := by
  have hdrop : (packet6 h frag data).drop 40 = fragBytes frag ++ data := List.drop_left' (length_ip6 h)
  have hhead : Ip6.ofBytes (packet6 h frag data) = h := h.ofBytes_toBytes _
  rw [ip6Data, hdrop, hhead, hlen, List.take_length]

/-- Behind the header comes what was put there. -/
private theorem Fitting.behind (hfit : Fitting h frag proto data) :
    Behind false h.nextHeader (fragBytes frag ++ data) frag proto data := by
  have hne : proto ≠ 44 := by
    rintro rfl
    exact hfit.hproto (by decide)
  rw [hfit.hnext]
  cases frag with
  | none => exact .whole hne
  | some f =>
    obtain ⟨hnext, halign, hsize⟩ := hfit.hfrag f rfl
    have hself : Ip6Frag.ofBytes f.toBytes = f := by
      have hread := f.ofBytes_toBytes []
      rwa [List.append_nil] at hread
    have hbehind : Behind false 44 (f.toBytes ++ data) (some (Ip6Frag.ofBytes f.toBytes))
        (Ip6Frag.ofBytes f.toBytes).nextHeader data :=
      .frag rfl (fun _ => by rwa [hself]) (by rwa [hself])
    rwa [hself, hnext] at hbehind

private theorem Fitting.noExt (hfit : Fitting h frag proto data) : ¬isExt h.nextHeader := by
  have hproto : ¬isExt proto := by
    intro hext
    apply hfit.hproto
    simp only [isExt, Bool.or_eq_true, decide_eq_true_eq] at hext
    rcases hext with (rfl | rfl) | rfl <;> decide
  rw [hfit.hnext]
  cases frag with
  | none => exact hproto
  | some f => exact show ¬isExt (44 : Byte) by decide

/-- **The parser takes a built packet apart.** -/
theorem parseIp6_packet6 (vhdr : Option VnetHdr) (hfit : Fitting h frag proto data)
    (hsrc : validateIp6Addr h.src = none) (hdest : validateIp6Addr h.dest = none) :
    ∃ p, parseIp6 (packet6 h frag data) vhdr false = .ok p ∧ p.ip6 = h ∧ p.frag = frag ∧ p.dataProto = proto ∧
    p.data = data ∧ p.vhdr = vhdr ∧ p.headerLen + data.length = h.payloadLength.toNat := by
  have hhead : Ip6.ofBytes (packet6 h frag data) = h := h.ofBytes_toBytes _
  have hdata := ip6Data_packet6 hfit.hlen
  have hlen : 40 ≤ (packet6 h frag data).length := by
    unfold packet6
    rw [List.length_append, length_ip6]
    omega
  have hwf : WellFormed6 false (packet6 h frag data) [] frag proto data := by
    refine ⟨hlen, by rw [hhead]; exact hfit.hversion, by rw [hhead]; exact hsrc, by rw [hhead]; exact hdest,
      Nat.zero_le _, ⟨_, _, .nil (by rw [hhead]; exact hfit.noExt), ?_⟩,
      fun h58 => ⟨(hfit.hicmp h58).2, fun _ => ?_⟩, ?_⟩
    · rw [hdata, hhead]
      exact hfit.behind
    · rw [(hfit.hicmp h58).1]
      exact Bool.false_ne_true
    · rintro rfl
      exact hfit.hproto (by decide)
  obtain ⟨p, ptr, -, hip6, -, hsum, hfrag, hproto, hpdata, hvhdr, hparse⟩ := parseIp6_of_wellFormed vhdr hwf
  rw [if_pos (show lastSegLeft [] = 0 from rfl)] at hparse
  rw [hdata, hpdata, ← hfit.hlen] at hsum
  exact ⟨p, hparse, hip6.trans hhead, hfrag, hproto, hpdata, hvhdr, hsum⟩

/-- **The parser drops a packet from or to a reserved address.** -/
theorem parseIp6_reserved (h : Ip6) (frag : Option Ip6Frag) (data : List Byte) (vhdr : Option VnetHdr) (em : Bool)
    (hreserved : validateIp6Addr h.src ≠ none ∨ validateIp6Addr h.dest ≠ none) :
    ∃ n, parseIp6 (packet6 h frag data) vhdr em = .drop n := by
  have hhead : Ip6.ofBytes (packet6 h frag data) = h := h.ofBytes_toBytes _
  refine ⟨(packet6 h frag data).length, ?_⟩
  unfold parseIp6
  dsimp only
  rw [hhead, if_pos (.inr (.inr hreserved))]

end Tayga
