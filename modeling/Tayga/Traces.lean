import Tayga.Written

/-!
# The packets of a run

What a run writes, whatever the answers were, and whether all its writes went through.
-/

namespace Tayga

open Program

variable {t : List (Sigma PktOp.Ans)}

/-- The packets a run writes. -/
def outputs (t : List (Sigma PktOp.Ans)) : List (List Byte) := t.filterMap fun e => e.1.output

/-- The operation was no write, or one that went through. -/
def Sent : Sigma PktOp.Ans → Prop
  | ⟨.write _ _, ret⟩ => 0 < ret
  | _ => True

instance : DecidablePred Sent
  | ⟨.write _ _, ret⟩ => inferInstanceAs (Decidable (0 < (ret : Int)))
  | ⟨.mapIp4ToIp6 _, _⟩ | ⟨.mapIp6ToIp4 _ _, _⟩ | ⟨.reserveIp4Ident _, _⟩ | ⟨.statsDrop _, _⟩ => isTrue trivial

/-- Every write of the run went through. -/
def AllSent (t : List (Sigma PktOp.Ans)) : Prop := ∀ e ∈ t, Sent e

instance : Decidable (AllSent t) := inferInstanceAs (Decidable (∀ e ∈ t, Sent e))

/-- Every write goes through. -/
def Delivers (ans : (op : PktOp) → op.Ans) : Prop := ∀ vhdr packet, (0 : Int) < ans (.write vhdr packet)

theorem outputs_write (vhdr : Option VnetHdr) (packet : List Byte) (ret : Int) (t : List (Sigma PktOp.Ans)) :
    outputs (⟨.write vhdr packet, ret⟩ :: t) = packet :: outputs t := rfl

theorem outputs_mapIp4ToIp6 (addr4 : In4) (x : Except Error In6) (t : List (Sigma PktOp.Ans)) :
    outputs (⟨.mapIp4ToIp6 addr4, x⟩ :: t) = outputs t := rfl

theorem outputs_append (t₁ t₂ : List (Sigma PktOp.Ans)) : outputs (t₁ ++ t₂) = outputs t₁ ++ outputs t₂ :=
  List.filterMap_append

theorem AllSent.write {vhdr : Option VnetHdr} {packet : List Byte} {ret : Int}
    (h : AllSent (⟨.write vhdr packet, ret⟩ :: t)) : 0 < ret ∧ AllSent t :=
  List.forall_mem_cons.1 h

theorem AllSent.tail {e : Sigma PktOp.Ans} (h : AllSent (e :: t)) : AllSent t := (List.forall_mem_cons.1 h).2

theorem AllSent.right {t₁ t₂ : List (Sigma PktOp.Ans)} (h : AllSent (t₁ ++ t₂)) : AllSent t₂ :=
  fun e he => h e (List.mem_append_right _ he)

/-- What a program may write. -/
theorem OnlyWrites.mem_outputs {α : Type} {P : List Byte → Prop} {prog : PktProg α} {r : α} (h : OnlyWrites P prog)
    (hruns : prog.Runs t r) {packet : List Byte} (hmem : packet ∈ outputs t) : P packet := by
  obtain ⟨⟨op, x⟩, he, hout⟩ := List.mem_filterMap.1 hmem
  have hop := (h.runs hruns).1 _ he
  cases op with
  | write vhdr packet' =>
    obtain rfl : packet' = packet := Option.some.inj hout
    exact hop
  | _ => cases hout

/-- As in `sampleAns`, and a write takes the virtio header as well. -/
def frameAns : (op : PktOp) → op.Ans
  | .write _ packet => packet.length + 12
  | op => sampleAns op

theorem frameAns_delivers : Delivers frameAns := fun _ packet => by
  show (0 : Int) < packet.length + 12
  omega

end Tayga
