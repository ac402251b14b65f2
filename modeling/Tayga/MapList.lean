import Tayga.Gcfg
import Tayga.Lib.FirstMatch

/-!
# The map lists

Search and insertion in `map4_list` and `map6_list`.  Both lists are kept by decreasing prefix length.  The IPv4
list refuses only an entry with the same prefix, the IPv6 list any entry that overlaps.
-/

namespace Tayga

open FirstMatch

variable (g : Gcfg)

/-- The mask test of `find_map4`. -/
def Map4.covers (m : Map4) (addr4 : In4) : Bool := m.addr = m.mask &&& addr4

/-- `IN6_IS_IN_NET (addr, &m->addr, &m->mask)`. -/
def Map6.covers (m : Map6) (addr6 : In6) : Bool := m.addr = addr6 &&& m.mask

/-- `find_map4`. -/
def findMap4 (addr4 : In4) : Option MapRef := g.map4List.find? fun m => (g.map4 m).covers addr4

/-- `find_map6`. -/
def findMap6 (addr6 : In6) : Option MapRef := g.map6List.find? fun m => (g.map6 m).covers addr6

/-- The conflict test of `insert_map4`. -/
def Map4.same (s m : Map4) : Bool := s.prefixLen = m.prefixLen && s.addr = m.addr

/-- `insert_map4`: the entry it conflicts with, or the state with the entry in its place. -/
def insertMap4 (m : MapRef) : Except MapRef Gcfg :=
  match g.map4List.find? fun s => (g.map4 s).same (g.map4 m) with
  | some s => .error s
  | none => .ok { g with
      map4List := insertBefore (fun s => (g.map4 s).prefixLen < (g.map4 m).prefixLen) m g.map4List }

/-- The conflict test of `insert_map6`: the shorter of the two networks contains the base of the other. -/
def Map6.clash (s m : Map6) : Bool := if s.prefixLen < m.prefixLen then s.covers m.addr else m.covers s.addr

/-- `insert_map6`. -/
def insertMap6 (m : MapRef) : Except MapRef Gcfg :=
  match g.map6List.find? fun s => (g.map6 s).clash (g.map6 m) with
  | some s => .error s
  | none => .ok { g with
      map6List := insertBefore (fun s => (g.map6 s).prefixLen < (g.map6 m).prefixLen) m g.map6List }

/-- `insert_map4 (m, NULL)` with the result ignored. -/
def tryInsertMap4 (m : MapRef) : Gcfg :=
  match insertMap4 g m with
  | .ok g' => g'
  | .error _ => g

/-- `insert_map6 (m, NULL)` with the result ignored. -/
def tryInsertMap6 (m : MapRef) : Gcfg :=
  match insertMap6 g m with
  | .ok g' => g'
  | .error _ => g

/-- `list_del (&m->map4.list)`. -/
def delMap4 (m : MapRef) : Gcfg := { g with map4List := g.map4List.filter (· ≠ m) }

/-- `list_del (&m->map6.list)`. -/
def delMap6 (m : MapRef) : Gcfg := { g with map6List := g.map6List.filter (· ≠ m) }

end Tayga
