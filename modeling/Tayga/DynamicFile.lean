import Tayga.Dynamic
import Tayga.Text

/-!
# The dynamic map file

`load_dynamic` reads the leases of an earlier run back: every line that spells a lease is offered to `loadMap`, which
cuts the lease out of the free runs and makes it dormant; then the leases still within the minimum lease time come back
into use.  `writeToFile` is the text `write_to_file` prints for a snapshot.
-/

namespace Tayga

variable (g : Gcfg) (libc : Libc)

/-! ### Loading -/

/-- `load_map`: one lease of the file. -/
def loadMap (addr6 : In6) (addr4 : In4) (lastUse : Int) : Gcfg :=
  match g.dynamicPool with
  | none => g
  | some pool =>
    if pool.map4.addr ≠ addr4 &&& pool.map4.mask then g
    else if findMap4 g addr4 ≠ some .pool then g
    else if (validateIp6Addr addr6).isSome then g
    else if (findMap6 g addr6).isSome then g
    else match pool.freeList.find? fun f => addr4.toNat ≤ ((g.freeAddr f).addr + (g.freeAddr f).count) % 2 ^ 32 with
      | none => g
      | some f =>
        -- the address starts a run: it is the pool's own, or an earlier line has taken it
        if addr4.toNat ≤ (g.freeAddr f).addr then g
        else match allocMapDynamic g pool addr6 addr4 f with
          | none => g
          | some (d, g) => moveToDormant (g.setHost d { g.hosts d with lastUse := lastUse }) d

/-- The lease a line spells, if it spells one. -/
def dynamicLine (line : List Char) : Option DynamicSnapshot :=
  if tooLong line then none
  else match strtok [] (cstr line) with
    | [s4, s6, stime] =>
      if s4.head? = some '#' then none
      else match libc.inetPton4 s4, libc.inetPton6 s6 with
        | some addr4, some addr6 =>
          let t := strtol stime
          if t.val ≤ 0 ∨ t.rest ≠ [] then none else some ⟨addr4, addr6, t.val⟩
        | _, _ => none
    -- a comment, an empty line, or a malformed one
    | _ => none

/-- The leases a file spells. -/
def dynamicRows (content : List Char) : List DynamicSnapshot := (fileLines content).filterMap (dynamicLine libc)

/-- The `fgets` loop of `load_dynamic`. -/
def loadRows (rows : List DynamicSnapshot) : Gcfg :=
  rows.foldl (fun s r => loadMap s r.addr6 r.addr4 r.lastUse) g

/-- The last loop of `load_dynamic`: the leases used last come back into use, at most all of them. -/
def wakeLeases : Nat → Gcfg → Gcfg
  | 0, g => g
  | fuel + 1, g =>
    match g.dynamicPool with
    | none => g
    | some pool => match pool.dormantList.head? with
      | none => g
      | some d => if (g.hosts d).lastUse + g.dynMinLease < g.now then g else wakeLeases fuel (moveToMapped g d)

/-- The end of `load_dynamic`: leases dated in the future count as just idle. -/
def settleLeases : Gcfg :=
  match g.dynamicPool with
  | none => g
  | some pool =>
    let latest := pool.dormantList.foldl (fun t d => max t (g.hosts d).lastUse) 0
    if g.now < latest then
      pool.dormantList.foldl (fun s d => s.setHost d { s.hosts d with lastUse := s.now - s.dynMinLease }) g
    else wakeLeases pool.dormantList.length g

/-- `load_dynamic` at the given time; `file` is `none` when the file cannot be opened. -/
def loadDynamic (file : Option (List Char)) (time : Int) : Gcfg :=
  match g.dynamicPool, file with
  | some _, some content => settleLeases { loadRows g (dynamicRows libc content) with now := time }
  | _, _ => g

/-! ### Writing -/

/-- What the C library prints: `inet_ntop` for both families, `PRId64`, and the date format of the header. -/
structure Printer where
  inetNtop4 : In4 → List Char
  inetNtop6 : In6 → List Char
  decimal : Int → List Char
  timestamp : Int → List Char

/-- The line of one row. -/
def rowLine (out : Printer) (r : DynamicSnapshot) : List Char :=
  out.inetNtop4 r.addr4 ++ '\t' :: (out.inetNtop6 r.addr6 ++ '\t' :: (out.decimal r.lastUse ++ ['\n']))

/-- What `write_to_file` leaves in the file when nothing fails. -/
def writeToFile (out : Printer) (rows : List DynamicSnapshot) (writtenAt : Int) : List Char :=
  "### tayga dynamic map database\n".toList ++
    ("### Last written: ".toList ++ (out.timestamp writtenAt ++ '\n' :: '\n' :: rows.flatMap (rowLine out)))

end Tayga
