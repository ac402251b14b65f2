import Tayga.Config

/-!
# Reloading the map file

`addrmap_reload`: the whole file is parsed into a staged list first; entries that conflict with a mapping the file
does not own are dropped; then the file's old entries are replaced by the staged ones and the cache is flushed.
-/

namespace Tayga

variable (g : Gcfg) (libc : Libc)

/-! ### One line -/

/-- The length after the slash of one side of a map entry; `width` when there is no slash. -/
def entryLen (width : Nat) (arg : List Char) : Option Nat :=
  match cutSlash arg with
  | none => some width
  | some (_, len) =>
    let n := strtol len
    if n.overflow ∨ len = [] ∨ n.rest ≠ [] ∨ n.val < 0 ∨ (width : Int) < n.val then none else some n.val.toNat

/-- The text in front of the slash of one side of a map entry. -/
def entryAddr (arg : List Char) : List Char := (cutSlash arg).elim arg Prod.fst

/-- `parse_map_entry`. -/
def parseMapEntry (line : Nat) (v4 v6 : List Char) : Option MapStatic :=
  if g.oom then none
  else match entryLen 32 v4, entryLen 128 v6 with
    | some len4, some len6 =>
      if 128 - len6 < 32 - len4 then none
      else match libc.inetPton4 (entryAddr v4), libc.inetPton6 (entryAddr v6) with
        | some addr4, some addr6 => match calcIp4Mask addr4 len4, calcIp6Mask addr6 len6 with
          | some mask4, some mask6 =>
            if len4 ≠ 0 ∧ reserved4 addr4 then none
            else if len6 ≠ 0 ∧ (validateIp6Addr addr6).isSome then none
            else some ⟨⟨addr4, mask4, len4, .static⟩, ⟨addr6, mask6, len6, .static⟩, line, .mapfile⟩
          | _, _ => none
        | _, _ => none
    | _, _ => none

/-- `map6_overlaps`. -/
def Map6.overlaps (a b : Map6) : Bool := b.covers a.addr || a.covers b.addr

/-- Add an entry to the staged ones; it replaces those it conflicts with. -/
def stage (staged : List MapStatic) (m : MapStatic) : List MapStatic :=
  (staged.filter fun old => !(old.map4.same m.map4 || old.map6.overlaps m.map6)) ++ [m]

/-- One line of the map file; `none` when it makes the reload fail. -/
def reloadLine (ln : Nat) (staged : List MapStatic) (line : List Char) : Option (List MapStatic) :=
  if tooLong line then none
  else match lineArgs line with
    | [] => some staged
    -- five or more arguments fail on the way, every other number but three fails here
    | [name, v4, v6] =>
      if strcaseeq name "map".toList then (parseMapEntry g libc ln v4 v6).map (stage staged) else none
    | _ => none

/-- The first phase of `addrmap_reload`: the staged entries of a file. -/
def parseMapFile (content : List Char) : Option (List MapStatic) :=
  (fileLines content).zipIdx.foldlM (fun staged l => reloadLine g libc (l.2 + 1) staged l.1) []

/-! ### Replacing the entries -/

/-- The entry is a static one that came from the map file. -/
def isFileMap : MapRef → Bool
  | .static i => (g.statics i).map4.type = .static ∧ (g.statics i).origin = .mapfile
  | _ => false

/-- A staged entry conflicts with a mapping the file does not own. -/
def conflicts (m : MapStatic) : Bool :=
  (g.map4List.any fun f => !isFileMap g f && (g.map4 f).same m.map4) ||
  (g.map6List.any fun f => !isFileMap g f && (g.map6 f).overlaps m.map6)

/-- Take the file's entries out of both lists. -/
def dropFileMaps : Gcfg :=
  g.map4List.foldl (fun s m => if isFileMap s m then delMap6 (delMap4 s m) m else s) g

/-- Link one staged entry. -/
def linkStatic (m : MapStatic) : Gcfg :=
  let (r, g) := newStatic g m
  tryInsertMap6 (tryInsertMap4 g r) r

/-- The second phase of `addrmap_reload`, under both mutexes. -/
def publishMaps (staged : List MapStatic) : Gcfg :=
  let staged := staged.filter fun m => !conflicts g m
  flushCache (staged.foldl linkStatic (dropFileMaps g))

/-- What opening and reading the map file gives: its bytes, and whether reading or closing it failed. -/
structure MapFileRead where
  content : List Char
  ioError : Bool

/-- `addrmap_reload`; `file` is `none` when the file cannot be opened. -/
def addrmapReload (file : Option MapFileRead) : Except Error Unit × Gcfg :=
  if g.mapFile = [] then (.ok (), g)
  else match file with
    | none => (.error .reject, g)
    | some f => match parseMapFile g libc f.content with
      | none => (.error .reject, g)
      | some staged => if f.ioError then (.error .reject, g) else (.ok (), publishMaps g staged)

end Tayga
