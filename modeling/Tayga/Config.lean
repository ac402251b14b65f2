import Tayga.Cache
import Tayga.Rfc6052
import Tayga.Text

/-!
# The configuration file

`config_init`, the directives of the configuration file, `config_read` and `config_validate`.  A directive that
fails makes the whole file fail, so a directive is a function into `Except`.  Directives that set nothing the model
reads still check their arguments.
-/

namespace Tayga

variable (g : Gcfg) (libc : Libc)

/-- `MTU_MIN`. -/
def mtuMin : Nat := 1280

/-- `config_init`, on a machine with byte order `e` at time `now`. -/
def configInit (e : Endian) (now : Int) : Gcfg where
  endian := e
  tundev := []
  mtu := 0
  vnetHdrSz := 0
  tunHasUso := false
  localAddr4 := 0
  localAddr6 := 0
  wkpfStrict := true
  mapsImmutable := false
  statics := fun _ => ⟨⟨0, 0, 0, .static⟩, ⟨0, 0, 0, .static⟩, 0, .conffile⟩
  nStatics := 0
  hosts := fun _ => ⟨⟨0, 0, 0, .dynamicHost⟩, ⟨0, 0, 0, .dynamicHost⟩, none, 0, ⟨0, 0⟩⟩
  nHosts := 0
  map4List := []
  map6List := []
  dataDir := []
  dynMinLease := 7200 + 4 * 60
  dynMaxLease := 14 * 86400
  maxCommitDelay := 14 * 86400 / 4
  dynamicPool := none
  lastMapWrite := 0
  mapWritePending := false
  mapFile := []
  hashBits := 7
  cacheSize := 8192
  rand := fun _ => 0
  entries := fun _ => ⟨0, 0, 0, false, 0⟩
  cachePool := []
  cacheActive := []
  hashTable4 := fun _ => []
  hashTable6 := fun _ => []
  ipv6OfflinkMtu := 0
  udpCksumMode := .drop
  logOpts := 0
  workers := -1
  runtimeDirConfigured := false
  now := now
  oom := false

/-! ### Helpers -/

/-- `parse_prefix`, with `inet_pton` for the family and its number of address bits. -/
def parsePrefix {α : Type} (pton : List Char → Option α) (width : Nat) (src : List Char) : Option (α × Nat) :=
  match cutSlash src with
  | none => none
  | some (addr, len) =>
    let n := strtol len
    match pton addr with
    | none => none
    | some a => if n.rest ≠ [] then none else if n.val < 0 ∨ (width : Int) < n.val then none else some (a, n.val.toNat)

/-- `alloc_map_static`: the values of a fresh entry. -/
def allocMapStatic (ln : Nat) : MapStatic where
  map4 := ⟨0, ip4Mask 32, 32, .static⟩
  map6 := ⟨0, ip6Mask 128, 128, .static⟩
  lineNo := ln
  origin := .conffile

/-- Give a static entry the next free index. -/
def newStatic (s : MapStatic) : MapRef × Gcfg :=
  (.static g.nStatics, { g.setStatic g.nStatics s with nStatics := g.nStatics + 1 })

/-- A conflict is fatal in the configuration file. -/
def orReject {ε α : Type} : Except ε α → Except Error α
  | .ok a => .ok a
  | .error _ => .error .reject

/-- Insert both halves of an entry. -/
def insertStatic (s : MapStatic) : Except Error Gcfg := do
  if g.oom then throw .reject
  let (m, g) := newStatic g s
  let g ← orReject (insertMap4 g m)
  orReject (insertMap6 g m)

/-- An address that is reserved, link-local ones apart. -/
def reserved4 (a : In4) : Bool := validateIp4Addr a = some .drop

/-! ### Directives -/

/-- `config_ipv4_addr`. -/
def configIpv4Addr (arg : List Char) : Except Error Gcfg :=
  if g.localAddr4 ≠ 0 then .error .reject
  else match libc.inetPton4 arg with
    | none => .error .reject
    | some a => if reserved4 a then .error .reject else .ok { g with localAddr4 := a }

/-- `config_ipv6_addr`. -/
def configIpv6Addr (arg : List Char) : Except Error Gcfg :=
  if byte6 g.localAddr6 0 ≠ 0 then .error .reject
  else match libc.inetPton6 arg with
    | none => .error .reject
    | some a => if (validateIp6Addr a).isSome then .error .reject else .ok { g with localAddr6 := a }

/-- `config_prefix`. -/
def configPrefix (ln : Nat) (arg : List Char) : Except Error Gcfg :=
  match parsePrefix libc.inetPton6 128 arg with
  | none => .error .reject
  | some (addr, len) => match calcIp6Mask addr len with
    | none => .error .reject
    | some mask =>
      if (validateIp6Addr addr).isSome then .error .reject
      else if len ≠ 32 ∧ len ≠ 40 ∧ len ≠ 48 ∧ len ≠ 56 ∧ len ≠ 64 ∧ len ≠ 96 then .error .reject
      else if isWkpf addr ∧ len ≠ 96 then .error .reject
      else
        let m := allocMapStatic ln
        insertStatic g { m with
          map4 := { m.map4 with prefixLen := 0, mask := 0, type := .rfc6052 }
          map6 := ⟨addr, mask, len, .rfc6052⟩ }

/-- The boolean arguments of `wkpf-strict` and `tun-up`. -/
def parseBool (arg : List Char) : Option Bool :=
  if strcaseeq arg "true".toList ∨ strcaseeq arg "on".toList ∨ strcaseeq arg "yes".toList ∨ strcaseeq arg ['1'] then
    some true
  else if strcaseeq arg "false".toList ∨ strcaseeq arg "off".toList ∨ strcaseeq arg "no".toList ∨
      strcaseeq arg ['0'] then some false
  else none

/-- `config_wkpf_strict`. -/
def configWkpfStrict (arg : List Char) : Except Error Gcfg :=
  match parseBool arg with
  | some b => .ok { g with wkpfStrict := b }
  | none => .error .reject

/-- `config_udp_cksum_mode`. -/
def configUdpCksumMode (arg : List Char) : Except Error Gcfg :=
  if strncaseeq arg "dr".toList then .ok { g with udpCksumMode := .drop }
  else if strncaseeq arg "calc".toList then .ok { g with udpCksumMode := .calc }
  else if strncaseeq arg "forw".toList ∨ strncaseeq arg "fwd".toList then .ok { g with udpCksumMode := .fwd }
  else .error .reject

/-- `config_tun_up`. -/
def configTunUp (arg : List Char) : Except Error Gcfg :=
  match parseBool arg with
  | some _ => .ok g
  | none => .error .reject

/-- `config_tun_device`; the name must fit `IFNAMSIZ`. -/
def configTunDevice (arg : List Char) : Except Error Gcfg :=
  if g.tundev ≠ [] then .error .reject
  else if 16 < arg.length + 1 then .error .reject
  else .ok { g with tundev := arg }

/-- `config_tun_ip` and `config_tun_route`: the address and the optional prefix length are checked. -/
def configTunIp (arg : List Char) : Except Error Gcfg :=
  if g.oom then .error .reject
  else
    let addr := (cutSlash arg).elim arg Prod.fst
    let len : Option Int := (cutSlash arg).map fun p => atoi p.2
    let bad := match cutSlash arg with
      | none => false
      | some (_, l) => match l with
        | [] => true
        | c :: _ => '9' < c ∨ c < '0' ∨ (atoi l = 0 ∧ c ≠ '0')
    if bad then .error .reject
    else if (libc.inetPton6 addr).isSome then (if 128 < len.getD 128 then .error .reject else .ok g)
    else if (libc.inetPton4 addr).isSome then (if 32 < len.getD 32 then .error .reject else .ok g)
    else .error .reject

/-- The address and the prefix length of one side of a `map` directive; without a length it is a host. -/
def mapSide {α : Type} (pton : List Char → Option α) (width : Nat) (arg : List Char) : Option (α × Nat) :=
  if '/' ∈ arg then parsePrefix pton width arg else (pton arg).map fun a => (a, width)

/-- `config_map`. -/
def configMap (ln : Nat) (arg4 arg6 : List Char) : Except Error Gcfg :=
  match mapSide libc.inetPton4 32 arg4 with
  | none => .error .reject
  | some (addr4, len4) => match calcIp4Mask addr4 len4 with
    | none => .error .reject
    | some mask4 => match mapSide libc.inetPton6 128 arg6 with
      | none => .error .reject
      | some (addr6, len6) => match calcIp6Mask addr6 len6 with
        | none => .error .reject
        | some mask6 =>
          if 128 - len6 < 32 - len4 then .error .reject
          else if len4 ≠ 0 ∧ reserved4 addr4 then .error .reject
          else if len6 ≠ 0 ∧ (validateIp6Addr addr6).isSome then .error .reject
          else insertStatic g { allocMapStatic ln with
            map4 := ⟨addr4, mask4, len4, .static⟩, map6 := ⟨addr6, mask6, len6, .static⟩ }

/-- `config_dynamic_pool`. -/
def configDynamicPool (arg : List Char) : Except Error Gcfg :=
  if g.dynamicPool.isSome ∨ g.oom then .error .reject
  else match parsePrefix libc.inetPton4 32 arg with
    | none => .error .reject
    | some (addr, len) => match calcIp4Mask addr len with
      | none => .error .reject
      | some mask =>
        if reserved4 addr then .error .reject
        else if 31 < len then .error .reject
        else
          let pool : DynamicPool := ⟨⟨addr, mask, len, .dynamicPool⟩, [], [], [.head],
            ⟨addr.toNat, (0xffffffff >>> len : BitVec 32).toNat⟩⟩
          orReject (insertMap4 { g with dynamicPool := some pool } .pool)

/-- `config_data_dir`. -/
def configDataDir (arg : List Char) : Except Error Gcfg :=
  if g.dataDir ≠ [] then .error .reject
  else if arg.head? ≠ some '/' then .error .reject
  else .ok { g with dataDir := arg }

/-- `config_map_file`. -/
def configMapFile (arg : List Char) : Except Error Gcfg :=
  if g.mapFile ≠ [] then .error .reject else .ok { g with mapFile := arg }

/-- The flag of one argument of the `log` directive. -/
def logFlag (arg : List Char) : Option Nat :=
  if strcaseeq arg "drop".toList then some 2
  else if strcaseeq arg "reject".toList then some 1
  else if strcaseeq arg "icmp".toList then some 4
  else if strcaseeq arg "self".toList then some 8
  else if strcaseeq arg "dyn".toList then some 16
  else none

/-- `config_log`. -/
def configLog (args : List (List Char)) : Except Error Gcfg :=
  if g.logOpts ≠ 0 then .error .reject
  else match args.mapM logFlag with
    | none => .error .reject
    | some flags => .ok { g with logOpts := flags.foldl (· ||| ·) (1 <<< 15) }

/-- `config_offlink_mtu`. -/
def configOfflinkMtu (arg : List Char) : Except Error Gcfg :=
  let n := strtol arg
  if g.ipv6OfflinkMtu ≠ 0 then .error .reject
  else if n.rest ≠ [] ∨ n.val < mtuMin ∨ 65535 < n.val then .error .reject
  else .ok { g with ipv6OfflinkMtu := n.val.toNat }

/-- `config_workers`, for at most `MAX_WORKERS = 64`. -/
def configWorkers (arg : List Char) : Except Error Gcfg :=
  let n := strtol arg
  if g.workers ≠ -1 then .error .reject
  else if n.rest ≠ [] ∨ n.val < 0 ∨ 64 < n.val then .error .reject
  else .ok { g with workers := n.val }

/-- `config_tun_offload` and `config_tun_steering`: the argument must be one of the given words. -/
def configWord (words : List (List Char)) (arg : List Char) : Except Error Gcfg :=
  if words.any (strcaseeq arg) then .ok g else .error .reject

/-- `config_runtime_dir`. -/
def configRuntimeDir (arg : List Char) : Except Error Gcfg :=
  if g.runtimeDirConfigured ∨ arg.head? ≠ some '/' ∨ 512 ≤ arg.length then .error .reject
  else .ok { g with runtimeDirConfigured := true }

/-! ### Reading the file -/

/-- `MAX_ARGS`. -/
def maxArgs : Nat := 10

/-- One line with at least one token: `config_directives` with the number of arguments each wants. -/
def configDirective (ln : Nat) (name : List Char) (args : List (List Char)) : Except Error Gcfg :=
  let is := fun s : String => strcaseeq name s.toList
  if is "log" then configLog g args
  else if is "map" then
    match args with
    | [a, b] => configMap g libc ln a b
    | _ => .error .reject
  else match args with
    | [a] =>
      if is "ipv4-addr" then configIpv4Addr g libc a
      else if is "ipv6-addr" then configIpv6Addr g libc a
      else if is "prefix" then configPrefix g libc ln a
      else if is "wkpf-strict" then configWkpfStrict g a
      else if is "udp-cksum-mode" then configUdpCksumMode g a
      else if is "tun-up" then configTunUp g a
      else if is "tun-ip" then configTunIp g libc a
      else if is "tun-route" then configTunIp g libc a
      else if is "tun-device" then configTunDevice g a
      else if is "dynamic-pool" then configDynamicPool g libc a
      else if is "runtime-dir" then configRuntimeDir g a
      else if is "data-dir" then configDataDir g a
      else if is "map-file" then configMapFile g a
      else if is "strict-frag-hdr" then .ok g
      else if is "offlink-mtu" then configOfflinkMtu g a
      else if is "workers" then configWorkers g a
      else if is "tun-offload" then configWord g ["off".toList, "tcp".toList, "auto".toList, "udp".toList] a
      else if is "tun-steering" then configWord g ["kernel".toList, "groups".toList, "flows".toList] a
      else .error .reject
    | _ => .error .reject

/-- One line of the configuration file. -/
def configLine (ln : Nat) (line : List Char) : Except Error Gcfg :=
  if tooLong line then .error .reject
  else match lineArgs line with
    | [] => .ok g
    | name :: args => if maxArgs ≤ args.length then .error .reject else configDirective g libc ln name args

/-- `config_read` on the content of the file. -/
def configRead (content : List Char) : Except Error Gcfg :=
  (fileLines content).zipIdx.foldlM (fun g l => configLine g libc (l.2 + 1) l.1) g

/-- The state directory `config_validate` takes from the environment when no `data-dir` is configured. -/
def stateDirectory (sd : Option (List Char)) : Except Error Gcfg :=
  match sd with
  | none => .ok g
  | some sd =>
    if g.dataDir ≠ [] then .ok g
    else if sd.head? ≠ some '/' then .error .reject
    else if 512 < sd.length + 1 then .error .reject
    else .ok { g with dataDir := sd.takeWhile (· ≠ ':') }

/-- The translator's own entry in `config_validate`. -/
def insertSelf : Except Error Gcfg := do
  if g.oom then throw .reject
  let s := { allocMapStatic 0 with map4 := { (allocMapStatic 0).map4 with addr := g.localAddr4 }, origin := .self }
  let (m, g) := newStatic g s
  let g ← orReject (insertMap4 g m)
  if isWkpf g.localAddr6 ∧ g.wkpfStrict then throw .reject
  else if word6 g.localAddr6 0 ≠ 0 then
    let g := g.setStatic (g.nStatics - 1) { s with map6 := { s.map6 with addr := g.localAddr6 } }
    orReject (insertMap6 g m)
  else
    -- the address is derived from the last prefix of the list; this half of the entry stays out of the list
    match g.map6List.getLast? with
    | none => throw .reject
    | some r =>
      let m6 := g.map6 r
      if m6.type ≠ .rfc6052 then throw .reject
      else match appendToPrefix g g.localAddr4 m6.addr m6.prefixLen with
        | .ok a =>
          .ok { g.setStatic (g.nStatics - 1) { s with map6 := { s.map6 with addr := a } } with localAddr6 := a }
        | .error _ =>
          if g.wkpfStrict then throw .reject
          else .ok (g.setStatic (g.nStatics - 1) { s with map6 := { s.map6 with addr := g.localAddr6 } })

/-- `config_validate`, with the value of the environment variable `STATE_DIRECTORY`. -/
def configValidate (sd : Option (List Char)) : Except Error Gcfg := do
  if g.map6List = [] then throw .reject
  let g ← stateDirectory g sd
  let g := { g with mapsImmutable := g.dynamicPool.isNone ∧ g.mapFile = [] }
  let g := if g.mapsImmutable then { g with cacheSize := 0 } else g
  if g.localAddr4 = 0 then throw .reject
  let g ← insertSelf g
  let g := if g.ipv6OfflinkMtu ≤ mtuMin then { g with ipv6OfflinkMtu := mtuMin } else g
  if g.tundev = [] then throw .reject
  return g

end Tayga
