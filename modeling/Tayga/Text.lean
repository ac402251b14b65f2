import Mathlib.Algebra.Group.Int.Defs
import Tayga.Addr

/-!
# Reading text

The pieces of the C library the two file parsers rest on: `fgets` into a fixed buffer, `strtok_r` with the
delimiters of `DELIM`, `strtol` in base ten and `strcasecmp`.  A file is a list of bytes, written as characters.
The address parser `inet_pton` is a parameter (`Libc`).
-/

namespace Tayga

/-- `inet_pton` for the two address families: the address a string spells, if it spells one. -/
structure Libc where
  inetPton4 : List Char → Option In4
  inetPton6 : List Char → Option In6

/-! ### Lines -/

/-- One `fgets` with room for `n` characters: up to and including a newline. -/
def takeLine : Nat → List Char → List Char × List Char
  | 0, s => ([], s)
  | _, [] => ([], [])
  | n + 1, c :: s =>
    if c = '\n' then ([c], s)
    else ((c :: (takeLine n s).1), (takeLine n s).2)

/-- The lines a loop over `fgets (line, 512, in)` sees; each pass consumes at least one byte. -/
def fgetsLines : Nat → List Char → List (List Char)
  | 0, _ => []
  | _, [] => []
  | fuel + 1, c :: s => (takeLine 511 (c :: s)).1 :: fgetsLines fuel (takeLine 511 (c :: s)).2

/-- The lines of a file. -/
def fileLines (content : List Char) : List (List Char) := fgetsLines content.length content

/-- The string in a buffer: everything before the first NUL. -/
def cstr (l : List Char) : List Char := l.takeWhile (· ≠ '\x00')

/-- The line fills its buffer, so it may be only a part of the file's line. -/
def tooLong (line : List Char) : Bool := (cstr line).length = 511

/-! ### Tokens -/

/-- A character of `DELIM`. -/
def isDelim (c : Char) : Bool := c = ' ' ∨ c = '\t' ∨ c = '\r' ∨ c = '\n'

/-- The tokens `strtok_r` cuts a string into; `tok` is the token being read, last character first. -/
def strtok : List Char → List Char → List (List Char)
  | tok, [] => if tok = [] then [] else [tok.reverse]
  | tok, c :: s =>
    if isDelim c then (if tok = [] then strtok [] s else tok.reverse :: strtok [] s)
    else strtok (c :: tok) s

/-- The arguments of a line: its tokens before the first that starts with `#`. -/
def lineArgs (line : List Char) : List (List Char) :=
  (strtok [] (cstr line)).takeWhile fun t => t.head? ≠ some '#'

/-- `strcasecmp (a, b) == 0`. -/
def strcaseeq (a b : List Char) : Bool := a.map Char.toLower = b.map Char.toLower

/-- `strncasecmp (a, b, n) == 0` for a `b` of `n` characters. -/
def strncaseeq (a b : List Char) : Bool := strcaseeq (a.take b.length) b

/-! ### Numbers -/

/-- What `isspace` accepts. -/
def isSpaceC (c : Char) : Bool := c = ' ' ∨ c = '\t' ∨ c = '\n' ∨ c = '\x0b' ∨ c = '\x0c' ∨ c = '\r'

/-- The value of a string of digits, continuing `acc`. -/
def digitsVal (acc : Nat) : List Char → Nat
  | [] => acc
  | c :: s => digitsVal (acc * 10 + (c.toNat - '0'.toNat)) s

/-- What `strtol` leaves behind. -/
structure Strtol where
  val : Int
  rest : List Char
  overflow : Bool
deriving Repr, DecidableEq

/-- `strtol (s, &end, 10)` for a 64-bit `long`. -/
def strtol (s : List Char) : Strtol :=
  let t := s.dropWhile isSpaceC
  let neg := t.head? = some '-'
  let u := if t.head? = some '-' ∨ t.head? = some '+' then t.drop 1 else t
  let ds := u.takeWhile Char.isDigit
  if ds = [] then ⟨0, s, false⟩
  else
    let n := digitsVal 0 ds
    let rest := u.dropWhile Char.isDigit
    if neg then (if 2 ^ 63 < n then ⟨-2 ^ 63, rest, true⟩ else ⟨-n, rest, false⟩)
    else if 2 ^ 63 ≤ n then ⟨2 ^ 63 - 1, rest, true⟩ else ⟨n, rest, false⟩

/-- `atoi`: the value of `strtol` cut to a 32-bit `int`. -/
def atoi (s : List Char) : Int := ((strtol s).val + 2 ^ 31) % 2 ^ 32 - 2 ^ 31

/-- Cut a string at its first `/`. -/
def cutSlash (s : List Char) : Option (List Char × List Char) :=
  if '/' ∈ s then some (s.takeWhile (· ≠ '/'), (s.dropWhile (· ≠ '/')).drop 1) else none

end Tayga
