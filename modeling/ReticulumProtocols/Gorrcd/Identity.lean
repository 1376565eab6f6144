import ReticulumProtocols.Rrc.Hub
import ReticulumProtocols.Wire.Text

/-! Identity hashes as the daemon writes and reads them, and what it takes from the standard library. -/

namespace ReticulumProtocols.Gorrcd
open Wire Wire.Text Cbor Lxmf Rrc

/-- The tables and functions of the standard library and the surroundings of the process that the daemon consults. -/
structure Library where
  unicode : Unicode
  toUpper : Char → Char
  /-- `strings.EqualFold`. -/
  equalFold : Rrc.Text → Rrc.Text → Bool
  /-- `strconv.Quote`, as the verb `%q` prints a text. -/
  quote : Rrc.Text → Rrc.Text
  /-- `strconv.Unquote`. -/
  unquote : Rrc.Text → Option Rrc.Text
  /-- The number that `strconv.ParseFloat` gives, with an error or without. -/
  parseFloat : Rrc.Text → Float
  /-- The number that `strconv.ParseUint` gives, with an error or without. -/
  parseUint : Rrc.Text → UInt64
  expandEnv : Rrc.Text → Rrc.Text
  userHomeDir : Option Rrc.Text
  /-- `filepath.Join`. -/
  join : Rrc.Text → Rrc.Text → Rrc.Text
  defaultHome : Rrc.Text

/-- A Go string in a message. -/
def str (text : Rrc.Text) : String := String.ofList text

def Library.toLower (lib : Library) (text : Rrc.Text) : Rrc.Text := text.map lib.unicode.toLower

abbrev ID := { hash : Bytes // hash.length = identityLength }

def idFrom (b : Bytes) : Option ID := if valid : b.length = identityLength then some ⟨b, valid⟩ else none

@[simp] theorem idFrom_val (id : ID) : idFrom id.1 = some id := dif_pos id.2

namespace ID

/-- `ID` without a value. -/
def zero : ID := ⟨List.replicate identityLength 0, List.length_replicate⟩

def hex (id : ID) : Rrc.Text := (encodeHex id.1).map fun b => Char.ofNat b.toNat

/-- `Prefix`. -/
def hexPrefix (id : ID) (n : Nat) : Rrc.Text := if n = 0 ∨ id.hex.length ≤ n then id.hex else id.hex.take n

end ID

section
variable (lib : Library)

/-- A hash in lower case without blanks around it and without `0x`. -/
def bareHash (text : Rrc.Text) : Rrc.Text :=
  let s := lib.unicode.trimSpace (lib.toLower text)
  if ['0', 'x'] <+: s then s.drop 2 else s

def parseIdentityHash (text : Rrc.Text) : Except String Bytes :=
  let s := (bareHash lib text).filter fun r => r ≠ ' ' ∧ r ≠ '\t'
  match decodeHex (utf8 s) with
  | none => .error ("invalid identity hash " ++ str (lib.quote text))
  | some b => if b.length < 4 then .error ("identity hash too short: " ++ str (lib.quote text)) else .ok b

def parseFullID (text : Rrc.Text) : Except String ID := do
  let b ← parseIdentityHash lib text
  match idFrom b with
  | some id => return id
  | none => throw ("identity hash must be " ++ toString identityLength ++ " bytes")

/-- A character of `hasHexPrefix`. -/
def isLowerHex (r : Char) : Bool := ('0' ≤ r ∧ r ≤ '9') ∨ ('a' ≤ r ∧ r ≤ 'f')

def hasHexPrefix (token : Rrc.Text) : Option Bytes :=
  let s := bareHash lib token
  if byteLength s < 6 ∨ ¬ s.all isLowerHex then none else decodeHex (utf8 s)

end

end ReticulumProtocols.Gorrcd
