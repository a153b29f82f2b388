/-!
# Reading UTF-8

`Utf8.pieces` cuts a byte sequence into well-formed characters and maximal ill-formed stretches.
Both readers are made from it: `Utf8.decode` refuses the first stretch that is not a character and
says where it starts, `Utf8.decodeLossy` puts `U+FFFD` in its place.

A stretch ends where the next byte can no longer continue a character, so it has one to three
bytes; only the last stretch of the input can be cut off in the middle of a character.
-/

namespace LoxLang.Text.Utf8

/-- A stretch of bytes at the front of a sequence. -/
inductive Piece where
  | char (c : Char)
  /-- These many bytes begin no character. -/
  | invalid (length : Nat)
  /-- These many bytes begin a character that the end of the input cuts off. -/
  | cutOff (length : Nat)
  deriving DecidableEq, Repr

/-- How many bytes the stretch holds. -/
def Piece.size : Piece → Nat
  | .char c => c.utf8Size
  | .invalid n => n
  | .cutOff n => n

/-- What a first byte outside ASCII promises: the number of bytes to follow, the bits it carries
itself, and the range of the second byte.  The ranges leave out overlong forms, surrogates and
numbers beyond `U+10FFFF`. -/
def promise (b : Nat) : Option (Nat × Nat × Nat × Nat) :=
  if b < 0xC2 then none
  else if b < 0xE0 then some (1, b - 0xC0, 0x80, 0xBF)
  else if b < 0xF0 then
    some (2, b - 0xE0, if b = 0xE0 then 0xA0 else 0x80, if b = 0xED then 0x9F else 0xBF)
  else if b < 0xF5 then
    some (3, b - 0xF0, if b = 0xF0 then 0x90 else 0x80, if b = 0xF4 then 0x8F else 0xBF)
  else none

/-- Reads the `left` bytes that continue a character of which `seen` bytes are read; the next one
lies between `low` and `high`, all later ones between `0x80` and `0xBF`. -/
def continue? : (left seen code low high : Nat) → List UInt8 → Piece
  | 0, _, code, _, _, _ => .char (Char.ofNat code)
  | _ + 1, seen, _, _, _, [] => .cutOff seen
  | left + 1, seen, code, low, high, b :: rest =>
    if low ≤ b.toNat && b.toNat ≤ high then
      continue? left (seen + 1) (code * 64 + (b.toNat - 0x80)) 0x80 0xBF rest
    else .invalid seen

/-- The stretch that starts with byte `b`. -/
def piece (b : UInt8) (rest : List UInt8) : Piece :=
  if b.toNat < 0x80 then .char (Char.ofNat b.toNat)
  else match promise b.toNat with
    | none => .invalid 1
    | some (left, code, low, high) => continue? left 1 code low high rest

/-- All stretches in order, after `skip` bytes that belong to a stretch already given. -/
def piecesFrom : (skip : Nat) → List UInt8 → List Piece
  | _, [] => []
  | skip + 1, _ :: rest => piecesFrom skip rest
  | 0, b :: rest =>
    let p := piece b rest
    p :: piecesFrom (p.size - 1) rest

/-- Skipping is dropping. -/
theorem piecesFrom_skip (skip : Nat) (bytes : List UInt8) :
    piecesFrom skip bytes = piecesFrom 0 (bytes.drop skip) := by
  induction skip generalizing bytes with
  | zero => rfl
  | succ skip ih =>
    cases bytes with
    | nil => simp [piecesFrom]
    | cons b bytes => rw [piecesFrom, List.drop_succ_cons, ih]

/-- All stretches of a byte sequence in order. -/
def pieces (bytes : List UInt8) : List Piece := piecesFrom 0 bytes

/-- Why a byte sequence is not UTF-8, with the offset of the first stretch that is no character. -/
inductive Malformed where
  | invalid (length index : Nat)
  | incomplete (index : Nat)
  deriving DecidableEq, Repr

/-- The wording of the refusal. -/
def Malformed.message : Malformed → String
  | .invalid length index => s!"invalid utf-8 sequence of {length} bytes from index {index}"
  | .incomplete index => s!"incomplete utf-8 byte sequence from index {index}"

/-- Collects characters until the first other stretch. -/
def collect (index : Nat) (chars : List Char) : List Piece → Except Malformed (List Char)
  | [] => .ok chars.reverse
  | .char c :: rest => collect (index + c.utf8Size) (c :: chars) rest
  | .invalid length :: _ => .error (.invalid length index)
  | .cutOff _ :: _ => .error (.incomplete index)

/-- The text that a byte sequence encodes, or where it stops being UTF-8. -/
def decode (bytes : ByteArray) : Except Malformed String :=
  (collect 0 [] (pieces bytes.toList)).map String.ofList

/-- The text of a byte sequence, with `U+FFFD` for every stretch that is no character. -/
def decodeLossy (bytes : ByteArray) : String :=
  String.ofList <| (pieces bytes.toList).map fun
    | .char c => c
    | _ => '\uFFFD'

end LoxLang.Text.Utf8
