import BytecodeMachine.Number.IntText
import BytecodeMachine.Yaml.Node

/-!
What a scalar stands for. A plain scalar without a tag is a number, a truth value or null where it
is spelled like one, and a text otherwise.
-/
namespace BytecodeMachine.Yaml

inductive Scalar where
  | null
  | bool (b : Bool)
  | int (n : Int)
  | float (x : Binary64)
  | text (s : Text)
deriving DecidableEq

namespace Scalar

/-- The scalars that are spelled as words. -/
def words : List (String × Scalar) :=
  [("", null), ("~", null), ("null", null), ("Null", null), ("NULL", null),
   ("true", bool true), ("True", bool true), ("TRUE", bool true),
   ("false", bool false), ("False", bool false), ("FALSE", bool false),
   (".nan", float .nan), (".NaN", float .nan), (".NAN", float .nan),
   (".inf", float ⟨0x7FF0000000000000⟩), (".Inf", float ⟨0x7FF0000000000000⟩),
   (".INF", float ⟨0x7FF0000000000000⟩), ("+.inf", float ⟨0x7FF0000000000000⟩),
   ("+.Inf", float ⟨0x7FF0000000000000⟩), ("+.INF", float ⟨0x7FF0000000000000⟩),
   ("-.inf", float ⟨0xFFF0000000000000⟩), ("-.Inf", float ⟨0xFFF0000000000000⟩),
   ("-.INF", float ⟨0xFFF0000000000000⟩)]

def ofWord? (s : Text) : Option Scalar :=
  (words.find? fun w => Text.ofString w.1 = s).map (·.2)

/-- Whole numbers in the bases two, eight, ten and sixteen. Behind the marks of the bases two and
eight the sign may also stand, and without a sign a number may use all 64 bits. -/
def readInt? (s : Text) : Option Int :=
  ((IntText.read s).toOption).or <| ((IntText.readUnsigned s).toOption.map Int.ofNat).or <|
    match s with
    | 48 :: 98 :: s => (IntText.readIn 2 s).toOption
    | 48 :: 111 :: s => (IntText.readIn 8 s).toOption
    | _ => none

/-- An exponent: a mark, an optional sign and digits. -/
def isExponent : Text → Bool
  | [] => true
  | b :: s => Text.lowerByte b = 101 && (Text.toNat? (IntText.splitSign s).2).isSome

/-- Decimal numbers with an optional sign, point and exponent. -/
def isDecimal (s : Text) : Bool :=
  let s := (IntText.splitSign s).2
  let whole := s.takeWhile Text.isDigit
  match s.drop whole.length with
  | 46 :: s =>
    let part := s.takeWhile Text.isDigit
    !(whole.isEmpty && part.isEmpty) && isExponent (s.drop part.length)
  | s => !whole.isEmpty && isExponent s

def readFloat? (s : Text) : Option Binary64 :=
  if isDecimal s then
    match FloatText.read s with
    | .ok x => some x
    | .error _ => none
  else none

/-- What an untagged plain scalar stands for. Underscores in numbers do not count. -/
def ofPlain (s : Text) : Scalar :=
  match ofWord? s with
  | some w => w
  | none =>
    match s with
    | 46 :: _ => ((readFloat? s).map float).getD (text s)
    | b :: _ =>
      if Text.isDigit b || b = 43 || b = 45 then
        let bare := s.filter (· ≠ 95)
        (((readInt? bare).map int).or ((readFloat? bare).map float)).getD (text s)
      else text s
    | [] => text s

/-- The value of a character of the base-64 alphabet. -/
def sextet? (b : UInt8) : Option Nat :=
  if 65 ≤ b && b ≤ 90 then some (b.toNat - 65)
  else if 97 ≤ b && b ≤ 122 then some (b.toNat - 71)
  else if Text.isDigit b then some (b.toNat + 4)
  else if b = 43 then some 62
  else if b = 47 then some 63
  else none

/-- The bytes of groups of four base-64 characters; only the last group may be filled up. -/
def ofBase64? : Text → Option Text
  | [] => some []
  | [a, b, 61, 61] => do
    let n := (← sextet? a) * 64 + (← sextet? b)
    return [(n / 16).toUInt8]
  | [a, b, c, 61] => do
    let n := ((← sextet? a) * 64 + (← sextet? b)) * 64 + (← sextet? c)
    return [(n / 1024).toUInt8, (n / 4 % 256).toUInt8]
  | a :: b :: c :: d :: s => do
    let n := (((← sextet? a) * 64 + (← sextet? b)) * 64 + (← sextet? c)) * 64 + (← sextet? d)
    return (n / 65536).toUInt8 :: (n / 256 % 256).toUInt8 :: (n % 256).toUInt8 :: (← ofBase64? s)
  | _ => none

/-- The tags that scalars of a schema have. -/
inductive Kind where
  | str
  | binary
  | null
  | bool
  | int
  | float
deriving DecidableEq

def Kind.ofTag? (tag : Text) : Option Kind :=
  [("str", Kind.str), ("binary", .binary), ("null", .null), ("bool", .bool), ("int", .int),
    ("float", .float)].findSome? fun (name, kind) =>
      if tag = Text.ofString "tag:yaml.org,2002:" ++ Text.ofString name
          || tag = Text.ofString "!!" ++ Text.ofString name then some kind
      else none

/-- What a scalar with a tag stands for, provided that it is spelled as its tag demands. -/
def ofTagged? (kind : Kind) (s : Text) : Option Scalar :=
  match kind, ofPlain s with
  | .str, _ => some (text s)
  | .binary, _ => (ofBase64? (s.filter fun b => b ≠ 10 && b ≠ 13)).map text
  | .null, null => some null
  | .bool, bool b => some (bool b)
  | .int, int n => some (int n)
  | .float, int n => some (float (.ofInt n))
  | .float, float x => some (float x)
  | _, _ => none

/-- What the parts of a scalar node stand for; nothing where tag and text do not fit. -/
def ofNode? (tag : Option Text) (quoted : Bool) (s : Text) : Option Scalar :=
  match tag with
  | some tag => Kind.ofTag? tag >>= fun kind => ofTagged? kind s
  | none => some (if quoted then text s else ofPlain s)

end Scalar

end BytecodeMachine.Yaml
