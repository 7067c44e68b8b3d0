import BytecodeMachine.Image.Decode
import BytecodeMachine.Image.Encode
import BytecodeMachine.Program.LoadError

/-!
Program images: four bytes that mark them, a version of two bytes, the lower first, and the program
as a data item.
-/
namespace BytecodeMachine.Image

def mark : Text := "CFGB"

def imageVersion : Nat := 1

def isImage (t : Text) : Bool := t.take 4 = mark

def littleEndian (n : Nat) : Text := [(n % 256).toUInt8, (n / 256 % 256).toUInt8]

def encode (p : Program) : Text := mark ++ littleEndian imageVersion ++ (ofProgram p).encode

/-- The version that the bytes after the mark give. -/
def versionOf (t : Text) : Nat :=
  match t with
  | a :: b :: _ => a.toNat + 256 * b.toNat
  | _ => 0

/-- Reads an image and checks the program in it. -/
def decode (t : Text) : Except LoadError Program :=
  if t.length < 6 then .error (.tooShort t.length)
  else if !isImage t then .error (.magic (t.take 4))
  else if versionOf (t.drop 4) ≠ imageVersion then .error (.version (versionOf (t.drop 4)))
  else match (Item.parse (t.drop 6)).bind program? with
    | none => .error .body
    | some p =>
      match p.defect? with
      | some d => .error (.image d)
      | none => .ok p

end BytecodeMachine.Image
