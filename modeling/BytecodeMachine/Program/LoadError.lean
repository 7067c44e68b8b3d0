import BytecodeMachine.Files.Disk
import BytecodeMachine.Program.Builder
import BytecodeMachine.Program.Validate

/-!
Why a program cannot be loaded from a listing or an image.
-/
namespace BytecodeMachine

/-- What is wrong with one entry of a listing. -/
inductive EntryError where
  | empty
  | unknownOpcode (name : Text)
  | requires (op : Opcode) (what : String)
  | charLength (s : Text)
  | literalCount (n : Nat)
deriving DecidableEq

def EntryError.message : EntryError → Text
  | empty => "entry has no op, label or function"
  | unknownOpcode name => "unknown opcode " ++ Text.quote name
  | requires op what => op.mnemonic ++ " requires " ++ Text.ofString what
  | charLength s => "char literal " ++ Text.quote s ++ " must be a single character"
  | literalCount n => "PUSH_CONST requires exactly one literal, got " ++ Text.ofNat n

inductive LoadError where
  /-- The listing is no well-formed document. -/
  | malformed (name : Text)
  /-- The document does not have the shape of a listing. -/
  | misshapen (name : Text)
  | entry (name : Text) (i : Nat) (e : EntryError)
  | build (name : Text) (e : BuildError)
  | listing (name : Text) (d : Defect)
  | tooShort (size : Nat)
  | magic (bytes : Text)
  | version (n : Nat)
  /-- The body of the image does not encode a program. -/
  | body
  | image (d : Defect)
  | unreadable (path : Text) (e : FileError)
deriving DecidableEq

def LoadError.message : LoadError → Text
  | malformed name => "bytecode: cannot parse " ++ name ++ ": malformed document"
  | misshapen name => "bytecode: cannot parse " ++ name ++ ": unexpected structure"
  | entry name i e => "bytecode: " ++ name ++ ": entry " ++ Text.ofNat i ++ ": " ++ e.message
  | build name e => e.message ++ " (in " ++ name ++ ")"
  | listing name d => "bytecode: " ++ name ++ ": " ++ d.message
  | tooShort size => "bytecode: image too short (" ++ Text.ofNat size ++ " bytes)"
  | magic bytes => "bytecode: invalid magic " ++ Text.quote bytes
  | version n => "bytecode: unsupported image version " ++ Text.ofNat n ++ " (expected 1)"
  | body => "bytecode: unmarshal program: malformed body"
  | image d => "bytecode: invalid program: " ++ d.message
  | unreadable path e => "bytecode: cannot read " ++ path ++ ": " ++ e.message

end BytecodeMachine
