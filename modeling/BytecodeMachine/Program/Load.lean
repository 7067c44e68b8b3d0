import BytecodeMachine.Image.Basic
import BytecodeMachine.Listing.Basic

/-!
Loading programs from files, which hold a listing or an image.
-/
namespace BytecodeMachine.Program

/-- The program in the bytes of a file. -/
def ofBytes (data name : Text) : Except LoadError Program :=
  if Image.isImage data then Image.decode data else Listing.read data name

/-- The program in a file. -/
def load (d : Disk) (path : Text) : Except LoadError Program :=
  match d.read path with
  | .error e => .error (.unreadable path e)
  | .ok data => ofBytes data path

end BytecodeMachine.Program
