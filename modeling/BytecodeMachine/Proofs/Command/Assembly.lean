import BytecodeMachine.Command.Basic
import BytecodeMachine.Proofs.Files.Disk
import BytecodeMachine.Proofs.Image.RoundTrip

/-!
Assembled programs. What a command writes instead of running a program is read back as that program,
and a command that is given it does what it does for a listing of the program.
-/
namespace BytecodeMachine.Command

variable {d : Disk} {r : Request} {p : Program} {path : Text} {result : Result}

/-- A request to write the image of a program into a file that is no device. -/
structure Request.Assembles (r : Request) (d : Disk) (p : Program) : Prop where
  disasm : r.disasm = false
  output : r.output ≠ []
  loads : ∀ s, settings d r = .ok s →
    Program.load d (if r.program.isEmpty then s.entryPath else r.program) = .ok p
  file : ∀ id, d.find r.output = .ok id → d.node id ≠ .nullDevice

/-- An image that is written without a failure is in its file. -/
theorem writeFile_of_writeImage (h : (writeImage d path p).exit = .ok) :
    d.writeFile path (Image.encode p) = .ok (writeImage d path p).disk := by
  unfold writeImage at h ⊢
  unfold Disk.writeFile
  cases hcreate : d.create path with
  | error e =>
    rw [hcreate] at h
    cases h
  | ok made =>
    obtain ⟨id, there⟩ := made
    rw [hcreate] at h
    dsimp only at h ⊢
    cases hwrite : (there.truncate id).write id 0 (Image.encode p) with
    | error e =>
      rw [hwrite] at h
      cases h
    | ok after => rfl

theorem encode_ne_nil (p : Program) : Image.encode p ≠ [] := by
  intro h
  have hmark := Image.isImage_encode p
  rw [h] at hmark
  exact absurd hmark (by decide)

/-- A request that assembles a program leaves its image on the disk. -/
theorem read_of_perform? {limit : ℕ} (closed : d.Closed) (assembles : r.Assembles d p)
    (h : perform? limit d r = some result) (ok : result.exit = .ok) :
    result.disk.read r.output = .ok (Image.encode p) := by
  -- Everything else that the request could come to before it writes the image is a failure.
  have hwritten : result = writeImage d r.output p := by
    have hwrites : (!r.output.isEmpty) = true := by simpa using assembles.output
    unfold perform? at h
    split at h
    · cases h
      cases ok
    · next s hs =>
      have hload := assembles.loads s hs
      dsimp only at h
      generalize (if r.program.isEmpty then s.entryPath else r.program) = path at h hload
      have hout : (if r.output.isEmpty && r.program.isEmpty then s.imagePath else r.output) =
          r.output := if_neg (by simpa using fun h => absurd h assembles.output)
      split at h
      · cases h
        cases ok
      · rw [hload, hout] at h
        dsimp only at h
        rw [assembles.disasm, if_neg (by decide), if_pos hwrites] at h
        exact (Option.some.inj h).symm
  rw [hwritten] at ok ⊢
  exact Disk.read_writeFile closed (encode_ne_nil p) assembles.file (writeFile_of_writeImage ok)

/-- A command does the same for two files that hold one program. -/
theorem perform?_congr {limit : ℕ} {a b : Text} (ha : a ≠ []) (hb : b ≠ [])
    (h : Program.load d a = Program.load d b) (q : Request) :
    perform? limit d { q with program := a } = perform? limit d { q with program := b } := by
  have hempty {t : Text} (ht : t ≠ []) : t.isEmpty = false := by simpa using ht
  have hsettings : settings d { q with program := a } = settings d { q with program := b } := rfl
  unfold perform?
  rw [hsettings]
  simp only [hempty ha, hempty hb, Bool.false_eq_true, if_false, Bool.and_false, h]

/-- Every program that a machine takes and an image can hold comes back from its image: constants that
are no number with one pattern, and all else as it was. A command that assembles the program leaves an
image behind that commands take for a listing of it. -/
theorem assembled_like_listing {p : Program} (valid : p.defect? = none) (storable : p.Storable) :
    Image.decode (Image.encode p) = .ok p.canonical ∧
      ((∀ i ∈ p.code.toList, ∀ l ∈ i.operand.lit, l.float.isNaN = false) → p.canonical = p) ∧
      ∀ {d : Disk} {r : Request} {limit : ℕ} {result : Result}, d.Closed → r.Assembles d p →
        perform? limit d r = some result → result.exit = .ok →
          Program.load result.disk r.output = .ok p.canonical ∧
          ∀ (steps : ℕ) (q : Request) (listing : Text), listing ≠ [] →
            Program.load result.disk listing = .ok p.canonical →
              perform? steps result.disk { q with program := r.output } =
                perform? steps result.disk { q with program := listing } := by
  have hdecode := Image.decode_encode_eq_canonical valid storable
  refine ⟨hdecode, Image.canonical_eq_self, fun {d r limit result} closed assembles h ok => ?_⟩
  have hload : Program.load result.disk r.output = .ok p.canonical := by
    rw [Program.load, read_of_perform? closed assembles h ok]
    dsimp only
    rw [Program.ofBytes, if_pos (Image.isImage_encode p), hdecode]
  refine ⟨hload, fun steps q listing hlisting hsame => ?_⟩
  exact perform?_congr assembles.output hlisting (hload.trans hsame.symm) q

/-- A program with a function, classes, enums and constants of several kinds. -/
def shapes : Program where
  file := "shapes.cfgs"
  code? := some #[
    { op := 0x10, operand := { lit := some { kind := 5, float := ⟨0x3FF8000000000000⟩ } }, line := 1 },
    { op := 0x10, operand := { lit := some { kind := 7, str := "area" } }, col := -1, file := "lib" },
    { op := 0x10, operand := { lit := some { kind := 2, int := -9223372036854775808 } } },
    { op := 0x44 }]
  functions := .ofList [("Shape.area", { name := "Shape.area", address := 3, params := ["this"] })]
  classes := .ofList [
    ("Shape", { name := "Shape", fields := ["x"], methods := .ofList [("area", "Shape.area")] }),
    ("Circle", { name := "Circle", base := "Shape", statics := ["count"] })]
  enums := .ofList [("Color", some ["Red", "Green"]), ("Empty", none)]

/-- A disk with the image of a program. -/
def shelf (p : Program) : Disk := (Disk.new "/work").place "/work/in" (Image.encode p)

theorem assembled_like_listing_shapes :
    shapes.defect? = none ∧ Image.decode (Image.encode shapes) = .ok shapes ∧
      ∃ result, perform? 0 (shelf shapes) { output := "out", program := "in" } = some result ∧
        Program.load result.disk "out" = .ok shapes ∧
        (Program.load result.disk "in" = .ok shapes) ∧
        ∀ (steps : ℕ) (q : Request), perform? steps result.disk { q with program := "out" } =
          perform? steps result.disk { q with program := "in" } := by
  have hvalid : shapes.defect? = none := by decide +kernel
  have hstorable : shapes.Storable := by decide +kernel
  obtain ⟨hdecode, hself, hrun⟩ := assembled_like_listing hvalid hstorable
  have hsame : shapes.canonical = shapes := hself (by decide +kernel)
  rw [hsame] at hdecode hrun
  have hload {d : Disk} (h : d.read "in" = .ok (Image.encode shapes)) :
      Program.load d "in" = .ok shapes := by
    rw [Program.load, h]
    dsimp only
    rw [Program.ofBytes, if_pos (Image.isImage_encode shapes), hdecode]
  have hsettings : settings (shelf shapes) { output := "out", program := "in" } =
      .ok { dir := "/work" } := rfl
  have hperform : perform? 0 (shelf shapes) { output := "out", program := "in" } =
      some (writeImage (shelf shapes) "out" shapes) := by
    have hin : Program.load (shelf shapes) "in" = .ok shapes := hload rfl
    rw [perform?, hsettings]
    dsimp only
    rw [if_neg (by decide), if_neg (by decide), hin]
    rfl
  -- The request copies an image, so its program is loaded from the image of the program itself.
  have hassembles : Request.Assembles { output := "out", program := "in" } (shelf shapes) shapes :=
    ⟨rfl, by decide, fun s _ => hload rfl, fun id h => by cases h⟩
  obtain ⟨hout, hall⟩ := hrun (Disk.closed_place (Disk.closed_new "/work") "/work/in" _) hassembles
    hperform rfl
  have hin : Program.load (writeImage (shelf shapes) "out" shapes).disk "in" = .ok shapes :=
    hload rfl
  exact ⟨hvalid, hdecode, _, hperform, hout, hin, fun steps q => hall steps q "in" (by decide) hin⟩

/-- A program that pushes a floating-point number. -/
def pushing (x : Binary64) : Program where
  code? := some #[
    { op := 0x10, operand := { lit := some { kind := 5, float := x } } }, { op := 0x44 }]

/-- A program that pushes a string that is no valid text. -/
def garbled : Program where
  code? := some #[
    { op := 0x10, operand := { lit := some { kind := 7, str := [0xFF] } } }, { op := 0x44 }]

/-- A program with one instruction more than a reader takes. -/
def oversized : Program where
  code? := some (Array.replicate 131073 { op := 0x44 })

/-- Of four valid programs, two come back with another constant, and two are not read at all. -/
theorem images_lose_programs :
    ((pushing ⟨0x7FF8000000000001⟩).defect? = none ∧
        Image.decode (Image.encode (pushing ⟨0x7FF8000000000001⟩)) =
          .ok (pushing Item.canonicalNaN) ∧
        pushing Item.canonicalNaN ≠ pushing ⟨0x7FF8000000000001⟩) ∧
      ((pushing ⟨0x8000000000000000⟩).defect? = none ∧
        Image.decode (Image.encode (pushing ⟨0x8000000000000000⟩)) = .ok (pushing ⟨0⟩) ∧
        pushing ⟨0⟩ ≠ pushing ⟨0x8000000000000000⟩) ∧
      (garbled.defect? = none ∧ Image.decode (Image.encode garbled) = .error .body) ∧
      (oversized.defect? = none ∧ Image.decode (Image.encode oversized) = .error .body) := by
  have hpushing (x : Binary64) : (pushing x).defect? = none := rfl
  -- Both zeros are left out of an image, so minus zero has the image of zero.
  have hzero : Image.encode (pushing ⟨0x8000000000000000⟩) = Image.encode (pushing ⟨0⟩) := rfl
  have hgarbled : (Item.parse (Image.ofProgram garbled).encode).bind Image.program? = none := by
    rw [← Option.isNone_iff_eq_none]
    decide +kernel
  have hsize : oversized.code.size = 131073 := Array.size_replicate
  have hlong : oversized.defect? = none := by
    have hcode : oversized.codeDefect? = none := by
      rw [Program.codeDefect?, List.findSome?_eq_none_iff]
      intro e he
      have hmem : e.1 ∈ oversized.code.toList := (List.mem_zipIdx' he).2 ▸ List.getElem_mem _
      have hhalt : e.1 = { op := 0x44 } := Array.eq_of_mem_replicate (Array.mem_toList_iff.1 hmem)
      rw [hhalt, hsize]
      rfl
    rw [Program.defect?, hcode]
    rfl
  refine ⟨⟨hpushing _, ?_, by decide +kernel⟩, ⟨hpushing _, ?_, by decide +kernel⟩,
    ⟨by decide +kernel, ?_⟩, hlong, ?_⟩
  · have hstorable : (pushing ⟨0x7FF8000000000001⟩).Storable := by decide +kernel
    have hcanonical : (pushing ⟨0x7FF8000000000001⟩).canonical = pushing Item.canonicalNaN := by
      decide +kernel
    rw [← hcanonical]
    exact Image.decode_encode_eq_canonical (hpushing _) hstorable
  · have hstorable : (pushing ⟨0⟩).Storable := by decide +kernel
    have hcanonical : (pushing ⟨0⟩).canonical = pushing ⟨0⟩ := by decide +kernel
    rw [hzero, Image.decode_encode_eq_canonical (hpushing _) hstorable, hcanonical]
  · rw [Image.decode_encode_eq, hgarbled]
  · refine Image.decode_encode_of_long ?_ ?_ (by decide)
    · rw [hsize]
      decide
    · rw [hsize]
      decide

end BytecodeMachine.Command
