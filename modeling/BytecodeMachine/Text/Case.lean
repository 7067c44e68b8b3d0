import BytecodeMachine.Text.CaseTable
import BytecodeMachine.Text.Utf8

/-!
Upper and lower case for whole texts. A character may have a form of several characters; a capital
sigma at the end of a word has a form of its own.
-/
namespace BytecodeMachine.Text

/-- Characters that change by adding a constant: every `stride`-th of `count` from `start`. -/
structure CaseRun where
  start : Nat
  count : Nat
  stride : Nat
  shift : Int
deriving Inhabited

def readNat (s : String) : Nat := s.toList.foldl (fun n c => 10 * n + (c.toNat - 48)) 0

def readShift (s : String) : Int :=
  match s.toList with
  | '-' :: digits => -(digits.foldl (fun n c => 10 * n + (c.toNat - 48)) 0 : Nat)
  | digits => (digits.foldl (fun n c => 10 * n + (c.toNat - 48)) 0 : Nat)

def readWords (lines : List String) : List String := lines.flatMap fun l => l.splitOn " "

def readCaseRuns (lines : List String) : Array CaseRun :=
  ((readWords lines).filterMap fun word =>
    match word.splitOn ":" with
    | [a, b, c, d] => some ⟨readNat a, readNat b, readNat c, readShift d⟩
    | _ => none).toArray

def readSpecials (lines : List String) : List (Nat × List Char) :=
  (readWords lines).filterMap fun word =>
    match word.splitOn ":" with
    | [a, b] => some (readNat a, (b.splitOn "+").map fun n => Char.ofNat (readNat n))
    | _ => none

def readRanges (lines : List String) : Array (Nat × Nat) :=
  ((readWords lines).filterMap fun word =>
    match word.splitOn "-" with
    | [a] => some (readNat a, readNat a)
    | [a, b] => some (readNat a, readNat b)
    | _ => none).toArray

def inRanges (ranges : Array (Nat × Nat)) (n : Nat) : Bool :=
  ranges.any fun r => r.1 ≤ n && n ≤ r.2

def CaseRun.covers (r : CaseRun) (n : Nat) : Bool :=
  r.start ≤ n && n < r.start + r.count * r.stride && (n - r.start) % r.stride = 0

/-- The forms of one character. -/
def mapCase (runs : Array CaseRun) (specials : List (Nat × List Char)) (c : Char) : List Char :=
  match runs.find? (·.covers c.toNat) with
  | some r => [Char.ofNat (c.toNat + r.shift).toNat]
  | none => (specials.lookup c.toNat).getD [c]

def upperTable : Array CaseRun := readCaseRuns upperRuns
def upperSpecials : List (Nat × List Char) := readSpecials upperSpecial
def lowerTable : Array CaseRun := readCaseRuns lowerRuns
def lowerSpecials : List (Nat × List Char) := readSpecials lowerSpecial
def casedTable : Array (Nat × Nat) := readRanges casedRanges
def caseIgnorableTable : Array (Nat × Nat) := readRanges caseIgnorableRanges

def upperChar (c : Char) : List Char := mapCase upperTable upperSpecials c

def lowerChar (c : Char) : List Char := mapCase lowerTable lowerSpecials c

def isCased : Rune → Bool
  | .scalar c => inRanges casedTable c.toNat
  | .stray _ => false

def isCaseIgnorable : Rune → Bool
  | .scalar c => inRanges caseIgnorableTable c.toNat
  | .stray _ => false

def capitalSigma : Rune := .scalar 'Σ'

/-- How many characters after a capital sigma are passed over at most. -/
def sigmaReach : Nat := 30

/-- Whether a capital sigma before `rest` ends its word. -/
def endsWord (rest : List Rune) : Bool :=
  match rest.dropWhile isCaseIgnorable with
  | [] => true
  | r :: _ => sigmaReach < (rest.takeWhile isCaseIgnorable).length || !isCased r

def upperRune : Rune → Text
  | .scalar c => ofChars (upperChar c)
  | .stray b => [b]

def lowerRune : Rune → Text
  | .scalar c => ofChars (lowerChar c)
  | .stray b => [b]

/-- Lower case from left to right; `inWord` says whether a cased character came before. -/
def lowerRunes : (inWord : Bool) → List Rune → Text
  | _, [] => []
  | false, r :: rs =>
    if isCased r then lowerRune r ++ lowerRunes true rs else r.bytes ++ lowerRunes false rs
  | true, r :: rs =>
    if !isCased r && !isCaseIgnorable r then r.bytes ++ lowerRunes false rs
    else if r = capitalSigma then
      (if endsWord rs then ofChar 'ς' else ofChar 'σ') ++ lowerRunes true rs
    else lowerRune r ++ lowerRunes true rs

def upper (s : Text) : Text := s.runes.flatMap upperRune

def lower (s : Text) : Text := lowerRunes false s.runes

end BytecodeMachine.Text
