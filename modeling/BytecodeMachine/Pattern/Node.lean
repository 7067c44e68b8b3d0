import BytecodeMachine.Pattern.CharClass

/-!
The syntax of patterns.
-/
namespace BytecodeMachine.Pattern

/-- Conditions on a place that take no characters. -/
inductive Anchor where
  | beginning
  | lineStart
  | lineEnd
  /-- The end, or before a line feed at the end. -/
  | lastLineEnd
  | ending
  /-- Where the search began. -/
  | searchStart
  | boundary
  | noBoundary
deriving DecidableEq

/-- A pattern. Parts that take characters know whether they compare without regard to case and
whether they read backward, as they do behind a place. -/
inductive Node where
  | empty
  | char (code : Nat) (fold back : Bool)
  | set (s : CharClass) (fold back : Bool)
  /-- The text that a group has taken last. -/
  | reference (group : Nat) (fold back : Bool)
  | anchor (a : Anchor)
  | sequence (parts : List Node)
  | choice (options : List Node)
  /-- A repetition with its bounds; a lazy one prefers to stop. -/
  | loop (lazy : Bool) (min : Nat) (max : Option Nat) (body : Node)
  /-- A group that remembers what it takes and may undo what another remembers. -/
  | capture (group : Option Nat) (undo : Option Nat) (body : Node)
  /-- What has to follow, or must not follow, without being taken. -/
  | look (negated : Bool) (body : Node)
  /-- A part that is not tried in another way once it has matched. -/
  | atomic (body : Node)
  | ifCaptured (group : Nat) (yes no : Node)
  | ifMatches (condition yes no : Node)
deriving Inhabited

/-- Why a pattern cannot be read. -/
inductive PatternError where
  | unterminatedComment
  | repeatCount
  | groupRange
  | unexpectedParen
  | missingParen
  | missingBrace
  | nestedRepeat
  | missingRepeatArgument
  | tooManyAlternates
  | grouping (text : Text)
  | groupName
  | groupZero
  | undefinedGroup (n : Nat)
  | undefinedName (name : Text)
  | conditionCaptures
  | conditionComment
  | malformedCondition (n : Nat)
  | undefinedCondition (n : Nat)
  | endEscape
  | incompleteProperty
  | unknownProperty (name : Text)
  | unknownEscape (c : Char)
  | missingControl
  | unknownControl
  | tooFewHex
  | hexRange
  | malformedReference
  | classInRange (c : Char)
  | unterminatedSet
  | subtractionNotLast
  | reversedRange (a b : Nat)
deriving DecidableEq

def PatternError.message : PatternError → Text
  | unterminatedComment => "unterminated comment"
  | repeatCount => "invalid repeat count"
  | groupRange => "capture group number out of range"
  | unexpectedParen => "unexpected )"
  | missingParen => "missing closing )"
  | missingBrace => "missing closing \x7d"
  | nestedRepeat => "invalid nested repetition operator"
  | missingRepeatArgument => "missing argument to repetition operator"
  | tooManyAlternates => "too many | in (?()|)"
  | grouping text => "unrecognized grouping construct: (" ++ text
  | groupName =>
    "invalid group name: group names must begin with a word character and have a matching terminator"
  | groupZero => "capture number cannot be zero"
  | undefinedGroup n => "reference to undefined group number " ++ Text.ofNat n
  | undefinedName name => "reference to undefined group name " ++ name
  | conditionCaptures => "alternation conditions do not capture and cannot be named"
  | conditionComment => "alternation conditions cannot be comments"
  | malformedCondition n => "(?(" ++ Text.ofNat n ++ ") ) malformed"
  | undefinedCondition n => "(?(" ++ Text.ofNat n ++ ") ) reference to undefined group"
  | endEscape => "illegal \\ at end of pattern"
  | incompleteProperty => "incomplete \\p\x7bX\x7d character escape"
  | unknownProperty name => "unknown unicode category, script, or property '" ++ name ++ "'"
  | unknownEscape c => "unrecognized escape sequence \\" ++ Text.ofChar c
  | missingControl => "missing control character"
  | unknownControl => "unrecognized control character"
  | tooFewHex => "insufficient hexadecimal digits"
  | hexRange => "hex values may not be larger than 0x10FFFF"
  | malformedReference => "malformed \\k<...> named back reference"
  | classInRange c => "cannot include class \\" ++ Text.ofNat c.toNat ++ " in character range"
  | unterminatedSet => "unterminated [] set"
  | subtractionNotLast => "a subtraction must be the last element in a character class"
  | reversedRange a b =>
    "[" ++ Text.ofCodePoint a ++ "-" ++ Text.ofCodePoint b ++ "] range in reverse order"

/-- The report of an error in a pattern. -/
def PatternError.report (e : PatternError) (source : Text) : Text :=
  "error parsing regexp: " ++ e.message ++ " in `" ++ source ++ "`"

end BytecodeMachine.Pattern
