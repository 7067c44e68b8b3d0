import BytecodeMachine.Number.Decimal
import BytecodeMachine.Text.Utf8

/-!
Runtime values. Containers, objects, exceptions and files are references into a store; functions and
bound methods carry a reference number of their own, by which they are told apart.
-/
namespace BytecodeMachine

/-- The variants of values, as a program sees them through `typeof`. -/
inductive Kind where
  | null | bool | int | int32 | float32 | float | decimal | string | char
  | array | dict | closure | builtin | intrinsic | boundIntrinsic | boundMethod | type
  | cls | object | static | enum | exception | file
deriving DecidableEq, Hashable, Repr, Inhabited

namespace Kind

/-- All kinds by increasing number. -/
def all : List Kind :=
  [null, bool, int, int32, float32, float, decimal, string, char, array, dict, closure, builtin,
    intrinsic, boundIntrinsic, boundMethod, type, cls, object, static, enum, exception, file]

def name : Kind → Text
  | null => "null"
  | bool => "bool"
  | int => "int"
  | int32 => "int32"
  | float32 => "float32"
  | float => "float"
  | decimal => "decimal"
  | string => "string"
  | char => "char"
  | array => "array"
  | dict => "dict"
  | closure => "function"
  | builtin => "builtin"
  | intrinsic => "intrinsic"
  | boundIntrinsic => "intrinsic"
  | boundMethod => "method"
  | type => "type"
  | cls => "class"
  | object => "object"
  | static => "static"
  | enum => "enum"
  | exception => "exception"
  | file => "file"

/-- Numbers, which take part in arithmetic with each other. -/
def isNumeric : Kind → Bool
  | int | int32 | float32 | float | decimal => true
  | _ => false

/-- The name of a kind number, known or not. -/
def nameOfNumber (n : Nat) : Text :=
  match all[n]? with
  | some k => k.name
  | none => "Kind(" ++ Text.ofNat n ++ ")"

def isNumericNumber (n : Nat) : Bool :=
  match all[n]? with
  | some k => k.isNumeric
  | none => false

end Kind

/-- The functions every program can call. -/
inductive StandardFunction where
  | len | typeOf | str | int | float | decimal | exception | classOf | openFile | uuid
  | sleep | readFileAsync
deriving DecidableEq, Hashable, Inhabited

/-- A function outside the program: a standard one, or one that the host has registered. -/
inductive Builtin where
  | standard (f : StandardFunction)
  | host (name : Text)
deriving DecidableEq, Hashable, Inhabited

/-- How many arguments a call takes. -/
structure Arity where
  least : Nat
  most : Option Nat
deriving DecidableEq

def Arity.exactly (n : Nat) : Arity := ⟨n, some n⟩

def Arity.accepts (a : Arity) (argc : Int) : Bool :=
  (a.least : Int) ≤ argc && match a.most with
    | some n => argc ≤ (n : Int)
    | none => true

namespace StandardFunction

def all : List StandardFunction :=
  [len, typeOf, str, int, float, decimal, exception, classOf, openFile, uuid, sleep, readFileAsync]

def name : StandardFunction → Text
  | len => "len"
  | typeOf => "typeof"
  | str => "str"
  | int => "int"
  | float => "float"
  | decimal => "decimal"
  | exception => "Exception"
  | classOf => "classOf"
  | openFile => "open"
  | uuid => "uuid"
  | sleep => "sleep"
  | readFileAsync => "readFileAsync"

def arity : StandardFunction → Arity
  | exception => ⟨2, some 3⟩
  | openFile => ⟨1, some 2⟩
  | uuid => .exactly 0
  | _ => .exactly 1

def ofName? (name : Text) : Option StandardFunction := all.find? fun f => f.name = name

end StandardFunction

/-- The methods of built-in values. -/
inductive Intrinsic where
  | arrayPush | arrayPop | arrayLen | arrayGet | arrayInsert | arrayRemoveAt | arrayContains
  | arrayIndexOf | arrayJoin | arraySlice | arrayMap | arrayFilter | arrayReduce | arrayReverse
  | dictGet | dictSet | dictHas | dictRemove | dictKeys | dictValues | dictLen
  | stringLen | stringUpper | stringLower | stringTrim | stringSplit | stringContains
  | stringStartsWith | stringEndsWith | stringReplace | stringMatches | stringReplaceRegex
  | stringSubstring | stringIndexOf
  | enumName | enumOrdinal
  | fileWrite | fileWriteLine | fileReadLine | fileReadAll | fileFlush | fileClose | fileIsOpen
  | filePath
deriving DecidableEq, Hashable, Inhabited

/-- What is known of a method without running it; the receiver is no argument. -/
structure IntrinsicInfo where
  kind : Kind
  name : String
  arity : Arity

namespace Intrinsic

def info : Intrinsic → IntrinsicInfo
  | arrayPush => ⟨.array, "push", ⟨1, none⟩⟩
  | arrayPop => ⟨.array, "pop", .exactly 0⟩
  | arrayLen => ⟨.array, "len", .exactly 0⟩
  | arrayGet => ⟨.array, "get", .exactly 1⟩
  | arrayInsert => ⟨.array, "insert", .exactly 2⟩
  | arrayRemoveAt => ⟨.array, "removeAt", .exactly 1⟩
  | arrayContains => ⟨.array, "contains", .exactly 1⟩
  | arrayIndexOf => ⟨.array, "indexOf", .exactly 1⟩
  | arrayJoin => ⟨.array, "join", ⟨0, some 1⟩⟩
  | arraySlice => ⟨.array, "slice", ⟨1, some 2⟩⟩
  | arrayMap => ⟨.array, "map", .exactly 1⟩
  | arrayFilter => ⟨.array, "filter", .exactly 1⟩
  | arrayReduce => ⟨.array, "reduce", ⟨1, some 2⟩⟩
  | arrayReverse => ⟨.array, "reverse", .exactly 0⟩
  | dictGet => ⟨.dict, "get", ⟨1, some 2⟩⟩
  | dictSet => ⟨.dict, "set", .exactly 2⟩
  | dictHas => ⟨.dict, "has", .exactly 1⟩
  | dictRemove => ⟨.dict, "remove", .exactly 1⟩
  | dictKeys => ⟨.dict, "keys", .exactly 0⟩
  | dictValues => ⟨.dict, "values", .exactly 0⟩
  | dictLen => ⟨.dict, "len", .exactly 0⟩
  | stringLen => ⟨.string, "len", .exactly 0⟩
  | stringUpper => ⟨.string, "upper", .exactly 0⟩
  | stringLower => ⟨.string, "lower", .exactly 0⟩
  | stringTrim => ⟨.string, "trim", .exactly 0⟩
  | stringSplit => ⟨.string, "split", .exactly 1⟩
  | stringContains => ⟨.string, "contains", .exactly 1⟩
  | stringStartsWith => ⟨.string, "startsWith", .exactly 1⟩
  | stringEndsWith => ⟨.string, "endsWith", .exactly 1⟩
  | stringReplace => ⟨.string, "replace", .exactly 2⟩
  | stringMatches => ⟨.string, "matches", .exactly 1⟩
  | stringReplaceRegex => ⟨.string, "replaceRegex", .exactly 2⟩
  | stringSubstring => ⟨.string, "substring", ⟨1, some 2⟩⟩
  | stringIndexOf => ⟨.string, "indexOf", .exactly 1⟩
  | enumName => ⟨.enum, "name", .exactly 0⟩
  | enumOrdinal => ⟨.enum, "ordinal", .exactly 0⟩
  | fileWrite => ⟨.file, "write", .exactly 1⟩
  | fileWriteLine => ⟨.file, "writeLine", .exactly 1⟩
  | fileReadLine => ⟨.file, "readLine", .exactly 0⟩
  | fileReadAll => ⟨.file, "readAll", .exactly 0⟩
  | fileFlush => ⟨.file, "flush", .exactly 0⟩
  | fileClose => ⟨.file, "close", .exactly 0⟩
  | fileIsOpen => ⟨.file, "isOpen", .exactly 0⟩
  | filePath => ⟨.file, "path", .exactly 0⟩

def all : List Intrinsic :=
  [arrayPush, arrayPop, arrayLen, arrayGet, arrayInsert, arrayRemoveAt, arrayContains,
    arrayIndexOf, arrayJoin, arraySlice, arrayMap, arrayFilter, arrayReduce, arrayReverse,
    dictGet, dictSet, dictHas, dictRemove, dictKeys, dictValues, dictLen,
    stringLen, stringUpper, stringLower, stringTrim, stringSplit, stringContains,
    stringStartsWith, stringEndsWith, stringReplace, stringMatches, stringReplaceRegex,
    stringSubstring, stringIndexOf, enumName, enumOrdinal,
    fileWrite, fileWriteLine, fileReadLine, fileReadAll, fileFlush, fileClose, fileIsOpen,
    filePath]

def kind (m : Intrinsic) : Kind := m.info.kind

def name (m : Intrinsic) : Text := Text.ofString m.info.name

/-- The method of a name for receivers of a kind. -/
def find? (kind : Kind) (name : Text) : Option Intrinsic :=
  all.find? fun m => m.kind = kind && m.name = name

/-- The arity where the receiver is passed as the first argument. -/
def unboundArity (m : Intrinsic) : Arity := ⟨m.info.arity.least + 1, m.info.arity.most.map (· + 1)⟩

end Intrinsic

/-- A function of the program with the scope it closes over. -/
structure Closure where
  ref : Nat
  name : Text
  entry : Int
  params : List Text
  scope : Nat
deriving DecidableEq, Inhabited

/-- A class by its name in the class table and the name it declares. -/
structure ClassRef where
  key : Text
  name : Text
deriving DecidableEq, Inhabited

/-- What a type name refers to. -/
inductive TypeTarget where
  | cls
  | enum
  | builtin (kind : Kind)
deriving DecidableEq, Inhabited

structure TypeRef where
  name : Text
  target : TypeTarget
deriving DecidableEq, Inhabited

structure EnumMember where
  enum : Text
  member : Text
  ordinal : Int64
deriving DecidableEq, Inhabited

/-- A runtime value. A character is any 32-bit number; not all of them are code points. -/
inductive Value where
  | null
  | bool (b : Bool)
  | int (n : Int64)
  | int32 (n : Int32)
  | float32 (x : Binary32)
  | float (x : Binary64)
  | decimal (d : Decimal)
  | string (s : Text)
  | char (c : Int32)
  | array (id : Nat)
  | dict (id : Nat)
  | closure (c : Closure)
  | builtin (b : Builtin)
  | intrinsic (m : Intrinsic)
  | boundIntrinsic (ref : Nat) (m : Intrinsic) (receiver : Value)
  | boundMethod (ref : Nat) (m : Closure) (receiver : Value)
  | type (t : TypeRef)
  | cls (c : ClassRef)
  | object (id : Nat)
  | static (id : Nat)
  | enum (e : EnumMember)
  | exception (id : Nat)
  | file (id : Nat)
deriving DecidableEq, Inhabited

namespace Value

def kind : Value → Kind
  | null => .null
  | bool _ => .bool
  | int _ => .int
  | int32 _ => .int32
  | float32 _ => .float32
  | float _ => .float
  | decimal _ => .decimal
  | string _ => .string
  | char _ => .char
  | array _ => .array
  | dict _ => .dict
  | closure _ => .closure
  | builtin _ => .builtin
  | intrinsic _ => .intrinsic
  | boundIntrinsic _ _ _ => .boundIntrinsic
  | boundMethod _ _ _ => .boundMethod
  | type _ => .type
  | cls _ => .cls
  | object _ => .object
  | static _ => .static
  | enum _ => .enum
  | exception _ => .exception
  | file _ => .file

def isNumeric (v : Value) : Bool := v.kind.isNumeric

def ofNat (n : Nat) : Value := int (Int64.ofNat n)

end Value

end BytecodeMachine
