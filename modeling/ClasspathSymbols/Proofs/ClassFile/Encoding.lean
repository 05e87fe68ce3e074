import ClasspathSymbols.ClassFile.Verdict
import Mathlib.Algebra.Group.Nat.Defs

/-! # Class files as data

What a class file holds, and the bytes that hold it: a constant pool of all kinds of constants,
interfaces, fields and methods with their attributes, and the attributes of the class itself.
Annotations are kept as trees, the body of every other attribute as its bytes. -/
namespace ClasspathSymbols.ClassFile

/-- The lowest `k` bytes of a number, the highest of them first. -/
def encodeNumber : Nat → Nat → List UInt8
  | 0, _ => []
  | k + 1, n => encodeNumber k (n / 256) ++ [UInt8.ofNat n]

def u1 (n : UInt8) : List UInt8 := encodeNumber 1 n.toNat

def u2 (n : UInt16) : List UInt8 := encodeNumber 2 n.toNat

def u4 (n : UInt32) : List UInt8 := encodeNumber 4 n.toNat

def u8 (n : UInt64) : List UInt8 := encodeNumber 8 n.toNat

inductive Constant where
  | utf8 (text : List UInt8)
  | integer (bits : UInt32)
  | float (bits : UInt32)
  | long (bits : UInt64)
  | double (bits : UInt64)
  | classRef (name : UInt16)
  | string (text : UInt16)
  | fieldRef (owner nameAndType : UInt16)
  | methodRef (owner nameAndType : UInt16)
  | interfaceMethodRef (owner nameAndType : UInt16)
  | nameAndType (name descriptor : UInt16)
  | methodHandle (kind : UInt8) (reference : UInt16)
  | methodType (descriptor : UInt16)
  | dynamic (bootstrap nameAndType : UInt16)
  | invokeDynamic (bootstrap nameAndType : UInt16)
  | moduleRef (name : UInt16)
  | packageRef (name : UInt16)
  deriving DecidableEq, Repr

namespace Constant

def tag : Constant → UInt8
  | .utf8 _ => 1
  | .integer _ => 3
  | .float _ => 4
  | .long _ => 5
  | .double _ => 6
  | .classRef _ => 7
  | .string _ => 8
  | .fieldRef .. => 9
  | .methodRef .. => 10
  | .interfaceMethodRef .. => 11
  | .nameAndType .. => 12
  | .methodHandle .. => 15
  | .methodType _ => 16
  | .dynamic .. => 17
  | .invokeDynamic .. => 18
  | .moduleRef _ => 19
  | .packageRef _ => 20

def payload : Constant → List UInt8
  | .utf8 text => encodeNumber 2 text.length ++ text
  | .integer bits | .float bits => u4 bits
  | .long bits | .double bits => u8 bits
  | .classRef i | .string i | .methodType i | .moduleRef i | .packageRef i => u2 i
  | .fieldRef i j | .methodRef i j | .interfaceMethodRef i j | .nameAndType i j => u2 i ++ u2 j
  | .dynamic i j | .invokeDynamic i j => u2 i ++ u2 j
  | .methodHandle kind i => u1 kind ++ u2 i

def width : Constant → Nat
  | .long _ | .double _ => 2
  | _ => 1

def encode (c : Constant) : List UInt8 := u1 c.tag ++ c.payload

end Constant

def encodeConstants (cs : List Constant) : List UInt8 := cs.flatMap Constant.encode

def widthOf : List Constant → Nat
  | [] => 0
  | c :: cs => c.width + widthOf cs

inductive ConstantKind where
  | byte | char | double | float | int | long | short | boolean | string
  deriving DecidableEq, Repr

def ConstantKind.tag : ConstantKind → Char
  | .byte => 'B'
  | .char => 'C'
  | .double => 'D'
  | .float => 'F'
  | .int => 'I'
  | .long => 'J'
  | .short => 'S'
  | .boolean => 'Z'
  | .string => 's'

inductive ElementValue where
  | constant (kind : ConstantKind) (index : UInt16)
  | classInfo (descriptor : UInt16)
  | enumConstant (type name : UInt16)
  | nested (type : UInt16) (pairs : List (UInt16 × ElementValue))
  | array (values : List ElementValue)

def encodeTag (c : Char) : List UInt8 := encodeNumber 1 c.toNat

mutual

def ElementValue.encode : ElementValue → List UInt8
  | .constant kind index => encodeTag kind.tag ++ u2 index
  | .classInfo descriptor => encodeTag 'c' ++ u2 descriptor
  | .enumConstant type name => encodeTag 'e' ++ (u2 type ++ u2 name)
  | .nested type pairs =>
    encodeTag '@' ++ (u2 type ++ (encodeNumber 2 pairs.length ++ encodePairs pairs))
  | .array values => encodeTag '[' ++ (encodeNumber 2 values.length ++ encodeValues values)

def encodeValues : List ElementValue → List UInt8
  | [] => []
  | v :: rest => v.encode ++ encodeValues rest

def encodePairs : List (UInt16 × ElementValue) → List UInt8
  | [] => []
  | (name, v) :: rest => u2 name ++ v.encode ++ encodePairs rest

end

mutual

def ElementValue.Fits : ElementValue → Prop
  | .nested _ pairs => pairs.length < 2 ^ 16 ∧ PairsFit pairs
  | .array values => values.length < 2 ^ 16 ∧ ValuesFit values
  | _ => True

def ValuesFit : List ElementValue → Prop
  | [] => True
  | v :: rest => v.Fits ∧ ValuesFit rest

def PairsFit : List (UInt16 × ElementValue) → Prop
  | [] => True
  | (_, v) :: rest => v.Fits ∧ PairsFit rest

end

structure Annotation where
  type : UInt16
  pairs : List (UInt16 × ElementValue)

namespace Annotation

def encode (a : Annotation) : List UInt8 :=
  u2 a.type ++ (encodeNumber 2 a.pairs.length ++ encodePairs a.pairs)

def Fits (a : Annotation) : Prop := a.pairs.length < 2 ^ 16 ∧ PairsFit a.pairs

end Annotation

structure Attribute where
  name : UInt16
  body : List UInt8
  deriving DecidableEq, Repr

def Attribute.encode (a : Attribute) : List UInt8 :=
  u2 a.name ++ (encodeNumber 4 a.body.length ++ a.body)

structure Member where
  (access name descriptor : UInt16)
  attributes : List Attribute
  deriving DecidableEq, Repr

namespace Member

def encode (m : Member) : List UInt8 :=
  (u2 m.access ++ u2 m.name ++ u2 m.descriptor) ++
    (encodeNumber 2 m.attributes.length ++ m.attributes.flatMap Attribute.encode)

def Fits (m : Member) : Prop :=
  m.attributes.length < 2 ^ 16 ∧ ∀ a ∈ m.attributes, a.body.length < 2 ^ 32

end Member

/-- An attribute of a class: its run-time annotations, or one that holds anything else. -/
inductive ClassAttribute where
  | annotations (name : UInt16) (list : List Annotation)
  | other (a : Attribute)

namespace ClassAttribute

def name : ClassAttribute → UInt16
  | .annotations name _ => name
  | .other a => a.name

def body : ClassAttribute → List UInt8
  | .annotations _ list => encodeNumber 2 list.length ++ list.flatMap Annotation.encode
  | .other a => a.body

def encode (a : ClassAttribute) : List UInt8 := Attribute.encode ⟨a.name, a.body⟩

/-- The name of the attribute and the types of its outermost annotations. -/
def outline : ClassAttribute → UInt16 × List UInt16
  | .annotations name list => (name, list.map Annotation.type)
  | .other a => (a.name, [])

end ClassAttribute

structure Contents where
  (minor major : UInt16)
  constants : List Constant
  (access self super : UInt16)
  interfaces : List UInt16
  (fields methods : List Member)
  attributes : List ClassAttribute

namespace Contents

def encode (c : Contents) : List UInt8 :=
  encodeNumber 4 magic ++ ((u2 c.minor ++ u2 c.major) ++
    (encodeNumber 2 (1 + widthOf c.constants) ++ (encodeConstants c.constants ++
    ((u2 c.access ++ u2 c.self ++ u2 c.super) ++
    (encodeNumber 2 c.interfaces.length ++ (c.interfaces.flatMap u2 ++
    (encodeNumber 2 c.fields.length ++ (c.fields.flatMap Member.encode ++
    (encodeNumber 2 c.methods.length ++ (c.methods.flatMap Member.encode ++
    (encodeNumber 2 c.attributes.length ++ c.attributes.flatMap ClassAttribute.encode)))))))))))

/-- The constant with this index is the text. Indices start at one, and a constant follows the
indices of those before it. -/
def TextAt (c : Contents) (index : Nat) (text : List UInt8) : Prop :=
  ∃ k, c.constants[k]? = some (.utf8 text) ∧ index = 1 + widthOf (c.constants.take k)

/-- All counts and lengths fit into their bytes, and the attributes with run-time annotations are
those with their name. -/
structure WellFormed (c : Contents) : Prop where
  pool : 1 + widthOf c.constants < 2 ^ 16
  texts : ∀ text, .utf8 text ∈ c.constants → text.length < 2 ^ 16
  interfaces : c.interfaces.length < 2 ^ 16
  fields : c.fields.length < 2 ^ 16 ∧ ∀ m ∈ c.fields, m.Fits
  methods : c.methods.length < 2 ^ 16 ∧ ∀ m ∈ c.methods, m.Fits
  attributes : c.attributes.length < 2 ^ 16 ∧ ∀ a ∈ c.attributes, a.body.length < 2 ^ 32
  annotations : ∀ name list, .annotations name list ∈ c.attributes →
    c.TextAt name.toNat annotationsName ∧ list.length < 2 ^ 16 ∧ ∀ a ∈ list, a.Fits
  others : ∀ a, .other a ∈ c.attributes → ¬ c.TextAt a.name.toNat annotationsName

/-- The pool, and the attributes of the class without what they hold inside. -/
def outline (c : Contents) : List Constant × List (UInt16 × List UInt16) :=
  (c.constants, c.attributes.map ClassAttribute.outline)

/-- The class carries the attribute `Deprecated`, or one of its run-time annotations is of the type
`java.lang.Deprecated`. -/
def IsDeprecated (c : Contents) : Prop :=
  (∃ a ∈ c.attributes, c.TextAt a.name.toNat deprecatedName) ∨
  ∃ name list, .annotations name list ∈ c.attributes ∧
    ∃ a ∈ list, c.TextAt a.type.toNat deprecatedDescriptor

end Contents

end ClasspathSymbols.ClassFile
