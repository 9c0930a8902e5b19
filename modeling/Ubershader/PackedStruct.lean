/-!
# Packed structs

A struct is declared member by member and laid out without gaps: a member starts where the one
before it ends. It expands into a plain struct in which every member is preceded by a definition
of its offset, followed by a macro per member that loads it from a byte-address buffer and one
macro that loads the whole struct.
-/

namespace Ubershader

inductive MemberType
  | f32
  | vec2
  | vec3
  | vec4
  | u32
deriving DecidableEq, Repr

namespace MemberType

/-- The layout that a type token stands for. A leading `R` asks for relaxed precision and leaves
the layout as it is. -/
def ofToken? : String → Option MemberType
  | "F32" | "RF32" => some f32
  | "Vec2" | "RVec2" => some vec2
  | "Vec3" | "RVec3" => some vec3
  | "Vec4" | "RVec4" => some vec4
  | "U32" => some u32
  | _ => none

def size : MemberType → Nat
  | f32 | u32 => 4
  | vec2 => 8
  | vec3 => 12
  | vec4 => 16

/-- The name of the type in load macros. It is not always the token that was written, as relaxed
types are loaded like the others. -/
def name : MemberType → String
  | f32 => "F32"
  | vec2 => "Vec2"
  | vec3 => "Vec3"
  | vec4 => "Vec4"
  | u32 => "U32"

@[simp] theorem ofToken?_name (type : MemberType) : ofToken? type.name = some type := by
  cases type <;> rfl

end MemberType

structure Member where
  name : String
  type : MemberType
  offset : Nat
deriving DecidableEq, Repr

/-- The first byte after a member. -/
def Member.stop (member : Member) : Nat :=
  member.offset + member.type.size

/-- A struct under declaration. The lines of its members are written at once; the members are kept
for the place of the next one and for the load macros, which come last. -/
structure PackedStruct where
  name : String
  members : List Member := []
deriving DecidableEq, Repr

namespace PackedStruct

def nextOffset (struct : PackedStruct) : Nat :=
  match struct.members.getLast? with
  | none => 0
  | some member => member.stop

def nextMember (struct : PackedStruct) (name : String) (type : MemberType) : Member :=
  ⟨name, type, struct.nextOffset⟩

def push (struct : PackedStruct) (member : Member) : PackedStruct :=
  { struct with members := struct.members ++ [member] }

def hasMember (struct : PackedStruct) (name : String) : Bool :=
  struct.members.any fun member => member.name == name

def offsetName (struct : PackedStruct) (member : Member) : String :=
  struct.name ++ "_" ++ member.name ++ "_OFFSETOF"

def loadName (struct : PackedStruct) (member : Member) : String :=
  struct.name ++ "_" ++ member.name ++ "_LOAD"

def openingLine (struct : PackedStruct) : String :=
  "struct " ++ struct.name ++ " \x7b"

/-- The lines of a member: its offset, and its declaration with the type as it was written. -/
def memberLines (struct : PackedStruct) (member : Member) (typeToken : String) : List String :=
  ["#define " ++ struct.offsetName member ++ " " ++ member.offset.repr,
   "\t" ++ typeToken ++ " " ++ member.name ++ ";"]

/-- The load macro of a member, with a given separator after it. -/
def loadLine (struct : PackedStruct) (separator : String) (member : Member) : String :=
  "#\tdefine " ++ struct.loadName member ++ "(buff, offset) buff.Load<" ++ member.type.name ++
    ">(" ++ struct.offsetName member ++ " + (offset))" ++ separator

/-- The load macros of a list of members, with a comma after all but the last. -/
def loadLines (struct : PackedStruct) : List Member → List String
  | [] => []
  | [member] => [struct.loadLine "" member]
  | member :: rest => struct.loadLine "," member :: struct.loadLines rest

/-- The line of the macro for the whole struct that loads one member. -/
def aggregateLine (struct : PackedStruct) (member : Member) : String :=
  "\t" ++ struct.loadName member ++ "(buff, offset) \\"

def closingLines (struct : PackedStruct) : List String :=
  ["\x7d;"] ++ struct.loadLines struct.members ++
    ["#define load" ++ struct.name ++ "(buff, offset) \x7b \\"] ++
    struct.members.map struct.aggregateLine ++ ["\x7d"]

end PackedStruct

end Ubershader
