import Mathlib.Algebra.GroupWithZero.Nat
import Mathlib.Data.List.Nodup
import Ubershader.PackedStruct

/-!
# The layout of packed structs

Members are placed one after the other: the next one goes where the last one ends. `IsPacked` says
what this comes to for a whole struct. The offset of a member is the sum of the sizes of the members
before it, so the bytes of a member end where those of the next one begin, and no two members share
a byte.

A struct is expanded into lines that say this layout to a compiler. `IsWrittenOut` has the text of
all of them, written apart from the functions that make it.
-/

namespace Ubershader

namespace MemberType

/-- What is known of a type by its token: the name that load macros have for it, and its size in
bytes. A word and each component of a vector take four bytes. The leading `R` of a relaxed type is
in the token only. -/
inductive IsLaidOut (token : String) : (name : String) → (size : Nat) → Prop
  | word (written : token = "U32") : IsLaidOut token "U32" 4
  | float (written : token = "F32" ∨ token = "RF32") : IsLaidOut token "F32" 4
  | vector {dimension : Nat} (two_le : 2 ≤ dimension) (le_four : dimension ≤ 4)
      (written : token = "Vec" ++ dimension.repr ∨ token = "RVec" ++ dimension.repr) :
      IsLaidOut token ("Vec" ++ dimension.repr) (4 * dimension)

theorem isLaidOut_of_ofToken? {token : String} {type : MemberType}
    (hknown : ofToken? token = some type) : IsLaidOut token type.name type.size := by
  unfold ofToken? at hknown
  split at hknown
  · cases hknown
    exact .float (.inl rfl)
  · cases hknown
    exact .float (.inr rfl)
  · cases hknown
    exact .vector (Nat.le_refl 2) (by decide) (.inl rfl)
  · cases hknown
    exact .vector (Nat.le_refl 2) (by decide) (.inr rfl)
  · cases hknown
    exact .vector (by decide) (by decide : 3 ≤ 4) (.inl rfl)
  · cases hknown
    exact .vector (by decide) (by decide : 3 ≤ 4) (.inr rfl)
  · cases hknown
    exact .vector (by decide) (Nat.le_refl 4) (.inl rfl)
  · cases hknown
    exact .vector (by decide) (Nat.le_refl 4) (.inr rfl)
  · cases hknown
    exact .word rfl
  · cases hknown

end MemberType

namespace PackedStruct

variable {struct : PackedStruct} {name : String} {type : MemberType}

def sizes (struct : PackedStruct) : List Nat :=
  struct.members.map fun member => member.type.size

/-- Every offset is the sum of the sizes before it. -/
def IsSummed (struct : PackedStruct) : Prop :=
  ∀ index member, struct.members[index]? = some member →
    member.offset = (struct.sizes.take index).sum

/-- Members are laid out without gaps and overlaps, and the names of their offsets are different. -/
structure IsPacked (struct : PackedStruct) : Prop where
  offset : struct.IsSummed
  adjacent : ∀ index member next, struct.members[index]? = some member →
    struct.members[index + 1]? = some next → next.offset = member.stop
  disjoint : struct.members.Pairwise fun member later => member.stop ≤ later.offset
  names : (struct.members.map fun member =>
    struct.name ++ "_" ++ member.name ++ "_OFFSETOF").Nodup

/-- The lines of one member, at its index in each part of an expansion. Its offset is the sum of the
sizes before it, and its type is declared as it was written. The load macro speaks of the offset and
the type of this member, and ends with a comma unless it is the last one. -/
structure WritesMember (struct : PackedStruct) (index : Nat) (member : Member) (token : String)
    (declarations loads aggregates : List String) : Prop where
  offset : declarations[2 * index]? = some ("#define " ++ struct.name ++ "_" ++ member.name ++
    "_OFFSETOF " ++ (struct.sizes.take index).sum.repr)
  declaration : declarations[2 * index + 1]? = some ("\t" ++ token ++ " " ++ member.name ++ ";")
  load : loads[index]? = some ("#\tdefine " ++ struct.name ++ "_" ++ member.name ++
    "_LOAD(buff, offset) buff.Load<" ++ member.type.name ++ ">(" ++ struct.name ++ "_" ++
    member.name ++ "_OFFSETOF + (offset))" ++
    if index + 1 = struct.members.length then "" else ",")
  aggregate : aggregates[index]? =
    some ("\t" ++ struct.name ++ "_" ++ member.name ++ "_LOAD(buff, offset) \\")

/-- The text of the expansion of a struct whose member types are written as the given tokens: two
lines for each member between the first line and the line that ends the declaration, a load macro
for each of them, and one macro for the whole struct with a line for each member. -/
def IsWrittenOut (struct : PackedStruct) (tokens lines : List String) : Prop :=
  ∃ declarations loads aggregates : List String,
    lines = ["struct " ++ struct.name ++ " \x7b"] ++ declarations ++ ["\x7d;"] ++ loads ++
      ["#define load" ++ struct.name ++ "(buff, offset) \x7b \\"] ++ aggregates ++ ["\x7d"] ∧
    declarations.length = 2 * struct.members.length ∧
    loads.length = struct.members.length ∧ aggregates.length = struct.members.length ∧
    ∀ index member token, struct.members[index]? = some member → tokens[index]? = some token →
      struct.WritesMember index member token declarations loads aggregates

/-! ## Offsets -/

theorem sum_take_succ {index : Nat} {member : Member}
    (hmember : struct.members[index]? = some member) :
    (struct.sizes.take (index + 1)).sum = (struct.sizes.take index).sum + member.type.size := by
  have hsize : struct.sizes[index]? = some member.type.size := by
    simp [sizes, hmember]
  rw [List.take_add_one, hsize]
  simp

theorem IsSummed.stop_eq (hsummed : struct.IsSummed) {index : Nat} {member : Member}
    (hmember : struct.members[index]? = some member) :
    member.stop = (struct.sizes.take (index + 1)).sum := by
  rw [sum_take_succ hmember, ← hsummed index member hmember, Member.stop]

theorem IsSummed.nextOffset_eq (hsummed : struct.IsSummed) :
    struct.nextOffset = struct.sizes.sum := by
  rw [nextOffset, List.getLast?_eq_getElem?]
  split
  · next hnone =>
    have hempty : struct.members = [] := by
      have hle := List.getElem?_eq_none_iff.mp hnone
      exact List.length_eq_zero_iff.mp (by omega)
    simp [sizes, hempty]
  · next member hmember =>
    have hlt : struct.members.length - 1 < struct.members.length :=
      (List.getElem?_eq_some_iff.mp hmember).1
    rw [hsummed.stop_eq hmember, List.take_of_length_le (by simp [sizes]; omega)]

theorem IsSummed.push (hsummed : struct.IsSummed) (name : String) (type : MemberType) :
    (struct.push (struct.nextMember name type)).IsSummed := by
  intro index member hmember
  have hsizes : (struct.push (struct.nextMember name type)).sizes =
      struct.sizes ++ [type.size] := by
    simp [sizes, PackedStruct.push, nextMember]
  obtain ⟨hlt, -⟩ := List.getElem?_eq_some_iff.mp hmember
  have hle : index ≤ struct.sizes.length := by
    simp only [PackedStruct.push, List.length_append, List.length_singleton] at hlt
    simp only [sizes, List.length_map]
    omega
  rw [hsizes, List.take_append_of_le_length hle]
  rw [PackedStruct.push] at hmember
  -- The size of the new member is behind all offsets, also behind its own.
  obtain hold | rfl := Nat.lt_or_eq_of_le hle
  · refine hsummed index member ?_
    rwa [List.getElem?_append_left (by simpa [sizes] using hold)] at hmember
  · simp only [sizes, List.length_map, List.getElem?_concat_length, Option.some.injEq] at hmember
    rw [← hmember, List.take_length]
    exact hsummed.nextOffset_eq

theorem IsSummed.disjoint (hsummed : struct.IsSummed) :
    struct.members.Pairwise fun member later => member.stop ≤ later.offset := by
  rw [List.pairwise_iff_getElem]
  intro index later hindex hlater hlt
  have hsame : struct.sizes.take (index + 1) = (struct.sizes.take later).take (index + 1) := by
    rw [List.take_take, Nat.min_eq_left hlt]
  have hsplit := congrArg List.sum (List.take_append_drop (index + 1) (struct.sizes.take later))
  rw [List.sum_append, ← hsame] at hsplit
  rw [hsummed.stop_eq (List.getElem?_eq_getElem hindex),
    hsummed later _ (List.getElem?_eq_getElem hlater)]
  omega

/-- Different members have different names for their offsets. -/
theorem offsetName_inj {member other : Member}
    (hname : struct.offsetName member = struct.offsetName other) : member.name = other.name := by
  have hchars := congrArg String.toList hname
  simp only [offsetName, String.toList_append, List.append_cancel_right_eq,
    List.append_cancel_left_eq] at hchars
  exact String.toList_inj.mp hchars

theorem IsSummed.isPacked (hsummed : struct.IsSummed)
    (hnames : (struct.members.map Member.name).Nodup) : struct.IsPacked where
  offset := hsummed
  adjacent index member next hmember hnext := by
    rw [hsummed (index + 1) next hnext, hsummed.stop_eq hmember]
  disjoint := hsummed.disjoint
  names := by
    refine List.pairwise_map.mpr ((List.pairwise_map.mp hnames).imp ?_)
    intro member other hne hsame
    exact hne (offsetName_inj hsame)

/-! ## Load macros -/

@[simp] theorem length_loadLines (struct : PackedStruct) (members : List Member) :
    (struct.loadLines members).length = members.length := by
  fun_induction loadLines struct members with
  | case1 => rfl
  | case2 => rfl
  | case3 member rest _ ih => simp [ih]

theorem getElem?_loadLines {members : List Member} {index : Nat} {member : Member}
    (hmember : members[index]? = some member) :
    (struct.loadLines members)[index]? = some (struct.loadLine
      (if index + 1 = members.length then "" else ",") member) := by
  fun_induction loadLines struct members generalizing index with
  | case1 => simp at hmember
  | case2 only =>
    cases index with
    | zero => cases hmember; simp
    | succ index => simp at hmember
  | case3 first rest hseveral ih =>
    have hrest : rest ≠ [] := hseveral
    have hpos := List.length_pos_of_ne_nil hrest
    cases index with
    | zero =>
      cases hmember
      rw [if_neg (by simpa [eq_comm] using hrest)]
      rfl
    | succ index =>
      rw [List.getElem?_cons_succ] at hmember
      rw [List.getElem?_cons_succ, ih hmember]
      simp

/-! ## The expansion -/

/-- The first lines of the expansion of a struct that has the given members so far. Their types are
written as the given tokens. -/
def openedLines (struct : PackedStruct) (members : List Member) (tokens : List String) :
    List String :=
  struct.openingLine :: (List.zipWith struct.memberLines members tokens).flatten

/-- The expansion of a struct whose member types are written as the given tokens. -/
def expansion (struct : PackedStruct) (tokens : List String) : List String :=
  struct.openedLines struct.members tokens ++ struct.closingLines

theorem openedLines_concat (struct : PackedStruct) {members : List Member} {tokens : List String}
    (hlength : members.length = tokens.length) (member : Member) (token : String) :
    struct.openedLines (members ++ [member]) (tokens ++ [token]) =
      struct.openedLines members tokens ++ struct.memberLines member token := by
  simp [openedLines, List.zipWith_append hlength]

theorem length_closingLines (struct : PackedStruct) :
    struct.closingLines.length = 2 * struct.members.length + 3 := by
  simp only [closingLines, List.length_append, List.length_singleton, length_loadLines,
    List.length_map]
  omega

/-- Each member has two lines, so those of a member are found behind two for each one before it. -/
theorem getElem?_flatten_memberLines (struct : PackedStruct) {members : List Member}
    {tokens : List String} {index : Nat} {member : Member} {token : String}
    (hmember : members[index]? = some member)
    (htoken : tokens[index]? = some token) {line : Nat} (hline : line < 2) :
    (List.zipWith struct.memberLines members tokens).flatten[2 * index + line]? =
      (struct.memberLines member token)[line]? := by
  induction members generalizing tokens index with
  | nil => simp at hmember
  | cons first members ih =>
    cases tokens with
    | nil => simp at htoken
    | cons firstToken tokens =>
      rw [List.zipWith_cons_cons, List.flatten_cons]
      cases index with
      | zero =>
        cases hmember
        cases htoken
        rw [Nat.mul_zero, Nat.zero_add]
        exact List.getElem?_append_left hline
      | succ index =>
        have hshift : 2 * (index + 1) + line = 2 * index + line + 2 := by omega
        rw [hshift]
        exact ih hmember htoken

theorem length_flatten_memberLines (struct : PackedStruct) {members : List Member}
    {tokens : List String} (hlength : members.length = tokens.length) :
    (List.zipWith struct.memberLines members tokens).flatten.length = 2 * members.length := by
  induction members generalizing tokens with
  | nil => rfl
  | cons first members ih =>
    cases tokens with
    | nil => simp at hlength
    | cons firstToken tokens =>
      have hrest := ih (Nat.succ.inj hlength)
      rw [List.zipWith_cons_cons, List.flatten_cons, List.length_append, hrest, List.length_cons]
      change 2 + 2 * members.length = 2 * (members.length + 1)
      omega

theorem IsSummed.writesMember (hsummed : struct.IsSummed) {tokens : List String} {index : Nat}
    {member : Member} {token : String} (hmember : struct.members[index]? = some member)
    (htoken : tokens[index]? = some token) :
    struct.WritesMember index member token
      (List.zipWith struct.memberLines struct.members tokens).flatten
      (struct.loadLines struct.members) (struct.members.map struct.aggregateLine) where
  offset := by
    have hlines := struct.getElem?_flatten_memberLines hmember htoken Nat.two_pos
    -- The line is written with the offset that the member has, which is the sum.
    rw [← hsummed index member hmember]
    refine hlines.trans (congrArg some (String.toList_inj.mp ?_))
    simp [offsetName]
  declaration := struct.getElem?_flatten_memberLines hmember htoken Nat.one_lt_two
  load := by
    rw [getElem?_loadLines hmember]
    refine congrArg some (String.toList_inj.mp ?_)
    simp [loadLine, loadName, offsetName]
  aggregate := by
    rw [List.getElem?_map, hmember, Option.map_some]
    refine congrArg some (String.toList_inj.mp ?_)
    simp [aggregateLine, loadName]

/-- What a struct is expanded into has the text that it should have. -/
theorem IsSummed.isWrittenOut (hsummed : struct.IsSummed) {tokens : List String}
    (hlength : struct.members.length = tokens.length) :
    struct.IsWrittenOut tokens (struct.expansion tokens) := by
  refine ⟨_, _, struct.members.map struct.aggregateLine, ?_,
    struct.length_flatten_memberLines hlength, struct.length_loadLines _, List.length_map _, ?_⟩
  · simp only [expansion, openedLines, closingLines, openingLine, List.cons_append,
      List.nil_append, List.append_assoc]
  · intro index member token hmember htoken
    exact hsummed.writesMember hmember htoken

example : (⟨"Light", [⟨"position", .vec3, 0⟩, ⟨"radius", .f32, 12⟩]⟩ : PackedStruct).expansion
      ["RVec3", "F32"] =
    ["struct Light \x7b",
     "#define Light_position_OFFSETOF 0", "\tRVec3 position;",
     "#define Light_radius_OFFSETOF 12", "\tF32 radius;",
     "\x7d;",
     "#\tdefine Light_position_LOAD(buff, offset) " ++
       "buff.Load<Vec3>(Light_position_OFFSETOF + (offset)),",
     "#\tdefine Light_radius_LOAD(buff, offset) " ++
       "buff.Load<F32>(Light_radius_OFFSETOF + (offset))",
     "#define loadLight(buff, offset) \x7b \\",
     "\tLight_position_LOAD(buff, offset) \\", "\tLight_radius_LOAD(buff, offset) \\",
     "\x7d"] := by
  decide +kernel

end PackedStruct

end Ubershader
