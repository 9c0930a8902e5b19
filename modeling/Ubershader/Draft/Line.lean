import Ubershader.Bytes
import Ubershader.Checksum

/-!
# Lines of a source

A line of a source remembers where it comes from: it is copied from a file, or it was made here
for a purpose. Only `Line.text` is ever seen by the compiler; the rest of what a line knows is for
reasoning about where lines go.
-/

namespace Ubershader

/-- A line of a source. What a line is for decides its text, and is not read off from it again. -/
inductive Line
  /-- A line of a file, by the resolved path of the file and the number of the line in it. -/
  | copied (file : String) (number : Nat) (text : String)
  /-- A marker: the line after it is line `number` of `file`. -/
  | marker (number : Nat) (file : String)
  /-- The test that opens the include guard of a path. -/
  | guardOpen (path : String)
  /-- The definition that makes the include guard of a path fail from now on. -/
  | guardDefine (path : String)
  /-- The end of an include guard. -/
  | guardClose
  /-- A line of the expansion of a struct. -/
  | expansion (text : String)
deriving DecidableEq, Repr

namespace Line

def guardName (path : String) : String :=
  "_ANKI_INCL_GUARD_" ++ (checksum (Bytes.ofString path)).toNat.repr

/-- A path without quotes and with forward slashes only, fit to stand in quotes. -/
def quotablePath (path : String) : String :=
  String.ofList <|
    (path.toList.filter (· != '"')).map fun c => if c = '\\' then '/' else c

def text : Line → String
  | copied _ _ text => text
  | marker number file => "#line " ++ number.repr ++ " \"" ++ quotablePath file ++ "\""
  | guardOpen path => "#ifndef " ++ guardName path
  | guardDefine path => "#define " ++ guardName path
  | guardClose => "#endif // Include guard"
  | expansion text => text

end Line

end Ubershader
