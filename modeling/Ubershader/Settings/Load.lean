import Ubershader.Settings.Basic
import Ubershader.Settings.Datum
import Ubershader.Text.Numeral

/-!
# Loading settings

Settings are loaded from a record by field name or from a list by field position. A field that is
absent keeps its default; a field that is there must have the right type, and null is a value like
any other and so is refused. A record may carry fields of other names. A definition has two
fields, and neither of them may be absent.
-/

namespace Ubershader

namespace Datum

def toInt32? (datum : Datum) : Option Int32 :=
  datum.toInteger?.bind Text.toInt32?

def toUInt32? : Datum → Option UInt32
  | integer (.ofNat n) => Text.toUInt32? n
  | _ => none

/-- The stage that a datum names: its full name, or a record with that name as the only field and
nothing in it. -/
def toStage? : Datum → Option Stage
  | text name => Stage.ofName? name
  | record [(name, null)] => Stage.ofName? name
  | _ => none

end Datum

namespace Define

def ofDatum? : Datum → Option Define
  | .record fields => do
    let name ← fields.lookup "name"
    let value ← fields.lookup "value"
    return ⟨← name.toText?, ← value.toInt32?⟩
  | .list [name, value] => do
    return ⟨← name.toText?, ← value.toInt32?⟩
  | _ => none

end Define

namespace Settings

/-- The names of the fields of a record of settings, in the order in which a list gives them. -/
def fieldNames : List String :=
  ["defines", "max_bindless_textures", "max_bindless_readonly_texture_buffers",
   "mobile_platform", "force_full_fp_precision", "ray_tracing", "mesh_shaders",
   "max_include_depth", "line_directives"]

def field {α : Type} (fields : List (String × Datum)) (name : String)
    (read : Datum → Option α) (default : α) : Option α :=
  match fields.lookup name with
  | none => some default
  | some datum => read datum

def ofFields? (fields : List (String × Datum)) : Option Settings := do
  let base : Settings := {}
  return {
    defines := ← field fields "defines"
      (fun datum => datum.toItems?.bind fun items => items.mapM Define.ofDatum?) base.defines
    maxBindlessTextures := ←
      field fields "max_bindless_textures" Datum.toUInt32? base.maxBindlessTextures
    maxBindlessReadonlyTextureBuffers := ←
      field fields "max_bindless_readonly_texture_buffers" Datum.toUInt32?
        base.maxBindlessReadonlyTextureBuffers
    mobilePlatform := ← field fields "mobile_platform" Datum.toBool? base.mobilePlatform
    fullPrecision := ← field fields "force_full_fp_precision" Datum.toBool? base.fullPrecision
    rayTracing := ← field fields "ray_tracing" Datum.toBool? base.rayTracing
    meshShaders := ← field fields "mesh_shaders" Datum.toBool? base.meshShaders
    maxIncludeDepth := ← field fields "max_include_depth" Datum.toUInt32? base.maxIncludeDepth
    lineMarkers := ← field fields "line_directives" Datum.toBool? base.lineMarkers }

/-- Load settings. A list gives the fields by position, and may stop early but not go on past the
last one. -/
def ofDatum? : Datum → Option Settings
  | .record fields => ofFields? fields
  | .list items =>
    if items.length ≤ fieldNames.length then ofFields? (fieldNames.zip items) else none
  | _ => none

end Settings

end Ubershader
