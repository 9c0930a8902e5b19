/-!
# Providers

Files come from a provider. It turns a written path into a target, which is the path that
identifies the file together with the context for the paths written in that file, and it gives the
text of a file by its resolved path. Either may fail with a cause. A provider may have a state,
here called its world, which both questions may change.
-/

namespace Ubershader

/-- A resolved path, and the context for the paths that are written in its file. -/
structure Target (κ : Type) where
  path : String
  context : κ
deriving DecidableEq, Repr

/-- A source of files, with a world of type `σ` and contexts of type `κ`. As every answer comes with
a new world, the same question may be answered differently later on. -/
structure Provider (σ κ : Type) where
  /-- Find the file that a written path stands for in a context. -/
  resolve : (path : String) → (context : κ) → σ → Except String (Target κ) × σ
  /-- Get the text of a file by its resolved path. -/
  fetch : (path : String) → σ → Except String String × σ

end Ubershader
