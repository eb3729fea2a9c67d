import Tasklang.Lua.Chunk
import Tasklang.Lua.Conversion
import Tasklang.Lua.Operations

/-! # Importing modules

A module is a chunk in a file below a base directory. It is loaded once: later imports under the
same name give the same value, also when that value is nothing.
-/

namespace Tasklang.Lua

open Code

/-- Why a module cannot be imported. -/
inductive ImportError where
  | notFound (from_ base : String)
  | unreadable (path : String) (cause : IoError)
  /-- The source of the module is no chunk. -/
  | malformed (cause : ParseError)
  /-- The code of the module failed. -/
  | failed (thrown : Value)

/-- Fail because of a failed import. -/
def ImportError.raise {α : Type} : ImportError → Code Value α
  | .notFound from_ base => fail (.external (some ("module '" ++ from_ ++ "' not found in " ++ base)))
  | .unreadable path cause =>
    fail (.external (some ("cannot read '" ++ path ++ "': " ++ cause.message)))
  | .malformed cause => fail cause.fault cause.fault_known
  | .failed thrown => rethrow thrown

/-- The file of a module: the path as it is written, or with the extension of modules added. -/
def modulePath? (w : World) (base from_ : String) : Option String :=
  [Path.join base from_, Path.join base (from_ ++ ".lua")].find? fun p => w.files.isFile w.cwd p

/-- The file of a module, with the chunk in it. Code is loaded below so many calls. -/
def moduleSource (levels : Nat) (base from_ : String) (w : World) :
    Except ImportError (String × Chunk) :=
  match modulePath? w base from_ with
  | none => .error (.notFound from_ base)
  | some path =>
    match w.files.readText w.cwd path with
    | .error cause => .error (.unreadable path cause)
    | .ok source =>
      match Chunk.parseEither levels (Bytes.ofString source) with
      | .error cause => .error (.malformed cause)
      | .ok chunk => .ok (path, chunk)

/-- What the code of a module returns. -/
def runModule (c : Caller) (path : String) (chunk : Chunk) : Code ImportError Value := do
  let f ← newChunk (ChunkName.ofFile path) chunk (.table globalsRef)
  return first (← (c.call f []).mapError ImportError.failed)

/-- The value of a module, loaded if it is not kept yet. -/
def importModule (c : Caller) (base from_ : String) : Code ImportError Value :=
  importing from_ fun w => do
    let (path, chunk) ← moduleSource c.site.levels base from_ w
    return (path, runModule c path chunk)

/-- The result of a call to an importing function. -/
def importCall (c : Caller) (base : String) (values : List Value) : Code Value (List Value) := do
  let from_ ← (values.getD 0 .nil).readText
  match ← attempt (importModule c.native base from_) with
  | .ok v => return [v]
  | .error (e : ImportError) => e.raise

end Tasklang.Lua
