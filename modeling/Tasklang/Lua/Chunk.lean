import Tasklang.Lua.Binding
import Tasklang.Lua.Site

/-! # Chunks

A chunk is a whole piece of source. Loading it makes a function whose only captured variable is
the environment, the table in which names that are not local are looked up. A chunk has a name,
which says what stands for it in front of messages.
-/

namespace Tasklang.Lua

namespace ChunkName

/-- How many bytes the name of a chunk takes at most where it is shown. -/
def limit : Nat := 59

/-- What stands for cut parts of a name. -/
def ellipsis : Bytes := Bytes.ofString "..."

/-- The name of a chunk that is a file. -/
def ofFile (path : String) : Bytes := Bytes.ofString ("@" ++ path)

/-- The name of the chunk of a placeholder. -/
def ofPlaceholder (expression : String) : Bytes := Bytes.ofString ("=$\x7b" ++ expression ++ "\x7d")

/-- A name in front of messages. After an equals sign it is shown from its start, after an at sign
its end is shown; otherwise the name is source, and its first line is shown. -/
def shown : Bytes → Bytes
  | 0x3D :: name => name.take limit
  | 0x40 :: name =>
    if name.length ≤ limit then name
    else ellipsis ++ name.drop (name.length - (limit - ellipsis.length))
  | name =>
    let line := name.takeWhile (· != 0x0A)
    let room := limit - 14
    let kept :=
      if line.length = name.length ∧ name.length < room then name else line.take room ++ ellipsis
    Bytes.ofString "[string \"" ++ kept ++ Bytes.ofString "\"]"

end ChunkName

/-- How many steps parsing some tokens can take. -/
def Parser.fuelFor (tokens : List Lexeme) : Nat := 24 * tokens.length + 64

/-- The chunk of source bytes that are loaded below so many calls. -/
def Chunk.parse (levels : Nat) (source : Bytes) : Except ParseError Chunk := do
  let tokens := Token.lex source
  match ← Parser.block (Parser.fuelFor tokens) ⟨true, false, Site.levelLimit - 1 - levels⟩ tokens with
  | (chunk, [⟨.done, _, _⟩]) =>
    Binding.check chunk
    return chunk
  | _ => .error .syntaxError

/-- The source of a chunk that returns an expression. -/
def returning (source : Bytes) : Bytes := Bytes.ofString "return " ++ source

/-- The chunk of source that is an expression or else a sequence of statements. -/
def Chunk.parseEither (levels : Nat) (source : Bytes) : Except ParseError Chunk :=
  match Chunk.parse levels (returning source) with
  | .ok chunk => .ok chunk
  | .error _ => Chunk.parse levels source

/-- The fault of source that cannot be parsed. -/
def ParseError.fault : ParseError → Fault
  | .syntaxError => .syntaxError
  | .tooDeep => .runtimeError "C stack overflow"

theorem ParseError.fault_known (e : ParseError) : e.fault.isUnbound = false := by cases e <;> rfl

namespace Code

variable {ε : Type}

/-- A function that runs a chunk of some name in an environment. -/
def newChunk (name : Bytes) (chunk : Chunk) (environment : Value) : Code ε Value := do
  let c ← newCell environment
  newClosure ⟨.mk [] true chunk, [(environmentName, c)], ChunkName.shown name⟩

/-- A function that runs parsed source in an environment. -/
def loadChunk (name : Bytes) (parsed : Except ParseError Chunk) (environment : Value) :
    Code Value Value :=
  match parsed with
  | .ok chunk => newChunk name chunk environment
  | .error e => fail e.fault e.fault_known

end Code

end Tasklang.Lua
