import Tasklang.Program.Step
import Tasklang.Text.Blank

/-! # Programs as Lua source

The Lua statements of steps and imports. Every step takes whole lines, indented by a number of
blanks.
-/

namespace Tasklang

/-- Lines joined by line feeds, with one at the end. -/
def textOfLines (lines : List String) : String := String.join (lines.map (· ++ "\n"))

/-- A number of blanks. -/
def blanks (n : Nat) : String := String.ofList (List.replicate n ' ')

/-- Indent every line of a text that does not consist of blanks. -/
def indentLines (code : String) (indent : Nat) : String :=
  "\n".intercalate ((code.splitOn "\n").map fun line =>
    if Text.isAllBlank line then line else blanks indent ++ line)

/-- The statement that binds a name to a module or to a field of it. -/
def bindingLine (binding module_ : String) (field : Option String) : String :=
  match field with
  | some f => "local " ++ binding ++ " = " ++ module_ ++ "." ++ f ++ "\n"
  | none => "local " ++ binding ++ " = " ++ module_ ++ "\n"

/-- The function that loads modules in persisted programs. -/
def loaderName : String := "__ys_import"

/-- The source of the function that loads modules. Paths start at the directory of the program; a
module that returns nothing is kept as true. -/
def loaderSource : String := textOfLines [
  "local __ys_import",
  "do",
  "  local info = debug and debug.getinfo(1, \"S\")",
  "  local base = info and info.source:match(\"^@(.-)[^/\\\\]*$\") or \"\"",
  "  function __ys_import(from)",
  "    local key = from:sub(1, 1) == \"/\" and from or base .. from",
  "    local loaded = package.loaded[key]",
  "    if loaded ~= nil then",
  "      return loaded",
  "    end",
  "    local chunk, err = loadfile(key)",
  "    if not chunk then",
  "      chunk = loadfile(key .. \".lua\")",
  "    end",
  "    if not chunk then",
  "      error(err, 2)",
  "    end",
  "    local value = chunk()",
  "    if value == nil then",
  "      value = true",
  "    end",
  "    package.loaded[key] = value",
  "    return value",
  "  end",
  "end"]

namespace Import

/-- The statement of an import in a persisted program. -/
def moduleLine (i : Import) (naming : Naming) : String :=
  match i.source with
  | .module from_ export_ =>
    bindingLine i.binding (loaderName ++ "(" ++ Lua.quote from_ ++ ")") export_
  | .builtin name =>
    bindingLine i.binding ("require(" ++ Lua.quote naming.builtinPackage ++ ")") (some name)

/-- The statement of an import in a program that is run at once. -/
def runtimeLine (i : Import) (naming : Naming) : String :=
  match i.source with
  | .module from_ export_ =>
    bindingLine i.binding (naming.capabilities ++ ".import(" ++ Lua.quote from_ ++ ")") export_
  | .builtin name => bindingLine i.binding (naming.capabilities ++ ".globals") (some name)

end Import

/-- The source that runs an external program. Every argument is quoted for a shell, so that the
program sees it as it is; a program that a signal ends counts as exit code one. -/
def commandSource (argv : String) : String := textOfLines [
  "do",
  "  local argv = " ++ argv,
  "  local function shell_quote(arg)",
  "    return \"'\" .. (tostring(arg):gsub(\"'\", \"'\\\\''\")) .. \"'\"",
  "  end",
  "  local quoted = \x7b\x7d",
  "  for i, arg in ipairs(argv) do",
  "    quoted[i] = shell_quote(arg)",
  "  end",
  "  local errfile = os.tmpname()",
  "  local proc = io.popen(table.concat(quoted, \" \") .. \" 2>\" .. shell_quote(errfile))",
  "  if not proc then",
  "    os.remove(errfile)",
  "    io.stderr:write(\"failed to spawn \" .. tostring(argv[1]) .. \"\\n\")",
  "    os.exit(1)",
  "  end",
  "  local output = proc:read(\"a\") or \"\"",
  "  local _, how, code = proc:close()",
  "  if how ~= \"exit\" or code == nil then",
  "    code = 1",
  "  end",
  "  if code == 0 then",
  "    io.stdout:write(output)",
  "  else",
  "    local errors = io.open(errfile)",
  "    if errors then",
  "      io.stderr:write(errors:read(\"a\"))",
  "      errors:close()",
  "    end",
  "  end",
  "  os.remove(errfile)",
  "  os.exit(code)",
  "end"]

/-- The source of the arguments of a call. -/
def argumentsSource (args : List Literal) : String := ", ".intercalate (args.map Literal.source)

mutual

/-- The source of a step. -/
def stepSource (naming : Naming) (indent : Nat) : Step → String
  | .declare name value => blanks indent ++ "local " ++ name ++ " = " ++ value.source ++ "\n"
  | .call target args =>
    blanks indent ++ naming.result ++ " = " ++ target ++ "(" ++ argumentsSource args ++ ")\n"
  | .command program args =>
    indentLines
      (commandSource (Literal.tableSource (Lua.quote program :: args.map Literal.source))) indent
  | .loop source body =>
    let pad := blanks indent
    pad ++ "do\n"
      ++ pad ++ "  local __items = " ++ source.source ++ "\n"
      ++ pad ++ "  for " ++ naming.index ++ " = 0, #__items - 1 do\n"
      ++ pad ++ "    local " ++ naming.item ++ " = __items[" ++ naming.index ++ " + 1]\n"
      ++ stepsSource naming (indent + 4) body
      ++ pad ++ "  end\n" ++ pad ++ "end\n"
  | .block body =>
    let pad := blanks indent
    pad ++ "do\n" ++ stepsSource naming (indent + 2) body ++ pad ++ "end\n"

/-- The source of steps, one after the other. -/
def stepsSource (naming : Naming) (indent : Nat) : List Step → String
  | [] => ""
  | s :: ss => stepSource naming indent s ++ stepsSource naming indent ss

end

end Tasklang
