import Tasklang.Build.Artifact
import Tasklang.CommandLine.Arguments
import Tasklang.Compile.TaskList
import Tasklang.Config.Selection
import Tasklang.Config.Settings
import Tasklang.Config.TaskFile
import Tasklang.Execution.Interpreter
import Tasklang.Host.EnvironmentFile

/-! # Carrying out a request

The settings are read first, then the environment, then the task files are chosen, and each file is
compiled and run or written before the next is read. One compiler serves all files. A run ends with
the first file that asks for an exit.
-/

namespace Tasklang.CommandLine

open Lua

/-- Why a request failed. -/
inductive Failure where
  | config (e : ConfigError)
  | compile (e : CompileError)
  | runtime (e : RuntimeError)
  | io (e : IoError)
  /-- The budget of an evaluation did not suffice. -/
  | exhausted

/-- The message of a failure. -/
def Failure.message : Failure → String
  | .config .malformed => "YAML parsing error: " ++ ConfigError.malformed.message
  | .config e => "Configuration error: " ++ e.message
  | .compile e => "Compile error: " ++ e.message
  | .runtime e => "Runtime error: " ++ e.message
  | .io e => "I/O error: " ++ e.message
  | .exhausted => "evaluation did not end"

/-- A computation of the application: the compiler's machine holds the world. -/
abbrev Action (α : Type) := Machine → Except Failure α × Machine

namespace Action

instance : Monad Action where
  pure a m := (.ok a, m)
  bind x f m := match x m with
    | (.ok a, m) => f a m
    | (.error e, m) => (.error e, m)

/-- Fail. -/
def fail {α : Type} (e : Failure) : Action α := fun m => (.error e, m)

/-- An answer that may be an error of configuration. -/
def ofConfig {α : Type} (r : Except ConfigError α) : Action α :=
  match r with
  | .ok a => pure a
  | .error e => fail (.config e)

/-- The world. -/
def world : Action World := fun m => (.ok m.world, m)

/-- Replace the world. -/
def setWorld (w : World) : Action Unit := fun m => (.ok (), { m with world := w })

/-- Carry out an action for each of several items, in order. -/
def forEach {α : Type} (x : α → Action Unit) : List α → Action Unit
  | [] => return ()
  | a :: rest => do
    x a
    forEach x rest

/-- A computation of the compiler. -/
def compiling {α : Type} (x : Compile.Compiling α) : Action α := fun m =>
  match x m with
  | .done a m => (.ok a, m)
  | .failed e m => (.error (.compile e), m)
  | .exhausted => (.error .exhausted, m)

end Action

/-- The options that settings give in an environment. -/
def optionsOf (s : Settings) (w : World) : CompileOptions where
  publicContext := ⟨w.environment, World.system⟩
  naming := s.naming
  strictNames := s.strict

/-- Compile a task file. -/
def compileFile (options : CompileOptions) (cwd file : String) : Action CompiledProgram := do
  let w ← Action.world
  let tasks ← Action.ofConfig (TaskFile.read w.files w.cwd (Path.join cwd file))
  Action.compiling (compile options Registry.defaults tasks)

/-- Run a compiled task file; the modules it imports are looked for beside it. -/
def runFile (p : CompiledProgram) (cwd file : String) : Action RunOutcome := do
  let base := (Path.parent? (Path.join cwd file)).getD cwd
  match p.program.run ⟨Registry.defaults, base⟩ (← Action.world) with
  | none => Action.fail .exhausted
  | some report =>
    Action.setWorld report.world
    match report.outcome with
    | .ok outcome => return outcome
    | .error e => Action.fail (.runtime e)

/-- Compile and run files in order; the exit code. -/
def runFiles (options : CompileOptions) (cwd : String) : List String → Action Nat
  | [] => return 0
  | file :: rest => do
    let p ← compileFile options cwd file
    match ← runFile p cwd file with
    | .completed => runFiles options cwd rest
    | .exited code => return code

/-- Write the built files of a task file. -/
def writeArtifacts (p : CompiledProgram) (file dist : String) (withRuntime : Bool) :
    Action (List String) := do
  let w ← Action.world
  let (r, files) := Artifact.writeAll w.files w.cwd (Artifact.all p file dist withRuntime)
  Action.setWorld { w with files }
  match r with
  | .ok paths => return paths
  | .error e => Action.fail (.io e)

/-- Compile a task file and write what was built. -/
def buildFile (options : CompileOptions) (cwd dist : String) (withRuntime : Bool) (file : String) :
    Action Unit := do
  let p ← compileFile options cwd file
  let _ ← writeArtifacts p file dist withRuntime

/-- Compile files in order and write what was built. -/
def buildFiles (options : CompileOptions) (cwd dist : String) (withRuntime : Bool)
    (files : List String) : Action Unit :=
  Action.forEach (buildFile options cwd dist withRuntime) files

/-- The settings of a request. -/
def settingsOf (r : Request) (w : World) : Except ConfigError Settings :=
  match r.config with
  | some path => Settings.read w.files w.cwd path
  | none => .ok {}

/-- Carry out a request on the task files of a directory; the exit code. -/
def Request.perform (r : Request) (cwd : String) : Action Nat := do
  let settings ← Action.ofConfig (settingsOf r (← Action.world))
  Action.setWorld (← Action.world).loadEnvironment
  let w ← Action.world
  let options := optionsOf settings w
  let selection : Selection := ⟨r.patterns, r.directories, r.all⟩
  let files ← Action.ofConfig (selection.files w.files w.cwd cwd)
  match r.command with
  | .run => runFiles options cwd files
  | .build dist withRuntime =>
    buildFiles options cwd (Path.join cwd dist) withRuntime files
    return 0

/-- Carry out a request in a world: how it ended, and the world after it. -/
def Request.execute (r : Request) (cwd : String) (w : World) : Except Failure Nat × World :=
  let (result, m) := r.perform cwd (Machine.initial w)
  (result, m.world)

end Tasklang.CommandLine
