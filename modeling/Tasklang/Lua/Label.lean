import Tasklang.Lua.Syntax

/-! # Labels

Whether every jump of a function has a label to go to. A label is visible in its block and in the
blocks inside it, from its place on for jumps backward and up to its place for jumps forward; a
jump forward must not enter the scope of a local variable, unless the label ends its block.
-/

namespace Tasklang.Lua.Label

/-- A jump whose label is still to come, with the number of variables in scope where it stands. -/
structure Pending where
  label : String
  active : Nat
  deriving DecidableEq, Repr

/-- Where a label may stand: the labels that are visible, how many variables were in scope where
the block began, and whether a label at its end ends it. -/
structure Place where
  visible : List String
  start : Nat
  closing : Bool

/-- Whether a statement is a label. -/
def isLabel : Stat → Bool
  | .label _ => true
  | _ => false

/-- The jumps that still wait after a label with so many variables in scope; no value when one of
them would enter the scope of a variable. -/
def arrive (label : String) (active : Nat) : List Pending → Option (List Pending)
  | [] => some []
  | p :: ps =>
    if p.label = label then if p.active < active then none else arrive label active ps
    else (arrive label active ps).map (p :: ·)

/-- Jumps that wait after the block that they stand in. -/
def leave (active : Nat) (ps : List Pending) : List Pending := ps.map fun p => { p with active }

mutual

/-- The jumps that wait after the statements of a block, together with those that wait before;
no value when a label or a jump is wrong. `active` counts the variables in scope. -/
def block (at_ : Place) (active : Nat) (waiting : List Pending) : List Stat → Option (List Pending)
  | [] => some waiting
  | .label l :: rest =>
    if at_.visible.contains l then none
    else
      let reached := if at_.closing && rest.all isLabel then at_.start else active
      match arrive l reached waiting with
      | none => none
      | some waiting => block { at_ with visible := l :: at_.visible } active waiting rest
  | .goto l :: rest =>
    if at_.visible.contains l then block at_ active waiting rest
    else block at_ active (⟨l, active⟩ :: waiting) rest
  | .local names _ :: rest => block at_ (active + names.length) waiting rest
  | .localFunction .. :: rest => block at_ (active + 1) waiting rest
  | s :: rest =>
    match inside at_.visible active s with
    | none => none
    | some more => block at_ active (leave active more ++ waiting) rest

/-- The jumps that wait after the blocks inside a statement. -/
def inside (visible : List String) (active : Nat) : Stat → Option (List Pending)
  | .block ss => block ⟨visible, active, true⟩ active [] ss
  | .whileDo _ ss => block ⟨visible, active, true⟩ active [] ss
  | .repeatUntil ss _ => block ⟨visible, active, false⟩ active [] ss
  | .ifThen _ ss other =>
    match block ⟨visible, active, true⟩ active [] ss with
    | none => none
    | some first => (block ⟨visible, active, true⟩ active [] other).map (first ++ ·)
  | .numericFor _ _ _ _ _ ss => block ⟨visible, active + 3, true⟩ (active + 4) [] ss
  | .genericFor _ names _ ss =>
    block ⟨visible, active + 4, true⟩ (active + 4 + names.length) [] ss
  | _ => some []

end

/-- Whether all jumps in the statements of a function, apart from those in functions inside it, have
their labels. -/
def wellPlaced (params : Nat) (stats : List Stat) : Bool :=
  match block ⟨[], 0, true⟩ params [] stats with
  | some waiting => waiting.isEmpty
  | none => false

end Tasklang.Lua.Label
