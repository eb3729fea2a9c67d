/-! # Changes in place

Changes of one element of an array. They are functions of their own, so that whoever keeps an array
in a structure gives it away before it is changed, and nothing is copied.
-/

namespace Tasklang.Lua

variable {α : Type}

/-- An array with another element at a place that it has. -/
@[noinline]
def putAt (xs : Array α) (i : Nat) (x : α) : Array α := xs.setIfInBounds i x

/-- An array with the element at a place changed. -/
@[noinline]
def changeAt (xs : Array α) (i : Nat) (f : α → α) : Array α := xs.modify i f

end Tasklang.Lua
