import DbBench.Construction.TreeSize

/-
This file states what the reported size of a directory should be: the sum of the sizes of its
regular files at every depth.
-/

namespace DbBench

/-- A directory tree without symbolic links. Sockets, pipes and devices are other files. -/
inductive Tree where
  | regular (size : UInt64)
  | other
  | directory (entries : List Tree)

/-- The entries of a directory are a list of trees. -/
abbrev Forest := List Tree

mutual
/-- The sizes of all regular files of the tree add up to this number. -/
def Tree.total : Tree → Nat
  | .regular size => size.toNat
  | .other => 0
  | .directory entries => Forest.total entries
def Forest.total : Forest → Nat
  | [] => 0
  | tree :: rest => tree.total + Forest.total rest
end

mutual
/-- A directory lies one deeper than the deepest of its entries. -/
def Tree.depth : Tree → Nat
  | .regular _ => 0
  | .other => 0
  | .directory entries => Forest.depth entries + 1
def Forest.depth : Forest → Nat
  | [] => 0
  | tree :: rest => max tree.depth (Forest.depth rest)
end

mutual
/-- The file system holds the tree under the path. -/
def FileSystem.Holds (fs : FileSystem) (path : Bytes) : Tree → Prop
  | .regular size => fs.status path = .regular ∧ fs.fileSize path = size
  | .other => fs.status path ≠ .regular ∧ fs.status path ≠ .directory
  | .directory entries => fs.status path = .directory ∧ fs.HoldsAll (fs.entries path) entries
def FileSystem.HoldsAll (fs : FileSystem) : List Bytes → Forest → Prop
  | [], [] => True
  | path :: paths, tree :: trees => fs.Holds path tree ∧ fs.HoldsAll paths trees
  | _, _ => False
end

/-- The scan of the path ends, and the number that it returns is the given one. -/
def ReturnsExactly (fs : FileSystem) (root : Bytes) (total : Nat) : Prop :=
  ∃ enough, ∀ fuel ≥ enough, ∃ size, treeSize fs fuel root = some size ∧ size.toInt = total

/-- The scan of the path ends. -/
def ScanEnds (fs : FileSystem) (root : Bytes) : Prop :=
  ∃ enough, ∀ fuel ≥ enough, ∃ size, treeSize fs fuel root = some size

end DbBench
