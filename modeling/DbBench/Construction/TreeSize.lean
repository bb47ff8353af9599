import DbBench.Construction.StateDB

/-
This file contains the scan of a directory that the benchmark reports as the size of its data.
-/

namespace DbBench

/-- The library tells these kinds of files apart. -/
inductive FileType where
  | none
  | notFound
  | regular
  | directory
  | symlink
  | block
  | character
  | fifo
  | socket
  | unknown
  deriving DecidableEq

/-- The file system does not change during a scan. The entries of a directory come in any order. -/
structure FileSystem where
  status : Bytes → FileType
  entries : Bytes → List Bytes
  fileSize : Bytes → UInt64

def FileSystem.exists (fs : FileSystem) (path : Bytes) : Bool :=
  fs.status path ≠ .none && fs.status path ≠ .notFound

def FileSystem.isDirectory (fs : FileSystem) (path : Bytes) : Bool := fs.status path = .directory

def FileSystem.isRegularFile (fs : FileSystem) (path : Bytes) : Bool := fs.status path = .regular

/-- One entry adds to `size`. The variable is an `int`, since `auto` takes the type of the literal
0. A `long` sum and a `uintmax_t` sum keep their low 32 bits when they are assigned to it. -/
def addEntry (fs : FileSystem) (below : Bytes → Option Int64) (size : Int32) (entry : Bytes) :
    Option Int32 := do
  if fs.isDirectory entry then
    let added ← below entry
    pure (size.toInt64 + added).toInt32
  else if fs.isRegularFile entry then
    pure (size.toInt64.toUInt64 + fs.fileSize entry).toInt64.toInt32
  else pure size

/-- The recursion goes at most `fuel` directories deep. The returned `int` becomes a `long`. -/
def treeSize (fs : FileSystem) : Nat → Bytes → Option Int64
  | 0, _ => none
  | fuel + 1, pathToShow => do
      let size : Int32 := 0
      let size ← if fs.exists pathToShow && fs.isDirectory pathToShow then
          (fs.entries pathToShow).foldlM (addEntry fs (treeSize fs fuel)) size
        else pure size
      pure size.toInt64

end DbBench
