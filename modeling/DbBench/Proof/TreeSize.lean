import DbBench.Spec.DirectoryTree

namespace DbBench

/-- The sum of the variable and of the size of a subtree keeps its low 32 bits. -/
theorem add_subtree (size : Int32) (below : Nat) :
    (size.toInt64 + (Int32.ofNat below).toInt64).toInt32 = size + Int32.ofNat below := by
  rw [Int64.toInt32_add, Int32.toInt32_toInt64, Int32.toInt32_toInt64]

/-- The sum of the variable and of the size of a file keeps its low 32 bits. -/
theorem add_file (size : Int32) (fileSize : UInt64) :
    (size.toInt64.toUInt64 + fileSize).toInt64.toInt32 = size + Int32.ofNat fileSize.toNat := by
  have low : fileSize.toInt64.toInt32 = Int32.ofNat fileSize.toNat := by
    apply Int32.toBitVec_inj.mp
    rw [Int64.toBitVec_toInt32, UInt64.toBitVec_toInt64,
      BitVec.signExtend_eq_setWidth_of_le _ (by decide)]
    rfl
  rw [UInt64.toInt64_add, Int64.toInt64_toUInt64, Int64.toInt32_add, Int32.toInt32_toInt64, low]

/-- The scan of a directory is its loop. -/
theorem treeSize_directory {fs : FileSystem} {path : Bytes} (kind : fs.status path = .directory)
    (fuel : Nat) : treeSize fs (fuel + 1) path =
      ((fs.entries path).foldlM (addEntry fs (treeSize fs fuel)) 0).map Int32.toInt64 := by
  simp only [treeSize, FileSystem.exists, FileSystem.isDirectory, kind]
  cases (fs.entries path).foldlM (addEntry fs (treeSize fs fuel)) 0 <;> rfl

/-- The loop over the entries of a directory adds up what lies below them, modulo 2 ^ 32. -/
theorem scan_spec {fs : FileSystem} (trees : Forest) {paths : List Bytes} {fuel : Nat}
    (size : Int32) (holds : fs.HoldsAll paths trees) (deep : Forest.depth trees ≤ fuel) :
    paths.foldlM (addEntry fs (treeSize fs fuel)) size =
      some (size + Int32.ofNat (Forest.total trees)) := by
  match trees, paths, holds with
  | [], [], _ => simp [Forest.total]
  | tree :: rest, path :: paths, ⟨here, others⟩ =>
      simp only [Forest.depth, Nat.max_le] at deep
      obtain ⟨shallow, deep⟩ := deep
      have entry : addEntry fs (treeSize fs fuel) size path =
          some (size + Int32.ofNat tree.total) := by
        match tree, here with
        | .regular fileSize, ⟨kind, own⟩ =>
            simp only [addEntry, FileSystem.isDirectory, FileSystem.isRegularFile, kind, own]
            simp only [reduceCtorEq, decide_false, decide_true, if_true, Bool.false_eq_true, if_false]
            rw [add_file]
            rfl
        | .other, ⟨noFile, noDirectory⟩ =>
            simp [addEntry, FileSystem.isDirectory, FileSystem.isRegularFile, noFile, noDirectory,
              Tree.total]
        | .directory entries, ⟨kind, inside⟩ =>
            obtain ⟨fuel, rfl⟩ : ∃ less, fuel = less + 1 :=
              ⟨fuel - 1, by simp only [Tree.depth] at shallow; omega⟩
            have below := scan_spec entries 0 inside (Nat.le_of_succ_le_succ shallow)
            have scanned := treeSize_directory kind fuel
            rw [below, Int32.zero_add, Option.map_some] at scanned
            simp only [addEntry, FileSystem.isDirectory, kind, decide_true, if_true, scanned, bind,
              Option.bind_some]
            rw [add_subtree]
            rfl
      rw [List.foldlM_cons, entry]
      have later := scan_spec rest (size + Int32.ofNat tree.total) others deep
      refine later.trans ?_
      rw [Forest.total, Int32.ofNat_add, Int32.add_assoc]

/-- With fuel for its depth the scan of a directory returns the low 32 bits of the total. -/
theorem treeSize_spec {fs : FileSystem} {root : Bytes} {entries : Forest}
    (holds : fs.Holds root (.directory entries)) {fuel : Nat}
    (deep : (Tree.directory entries).depth ≤ fuel) :
    treeSize fs fuel root = some (Int32.ofNat (Tree.directory entries).total).toInt64 := by
  obtain ⟨fuel, rfl⟩ : ∃ less, fuel = less + 1 :=
    ⟨fuel - 1, by simp only [Tree.depth] at deep; omega⟩
  have scanned := scan_spec entries 0 holds.2 (Nat.le_of_succ_le_succ deep)
  rw [treeSize_directory holds.1, scanned, Int32.zero_add]
  rfl

/-- The low 32 bits of a number are the number itself exactly below 2 ^ 31. -/
theorem wrapped_eq_iff (total : Nat) :
    (Int32.ofNat total).toInt64.toInt = total ↔ total < 2 ^ 31 := by
  rw [Int32.toInt_toInt64, Int32.toInt_ofNat']
  constructor
  · intro exact
    have bound : (total : Int).bmod Int32.size < (Int32.size + 1) / 2 := Int.bmod_lt (by decide)
    rw [exact] at bound
    have half : ((Int32.size : Int) + 1) / 2 = 2 ^ 31 := rfl
    omega
  · intro small
    have half : ((Int32.size : Int) + 1) / 2 = 2 ^ 31 := rfl
    exact Int.bmod_eq_of_le (by omega) (by omega)

theorem returnsExactly_iff {fs : FileSystem} {root : Bytes} {entries : Forest}
    (holds : fs.Holds root (.directory entries)) :
    ReturnsExactly fs root (Tree.directory entries).total ↔
      (Tree.directory entries).total < 2 ^ 31 := by
  rw [← wrapped_eq_iff]
  constructor
  · rintro ⟨enough, exact⟩
    obtain ⟨size, scanned, equal⟩ := exact (max enough (Tree.directory entries).depth)
      (Nat.le_max_left _ _)
    rw [treeSize_spec holds (Nat.le_max_right _ _)] at scanned
    rw [← equal, ← Option.some.inj scanned]
  · intro equal
    exact ⟨_, fun fuel deep => ⟨_, treeSize_spec holds deep, equal⟩⟩

/-- The directory `d` holds one file `d/a`. -/
def oneFile (size : UInt64) : FileSystem where
  status path :=
    if path = [100] then .directory else if path = [100, 47, 97] then .regular else .notFound
  entries path := if path = [100] then [[100, 47, 97]] else []
  fileSize _ := size

theorem oneFile_holds (size : UInt64) :
    (oneFile size).Holds [100] (.directory [.regular size]) :=
  ⟨rfl, ⟨rfl, rfl⟩, trivial⟩

/-- The scan of a directory tree ends, and it returns the sum of the sizes of the regular files
exactly when the sum fits an `int`. -/
theorem treeSize_exact_iff (fs : FileSystem) (root : Bytes) (entries : Forest)
    (holds : fs.Holds root (.directory entries)) :
    ScanEnds fs root ∧ (ReturnsExactly fs root (Tree.directory entries).total ↔
      (Tree.directory entries).total < 2 ^ 31) :=
  ⟨⟨_, fun _ deep => ⟨_, treeSize_spec holds deep⟩⟩, returnsExactly_iff holds⟩

/-- The directory `d` holds a file `d/a` and a directory `d/b` with a file and a pipe. -/
def nested : FileSystem where
  status path :=
    if path = [100] ∨ path = [100, 47, 98] then .directory
    else if path = [100, 47, 97] ∨ path = [100, 47, 98, 47, 99] then .regular
    else if path = [100, 47, 98, 47, 112] then .fifo
    else .notFound
  entries path :=
    if path = [100] then [[100, 47, 97], [100, 47, 98]]
    else if path = [100, 47, 98] then [[100, 47, 98, 47, 99], [100, 47, 98, 47, 112]] else []
  fileSize path := if path = [100, 47, 97] then 5 else 7

theorem treeSize_exact_iff_small : ReturnsExactly nested [100] 12 := by
  have holds : nested.Holds [100]
      (.directory [.regular 5, .directory [.regular 7, .other]]) :=
    ⟨rfl, ⟨rfl, rfl⟩, ⟨rfl, ⟨rfl, rfl⟩, ⟨by decide, by decide⟩, trivial⟩, trivial⟩
  exact (treeSize_exact_iff nested [100] _ holds).2.mpr (by decide)

/-- One file of 2 ^ 31 bytes counts as less than nothing. -/
example : (treeSize (oneFile 2147483648) 2 [100]).map Int64.toInt = some (-2147483648) := by decide

/-- The scan does not return the total of every directory tree below 2 ^ 63 bytes. -/
theorem treeSize_wraps :
    ¬ ∀ (fs : FileSystem) (root : Bytes) (entries : Forest),
      fs.Holds root (.directory entries) → (Tree.directory entries).total < 2 ^ 63 →
      ReturnsExactly fs root (Tree.directory entries).total := by
  intro claim
  have returned := claim (oneFile 2147483648) [100] [.regular 2147483648] (oneFile_holds _)
    (by decide)
  rw [returnsExactly_iff (oneFile_holds _)] at returned
  exact absurd returned (by decide)

end DbBench
