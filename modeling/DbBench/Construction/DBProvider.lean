import DbBench.Construction.Clear

/-
This file contains the provider, which makes the directory of a database and an adapter for it.
-/

namespace DbBench

/-- The adapters implement one interface. -/
inductive Backend where
  | levelDB
  | rocksDB
  | redisDB
  | lmdb
  deriving DecidableEq

/-- The switch of the provider takes a LevelDB for every other number. -/
def Backend.ofType (dbType : Int) : Backend :=
  if dbType = 0 then .levelDB
  else if dbType = 1 then .rocksDB
  else if dbType = 2 then .redisDB
  else if dbType = 3 then .lmdb
  else .levelDB

/-- The command is `"mkdir -p "` with the name behind it. -/
def creation (dbname : Bytes) : Bytes := [109, 107, 100, 105, 114, 32, 45, 112, 32] ++ dbname

section
variable {World : Type}

/-- `create` keeps the adapter as its member and opens it. The new adapter's `open` is given by the
backend. -/
def DBProvider.create (shell : Shell World) (opens : Backend → Bytes → World → Bool × World)
    (dbname : Bytes) (dbType : Int) (world : World) : Bool × Backend × World :=
  let world :=
    if !shell.stat dbname world then shell.system (creation dbname) world else world
  let db := Backend.ofType dbType
  let (ok, world) := opens db dbname world
  (ok, db, world)

/-- `createSingle` leaves the opening to its caller. -/
def DBProvider.createSingle (shell : Shell World) (dbname : Bytes) (dbType : Int) (world : World) :
    Backend × World :=
  let world :=
    if !shell.stat dbname world then shell.system (creation dbname) world else world
  (Backend.ofType dbType, world)

end

end DbBench
