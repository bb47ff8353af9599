import DbBench.Library.Arena
import DbBench.Construction.StateDB

/-
This file contains the Redis adapter and the client library as the adapter uses it.
-/

namespace DbBench

open KeyValue Transition

/-- All clients talk to one server. A client is live from its creation until its deletion. -/
structure RedisServer where
  data : ByteStore
  clients : Arena Unit

/-- An empty server has no client. -/
def RedisServer.blank : RedisServer := ⟨Store.empty, Arena.empty⟩

/-- The client pointer starts as a null pointer. -/
structure RedisDB where
  isOpen : Bool
  redis : Option Nat
  mtx : Bool
  deriving DecidableEq

def RedisDB.fresh : RedisDB := ⟨false, none, false⟩

/-- A client pointer must lead to a live client. -/
def RedisServer.client (server : RedisServer) : Option Nat → Except Misuse Unit
  | none => .error .handle
  | some handle => if server.clients.Live handle then .ok () else .error .handle

/-- `open` ignores the database name and connects to the socket at a fixed path. -/
def RedisDB.open (object : RedisDB) (_dbname : Bytes) (server : RedisServer) :
    Reply × RedisDB × RedisServer :=
  (.flag true, {object with redis := some server.clients.next, isOpen := true},
    {server with clients := server.clients.create ()})

/-- `close` deletes the client, where a null pointer is allowed, and keeps the pointer. -/
def RedisDB.close (object : RedisDB) (server : RedisServer) :
    Except Misuse (Reply × RedisDB × RedisServer) :=
  match object.redis with
  | none => pure (.unit, {object with isOpen := false}, server)
  | some handle => do
      server.client (some handle)
      pure (.unit, {object with isOpen := false},
        {server with clients := server.clients.release handle})

def RedisDB.opened (object : RedisDB) : Bool := object.isOpen

/-- `mtx.lock()` waits for its own holder when the mutex is taken. -/
def RedisDB.lock (object : RedisDB) : Except Misuse RedisDB :=
  if object.mtx then .error .deadlock else .ok {object with mtx := true}

def RedisDB.unlock (object : RedisDB) : RedisDB := {object with mtx := false}

/-- A library call that throws leaves the operation between `lock` and `unlock`. -/
def RedisDB.get (object : RedisDB) (key : Bytes) (throws : Bool) (server : RedisServer) :
    Except Misuse (Reply × RedisDB × RedisServer) := do
  let object ← object.lock
  server.client object.redis
  if throws then pure (.threw, object, server)
  else
    let object := object.unlock
    match server.data key with
    | some value => pure (.lookup true (some value), object, server)
    | none => pure (.lookup false none, object, server)

def RedisDB.put (object : RedisDB) (key value : Bytes) (throws : Bool) (server : RedisServer) :
    Except Misuse (Reply × RedisDB × RedisServer) := do
  let object ← object.lock
  server.client object.redis
  if throws then pure (.threw, object, server)
  else pure (.flag true, object.unlock, {server with data := server.data.write (.put key value)})

def RedisDB.putBatch (object : RedisDB) (key value : Bytes) (throws : Bool)
    (server : RedisServer) : Except Misuse (Reply × RedisDB × RedisServer) :=
  object.put key value throws server

/-- `DEL` returns the number of removed keys, which becomes the Boolean result. -/
def RedisDB.del (object : RedisDB) (key : Bytes) (throws : Bool) (server : RedisServer) :
    Except Misuse (Reply × RedisDB × RedisServer) := do
  let object ← object.lock
  server.client object.redis
  if throws then pure (.threw, object, server)
  else pure (.flag (server.data key).isSome, object.unlock,
    {server with data := server.data.write (.delete key)})

def RedisDB.delBatch (object : RedisDB) (key : Bytes) (throws : Bool) (server : RedisServer) :
    Except Misuse (Reply × RedisDB × RedisServer) := object.del key throws server

def RedisDB.applyBatch (object : RedisDB) (server : RedisServer) :
    Except Misuse (Reply × RedisDB × RedisServer) := pure (.flag true, object, server)

/-- `clear` overrides the interface and empties the server. -/
def RedisDB.clear (object : RedisDB) (throws : Bool) (server : RedisServer) :
    Except Misuse (Reply × RedisDB × RedisServer) := do
  let object ← object.lock
  server.client object.redis
  if throws then pure (.threw, object, server)
  else pure (.unit, object.unlock, {server with data := Store.empty})

/-- One data operation selects the method of its name. -/
def RedisDB.call : Machine (RedisDB × RedisServer) (Call × Bool) Reply Misuse
  | (object, server), (.get key, throws) => object.get key throws server
  | (object, server), (.put key value, throws) => object.put key value throws server
  | (object, server), (.putBatch key value, throws) => object.putBatch key value throws server
  | (object, server), (.del key, throws) => object.del key throws server
  | (object, server), (.delBatch key, throws) => object.delBatch key throws server
  | (object, server), (.applyBatch, _) => object.applyBatch server

/-- One operation of the object's life. The destructor is one more `close`. -/
def RedisDB.act : Machine (RedisDB × RedisServer) (Action × Bool) Reply Misuse
  | (object, server), (.opening dbname, _) => .ok (object.open dbname server)
  | (object, server), (.closing, _) => object.close server
  | state, (.call request, throws) => RedisDB.call state (request, throws)

end DbBench
