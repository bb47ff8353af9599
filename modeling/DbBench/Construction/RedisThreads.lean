import DbBench.Construction.Clear

/-
This file contains the operations of the Redis adapter as several threads run them on one object.
The mutex is held between `lock` and `unlock`, and a library call that throws leaves the operation
from between them.
-/

namespace DbBench

open KeyValue Transition

/-- A thread has made no call yet, waits before `lock`, holds the mutex before or after its library
call, or has finished its operation. -/
inductive RedisPhase where
  | idle
  | called (operation : Operation)
  | locked (operation : Operation)
  | performed (reply : Reply)
  | finished (reply : Reply)
  deriving DecidableEq

/-- The threads share the object and the server. The owner of the mutex is kept beside it. -/
structure RedisThreads (ι : Type) where
  object : RedisDB
  server : RedisServer
  owner : Option ι
  phase : ι → RedisPhase

/-- A thread starts an operation, or takes the next step of the one it is in. The flag says whether
the library call of that step throws. -/
inductive RedisStep (ι : Type) where
  | issue (i : ι) (operation : Operation)
  | advance (i : ι) (throws : Bool)

/-- This is the library call of an operation that holds the mutex. -/
def RedisServer.perform (server : RedisServer) : Operation → Reply × RedisServer
  | .call (.get key) => (shown (server.data key), server)
  | .call (.put key value) => (.flag true, {server with data := server.data.write (.put key value)})
  | .call (.putBatch key value) =>
      (.flag true, {server with data := server.data.write (.put key value)})
  | .call (.del key) =>
      (.flag (server.data key).isSome, {server with data := server.data.write (.delete key)})
  | .call (.delBatch key) =>
      (.flag (server.data key).isSome, {server with data := server.data.write (.delete key)})
  | .call .applyBatch => (.flag true, server)
  | .clear => (.unit, {server with data := Store.empty})

section
variable {ι : Type} [DecidableEq ι]

def RedisThreads.setPhase (threads : RedisThreads ι) (i : ι) (phase : RedisPhase) : RedisThreads ι :=
  {threads with phase := Function.update threads.phase i phase}

/-- This is `mtx.lock()`. A thread that meets a taken mutex waits. -/
def RedisThreads.lock (threads : RedisThreads ι) (i : ι) (operation : Operation) : RedisThreads ι :=
  match threads.object.lock with
  | .error _ => threads
  | .ok object =>
      {threads with object := object, owner := some i}.setPhase i (.locked operation)

/-- An exception leaves the operation at once, so only a call that returns reaches `unlock`. -/
def RedisThreads.perform (threads : RedisThreads ι) (i : ι) (operation : Operation)
    (throws : Bool) : Except Misuse (RedisThreads ι) := do
  threads.server.client threads.object.redis
  if throws then pure (threads.setPhase i (.finished .threw))
  else
    let (reply, server) := threads.server.perform operation
    pure ({threads with server := server}.setPhase i (.performed reply))

/-- This is `mtx.unlock()`, after which the operation returns. -/
def RedisThreads.unlock (threads : RedisThreads ι) (i : ι) (reply : Reply) : RedisThreads ι :=
  {threads with object := threads.object.unlock, owner := none}.setPhase i (.finished reply)

/-- A schedule picks the thread that takes the next step. `applyBatch` takes no mutex. -/
def RedisDB.schedule : Machine (RedisThreads ι) (RedisStep ι) Unit Misuse
  | threads, .issue i operation =>
      match threads.phase i with
      | .idle => .ok ((), threads.setPhase i (.called operation))
      | .finished _ => .ok ((), threads.setPhase i (.called operation))
      | _ => .ok ((), threads)
  | threads, .advance i throws =>
      match threads.phase i with
      | .called (.call .applyBatch) => .ok ((), threads.setPhase i (.finished (.flag true)))
      | .called operation => .ok ((), threads.lock i operation)
      | .locked operation => do
          let threads ← threads.perform i operation throws
          pure ((), threads)
      | .performed reply => .ok ((), threads.unlock i reply)
      | _ => .ok ((), threads)

end

/-- No thread has made a call. -/
def RedisThreads.start (ι : Type) (state : RedisDB × RedisServer) : RedisThreads ι :=
  ⟨state.1, state.2, none, fun _ => .idle⟩

end DbBench
