import DbBench.Construction.FreelistSave
import DbBench.Library.Transition

/-
This file contains the transactions of liblmdb as threads take their steps in any order: readers
with their slots in the lock file, the writer that holds the mutex, the commit and its meta page,
and the start after a crash.
-/

namespace DbBench

open Cells Transition

variable {Page : Type}

/-- What the roots of the two core databases lead to, with the number of the commit that made them.
The image is what the pages hold at the time of the commit. -/
structure Dbs (Page : Type) where
  commit : Nat
  inUse : Finset Nat
  freeDB : List FreeRecord
  image : Nat → Page

structure Meta (Page : Type) where
  txnid : Nat
  lastPg : Nat
  dbs : Dbs Page

/-- A slot of the reader table. A reader without a transaction has no number there. -/
structure Slot where
  pid : Bool
  txnid : Option Nat
  deriving DecidableEq

/-- A thread that reads, with the index of its slot. It copies the roots, then the number of pages,
and looks at the environment last. -/
inductive Reader (Page : Type) where
  | out
  | waiting (slot : Nat)
  | loaded (slot txnid : Nat)
  | announced (slot txnid : Nat)
  | begun (slot txnid : Nat)
  | copied (slot txnid : Nat) (dbs : Dbs Page)
  | sized (slot txnid : Nat) (dbs : Dbs Page) (nextPgno : Nat)
  | reading (slot txnid : Nat) (dbs : Dbs Page) (nextPgno : Nat)

/-- The writer looks for the oldest reader, slot by slot, while it works. The commit writes the
pages ahead, syncs the file and writes the meta page. When this write fails, the numbers that the
page had are written back and the environment is marked. -/
inductive WriterPhase (Page : Type) where
  | working
  | scanning (i oldest : Nat)
  | flushing (dbs : Dbs Page) (ahead : List (Nat × Page))
  | synced (dbs : Dbs Page)
  | written
  | unwritten (txnid lastPg : Nat) (dbs : Dbs Page)
  | writtenBack
  | failed

/-- `found` collects what `mdb_find_oldest` has returned. -/
structure Writer (Page : Type) where
  txn : WriteTxn Page
  found : List Nat
  phase : WriterPhase Page

/-- The data file, its two meta pages, the lock file and the threads of the environment. The disk
may hold any of the listed contents of a meta page, where `none` is no meta page at all. -/
structure World (Page : Type) where
  file : File Page
  metas : Bool → Meta Page
  disk : Bool → List (Option (Meta Page))
  mtiTxnid : Nat
  numReaders : Nat
  slots : Nat → Slot
  readers : Nat → Reader Page
  env : EnvPages
  freePgs : Midl
  writer : Option (Writer Page)
  fatal : Bool

/-- The thread of a reader, the writer or the machine makes a step. -/
inductive Event (Page : Type) where
  | claim (thread : Nat)
  | load (thread : Nat)
  | announce (thread : Nat)
  | validate (thread : Nat)
  | copyDbs (thread : Nat)
  | copyLastPg (thread : Nat)
  | check (thread : Nat)
  | fetch (thread pgno : Nat)
  | endRead (thread : Nat)
  | exit (thread : Nat)
  | begin
  | scanStart
  | scanSlot
  | op (op : PageOp Page)
  | save (saving : SaveCalls Page)
  | flush
  | sync
  | writeMeta
  | failMeta (cached : Bool)
  | writeBack (success : Bool)
  | markFatal
  | publish
  | endTxn
  | crash (lost : Nat → Page) (kept : Bool → Nat)

/-- These are the return codes of the calls, next to the ones of the page functions. -/
inductive TxnRc where
  | readersFull
  | panic
  | mapResized
  | badTxn
  | pageNotFound
  | io
  deriving DecidableEq

inductive Answer (Page : Type) where
  | done
  | page (page : Page)
  | failed (rc : TxnRc)
  | failedOp (rc : PageRc)

/-- The library has room for this many readers. -/
def defaultReaders : Nat := 126

/-- `mt_txnid & 1` chooses the meta page. -/
def toggle (txnid : Nat) : Bool := decide (txnid % 2 = 1)

/-- The first slot without a process, or the next one behind the table. -/
def freeSlot (slots : Nat → Slot) (nr : Nat) : Nat :=
  ((List.range nr).find? fun i => (slots i).pid = false).getD nr

/-- One round of the loop in `mdb_find_oldest`. -/
def olderReader (slot : Slot) (oldest : Nat) : Nat :=
  match slot.pid, slot.txnid with
  | true, some mr => if oldest > mr then mr else oldest
  | _, _ => oldest

/-- Both meta pages tell which one is newer. -/
def pickMeta (metas : Bool → Meta Page) : Meta Page :=
  metas (decide ((metas false).txnid < (metas true).txnid))

/-- What a page holds for the transaction: its memory when the page is dirty, and the file else. -/
def WriteTxn.view (txn : WriteTxn Page) (file : File Page) (pgno : Nat) : Page :=
  ((txn.dirtyList.find? fun dirty => decide (Spans dirty.span pgno)).bind fun dirty =>
    dirty.pages[pgno - dirty.pgno]?).getD (file.pages pgno)

/-- The flush writes these pages in this order. -/
def WriteTxn.ahead (txn : WriteTxn Page) : List (Nat × Page) :=
  txn.dirtyList.flatMap fun dirty =>
    dirty.pages.zipIdx.map fun (page, k) => (dirty.pgno + k, page)

/-- The call uses a result of `mdb_find_oldest`. -/
def PageOp.uses (op : PageOp Page) (found : List Nat) : Bool :=
  match op with
  | .touch _ oldest _ => decide (oldest ∈ found)
  | .new _ oldest _ => decide (oldest ∈ found)
  | _ => true

def TreeCall.uses (call : TreeCall Page) (found : List Nat) : Bool :=
  call.search.all (·.uses found) && call.ops.all (·.uses found)

def SaveCalls.uses (saving : SaveCalls Page) (found : List Nat) : Bool :=
  saving.search.all (·.uses found) && saving.calls.all (·.uses found)

def World.setReader (world : World Page) (thread : Nat) (reader : Reader Page) : World Page :=
  {world with readers := Function.update world.readers thread reader}

def World.setSlot (world : World Page) (slot : Nat) (value : Slot) : World Page :=
  {world with slots := Function.update world.slots slot value}

/-- A new reader takes a slot. -/
def World.claim (world : World Page) (thread : Nat) : Except Stop (Answer Page × World Page) :=
  match world.readers thread with
  | .out =>
      let i := freeSlot world.slots world.numReaders
      if i = defaultReaders then .ok (.failed .readersFull, world)
      else
        .ok (.done, {(world.setSlot i ⟨true, none⟩).setReader thread (.waiting i) with
          numReaders := if i = world.numReaders then world.numReaders + 1 else world.numReaders})
  | _ => .error .disabled

/-- `r->mr_txnid = ti->mti_txnid` is a load and a store. -/
def World.load (world : World Page) (thread : Nat) : Except Stop (Answer Page × World Page) :=
  match world.readers thread with
  | .waiting slot => .ok (.done, world.setReader thread (.loaded slot world.mtiTxnid))
  | _ => .error .disabled

def World.announce (world : World Page) (thread : Nat) : Except Stop (Answer Page × World Page) :=
  match world.readers thread with
  | .loaded slot txnid =>
      .ok (.done, (world.setSlot slot {world.slots slot with txnid := some txnid}).setReader thread
        (.announced slot txnid))
  | _ => .error .disabled

/-- `while (r->mr_txnid != ti->mti_txnid)`. -/
def World.validate (world : World Page) (thread : Nat) : Except Stop (Answer Page × World Page) :=
  match world.readers thread with
  | .announced slot txnid =>
      .ok (.done, world.setReader thread
        (if txnid = world.mtiTxnid then .begun slot txnid else .waiting slot))
  | _ => .error .disabled

/-- The end of a read transaction clears its number in the slot. -/
def World.leaveSlot (world : World Page) (thread slot : Nat) : World Page :=
  (world.setSlot slot {world.slots slot with txnid := none}).setReader thread (.waiting slot)

/-- The reader copies the roots from the meta page of its number. -/
def World.copyDbs (world : World Page) (thread : Nat) : Except Stop (Answer Page × World Page) :=
  match world.readers thread with
  | .begun slot txnid =>
      .ok (.done, world.setReader thread (.copied slot txnid (world.metas (toggle txnid)).dbs))
  | _ => .error .disabled

/-- The number of pages comes from the same meta page, which may hold a later commit now. -/
def World.copyLastPg (world : World Page) (thread : Nat) : Except Stop (Answer Page × World Page) :=
  match world.readers thread with
  | .copied slot txnid dbs =>
      let nextPgno := (world.metas (toggle txnid)).lastPg + 1
      .ok (.done, world.setReader thread (.sized slot txnid dbs nextPgno))
  | _ => .error .disabled

def World.check (world : World Page) (thread : Nat) : Except Stop (Answer Page × World Page) :=
  match world.readers thread with
  | .sized slot txnid dbs nextPgno =>
      if world.fatal then .ok (.failed .panic, world.leaveSlot thread slot)
      else if world.env.maxpg < nextPgno then
        .ok (.failed .mapResized, world.leaveSlot thread slot)
      else .ok (.done, world.setReader thread (.reading slot txnid dbs nextPgno))
  | _ => .error .disabled

/-- A reader gets the pages that its roots lead to from the map. -/
def World.fetch (world : World Page) (thread pgno : Nat) : Except Stop (Answer Page × World Page) :=
  match world.readers thread with
  | .reading _ _ dbs nextPgno =>
      if pgno ∈ dbs.inUse then
        if pgno ≥ nextPgno then .ok (.failed .pageNotFound, world)
        else .ok (.page (world.file.pages pgno), world)
      else .error .disabled
  | _ => .error .disabled

def World.endRead (world : World Page) (thread : Nat) : Except Stop (Answer Page × World Page) :=
  match world.readers thread with
  | .reading slot _ _ _ => .ok (.done, world.leaveSlot thread slot)
  | _ => .error .disabled

/-- The end of a thread gives its slot back. -/
def World.exit (world : World Page) (thread : Nat) : Except Stop (Answer Page × World Page) :=
  match world.readers thread with
  | .waiting slot =>
      .ok (.done, (world.setSlot slot {world.slots slot with pid := false}).setReader thread .out)
  | _ => .error .disabled

/-- The writer holds the mutex from here on. -/
def World.begin (world : World Page) : Except Stop (Answer Page × World Page) :=
  match world.writer with
  | some _ => .error .disabled
  | none =>
      let page := world.metas (toggle world.mtiTxnid)
      match write world.freePgs.ids 0 0 with
      | none => .error .assertion
      | some ids =>
          let txn : WriteTxn Page :=
            { txnid := world.mtiTxnid + 1
              nextPgno := page.lastPg + 1
              inUse := page.dbs.inUse
              freeDB := page.dbs.freeDB
              dirtyList := []
              dirtyRoom := midlUmMax
              spillPgs := []
              loosePgs := []
              freePgs := {world.freePgs with ids := ids}
              pghead := none
              pglast := 0
              error := false }
          if world.fatal then .ok (.failed .panic, world)
          else if world.env.maxpg < txn.nextPgno then .ok (.failed .mapResized, world)
          else .ok (.done, {world with writer := some ⟨txn, [], .working⟩})

/-- The environment keeps the list of the freed pages for the next transaction. -/
def World.ended (world : World Page) (txn : WriteTxn Page) : World Page :=
  {world with freePgs := txn.freePgs.shrink false, writer := none}

def World.scanStart (world : World Page) : Except Stop (Answer Page × World Page) :=
  match world.writer with
  | some ⟨txn, found, .working⟩ =>
      .ok (.done,
        {world with writer := some ⟨txn, found, .scanning world.numReaders (txn.txnid - 1)⟩})
  | _ => .error .disabled

def World.scanSlot (world : World Page) : Except Stop (Answer Page × World Page) :=
  match world.writer with
  | some ⟨txn, found, .scanning (i + 1) oldest⟩ =>
      let oldest := olderReader (world.slots i) oldest
      .ok (.done, {world with writer := some ⟨txn, found, .scanning i oldest⟩})
  | some ⟨txn, found, .scanning 0 oldest⟩ =>
      .ok (.done, {world with writer := some ⟨txn, oldest :: found, .working⟩})
  | _ => .error .disabled

def Answer.ofRc (rc : Except PageRc Unit) : Answer Page :=
  match rc with
  | .ok () => .done
  | .error rc => .failedOp rc

/-- A call of the trees. -/
def World.op (world : World Page) (op : PageOp Page) : Except Stop (Answer Page × World Page) :=
  match world.writer with
  | some ⟨txn, found, .working⟩ =>
      if op.uses found then do
        let (rc, work) ← op.perform ⟨world.env, txn, world.file⟩
        .ok (.ofRc rc, {world with
          env := work.env, file := work.file, writer := some ⟨work.txn, found, .working⟩})
      else .error .disabled
  | _ => .error .disabled

/-- The commit starts with the free lists. -/
def World.save (world : World Page) (saving : SaveCalls Page) :
    Except Stop (Answer Page × World Page) :=
  match world.writer with
  | some ⟨txn, found, .working⟩ =>
      if txn.error then .ok (.failed .badTxn, world.ended txn)
      else if saving.uses found then do
        let (rc, work) ← freelistSave saving ⟨world.env, txn, world.file⟩
        let world := {world with env := work.env, file := work.file}
        match rc with
        | .error rc => .ok (.failedOp rc, world.ended work.txn)
        | .ok () =>
            let dbs := ⟨work.txn.txnid, work.txn.inUse, work.txn.freeDB, work.txn.view work.file⟩
            .ok (.done, {world with writer := some ⟨work.txn, found, .flushing dbs work.txn.ahead⟩})
      else .error .disabled
  | _ => .error .disabled

def World.flush (world : World Page) : Except Stop (Answer Page × World Page) :=
  match world.writer with
  | some ⟨txn, found, .flushing dbs ((pgno, page) :: ahead)⟩ =>
      .ok (.done, {world with
        file := world.file.write pgno [page]
        writer := some ⟨txn, found, .flushing dbs ahead⟩})
  | _ => .error .disabled

/-- The sync reaches the meta pages as well. -/
def World.sync (world : World Page) : Except Stop (Answer Page × World Page) :=
  match world.writer with
  | some ⟨txn, found, .flushing dbs []⟩ =>
      .ok (.done, {world with
        file := {world.file with unsynced := []}
        disk := fun odd => [some (world.metas odd)]
        writer := some ⟨txn, found, .synced dbs⟩})
  | _ => .error .disabled

/-- The meta page of the commit. -/
def WriteTxn.page (txn : WriteTxn Page) (dbs : Dbs Page) : Meta Page :=
  ⟨txn.txnid, txn.nextPgno - 1, dbs⟩

/-- A meta page that is written through the descriptor that syncs is on the disk. -/
def World.writeMeta (world : World Page) : Except Stop (Answer Page × World Page) :=
  match world.writer with
  | some ⟨txn, found, .synced dbs⟩ =>
      .ok (.done, {world with
        metas := Function.update world.metas (toggle txn.txnid) (txn.page dbs)
        disk := Function.update world.disk (toggle txn.txnid) [some (txn.page dbs)]
        writer := some ⟨txn, found, .written⟩})
  | _ => .error .disabled

/-- The cache takes a meta page or does not. -/
def putMeta (metas : Bool → Meta Page) (odd : Bool) (page : Meta Page) (cached : Bool) :
    Bool → Meta Page :=
  if cached then Function.update metas odd page else metas

/-- A write that fails may leave the new page in the cache, and some day on the disk. -/
def World.failMeta (world : World Page) (cached : Bool) : Except Stop (Answer Page × World Page) :=
  match world.writer with
  | some ⟨txn, found, .synced dbs⟩ =>
      let odd := toggle txn.txnid
      let metab := world.metas odd
      .ok (.failed .io, {world with
        metas := putMeta world.metas odd (txn.page dbs) cached
        disk := Function.update world.disk odd (some (txn.page dbs) :: world.disk odd)
        writer := some ⟨txn, found, .unwritten metab.txnid metab.lastPg dbs⟩})
  | _ => .error .disabled

/-- The old numbers with the new roots go through the descriptor that does not sync. Nobody looks at
the result of this write. -/
def World.writeBack (world : World Page) (success : Bool) :
    Except Stop (Answer Page × World Page) :=
  match world.writer with
  | some ⟨txn, found, .unwritten txnid lastPg dbs⟩ =>
      let odd := toggle txn.txnid
      let back : Meta Page := ⟨txnid, lastPg, dbs⟩
      .ok (.done, {world with
        metas := putMeta world.metas odd back success
        disk := Function.update world.disk odd (some back :: world.disk odd)
        writer := some ⟨txn, found, .writtenBack⟩})
  | _ => .error .disabled

/-- The environment takes no more transactions. -/
def World.markFatal (world : World Page) : Except Stop (Answer Page × World Page) :=
  match world.writer with
  | some ⟨txn, found, .writtenBack⟩ =>
      .ok (.done, {world with fatal := true, writer := some ⟨txn, found, .failed⟩})
  | _ => .error .disabled

/-- The new number becomes visible, and the writer leaves the mutex. -/
def World.publish (world : World Page) : Except Stop (Answer Page × World Page) :=
  match world.writer with
  | some ⟨txn, _, .written⟩ =>
      .ok (.done, {world.ended txn with mtiTxnid := txn.txnid})
  | _ => .error .disabled

/-- A transaction ends without a commit on request or after a failure. -/
def World.endTxn (world : World Page) : Except Stop (Answer Page × World Page) :=
  match world.writer with
  | none => .error .disabled
  | some ⟨_, _, .written⟩ => .error .disabled
  | some ⟨_, _, .unwritten _ _ _⟩ => .error .disabled
  | some ⟨_, _, .writtenBack⟩ => .error .disabled
  | some ⟨txn, _, _⟩ => .ok (.done, world.ended txn)

/-- A new environment has an empty list for the freed pages. -/
def newFreePgs : Midl := ⟨midlUmMax, Array.replicate (midlUmMax + 1) 0⟩

/-- A new environment with room for `maxpg` pages. Its meta pages are not synced. -/
def World.create (pages : Nat → Page) (maxpg maxfree1pg : Nat) : World Page :=
  let first : Meta Page := ⟨0, 1, ⟨0, ∅, [], pages⟩⟩
  { file := ⟨pages, []⟩
    metas := fun _ => first
    disk := fun _ => [none, some first]
    mtiTxnid := 0
    numReaders := 0
    slots := fun _ => ⟨false, none⟩
    readers := fun _ => .out
    env := ⟨0, maxpg, maxfree1pg⟩
    freePgs := newFreePgs
    writer := none
    fatal := false }

/-- The pages that were not synced may hold anything. -/
def File.survive (file : File Page) (lost : Nat → Page) : File Page :=
  ⟨fun pgno => if pgno ∈ file.unsynced then lost pgno else file.pages pgno, []⟩

/-- The environment is opened again, and the newer meta page counts. An empty file becomes a new
environment, and a file that lacks one of the meta pages is refused. -/
def World.restart (world : World Page) (file : File Page) (found : Bool → Option (Meta Page)) :
    Option (World Page) :=
  match found false, found true with
  | some first, some second =>
      let metas := fun odd => if odd then second else first
      some
        { file := file
          metas := metas
          disk := fun odd => [some (metas odd)]
          mtiTxnid := (pickMeta metas).txnid
          numReaders := 0
          slots := fun _ => ⟨false, none⟩
          readers := fun _ => .out
          env := {world.env with pgoldest := 0}
          freePgs := newFreePgs
          writer := none
          fatal := false }
  | none, none => some (World.create file.pages world.env.maxpg world.env.maxfree1pg)
  | _, _ => none

/-- The machine stops, and `kept` tells what the disk holds of the meta pages. -/
def World.crash (world : World Page) (lost : Nat → Page) (kept : Bool → Nat) :
    Except Stop (Answer Page × World Page) :=
  match (world.disk false)[kept false]?, (world.disk true)[kept true]? with
  | some first, some second =>
      match world.restart (world.file.survive lost) fun odd => if odd then second else first with
      | some world => .ok (.done, world)
      | none => .error .refused
  | _, _ => .error .disabled

def World.step : Machine (World Page) (Event Page) (Answer Page) Stop :=
  fun world event =>
    match event with
    | .claim thread => world.claim thread
    | .load thread => world.load thread
    | .announce thread => world.announce thread
    | .validate thread => world.validate thread
    | .copyDbs thread => world.copyDbs thread
    | .copyLastPg thread => world.copyLastPg thread
    | .check thread => world.check thread
    | .fetch thread pgno => world.fetch thread pgno
    | .endRead thread => world.endRead thread
    | .exit thread => world.exit thread
    | .begin => world.begin
    | .scanStart => world.scanStart
    | .scanSlot => world.scanSlot
    | .op op => world.op op
    | .save saving => world.save saving
    | .flush => world.flush
    | .sync => world.sync
    | .writeMeta => world.writeMeta
    | .failMeta cached => world.failMeta cached
    | .writeBack success => world.writeBack success
    | .markFatal => world.markFatal
    | .publish => world.publish
    | .endTxn => world.endTxn
    | .crash lost kept => world.crash lost kept

end DbBench
