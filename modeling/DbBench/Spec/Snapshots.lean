import DbBench.Construction.MdbTxn

/-
This file states what liblmdb promises about its pages whatever the threads do and whenever the
machine stops: no page is lost or used twice, a reader sees its snapshot to the end, and a restart
finds a complete commit.
-/

namespace DbBench

open Transition

variable {Page : Type}

/-- How often a page number occurs in the trees and in the records. -/
def Dbs.uses (dbs : Dbs Page) (pgno : Nat) : Nat :=
  (if pgno ∈ dbs.inUse then 1 else 0) + (dbs.freeDB.flatMap FreeRecord.pages).count pgno

/-- Every page number behind the meta pages is in one tree or in one record. -/
def Meta.Accounted (page : Meta Page) : Prop :=
  ∀ pgno, page.dbs.uses pgno = if 2 ≤ pgno ∧ pgno ≤ page.lastPg then 1 else 0

/-- The file holds the pages as the commit left them. -/
def Dbs.Intact (dbs : Dbs Page) (file : File Page) : Prop :=
  ∀ pgno ∈ dbs.inUse, file.pages pgno = dbs.image pgno

/-- The commit that new transactions see accounts for all pages, and so does the newest one. -/
def World.Accounted (world : World Page) : Prop :=
  (world.metas (toggle world.mtiTxnid)).Accounted ∧ (pickMeta world.metas).Accounted

/-- The meta page of the next commit is on the disk, and the readers have not been told yet. -/
def World.written (world : World Page) : Bool :=
  match world.writer with
  | some ⟨_, _, .written⟩ => true
  | _ => false

def writesBack (writer : Option (Writer Page)) : Bool :=
  match writer with
  | some ⟨_, _, .unwritten _ _ _⟩ => true
  | some ⟨_, _, .writtenBack⟩ => true
  | _ => false

/-- The meta page of the next commit could not be written. -/
def World.failing (world : World Page) : Bool := world.fatal || writesBack world.writer

/-- The roots of a reader are the ones of the commit with its number, or of a later commit that went
to the same meta page before the reader copied them. It gets every page as it was at that commit.
Only a commit that failed to write its meta page may leave a page out of reach. -/
def World.Isolated (world : World Page) : Prop :=
  ∀ thread slot txnid dbs nextPgno, world.readers thread = .reading slot txnid dbs nextPgno →
    (txnid ≤ dbs.commit ∧ toggle dbs.commit = toggle txnid ∧ dbs.commit ≤ world.mtiTxnid + 1) ∧
    dbs.Intact world.file ∧ ∀ pgno answer next,
      world.fetch thread pgno = .ok (answer, next) → answer = .page (dbs.image pgno) ∨
        answer = .failed .pageNotFound ∧ dbs.commit = world.mtiTxnid + 1 ∧ world.failing = true

end DbBench
