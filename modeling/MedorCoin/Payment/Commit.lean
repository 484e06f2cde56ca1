/-
**The commit of a payment, and what is left of it.**

A payment is committed by calls to three stores, one after the other: a block of the engine, the
credit of what was paid too much, a record of the audit log, and the mark that it is finalized.  A
journal is written before the block and after it.  Whatever call fails, the journal is cleared, and
what has been done stays; a process that is started again takes the block back, if the journal says
that there is one, and nothing else.  A payment is kept from being committed twice by an entry that
expires after ten minutes.

Every call may fail, before or after it has had its effect, and the process may end at any time.
The engine is handed over, and the quorum and the oracle have no bodies: what they answer is chosen
by the run.

Main definitions:

* `Payment.Books` — the four effects, with `Books.effects` for those of one payment;
* `Payment.Phase`, `Payment.perform`, `Payment.next` — the calls of `_verifyAndCommit` and of
  `_recoverFromJournal`, what they do, and what comes next;
* `Payment.Event`, `Payment.step` — calls that succeed or fail, crashes, restarts, and time;
* `Payment.Books.Settled` — **the effects of every payment are all there, once, or none is**;
* `Payment.Safe` — what every step should meet.

Main results:

* `Payment.Books.Settled.complete` — a payment without effects that is given all of them;
* `Payment.Inv.step` — what every step keeps, whatever call is in progress;
* `Payment.allOrNothing_of_safe` — **commits are all-or-nothing, and happen once, while every step
  is safe**;
* `Payment.replay_blocked` — a payment is not begun twice within ten minutes;
* `Payment.not_allOrNothing_sample` — a price that is not known, and a second try after ten minutes.
-/

import MedorCoin.Cache.Forgetting
import MedorCoin.Js.Text
import MedorCoin.Transition.Run

set_option autoImplicit false

namespace Payment

open Cache (Expiring)
open Js (Str)
open Transition (EveryStep)

/-! ### The books -/

structure Task where
  txid : Str
  wallet : Str
  plan : Str
  currency : Str
  deriving DecidableEq

/-- A block of the engine, with the one update that it is committed with. -/
structure Block where
  height : ℕ
  txid : Str
  nonce : ℕ
  address : Str
  val : Str
  deriving DecidableEq

/-- What was added to a balance, and for which payment. -/
structure Credit (ν : Type) where
  txid : Str
  currency : Str
  wallet : Str
  amount : ν
  deriving DecidableEq

structure AuditData where
  wallet : Str
  txid : Str
  seq : ℕ
  nonce : ℕ
  prevHash : Str
  ts : ℕ
  deriving DecidableEq

structure AuditLine where
  data : AuditData
  hash : Str
  sig : Str
  deriving DecidableEq

/-- The mark of a payment that is finalized, and what it had to be credited, if anything. -/
structure Mark (ν : Type) where
  txid : Str
  due : Option ν
  deriving DecidableEq

/-- What payments leave behind. -/
structure Books (ν : Type) where
  blocks : List Block
  credits : List (Credit ν)
  audit : List AuditLine
  finalized : List (Mark ν)
  deriving DecidableEq

/-- What one payment leaves behind. -/
structure Effects (ν : Type) where
  blocks : ℕ
  credits : List ν
  audit : ℕ
  finalized : List (Option ν)
  deriving DecidableEq

section

variable {ν : Type}

/-- Nothing. -/
def Effects.zero : Effects ν := { blocks := 0, credits := [], audit := 0, finalized := [] }

/-- Everything, once. -/
def Effects.once (due : Option ν) : Effects ν :=
  { blocks := 1, credits := due.toList, audit := 1, finalized := [due] }

namespace Books

def empty : Books ν := { blocks := [], credits := [], audit := [], finalized := [] }

def addBlock (B : Books ν) (b : Block) : Books ν := { B with blocks := B.blocks ++ [b] }

def addCredit (B : Books ν) (c : Option (Credit ν)) : Books ν :=
  { B with credits := B.credits ++ c.toList }

def addAudit (B : Books ν) (a : AuditLine) : Books ν := { B with audit := B.audit ++ [a] }

def addMark (B : Books ν) (m : Mark ν) : Books ν := { B with finalized := B.finalized ++ [m] }

/-- `engine.rollbackBlock(seq)` -/
def rollback (B : Books ν) (seq : ℕ) : Books ν :=
  { B with blocks := B.blocks.filter fun b => b.height ≠ seq }

def effects (B : Books ν) (txid : Str) : Effects ν where
  blocks := B.blocks.countP (·.txid = txid)
  credits := (B.credits.filter (·.txid = txid)).map (·.amount)
  audit := B.audit.countP (·.data.txid = txid)
  finalized := (B.finalized.filter (·.txid = txid)).map (·.due)

/-- **The effects of every payment are all there, once, or none is.** -/
def Settled (B : Books ν) : Prop :=
  ∀ txid, B.effects txid = Effects.zero ∨ ∃ due, B.effects txid = Effects.once due

variable {B : Books ν} {b : Block} {a : AuditLine} {txid t : Str} {seq : ℕ}

theorem settled_empty : (empty : Books ν).Settled := fun _ => Or.inl rfl

theorem effects_of_ne {c : Option (Credit ν)} {m : Mark ν} (hb : b.txid ≠ t)
    (hc : ∀ x ∈ c, x.txid ≠ t) (ha : a.data.txid ≠ t) (hm : m.txid ≠ t) :
    ((((B.addBlock b).addCredit c).addAudit a).addMark m).effects t = B.effects t := by
  cases c with
  | none => simp [effects, addBlock, addCredit, addAudit, addMark, hb, ha, hm]
  | some x => simp [effects, addBlock, addCredit, addAudit, addMark, hb, hc x rfl, ha, hm]

/-- **A payment without effects that is given all of them.** -/
theorem Settled.complete {due : Option ν} {c : Option (Credit ν)} (h : B.Settled)
    (hzero : B.effects txid = Effects.zero) (hb : b.txid = txid) (ha : a.data.txid = txid)
    (hc : c.map (fun x => (x.txid, x.amount)) = due.map fun x => (txid, x)) :
    ((((B.addBlock b).addCredit c).addAudit a).addMark ⟨txid, due⟩).Settled := by
  have htxid : ∀ x ∈ c, x.txid = txid := by
    rintro x rfl
    obtain ⟨v, -, hv⟩ := Option.map_eq_some_iff.1 hc.symm
    exact (congrArg Prod.fst hv).symm
  intro t
  by_cases ht : txid = t
  · subst ht
    refine Or.inr ⟨due, ?_⟩
    simp only [effects, Effects.zero, Effects.mk.injEq] at hzero
    obtain ⟨hblocks, hcredits, haudit, hfinalized⟩ := hzero
    simp only [effects, addBlock, addCredit, addAudit, addMark, Effects.once, List.countP_append,
      List.filter_append, List.map_append, hblocks, hcredits, haudit, hfinalized, Effects.mk.injEq]
    refine ⟨by simp [hb], ?_, by simp [ha], by simp⟩
    cases c with
    | none =>
        cases due with
        | none => rfl
        | some v => cases hc
    | some x =>
        cases due with
        | none => cases hc
        | some v =>
            simp only [Option.map_some, Option.some.injEq, Prod.mk.injEq] at hc
            simp [hc.1, hc.2]
  · rw [effects_of_ne (hb ▸ ht) (fun x hx => htxid x hx ▸ ht) (ha ▸ ht) ht]
    exact h t

theorem Settled.eq_zero (h : B.Settled) (hmark : ∀ m ∈ B.finalized, m.txid ≠ txid) :
    B.effects txid = Effects.zero := by
  rcases h txid with hzero | ⟨due, honce⟩
  · exact hzero
  · have hnil : (B.effects txid).finalized = [] := by
      have hfilter : B.finalized.filter (·.txid = txid) = [] :=
        List.filter_eq_nil_iff.2 fun m hm => by simpa using hmark m hm
      simp [effects, hfilter]
    rw [honce] at hnil
    cases hnil

/-- **The last block is taken back.** -/
theorem rollback_addBlock (h : ∀ b' ∈ B.blocks, b'.height < b.height) :
    (B.addBlock b).rollback b.height = B := by
  have hfilter : B.blocks.filter (fun b' => b'.height ≠ b.height) = B.blocks :=
    List.filter_eq_self.2 fun b' hb => decide_eq_true (h b' hb).ne
  rw [rollback, addBlock, List.filter_append, hfilter]
  simp

theorem rollback_rollback (B : Books ν) (seq : ℕ) :
    (B.rollback seq).rollback seq = B.rollback seq := by
  simp [rollback]

theorem rollback_eq_self (h : ∀ b ∈ B.blocks, b.height ≠ seq) : B.rollback seq = B := by
  rw [rollback, List.filter_eq_self.2 fun b hb => decide_eq_true (h b hb)]

end Books

end

/-! ### The service -/

inductive JournalStep
  | startCommit
  | engineCommitted
  deriving DecidableEq

structure Journal where
  taskId : Str
  step : JournalStep
  seq : ℕ
  nonce : ℕ
  ts : ℕ
  deriving DecidableEq

/-- A task that has its sequence number, and what was paid for it, if the quorum knows. -/
structure Job (ν : Type) where
  task : Task
  paid : Option ν
  seq : ℕ
  nonce : ℕ
  deriving DecidableEq

/-- The call that is in progress, with what is known at that point. -/
inductive Phase (ν : Type)
  | idle
  | crashed
  /-- `_getMajorityQuorum` -/
  | quorum (task : Task)
  /-- `redis.set(cacheKey, .., "NX", "EX", 600)` -/
  | replaySet (task : Task) (paid : Option ν)
  /-- `redis.eval(script, 0, wallet)` -/
  | sequence (task : Task) (paid : Option ν)
  /-- `_writeJournal(txid, 'START_COMMIT', ..)`: the file, then the store -/
  | startFile (job : Job ν)
  | startStore (job : Job ν) (journal : Journal)
  /-- `engine.commitBlock` -/
  | commit (job : Job ν)
  /-- `_writeJournal(txid, 'ENGINE_COMMITTED', ..)` -/
  | committedFile (job : Job ν)
  | committedStore (job : Job ν) (journal : Journal)
  /-- `_getOraclePrice` -/
  | oracle (job : Job ν) (paid : ν)
  /-- `redis.hincrbyfloat` -/
  | credit (job : Job ν) (amount : ν)
  /-- `_writeChainedAudit`: the last hash, the record, the new last hash -/
  | auditHead (job : Job ν) (due : Option ν)
  | auditAppend (job : Job ν) (due : Option ν) (prevHash : Str)
  | auditSet (job : Job ν) (due : Option ν) (hash : Str)
  /-- `_clearJournal`: the file, then the store -/
  | unlink (job : Job ν) (due : Option ν)
  | hdel (job : Job ν) (due : Option ν)
  /-- `redis.sadd('mdc:finalized:txids', txid)` -/
  | finalize (job : Job ν) (due : Option ν)
  /-- `_clearJournal` where an error is caught -/
  | catchUnlink
  | catchHdel
  /-- `engine.rollbackBlock` and `_clearJournal` of `_recoverFromJournal` -/
  | rollback (seq : ℕ)
  | recoverUnlink
  | recoverHdel

/-- The numbers of the quorum and the oracle, and the hashes and signatures of the audit log. -/
structure Platform (ν : Type) where
  lt : ν → ν → Bool
  sub : ν → ν → ν
  hash : AuditData → Str
  sign : AuditData → Str → Str

/-- The clock in milliseconds; what is in the stores and in the two copies of the journal, of which
the file may be torn; and the call that is in progress. -/
structure State (ν : Type) where
  nodeId : Str
  now : ℕ
  replay : Expiring Str Str
  seq : ℕ
  nonces : Js.Map Str ℕ
  journalFile : Option (Option Journal)
  activeJournal : Option Journal
  lastHash : Option Str
  books : Books ν
  phase : Phase ν

/-- Nothing has been paid. -/
def start (ν : Type) (nodeId : Str) (now : ℕ) : State ν :=
  { nodeId := nodeId, now := now, replay := Js.Map.empty, seq := 0, nonces := Js.Map.empty
    journalFile := none, activeJournal := none, lastHash := none, books := Books.empty
    phase := .idle }

/-- How far a call got that has failed. -/
inductive Extent
  | untouched
  /-- a file was emptied, or written in part -/
  | torn
  | whole
  deriving DecidableEq

inductive Event (ν : Type)
  /-- a task is taken up -/
  | begin (task : Task)
  /-- what the quorum says was paid, `none` for an answer that has no properties -/
  | paid (value : Option ν)
  /-- the price of the oracle -/
  | price (value : ν)
  /-- the call succeeds -/
  | proceed
  /-- `commitBlock` answers `false`, or nothing, whether or not it has committed the block -/
  | refuse (done : Bool)
  /-- the call fails -/
  | fail (extent : Extent)
  /-- the process ends, at a file that may be torn -/
  | crash (torn : Bool)
  /-- the process is started again; whether it can read the journal -/
  | restart (readable : Bool)
  /-- time goes by -/
  | tick (ms : ℕ)

section

variable {ν : Type} (P : Platform ν)

def Job.block (job : Job ν) : Block :=
  { height := job.seq, txid := job.task.txid, nonce := job.nonce, address := job.task.wallet
    val := job.task.plan }

def Job.credit (job : Job ν) (amount : ν) : Credit ν :=
  { txid := job.task.txid, currency := job.task.currency, wallet := job.task.wallet
    amount := amount }

def Job.journal (job : Job ν) (step : JournalStep) (ts : ℕ) : Journal :=
  { taskId := job.task.txid, step := step, seq := job.seq, nonce := job.nonce, ts := ts }

def Job.auditData (job : Job ν) (prevHash : Str) (ts : ℕ) : AuditData :=
  { wallet := job.task.wallet, txid := job.task.txid, seq := job.seq, nonce := job.nonce
    prevHash := prevHash, ts := ts }

def auditLine (data : AuditData) : AuditLine :=
  { data := data, hash := P.hash data, sig := P.sign data (P.hash data) }

def zeroHash : Str := List.replicate 64 '0'

/-- The entry of the replay cache, if there is none. -/
def replayed? (s : State ν) (txid : Str) : Option (Expiring Str Str) :=
  s.replay.putNew? s.now txid s.nodeId (some (s.now + 600 * 1000))

/-- The nonce of a wallet. -/
def nonceOf (s : State ν) (wallet : Str) : ℕ := (s.nonces.get? wallet).getD 0

/-- What the call in progress does. -/
def perform (s : State ν) : State ν :=
  match s.phase with
  | .replaySet task _ => { s with replay := (replayed? s task.txid).getD s.replay }
  | .sequence task _ =>
      { s with
        seq := s.seq + 1
        nonces := s.nonces.set task.wallet (nonceOf s task.wallet + 1) }
  | .startFile job => { s with journalFile := some (some (job.journal .startCommit s.now)) }
  | .startStore _ journal => { s with activeJournal := some journal }
  | .commit job => { s with books := s.books.addBlock job.block }
  | .committedFile job =>
      { s with journalFile := some (some (job.journal .engineCommitted s.now)) }
  | .committedStore _ journal => { s with activeJournal := some journal }
  | .credit job amount => { s with books := s.books.addCredit (some (job.credit amount)) }
  | .auditAppend job _ prevHash =>
      { s with books := s.books.addAudit (auditLine P (job.auditData prevHash s.now)) }
  | .auditSet _ _ hash => { s with lastHash := some hash }
  | .unlink _ _ => { s with journalFile := none }
  | .hdel _ _ => { s with activeJournal := none }
  | .finalize job due => { s with books := s.books.addMark ⟨job.task.txid, due⟩ }
  | .catchUnlink => { s with journalFile := none }
  | .catchHdel => { s with activeJournal := none }
  | .rollback seq => { s with books := s.books.rollback seq }
  | .recoverUnlink => { s with journalFile := none }
  | .recoverHdel => { s with activeJournal := none }
  | _ => s

/-- What comes after a call that has succeeded and has no other answer. -/
def next (s : State ν) : Option (Phase ν) :=
  match s.phase with
  | .replaySet task paid =>
      -- `REPLAY_DETECTED` where there is an entry
      some (if (replayed? s task.txid).isSome then .sequence task paid else .catchUnlink)
  | .sequence task paid =>
      some (.startFile
        { task := task, paid := paid, seq := s.seq + 1, nonce := nonceOf s task.wallet + 1 })
  | .startFile job => some (.startStore job (job.journal .startCommit s.now))
  | .startStore job _ => some (.commit job)
  | .commit job => some (.committedFile job)
  | .committedFile job => some (.committedStore job (job.journal .engineCommitted s.now))
  | .committedStore job _ =>
      match job.paid with
      | some paid => some (.oracle job paid)
      | none => some .catchUnlink
  | .credit job amount => some (.auditHead job (some amount))
  | .auditHead job due =>
      some (.auditAppend job due ((s.lastHash.filter (· ≠ [])).getD zeroHash))
  | .auditAppend job due prevHash =>
      some (.auditSet job due (P.hash (job.auditData prevHash s.now)))
  | .auditSet job due _ => some (.unlink job due)
  | .unlink job due => some (.hdel job due)
  | .hdel job due => some (.finalize job due)
  | .finalize _ _ => some .idle
  | .catchUnlink => some .catchHdel
  | .catchHdel => some .idle
  | .rollback _ => some .recoverUnlink
  | .recoverUnlink => some .recoverHdel
  | .recoverHdel => some .idle
  | .idle => none
  | .crashed => none
  | .quorum _ => none
  | .oracle _ _ => none

/-- Where a call that fails leads to: an error of a commit is caught, one of a recovery is logged,
and one of `_clearJournal` in the handler is thrown to the caller. -/
def handler : Phase ν → Option (Phase ν)
  | .idle => none
  | .crashed => none
  | .catchUnlink => some .idle
  | .catchHdel => some .idle
  | .rollback _ => some .idle
  | .recoverUnlink => some .idle
  | .recoverHdel => some .idle
  | _ => some .catchUnlink

/-- A file that is being written is torn. -/
def tear (s : State ν) : State ν :=
  match s.phase with
  | .startFile _ => { s with journalFile := some none }
  | .committedFile _ => { s with journalFile := some none }
  | _ => s

/-- What a call that fails has done. -/
def reached (s : State ν) : Extent → State ν
  | .untouched => s
  | .torn => tear s
  | .whole => perform P s

/-- `_recoverFromJournal` up to its first call. -/
def recover (s : State ν) (readable : Bool) : Phase ν :=
  match s.journalFile with
  | none => .idle
  | some none => .idle
  | some (some journal) =>
      if readable then
        match journal.step with
        | .engineCommitted => .rollback journal.seq
        | .startCommit => .recoverUnlink
      else .idle

def step (s : State ν) : Event ν → Option (State ν)
  | .begin task =>
      match s.phase with
      | .idle => some { s with phase := .quorum task }
      | _ => none
  | .paid value =>
      match s.phase with
      | .quorum task => some { s with phase := .replaySet task value }
      | _ => none
  | .price value =>
      match s.phase with
      | .oracle job paid =>
          some { s with
            phase :=
              if P.lt value paid then .credit job (P.sub paid value) else .auditHead job none }
      | _ => none
  | .proceed => (next P s).map fun phase => { perform P s with phase := phase }
  | .refuse done =>
      match s.phase with
      | .commit _ => some { (if done then perform P s else s) with phase := .catchUnlink }
      | _ => none
  | .fail extent => (handler s.phase).map fun phase => { reached P s extent with phase := phase }
  | .crash torn =>
      match s.phase with
      | .crashed => none
      | _ => some { (if torn then tear s else s) with phase := .crashed }
  | .restart readable =>
      match s.phase with
      | .crashed => some { s with phase := recover s readable }
      | _ => none
  | .tick ms => some { s with now := s.now + ms }

/-- **Commits are all-or-nothing, and happen once**: when no call is in progress and the process is
running, the effects of every payment are all there, once, or none is. -/
def AllOrNothing (s : State ν) : Prop := s.phase = .idle → s.books.Settled

/-! ### What every step should meet -/

/-- The block that the journal says has been committed. -/
def committed? (s : State ν) : Option ℕ :=
  match s.journalFile with
  | some (some journal) =>
      match journal.step with
      | .engineCommitted => some journal.seq
      | .startCommit => none
  | _ => none

/-- There is no block of a height. -/
def Absent (s : State ν) (seq : ℕ) : Prop := ∀ b ∈ s.books.blocks, b.height ≠ seq

/-- A payment is not finalized. -/
def Unmarked (s : State ν) (job : Job ν) : Prop :=
  ∀ m ∈ s.books.finalized, m.txid ≠ job.task.txid

instance (s : State ν) (seq : ℕ) : Decidable (Absent s seq) :=
  inferInstanceAs (Decidable (∀ b ∈ s.books.blocks, b.height ≠ seq))

instance (s : State ν) (job : Job ν) : Decidable (Unmarked s job) :=
  inferInstanceAs (Decidable (∀ m ∈ s.books.finalized, m.txid ≠ job.task.txid))

/-- The quorum knew what was paid when there is a block; and nothing but a block is added for a
payment that is finalized. -/
def safeProceed (s : State ν) : Bool :=
  match s.phase with
  | .committedStore job _ => job.paid.isSome
  | .credit job _ => decide (Unmarked s job)
  | .auditAppend job _ _ => decide (Unmarked s job)
  | _ => true

/-- No call fails once there is a block, but the last one when it is done; and a block is taken back
where there is one. -/
def safeFail (s : State ν) (extent : Extent) : Bool :=
  match s.phase with
  | .commit _ => decide (extent ≠ .whole)
  | .committedFile _ => false
  | .committedStore _ _ => false
  | .oracle _ _ => false
  | .credit _ _ => false
  | .auditHead _ _ => false
  | .auditAppend _ _ _ => false
  | .auditSet _ _ _ => false
  | .unlink _ _ => false
  | .hdel _ _ => false
  | .finalize _ _ => decide (extent = .whole)
  | .rollback seq => decide (extent = .whole ∨ Absent s seq)
  | _ => true

/-- A crash comes when the journal says that there is a block, if there is one, and when there is
nothing else yet. -/
def safeCrash (s : State ν) : Bool :=
  match s.phase with
  | .committedFile _ => false
  | .auditHead _ due => due.isNone
  | .auditAppend _ due _ => due.isNone
  | .auditSet _ _ _ => false
  | .unlink _ _ => false
  | .hdel _ _ => false
  | .finalize _ _ => false
  | _ => true

/-- Whatever goes wrong does so while there is nothing, or everything, or what is taken back; and a
journal that speaks of a block can be read. -/
def Safe (s : State ν) : Event ν → Prop
  | .proceed => safeProceed s = true
  | .refuse done => done = false
  | .fail extent => safeFail s extent = true
  | .crash _ => safeCrash s = true
  | .restart readable => readable = true ∨ ∀ seq ∈ committed? s, Absent s seq
  | _ => True

instance (s : State ν) (e : Event ν) : Decidable (Safe s e) :=
  match e with
  | .proceed => inferInstanceAs (Decidable (_ = _))
  | .refuse _ => inferInstanceAs (Decidable (_ = _))
  | .fail _ => inferInstanceAs (Decidable (_ = _))
  | .crash _ => inferInstanceAs (Decidable (_ = _))
  | .restart _ => inferInstanceAs (Decidable (_ ∨ _))
  | .begin _ => isTrue trivial
  | .paid _ => isTrue trivial
  | .price _ => isTrue trivial
  | .tick _ => isTrue trivial

/-! ### What holds during a call -/

section

/-- The books as a recovery leaves them. -/
def Books.recovered (B : Books ν) : Option ℕ → Books ν
  | some seq => B.rollback seq
  | none => B

/-- The books are settled, and a recovery leaves them as they are. -/
structure Clean (B : Books ν) (committed : Option ℕ) : Prop where
  settled : B.Settled
  recovered : B.recovered committed = B

/-- The books are settled, with all blocks below the number of a job. -/
structure Below (B : Books ν) (job : Job ν) : Prop where
  settled : B.Settled
  below : ∀ b ∈ B.blocks, b.height < job.seq

/-- A job has its block, and its credit if it is known to be due. -/
def Credited (B : Books ν) (job : Job ν) (due : Option ν) : Prop :=
  ∃ B₀ : Books ν, Below B₀ job ∧ (due ≠ none → B₀.effects job.task.txid = Effects.zero) ∧
    B = (B₀.addBlock job.block).addCredit (due.map job.credit)

/-- A job has everything but its mark. -/
def Audited (B : Books ν) (job : Job ν) (due : Option ν) : Prop :=
  ∃ (B₀ : Books ν) (a : AuditLine), Below B₀ job ∧ B₀.effects job.task.txid = Effects.zero ∧
    a.data.txid = job.task.txid ∧
    B = ((B₀.addBlock job.block).addCredit (due.map job.credit)).addAudit a

/-- What holds of the books, the last sequence number and the block in the journal while a call is
in progress. -/
def Stage (B : Books ν) (seq : ℕ) (committed : Option ℕ) : Phase ν → Prop
  | .crashed => (B.recovered committed).Settled
  | .startFile job => Clean B committed ∧ Below B job ∧ job.seq = seq
  | .startStore job _ => Clean B committed ∧ Below B job ∧ job.seq = seq
  | .commit job => Clean B committed ∧ Below B job ∧ job.seq = seq
  | .committedFile job => Credited B job none
  | .committedStore job _ => Credited B job none ∧ committed = some job.seq
  | .oracle job _ => Credited B job none ∧ committed = some job.seq
  | .credit job _ => Credited B job none ∧ committed = some job.seq
  | .auditHead job due => Credited B job due ∧ committed = some job.seq
  | .auditAppend job due _ => Credited B job due ∧ committed = some job.seq
  | .auditSet job due _ => Audited B job due
  | .unlink job due => Audited B job due
  | .hdel job due => Audited B job due ∧ committed = none
  | .finalize job due => Audited B job due ∧ committed = none
  | .rollback seq => (B.rollback seq).Settled ∧ committed = some seq
  | _ => Clean B committed

/-- **What every step keeps.** -/
structure Inv (s : State ν) : Prop where
  stage : Stage s.books s.seq (committed? s) s.phase
  heights : ∀ b ∈ s.books.blocks, b.height ≤ s.seq

variable {B : Books ν} {job : Job ν} {due : Option ν} {committed : Option ℕ} {s s' : State ν}
  {P}

theorem clean_of_settled (h : B.Settled) : Clean B none := ⟨h, rfl⟩

theorem Clean.of_eq_none (h : B.Settled) (hnone : committed = none) : Clean B committed :=
  hnone ▸ clean_of_settled h

theorem Clean.of_rollback {seq : ℕ} (h : (B.rollback seq).Settled)
    (hsome : committed = some seq) : Clean (B.rollback seq) committed := by
  subst hsome
  exact ⟨h, B.rollback_rollback seq⟩

theorem Clean.settled_recovered (h : Clean B committed) : (B.recovered committed).Settled := by
  rw [h.recovered]
  exact h.settled

theorem Below.credited (h : Below B job) : Credited (B.addBlock job.block) job none :=
  ⟨B, h, fun hne => absurd rfl hne, by simp [Books.addCredit]⟩

/-- **The block of a job that has nothing else is taken back.** -/
theorem Credited.settled_rollback (h : Credited B job none) : (B.rollback job.seq).Settled := by
  obtain ⟨B₀, hbelow, -, rfl⟩ := h
  have hcredit : (B₀.addBlock job.block).addCredit (Option.map job.credit none) =
      B₀.addBlock job.block := by simp [Books.addCredit]
  have hrollback : (B₀.addBlock job.block).rollback job.seq = B₀ :=
    Books.rollback_addBlock hbelow.below
  rw [hcredit, hrollback]
  exact hbelow.settled

theorem Credited.addCredit {amount : ν} (h : Credited B job none)
    (hmark : ∀ m ∈ B.finalized, m.txid ≠ job.task.txid) :
    Credited (B.addCredit (some (job.credit amount))) job (some amount) := by
  obtain ⟨B₀, hbelow, -, rfl⟩ := h
  refine ⟨B₀, hbelow, fun _ => hbelow.settled.eq_zero hmark, ?_⟩
  simp [Books.addCredit]

theorem Credited.addAudit {a : AuditLine} (h : Credited B job due)
    (ha : a.data.txid = job.task.txid) (hmark : ∀ m ∈ B.finalized, m.txid ≠ job.task.txid) :
    Audited (B.addAudit a) job due := by
  obtain ⟨B₀, hbelow, -, rfl⟩ := h
  exact ⟨B₀, a, hbelow, hbelow.settled.eq_zero hmark, ha, rfl⟩

/-- **The mark completes the effects of a payment.** -/
theorem Audited.settled (h : Audited B job due) : (B.addMark ⟨job.task.txid, due⟩).Settled := by
  obtain ⟨B₀, a, hbelow, hzero, ha, rfl⟩ := h
  refine hbelow.settled.complete hzero rfl ha ?_
  cases due with
  | none => rfl
  | some amount => rfl

theorem inv_start (nodeId : Str) (now : ℕ) : Inv (start ν nodeId now) where
  stage := clean_of_settled Books.settled_empty
  heights b hb := by cases hb

theorem Inv.stage_of_phase {phase : Phase ν} (h : Inv s) (hphase : s.phase = phase) :
    Stage s.books s.seq (committed? s) phase :=
  hphase ▸ h.stage

/-- **Between calls the books are settled.** -/
theorem Inv.allOrNothing (h : Inv s) : AllOrNothing s := by
  intro hidle
  have hclean : Clean s.books (committed? s) := h.stage_of_phase hidle
  exact hclean.settled

/-! ### One step -/

/-- **A call that succeeds.** -/
theorem Inv.proceed {phase : Phase ν} (h : Inv s) (hsafe : Safe s .proceed)
    (hnext : next P s = some phase) : Inv { perform P s with phase := phase } := by
  obtain ⟨hstage, hheights⟩ := h
  obtain ⟨nodeId, now, replay, seq, nonces, journalFile, activeJournal, lastHash, B, current⟩ := s
  cases current with
  | idle => cases hnext
  | crashed => cases hnext
  | quorum task => cases hnext
  | oracle job paid => cases hnext
  | replaySet task paid =>
      obtain rfl := Option.some.inj hnext
      refine ⟨?_, hheights⟩
      dsimp only
      split
      · exact hstage
      · exact hstage
  | sequence task paid =>
      obtain rfl := Option.some.inj hnext
      have hclean : Clean B _ := hstage
      exact ⟨⟨hclean, ⟨hclean.settled, fun b hb => Nat.lt_succ_of_le (hheights b hb)⟩, rfl⟩,
        fun b hb => Nat.le_succ_of_le (hheights b hb)⟩
  | startFile job =>
      obtain rfl := Option.some.inj hnext
      obtain ⟨hclean, hbelow, hseq⟩ := hstage
      exact ⟨⟨clean_of_settled hclean.settled, hbelow, hseq⟩, hheights⟩
  | startStore job journal =>
      obtain rfl := Option.some.inj hnext
      exact ⟨hstage, hheights⟩
  | commit job =>
      obtain rfl := Option.some.inj hnext
      obtain ⟨hclean, hbelow, hseq⟩ := hstage
      refine ⟨hbelow.credited, fun b hb => ?_⟩
      rcases List.mem_append.1 hb with hb | hb
      · exact hheights b hb
      · rw [List.mem_singleton.1 hb]
        exact hseq.le
  | committedFile job =>
      obtain rfl := Option.some.inj hnext
      exact ⟨⟨hstage, rfl⟩, hheights⟩
  | committedStore job journal =>
      obtain ⟨paid, hpaid⟩ := Option.isSome_iff_exists.1 hsafe
      simp only [next, hpaid, Option.some.injEq] at hnext
      subst hnext
      exact ⟨hstage, hheights⟩
  | credit job amount =>
      obtain rfl := Option.some.inj hnext
      exact ⟨⟨hstage.1.addCredit (of_decide_eq_true hsafe), hstage.2⟩, hheights⟩
  | auditHead job due =>
      obtain rfl := Option.some.inj hnext
      exact ⟨hstage, hheights⟩
  | auditAppend job due prevHash =>
      obtain rfl := Option.some.inj hnext
      exact ⟨hstage.1.addAudit rfl (of_decide_eq_true hsafe), hheights⟩
  | auditSet job due hash =>
      obtain rfl := Option.some.inj hnext
      exact ⟨hstage, hheights⟩
  | unlink job due =>
      obtain rfl := Option.some.inj hnext
      exact ⟨⟨hstage, rfl⟩, hheights⟩
  | hdel job due =>
      obtain rfl := Option.some.inj hnext
      exact ⟨hstage, hheights⟩
  | finalize job due =>
      obtain rfl := Option.some.inj hnext
      obtain ⟨haudited, hcommitted⟩ := hstage
      exact ⟨Clean.of_eq_none haudited.settled hcommitted, hheights⟩
  | catchUnlink =>
      obtain rfl := Option.some.inj hnext
      exact ⟨clean_of_settled hstage.settled, hheights⟩
  | catchHdel =>
      obtain rfl := Option.some.inj hnext
      exact ⟨hstage, hheights⟩
  | rollback seq =>
      obtain rfl := Option.some.inj hnext
      obtain ⟨hsettled, hcommitted⟩ := hstage
      exact ⟨Clean.of_rollback hsettled hcommitted,
        fun b hb => hheights b (List.mem_filter.1 hb).1⟩
  | recoverUnlink =>
      obtain rfl := Option.some.inj hnext
      exact ⟨clean_of_settled hstage.settled, hheights⟩
  | recoverHdel =>
      obtain rfl := Option.some.inj hnext
      exact ⟨hstage, hheights⟩

theorem stage_handler {p phase : Phase ν} {seq : ℕ} (hclean : Clean B committed)
    (hhandler : handler p = some phase) : Stage B seq committed phase := by
  have hphase : phase = .idle ∨ phase = .catchUnlink := by
    cases p with
    | idle => cases hhandler
    | crashed => cases hhandler
    | catchUnlink => exact Or.inl (Option.some.inj hhandler).symm
    | catchHdel => exact Or.inl (Option.some.inj hhandler).symm
    | rollback seq => exact Or.inl (Option.some.inj hhandler).symm
    | recoverUnlink => exact Or.inl (Option.some.inj hhandler).symm
    | recoverHdel => exact Or.inl (Option.some.inj hhandler).symm
    | _ => exact Or.inr (Option.some.inj hhandler).symm
  rcases hphase with rfl | rfl
  · exact hclean
  · exact hclean

theorem tear_cases (s : State ν) : tear s = s ∨
    (tear s = { s with journalFile := some none } ∧
      ∃ job, s.phase = .startFile job ∨ s.phase = .committedFile job) := by
  rw [tear]
  split
  · next job hphase => exact Or.inr ⟨rfl, job, Or.inl hphase⟩
  · next job hphase => exact Or.inr ⟨rfl, job, Or.inr hphase⟩
  · exact Or.inl rfl

theorem Inv.clean_of_safeFail {extent : Extent} (h : Inv s) (hsafe : safeFail s extent = true)
    (hhandled : handler s.phase ≠ none) (hextent : extent ≠ .whole) :
    Clean s.books (committed? s) := by
  rw [safeFail] at hsafe
  cases hphase : s.phase with
  | idle => exact absurd (hphase ▸ rfl) hhandled
  | crashed => exact absurd (hphase ▸ rfl) hhandled
  | startFile job => exact (h.stage_of_phase hphase).1
  | startStore job journal => exact (h.stage_of_phase hphase).1
  | commit job => exact (h.stage_of_phase hphase).1
  | finalize job due =>
      rw [hphase] at hsafe
      exact absurd (of_decide_eq_true hsafe) hextent
  | rollback seq =>
      rw [hphase] at hsafe
      obtain ⟨hsettled, hcommitted⟩ := h.stage_of_phase hphase
      have hsame := Books.rollback_eq_self ((of_decide_eq_true hsafe).resolve_left hextent)
      rw [hsame] at hsettled
      exact ⟨hsettled, by rw [hcommitted]; exact hsame⟩
  | _ =>
      -- nothing has been written yet, or the failure is not a safe one
      rw [hphase] at hsafe
      first | exact h.stage_of_phase hphase | cases hsafe

/-- **A call that fails**: nothing has been done that stays, or everything. -/
theorem Inv.fail {extent : Extent} {phase : Phase ν} (h : Inv s) (hsafe : safeFail s extent = true)
    (hhandler : handler s.phase = some phase) :
    Inv { reached P s extent with phase := phase } := by
  have hhandled : handler s.phase ≠ none := by
    rw [hhandler]
    exact Option.some_ne_none phase
  cases extent with
  | untouched =>
      exact ⟨stage_handler (h.clean_of_safeFail hsafe hhandled nofun) hhandler, h.heights⟩
  | torn =>
      have hclean := h.clean_of_safeFail hsafe hhandled nofun
      rw [reached]
      rcases tear_cases s with htear | ⟨htear, -⟩
      · rw [htear]
        exact ⟨stage_handler hclean hhandler, h.heights⟩
      · rw [htear]
        exact ⟨stage_handler (clean_of_settled hclean.settled) hhandler, h.heights⟩
  | whole =>
      obtain ⟨hstage, hheights⟩ := h
      obtain ⟨nodeId, now, replay, seq, nonces, journalFile, activeJournal, lastHash, B,
        current⟩ := s
      cases current with
      | sequence task paid =>
          exact ⟨stage_handler hstage hhandler, fun b hb => Nat.le_succ_of_le (hheights b hb)⟩
      | startFile job =>
          exact ⟨stage_handler (clean_of_settled hstage.1.settled) hhandler, hheights⟩
      | startStore job journal => exact ⟨stage_handler hstage.1 hhandler, hheights⟩
      | finalize job due =>
          obtain ⟨haudited, hcommitted⟩ := hstage
          exact ⟨stage_handler (Clean.of_eq_none haudited.settled hcommitted) hhandler, hheights⟩
      | catchUnlink => exact ⟨stage_handler (clean_of_settled hstage.settled) hhandler, hheights⟩
      | recoverUnlink =>
          exact ⟨stage_handler (clean_of_settled hstage.settled) hhandler, hheights⟩
      | rollback seq =>
          obtain ⟨hsettled, hcommitted⟩ := hstage
          exact ⟨stage_handler (Clean.of_rollback hsettled hcommitted) hhandler,
            fun b hb => hheights b (List.mem_filter.1 hb).1⟩
      | commit job => simp [safeFail] at hsafe
      | idle => cases hhandler
      | crashed => cases hhandler
      | _ => first | exact ⟨stage_handler hstage hhandler, hheights⟩ | cases hsafe

theorem Inv.settled_recovered (h : Inv s) (hsafe : safeCrash s = true) :
    (s.books.recovered (committed? s)).Settled := by
  rw [safeCrash] at hsafe
  have hcredited {job : Job ν} {due : Option ν} (hdue : due = none)
      (hcredited : Credited s.books job due ∧ committed? s = some job.seq) :
      (s.books.recovered (committed? s)).Settled := by
    subst hdue
    rw [hcredited.2]
    exact hcredited.1.settled_rollback
  cases hphase : s.phase with
  | crashed => exact h.stage_of_phase hphase
  -- the journal says that there is no block, and there is none
  | startFile job => exact (h.stage_of_phase hphase).1.settled_recovered
  | startStore job journal => exact (h.stage_of_phase hphase).1.settled_recovered
  | commit job => exact (h.stage_of_phase hphase).1.settled_recovered
  -- the journal names the block, and there is neither credit nor audit record
  | committedStore job journal => exact hcredited rfl (h.stage_of_phase hphase)
  | oracle job paid => exact hcredited rfl (h.stage_of_phase hphase)
  | credit job amount => exact hcredited rfl (h.stage_of_phase hphase)
  | auditHead job due =>
      rw [hphase] at hsafe
      exact hcredited (Option.isNone_iff_eq_none.1 hsafe) (h.stage_of_phase hphase)
  | auditAppend job due prevHash =>
      rw [hphase] at hsafe
      exact hcredited (Option.isNone_iff_eq_none.1 hsafe) (h.stage_of_phase hphase)
  | rollback seq =>
      obtain ⟨hsettled, hcommitted⟩ := h.stage_of_phase hphase
      rw [hcommitted]
      exact hsettled
  | _ =>
      rw [hphase] at hsafe
      first
        | exact Clean.settled_recovered (h.stage_of_phase hphase)
        | cases hsafe

/-- **A crash** where the journal tells what has been done. -/
theorem Inv.crash (h : Inv s) (hsafe : safeCrash s = true) (torn : Bool) :
    Inv { (if torn then tear s else s) with phase := .crashed } := by
  have huntorn : Inv { s with phase := .crashed } := ⟨h.settled_recovered hsafe, h.heights⟩
  cases torn with
  | false => exact huntorn
  | true =>
      rw [if_pos rfl]
      rcases tear_cases s with htear | ⟨htear, job, hphase | hphase⟩
      · rw [htear]
        exact huntorn
      · rw [htear]
        exact ⟨(h.stage_of_phase hphase).1.settled, h.heights⟩
      · rw [safeCrash, hphase] at hsafe
        cases hsafe

/-- **A restart**: the block of a commit that was cut off is taken back. -/
theorem Inv.restart {readable : Bool} (h : Inv s) (hcrashed : s.phase = .crashed)
    (hsafe : readable = true ∨ ∀ seq ∈ committed? s, Absent s seq) :
    Inv { s with phase := recover s readable } := by
  obtain ⟨hstage, hheights⟩ := h
  obtain ⟨nodeId, now, replay, seq, nonces, journalFile, activeJournal, lastHash, B, current⟩ := s
  cases hcrashed
  refine ⟨?_, hheights⟩
  match journalFile with
  | none => exact clean_of_settled hstage
  | some none => exact clean_of_settled hstage
  | some (some ⟨_, .startCommit, _, _, _⟩) =>
      cases readable with
      | false => exact clean_of_settled hstage
      | true => exact clean_of_settled hstage
  | some (some ⟨_, .engineCommitted, height, _, _⟩) =>
      cases readable with
      | false =>
          have habsent := Books.rollback_eq_self (hsafe.resolve_left nofun height rfl)
          have hsettled : (B.rollback height).Settled := hstage
          rw [habsent] at hsettled
          exact ⟨hsettled, habsent⟩
      | true => exact ⟨hstage, rfl⟩

/-- **One step keeps the invariant** if it is safe. -/
theorem Inv.step {e : Event ν} (h : Inv s) (hsafe : Safe s e)
    (hstep : Payment.step P s e = some s') : Inv s' := by
  cases e with
  | begin task =>
      rw [Payment.step] at hstep
      split at hstep
      · next hidle =>
          cases hstep
          have hclean : Clean s.books (committed? s) := h.stage_of_phase hidle
          exact ⟨hclean, h.heights⟩
      · cases hstep
  | paid value =>
      rw [Payment.step] at hstep
      split at hstep
      · next hquorum =>
          cases hstep
          have hclean : Clean s.books (committed? s) := h.stage_of_phase hquorum
          exact ⟨hclean, h.heights⟩
      · cases hstep
  | price value =>
      rw [Payment.step] at hstep
      split at hstep
      · next horacle =>
          cases hstep
          have hstage := h.stage_of_phase horacle
          refine ⟨?_, h.heights⟩
          dsimp only
          split
          · exact hstage
          · exact hstage
      · cases hstep
  | proceed =>
      obtain ⟨phase, hnext, rfl⟩ := Option.map_eq_some_iff.1 hstep
      exact h.proceed hsafe hnext
  | refuse done =>
      cases hsafe
      rw [Payment.step] at hstep
      split at hstep
      · next hcommit =>
          cases hstep
          exact ⟨(h.stage_of_phase hcommit).1, h.heights⟩
      · cases hstep
  | fail extent =>
      obtain ⟨phase, hhandler, rfl⟩ := Option.map_eq_some_iff.1 hstep
      exact h.fail hsafe hhandler
  | crash torn =>
      rw [Payment.step] at hstep
      split at hstep
      · cases hstep
      · cases hstep
        exact h.crash hsafe torn
  | restart readable =>
      rw [Payment.step] at hstep
      split at hstep
      · next hcrashed =>
          cases hstep
          exact h.restart hcrashed hsafe
      · cases hstep
  | tick ms =>
      cases hstep
      exact ⟨h.stage, h.heights⟩

/-- **Commits are all-or-nothing, and happen once, while every step is safe.** -/
theorem allOrNothing_of_safe (P : Platform ν) (nodeId : Str) (now : ℕ) (events : List (Event ν))
    (hsafe : EveryStep (step P) (fun s e _ => Safe s e) (start ν nodeId now) events) :
    EveryStep (step P) (fun _ _ s => AllOrNothing s) (start ν nodeId now) events :=
  EveryStep.of_invariant (fun _ _ _ h hs hstep =>
    ⟨h.step hs hstep, (h.step hs hstep).allOrNothing⟩) (inv_start nodeId now) hsafe

/-! ### The replay cache -/

section

variable {txid : Str} {deadline : ℕ}

theorem replay_perform (P : Platform ν) (s : State ν) : (perform P s).now = s.now ∧
    ((perform P s).replay = s.replay ∨ ∃ txid, replayed? s txid = some (perform P s).replay) := by
  rw [perform]
  split
  · next task paid hphase =>
      refine ⟨rfl, ?_⟩
      cases hnew : replayed? s task.txid with
      | none => exact Or.inl rfl
      | some replay => exact Or.inr ⟨task.txid, hnew⟩
  all_goals exact ⟨rfl, Or.inl rfl⟩

theorem replay_tear (s : State ν) : (tear s).now = s.now ∧ (tear s).replay = s.replay := by
  rcases tear_cases s with htear | ⟨htear, -⟩
  · rw [htear]
    exact ⟨rfl, rfl⟩
  · rw [htear]
    exact ⟨rfl, rfl⟩

theorem replay_step {e : Event ν} (hstep : step P s e = some s') : s.now ≤ s'.now ∧
    (s'.replay = s.replay ∨ ∃ txid, replayed? s txid = some s'.replay) := by
  obtain ⟨hnow, hperform⟩ := replay_perform P s
  obtain ⟨htearNow, htear⟩ := replay_tear s
  cases e with
  | proceed =>
      obtain ⟨phase, -, rfl⟩ := Option.map_eq_some_iff.1 hstep
      exact ⟨hnow.ge, hperform⟩
  | fail extent =>
      obtain ⟨phase, -, rfl⟩ := Option.map_eq_some_iff.1 hstep
      cases extent with
      | untouched => exact ⟨le_rfl, Or.inl rfl⟩
      | torn => exact ⟨htearNow.ge, Or.inl htear⟩
      | whole => exact ⟨hnow.ge, hperform⟩
  | refuse done =>
      rw [step] at hstep
      split at hstep
      · cases hstep
        cases done with
        | false => exact ⟨le_rfl, Or.inl rfl⟩
        | true => exact ⟨hnow.ge, hperform⟩
      · cases hstep
  | crash torn =>
      rw [step] at hstep
      split at hstep
      · cases hstep
      · cases hstep
        cases torn with
        | false => exact ⟨le_rfl, Or.inl rfl⟩
        | true => exact ⟨htearNow.ge, Or.inl htear⟩
  | tick ms =>
      cases hstep
      exact ⟨Nat.le_add_right _ _, Or.inl rfl⟩
  | _ =>
      rw [step] at hstep
      split at hstep
      · cases hstep
        exact ⟨le_rfl, Or.inl rfl⟩
      · cases hstep

/-- **An entry that is there until a deadline stays** until then. -/
theorem replay_kept {e : Event ν} (hstep : step P s e = some s')
    (h : s.now ≤ deadline → (s.replay.find? deadline txid).isSome) :
    s'.now ≤ deadline → (s'.replay.find? deadline txid).isSome := by
  intro hle
  obtain ⟨hnow, hreplay | ⟨other, hother⟩⟩ := replay_step hstep
  · rw [hreplay]
    exact h (hnow.trans hle)
  · obtain ⟨entry, hentry⟩ := Option.isSome_iff_exists.1 (h (hnow.trans hle))
    obtain ⟨hnone, hput⟩ := Expiring.putNew?_eq_some.1 hother
    have hne : other ≠ txid := by
      rintro rfl
      rw [Expiring.find?_of_le (hnow.trans hle) hentry] at hnone
      cases hnone
    rw [← hput, Expiring.find?_put_of_ne hne, hentry]
    rfl

/-- **A payment that has been begun is not begun again within ten minutes**, whatever becomes of
it. -/
theorem replay_blocked {task task' : Task} {paid paid' : Option ν} {t : State ν}
    {events : List (Event ν)} (hbegun : s.phase = .replaySet task paid)
    (hnew : (replayed? s task.txid).isSome)
    (hrun : Transition.run (step P) s (.proceed :: events) = some t)
    (hle : t.now ≤ s.now + 600 * 1000) (hphase : t.phase = .replaySet task' paid')
    (htxid : task'.txid = task.txid) : next P t = some .catchUnlink := by
  obtain ⟨s', hstep, hrest⟩ := Transition.run_cons_eq_some.1 hrun
  have hentry : (s'.replay.find? (s.now + 600 * 1000) task.txid).isSome := by
    obtain ⟨replay, hreplay⟩ := Option.isSome_iff_exists.1 hnew
    obtain ⟨-, hput⟩ := Expiring.putNew?_eq_some.1 hreplay
    obtain ⟨phase, -, rfl⟩ := Option.map_eq_some_iff.1 hstep
    have hperform : (perform P s).replay = replay := by
      rw [perform, hbegun]
      simp [hreplay]
    have hfound := Expiring.find?_put_self s.replay task.txid s.nodeId (s.now + 600 * 1000)
    rw [hput, ← hperform] at hfound
    exact Option.isSome_iff_exists.2 ⟨_, hfound⟩
  have hkept := Transition.run_invariant
    (I := fun u : State ν => u.now ≤ s.now + 600 * 1000 →
      (u.replay.find? (s.now + 600 * 1000) task.txid).isSome)
    (fun _ _ _ h hs => replay_kept hs h) (fun _ => hentry) hrest hle
  obtain ⟨entry, hfound⟩ := Option.isSome_iff_exists.1 hkept
  have hnone : replayed? t task'.txid = none := by
    rw [replayed?, Expiring.putNew?, htxid, Expiring.find?_of_le hle hfound]
    rfl
  rw [next, hphase]
  simp [hnone]

end

/-! ### Where it is not -/

theorem Books.Settled.blocks_eq (h : B.Settled) (txid : Str) :
    (B.effects txid).blocks = (B.effects txid).finalized.length ∧
      (B.effects txid).blocks ≤ 1 := by
  rcases h txid with hzero | ⟨due, honce⟩
  · rw [hzero]
    exact ⟨rfl, Nat.zero_le 1⟩
  · rw [honce]
    exact ⟨rfl, le_rfl⟩

def Phase.isIdle : Phase ν → Bool
  | .idle => true
  | _ => false

theorem not_everyStep_allOrNothing {events : List (Event ν)} (txid : Str) (hne : events ≠ [])
    (hrun : (Transition.run (step P) s events).any (fun s => s.phase.isIdle && decide
      ((s.books.effects txid).blocks = (s.books.effects txid).finalized.length →
        1 < (s.books.effects txid).blocks)) = true) :
    ¬ EveryStep (step P) (fun _ _ s => AllOrNothing s) s events := by
  intro hevery
  rw [← List.dropLast_concat_getLast hne] at hevery hrun
  obtain ⟨t, ht, hend⟩ := hevery.exists_end hrun
  obtain ⟨hidle, hblocks⟩ := Bool.and_eq_true_iff.1 hend
  have hphase : t.phase = .idle := by
    revert hidle
    cases t.phase <;> simp [Phase.isIdle]
  obtain ⟨heq, hle⟩ := (ht hphase).blocks_eq txid
  have hlt := of_decide_eq_true hblocks heq
  omega

def samplePlatform : Platform ℕ where
  lt a b := decide (a < b)
  sub a b := a - b
  hash _ := ['h']
  sign _ _ := ['s']

def sampleTask : Task := { txid := ['t'], wallet := ['w'], plan := ['p'], currency := ['c'] }

def sampleTry : State ℕ :=
  { start ℕ ['n'] 0 with phase := .replaySet sampleTask (some 5) }

theorem replay_blocked_sampleTry : ∃ t : State ℕ,
    Transition.run (step samplePlatform) sampleTry [.proceed, .fail .untouched, .proceed, .proceed,
      .tick 600000, .begin sampleTask, .paid (some 7)] = some t ∧
    next samplePlatform t = some .catchUnlink := by
  have hrun : Transition.run (step samplePlatform) sampleTry [.proceed, .fail .untouched, .proceed,
      .proceed, .tick 600000, .begin sampleTask, .paid (some 7)] =
      some { sampleTry with
        now := 600000
        replay := sampleTry.replay.put ['t'] ['n'] (some 600000)
        phase := .replaySet sampleTask (some 7) } := rfl
  exact ⟨_, hrun, replay_blocked (s := sampleTry) rfl rfl hrun le_rfl rfl rfl⟩

def sampleCommit : List (Event ℕ) :=
  [.begin sampleTask, .paid (some 5), .proceed, .proceed, .proceed, .proceed, .proceed, .proceed,
    .proceed, .price 3, .proceed, .proceed, .proceed, .proceed, .proceed, .proceed, .proceed]

/-- A commit that is cut off before its credit, a second try that comes too early, and one after ten
minutes. -/
theorem allOrNothing_sample : EveryStep (step samplePlatform) (fun _ _ s => AllOrNothing s)
    (start ℕ ['n'] 0)
    ([.begin sampleTask, .paid (some 5), .proceed, .proceed, .proceed, .proceed, .proceed,
      .proceed, .proceed, .price 3, .crash false, .restart true, .proceed, .proceed, .proceed,
      .begin sampleTask, .paid (some 5), .proceed, .proceed, .proceed, .tick 600001] ++
        sampleCommit) :=
  allOrNothing_of_safe samplePlatform ['n'] 0 _ (by decide +kernel)

/-- The block stays where the engine does not say that it has committed it, and where the price is
not known; and a payment that is finalized is committed again after ten minutes. -/
theorem not_allOrNothing_sample :
    (¬ EveryStep (step samplePlatform) (fun _ _ s => AllOrNothing s) (start ℕ ['n'] 0)
      [.begin sampleTask, .paid (some 5), .proceed, .proceed, .proceed, .proceed, .refuse true,
        .proceed, .proceed]) ∧
    (¬ EveryStep (step samplePlatform) (fun _ _ s => AllOrNothing s) (start ℕ ['n'] 0)
      [.begin sampleTask, .paid (some 5), .proceed, .proceed, .proceed, .proceed, .proceed,
        .proceed, .proceed, .fail .untouched, .proceed, .proceed]) ∧
    ¬ EveryStep (step samplePlatform) (fun _ _ s => AllOrNothing s) (start ℕ ['n'] 0)
      (sampleCommit ++ .tick 600001 :: sampleCommit) :=
  ⟨not_everyStep_allOrNothing ['t'] (List.cons_ne_nil _ _) (by decide +kernel),
    not_everyStep_allOrNothing ['t'] (List.cons_ne_nil _ _) (by decide +kernel),
    not_everyStep_allOrNothing ['t'] (List.cons_ne_nil _ _) (by decide +kernel)⟩

end

end

end Payment
