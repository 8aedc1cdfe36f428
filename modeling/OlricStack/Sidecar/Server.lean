import OlricStack.Sidecar.Pending
import OlricStack.Store.Table

/-!
# The sidecar

The server of `internal/sidecar/control.go` as a transition system.  The goroutines of one process
(the consumer loop `Run` and any number of `DrainPartition` and `Shutdown` calls) are threads with a
program counter; `LoadFromMySQL` and `PurgeBelowGeneration` calls have theirs.  They share the ring,
the pending set and the table.  A step of a thread is what it does between two acquisitions of the
pending set's mutex or two accesses to the ring or the database.  The ring is the queue of unread
payloads, each given by the fields its bytes spell out.
-/

namespace OlricStack.Sidecar

/-! ## Configuration -/

/-- The settings of a server. -/
structure Config where
  batchSize : ℤ
  maxPendingRecords : ℤ
  maxPendingBytes : UInt64

/-- The fields of a `Server` that do not change. -/
structure Server where
  backend : MySQLBackend
  batchSize : ℕ
  batchSize_pos : 0 < batchSize
  maxPendingRecords : ℤ
  maxPendingBytes : UInt64

/-- `NewServer`; a batch size that is not positive becomes 256 (`withDefaults`). -/
def newServer (backend : MySQLBackend) (cfg : Config) : Server :=
  if h : cfg.batchSize ≤ 0 then
    ⟨backend, defaultBatchSize, defaultBatchSize_pos, cfg.maxPendingRecords, cfg.maxPendingBytes⟩
  else ⟨backend, cfg.batchSize.toNat, by omega, cfg.maxPendingRecords, cfg.maxPendingBytes⟩

/-- `pendingFull`; a limit that is not positive is no limit. -/
def Server.pendingFull (srv : Server) (p : Pending) : Bool :=
  (srv.maxPendingRecords > 0 && (p.size.1 : ℤ) ≥ srv.maxPendingRecords) ||
    (srv.maxPendingBytes > 0 && p.size.2 ≥ srv.maxPendingBytes)

/-! ## Threads -/

/-- The code that drains or flushes. -/
inductive Caller
  | run
  | finalDrain
  | drainPartition (dmap : Bytes) (partitionID partitionCount : ℕ)
  | shutdown
deriving DecidableEq, Repr

/-- Where a thread stands. -/
inductive Pc
  /-- at the head of the loop in `drainRing`, `count` entries put so far -/
  | draining (count : ℕ)
  /-- the pending set was not full -/
  | popping (count : ℕ)
  /-- `Pop` returned `payload`, which is not yet in the pending set -/
  | popped (count : ℕ) (payload : Entry)
  /-- `drainRing` returned `count` -/
  | drained (count : ℕ)
  /-- the entries to flush have been copied from the pending set -/
  | collected (drained : ℕ) (entries : List Entry)
  /-- `UpsertEntries` succeeded; `entries` are still to be dropped -/
  | upserted (drained : ℕ) (entries : List Entry)
  /-- in the `select` of `Run` -/
  | waiting
  | returned (ok : Bool)
deriving DecidableEq, Repr

/-- A goroutine that drains or flushes. -/
structure Thread where
  caller : Caller
  pc : Pc
deriving DecidableEq, Repr

/-- What a step does not determine by itself. -/
inductive Choice
  | go
  /-- the order in which the map was iterated -/
  | order (entries : List Entry)
  /-- `UpsertEntries` fails after committing these records -/
  | fail (committed : List EntryRecord)
  /-- the `select` of `Run` sees its context cancelled -/
  | done
deriving DecidableEq, Repr

/-- What the threads share; `arrived` is the record of the entries put into the pending set. -/
structure Shared where
  ring : List Entry
  pending : Pending
  table : Table
  arrived : List Entry

/-- `entries` is what the caller copies from the pending set before flushing. -/
def Caller.Collects (c : Caller) (p : Pending) (entries : List Entry) : Prop :=
  match c with
  | .drainPartition dmap partitionID partitionCount =>
    p.DrainPartition dmap partitionID partitionCount entries
  | _ => p.Snapshot entries

instance (c : Caller) (p : Pending) (entries : List Entry) : Decidable (c.Collects p entries) := by
  unfold Caller.Collects
  split <;> infer_instance

/-- Where the caller goes when its flush is done. -/
def Caller.afterFlush (c : Caller) (drained : ℕ) : Pc :=
  match c with
  | .run => .waiting
  | .finalDrain => if drained = 0 then .returned true else .draining 0
  | .drainPartition .. => .returned true
  | .shutdown => .returned true

/-- One step of a thread. -/
def Server.stepThread (srv : Server) (cancelled : Bool) (sh : Shared) (th : Thread) :
    Choice → Option (Shared × Thread)
  | .go =>
    match th.pc with
    | .draining count =>
      some (sh, ⟨th.caller, if srv.pendingFull sh.pending then .drained count else .popping count⟩)
    | .popping count =>
      match sh.ring with
      | [] => some (sh, ⟨th.caller, .drained count⟩)
      | payload :: rest => some ({ sh with ring := rest }, ⟨th.caller, .popped count payload⟩)
    | .popped count payload =>
      match decode payload with
      | .error _ => some (sh, ⟨th.caller, .returned false⟩)
      | .ok entry =>
        some ({ sh with pending := sh.pending.put entry, arrived := sh.arrived ++ [entry] },
          ⟨th.caller,
            if count + 1 ≥ srv.batchSize then .drained (count + 1) else .draining (count + 1)⟩)
    | .collected drained entries =>
      some ({ sh with
          table := srv.backend.upsertEntries sh.table (entries.map recordFromEntry) },
        ⟨th.caller, .upserted drained entries⟩)
    | .upserted drained (e :: rest) =>
      some ({ sh with pending := sh.pending.drop e.ref e.ownerSeq },
        ⟨th.caller, .upserted drained rest⟩)
    | .upserted drained [] => some (sh, ⟨th.caller, th.caller.afterFlush drained⟩)
    | .waiting => some (sh, ⟨.run, .draining 0⟩)
    | .drained _ => none
    | .returned _ => none
  | .order entries =>
    match th.pc with
    | .drained count =>
      if th.caller.Collects sh.pending entries then
        some (sh, ⟨th.caller,
          if entries = [] then th.caller.afterFlush count else .collected count entries⟩)
      else none
    | _ => none
  | .fail committed =>
    match th.pc with
    | .collected _ entries =>
      if committed.Sublist (entries.map recordFromEntry) then
        some ({ sh with table := sh.table.upsertAll srv.backend.dialect committed },
          ⟨th.caller, .returned false⟩)
      else none
    | _ => none
  | .done =>
    match th.pc with
    | .waiting => if cancelled then some (sh, ⟨.finalDrain, .draining 0⟩) else none
    | _ => none

/-! ## Calls -/

/-- What `LoadFromMySQL` answers. -/
inductive LoadResponse
  | notFound
  | found (record : EntryRecord)
deriving DecidableEq, Repr

/-- How `LoadFromMySQL` answers with a record at hand. -/
def respond (nowMs : ℤ) (rec : EntryRecord) : LoadResponse :=
  if rec.tombstone || recordExpiredAt rec nowMs then .notFound else .found rec

/-- Where a `LoadFromMySQL` call is. -/
inductive LoadPc
  | called
  /-- the pending set had no entry -/
  | missed
  /-- the answer, and the readings of the clock it was given at -/
  | answered (r : LoadResponse) (clock : List ℤ)
deriving DecidableEq, Repr

/-- A `LoadFromMySQL` call; `before` counts the entries appended before it started. -/
structure Load where
  ref : EntryRef
  before : ℕ
  pc : LoadPc
deriving DecidableEq, Repr

/-- Where a `PurgeBelowGeneration` call is. -/
inductive PurgePc
  | called
  /-- the pending set has been purged of `dropped` entries -/
  | pendingPurged (dropped : ℕ)
  | returned (ok : Bool)
deriving DecidableEq, Repr

/-- A `PurgeBelowGeneration` call. -/
structure Purge where
  minGeneration : ℤ
  pc : PurgePc
deriving DecidableEq, Repr

/-- The look into the pending set by `LoadFromMySQL`. -/
def lookup (p : Pending) (ref : EntryRef) (nowMs : ℤ) : LoadPc :=
  match p.get ref with
  | some e => .answered (respond nowMs (recordFromEntry e)) [nowMs]
  | none => .missed

/-- The look into the table by `LoadFromMySQL`: the backend checks the record at one instant, the
server again at a later one. -/
def readRow (b : MySQLBackend) (t : Table) (ref : EntryRef) (nowMs nowMs' : ℤ) : LoadResponse :=
  match b.loadFromMySQL t ref nowMs with
  | none => .notFound
  | some rec => respond nowMs' rec

/-! ## The system -/

/-- The process with its ring and database; `appended` is the record of successful `Append`s. -/
structure State extends Shared where
  threads : List Thread
  loads : List Load
  purges : List Purge
  cancelled : Bool
  appended : List Entry

/-- What the node and the goroutines do, and how the process ends. -/
inductive Action
  /-- the node appends an entry -/
  | append (e : Entry)
  /-- a `DrainPartition` or `Shutdown` call arrives -/
  | call (c : Caller)
  | thread (i : ℕ) (c : Choice)
  /-- a `LoadFromMySQL` call arrives, looks into the pending set, reads the table -/
  | load (ref : EntryRef)
  | lookup (i : ℕ) (nowMs : ℤ)
  | readRow (i : ℕ) (nowMs nowMs' : ℤ)
  /-- a `PurgeBelowGeneration` call arrives, purges the pending set, purges the table -/
  | purge (minGeneration : ℤ)
  | purgePending (i : ℕ)
  | purgeRows (i : ℕ) (ok : Bool)
  /-- the context of `Run` is cancelled -/
  | cancel
  /-- the process stops, wherever it stands, and a new one starts on the same ring -/
  | restart
deriving DecidableEq, Repr

/-- Where a call starts. -/
def Caller.entry : Caller → Option Pc
  | .run => none
  | .finalDrain => none
  | .drainPartition _ partitionID partitionCount =>
    some (if partitionCount = 0 then .returned false
      else if partitionID ≥ partitionCount then .returned false else .draining 0)
  | .shutdown => some (.drained 0)

/-- The goroutine of `Run`. -/
def runThread : Thread := ⟨.run, .draining 0⟩

/-- A fresh pod: an empty ring, a new process, and whatever the table holds. -/
def State.start (t : Table) : State where
  ring := []
  pending := newPending
  table := t
  arrived := []
  threads := [runThread]
  loads := []
  purges := []
  cancelled := false
  appended := []

/-- One action. -/
def Server.step (srv : Server) (s : State) : Action → Option State
  | .append e => some { s with ring := s.ring ++ [encode e], appended := s.appended ++ [encode e] }
  | .call c => c.entry.map fun pc => { s with threads := s.threads ++ [⟨c, pc⟩] }
  | .thread i c => do
    let th ← s.threads[i]?
    let (sh, th') ← srv.stepThread s.cancelled s.toShared th c
    return { s with toShared := sh, threads := s.threads.set i th' }
  | .load ref => some { s with loads := s.loads ++ [⟨ref, s.appended.length, .called⟩] }
  | .lookup i nowMs =>
    match s.loads[i]? with
    | some ⟨ref, before, .called⟩ =>
      some { s with loads := s.loads.set i ⟨ref, before, lookup s.pending ref nowMs⟩ }
    | _ => none
  | .readRow i nowMs nowMs' =>
    match s.loads[i]? with
    | some ⟨ref, before, .missed⟩ =>
      some { s with
        loads := s.loads.set i
          ⟨ref, before, .answered (readRow srv.backend s.table ref nowMs nowMs') [nowMs, nowMs']⟩ }
    | _ => none
  | .purge minGeneration =>
    some { s with
      purges := s.purges ++
        [⟨minGeneration, if minGeneration ≤ 0 then .returned true else .called⟩] }
  | .purgePending i =>
    match s.purges[i]? with
    | some ⟨g, .called⟩ =>
      some { s with
        pending := (s.pending.purgeBelow g).2
        purges := s.purges.set i ⟨g, .pendingPurged (s.pending.purgeBelow g).1⟩ }
    | _ => none
  | .purgeRows i ok =>
    match s.purges[i]? with
    | some ⟨g, .pendingPurged _⟩ =>
      some { s with
        table := if ok then s.table.purgeBelowGeneration g else s.table
        purges := s.purges.set i ⟨g, .returned ok⟩ }
    | _ => none
  | .cancel => some { s with cancelled := true }
  | .restart =>
    some { s with
      pending := newPending, arrived := [], threads := [runThread], loads := [], purges := [],
      cancelled := false }

/-! ## What a step of a thread does -/

/-- The entry a thread has popped and not yet put. -/
def Thread.hand (th : Thread) : Option Entry :=
  match th.pc with
  | .popped _ payload => some payload
  | _ => none

/-- The entries a thread has copied from the pending set and not yet dropped. -/
def Thread.batch (th : Thread) : List Entry :=
  match th.pc with
  | .collected _ entries => entries
  | .upserted _ entries => entries
  | _ => []

/-- The entries a thread has upserted and not yet dropped. -/
def Thread.upserted (th : Thread) : List Entry :=
  match th.pc with
  | .upserted _ entries => entries
  | _ => []

/-- The program counter carries no entries. -/
def Pc.Plain (pc : Pc) : Prop :=
  ∀ c : Caller, (Thread.mk c pc).hand = none ∧ (Thread.mk c pc).batch = [] ∧
    (Thread.mk c pc).upserted = []

theorem Caller.plain_afterFlush (c : Caller) (drained : ℕ) : (c.afterFlush drained).Plain := by
  intro c'
  unfold afterFlush
  split <;> try split_ifs
  all_goals exact ⟨rfl, rfl, rfl⟩

/-- The steps of a thread, by its program counter. -/
inductive PcStep (srv : Server) (sh : Shared) (c : Caller) :
    Pc → Choice → Shared → Thread → Prop
  | full {count : ℕ} (full : srv.pendingFull sh.pending = true) :
      PcStep srv sh c (.draining count) .go sh ⟨c, .drained count⟩
  | room {count : ℕ} (room : srv.pendingFull sh.pending = false) :
      PcStep srv sh c (.draining count) .go sh ⟨c, .popping count⟩
  | empty {count : ℕ} (empty : sh.ring = []) :
      PcStep srv sh c (.popping count) .go sh ⟨c, .drained count⟩
  | pop {count : ℕ} {payload : Entry} {rest : List Entry} (unread : sh.ring = payload :: rest) :
      PcStep srv sh c (.popping count) .go { sh with ring := rest } ⟨c, .popped count payload⟩
  | reject {count : ℕ} {payload : Entry} (bad : ¬(decode payload).isOk) :
      PcStep srv sh c (.popped count payload) .go sh ⟨c, .returned false⟩
  | put {count : ℕ} {e : Entry} {pc' : Pc} (good : decode e = .ok e)
      (next : pc' = .drained (count + 1) ∨ pc' = .draining (count + 1)) :
      PcStep srv sh c (.popped count e) .go
        { sh with pending := sh.pending.put e, arrived := sh.arrived ++ [e] } ⟨c, pc'⟩
  | nothing {count : ℕ} (none : c.Collects sh.pending []) :
      PcStep srv sh c (.drained count) (.order []) sh ⟨c, c.afterFlush count⟩
  | collect {count : ℕ} {entries : List Entry} (copied : c.Collects sh.pending entries) :
      PcStep srv sh c (.drained count) (.order entries) sh ⟨c, .collected count entries⟩
  | upsert {drained : ℕ} {entries : List Entry} :
      PcStep srv sh c (.collected drained entries) .go
        { sh with table := sh.table.upsertAll srv.backend.dialect (entries.map recordFromEntry) }
        ⟨c, .upserted drained entries⟩
  | fail {drained : ℕ} {entries : List Entry} {committed : List EntryRecord}
      (sub : committed.Sublist (entries.map recordFromEntry)) :
      PcStep srv sh c (.collected drained entries) (.fail committed)
        { sh with table := sh.table.upsertAll srv.backend.dialect committed } ⟨c, .returned false⟩
  | drop {drained : ℕ} {e : Entry} {rest : List Entry} :
      PcStep srv sh c (.upserted drained (e :: rest)) .go
        { sh with pending := sh.pending.drop e.ref e.ownerSeq } ⟨c, .upserted drained rest⟩
  | flushed {drained : ℕ} :
      PcStep srv sh c (.upserted drained []) .go sh ⟨c, c.afterFlush drained⟩
  | again : PcStep srv sh c .waiting .go sh ⟨.run, .draining 0⟩
  | stop : PcStep srv sh c .waiting .done sh ⟨.finalDrain, .draining 0⟩

theorem Server.stepThread_pcStep {srv : Server} {cancelled : Bool} {sh sh' : Shared} {c : Caller}
    {pc : Pc} {th' : Thread} {ch : Choice}
    (h : srv.stepThread cancelled sh ⟨c, pc⟩ ch = some (sh', th')) :
    PcStep srv sh c pc ch sh' th' := by
  cases ch with
  | go =>
    cases pc with
    | draining count =>
      obtain ⟨rfl, rfl⟩ := Prod.mk.inj (Option.some.inj h)
      split_ifs with full
      · exact .full full
      · exact .room (Bool.eq_false_iff.2 full)
    | popping count =>
      simp only [stepThread] at h
      split at h
      · next empty =>
        obtain ⟨rfl, rfl⟩ := Prod.mk.inj (Option.some.inj h)
        exact .empty empty
      · next unread =>
        obtain ⟨rfl, rfl⟩ := Prod.mk.inj (Option.some.inj h)
        exact .pop unread
    | popped count payload =>
      simp only [stepThread] at h
      split at h
      · next bad =>
        obtain ⟨rfl, rfl⟩ := Prod.mk.inj (Option.some.inj h)
        exact .reject (by rw [bad]; exact Bool.false_ne_true)
      · next entry good =>
        obtain ⟨rfl, rfl⟩ := Prod.mk.inj (Option.some.inj h)
        obtain rfl := eq_of_decode good
        refine .put good ?_
        split_ifs
        · exact .inl rfl
        · exact .inr rfl
    | drained count => cases h
    | collected drained entries =>
      obtain ⟨rfl, rfl⟩ := Prod.mk.inj (Option.some.inj h)
      rw [MySQLBackend.upsertEntries_eq]
      exact .upsert
    | upserted drained entries =>
      cases entries <;> obtain ⟨rfl, rfl⟩ := Prod.mk.inj (Option.some.inj h)
      · exact .flushed
      · exact .drop
    | waiting =>
      obtain ⟨rfl, rfl⟩ := Prod.mk.inj (Option.some.inj h)
      exact .again
    | returned ok => cases h
  | order entries =>
    cases pc with
    | drained count =>
      simp only [stepThread] at h
      split_ifs at h with copied empty <;> obtain ⟨rfl, rfl⟩ := Prod.mk.inj (Option.some.inj h)
      · subst empty
        exact .nothing copied
      · exact .collect copied
    | _ => cases h
  | fail committed =>
    cases pc with
    | collected drained entries =>
      simp only [stepThread] at h
      split_ifs at h with sub
      obtain ⟨rfl, rfl⟩ := Prod.mk.inj (Option.some.inj h)
      exact .fail sub
    | _ => cases h
  | done =>
    cases pc with
    | waiting =>
      simp only [stepThread] at h
      split_ifs at h
      obtain ⟨rfl, rfl⟩ := Prod.mk.inj (Option.some.inj h)
      exact .stop
    | _ => cases h

/-- The steps of a thread, by their effect on what is shared. -/
inductive ThreadStep (srv : Server) (sh : Shared) : Thread → Choice → Shared → Thread → Prop
  | move {c c' : Caller} {pc pc' : Pc} {ch : Choice} (from_plain : pc.Plain)
      (to_plain : pc'.Plain) :
      ThreadStep srv sh ⟨c, pc⟩ ch sh ⟨c', pc'⟩
  | pop {c : Caller} {count : ℕ} {payload : Entry} {rest : List Entry}
      (unread : sh.ring = payload :: rest) :
      ThreadStep srv sh ⟨c, .popping count⟩ .go { sh with ring := rest } ⟨c, .popped count payload⟩
  | reject {c : Caller} {count : ℕ} {payload : Entry} (bad : ¬(decode payload).isOk) :
      ThreadStep srv sh ⟨c, .popped count payload⟩ .go sh ⟨c, .returned false⟩
  | put {c : Caller} {count : ℕ} {e : Entry} {pc' : Pc} (good : decode e = .ok e)
      (to_plain : pc'.Plain) :
      ThreadStep srv sh ⟨c, .popped count e⟩ .go
        { sh with pending := sh.pending.put e, arrived := sh.arrived ++ [e] } ⟨c, pc'⟩
  | collect {c : Caller} {count : ℕ} {entries : List Entry}
      (copied : ∀ e ∈ entries, sh.pending.get e.ref = some e) :
      ThreadStep srv sh ⟨c, .drained count⟩ (.order entries) sh ⟨c, .collected count entries⟩
  | upsert {c : Caller} {drained : ℕ} {entries : List Entry} :
      ThreadStep srv sh ⟨c, .collected drained entries⟩ .go
        { sh with table := sh.table.upsertAll srv.backend.dialect (entries.map recordFromEntry) }
        ⟨c, .upserted drained entries⟩
  | fail {c : Caller} {drained : ℕ} {entries : List Entry} {committed : List EntryRecord}
      (sub : committed.Sublist (entries.map recordFromEntry)) :
      ThreadStep srv sh ⟨c, .collected drained entries⟩ (.fail committed)
        { sh with table := sh.table.upsertAll srv.backend.dialect committed }
        ⟨c, .returned false⟩
  | drop {c : Caller} {drained : ℕ} {e : Entry} {rest : List Entry} :
      ThreadStep srv sh ⟨c, .upserted drained (e :: rest)⟩ .go
        { sh with pending := sh.pending.drop e.ref e.ownerSeq } ⟨c, .upserted drained rest⟩

theorem Caller.Collects.get {c : Caller} {p : Pending} {entries : List Entry}
    (h : c.Collects p entries) : ∀ e ∈ entries, p.get e.ref = some e := by
  intro e he
  rw [← p.mem_iff_get]
  cases c with
  | drainPartition dmap partitionID partitionCount =>
    exact (List.mem_filter.1 (h.mem_iff.1 he)).1
  | run | finalDrain | shutdown => exact h.mem_iff.1 he

theorem Server.stepThread_spec {srv : Server} {cancelled : Bool} {sh sh' : Shared} {th th' : Thread}
    {ch : Choice} (h : srv.stepThread cancelled sh th ch = some (sh', th')) :
    ThreadStep srv sh th ch sh' th' := by
  obtain ⟨c, pc⟩ := th
  cases stepThread_pcStep h with
  | full | room | empty | again | stop =>
    exact .move (fun _ => ⟨rfl, rfl, rfl⟩) (fun _ => ⟨rfl, rfl, rfl⟩)
  | nothing | flushed => exact .move (fun _ => ⟨rfl, rfl, rfl⟩) (c.plain_afterFlush _)
  | pop unread => exact .pop unread
  | reject bad => exact .reject bad
  | put good next =>
    refine .put good ?_
    rcases next with rfl | rfl
    all_goals exact fun _ => ⟨rfl, rfl, rfl⟩
  | collect copied => exact .collect copied.get
  | upsert => exact .upsert
  | fail sub => exact .fail sub
  | drop => exact .drop

/-- The actions, by what they change besides the `LoadFromMySQL` calls. -/
inductive StateStep (srv : Server) (s : State) : Action → State → Prop
  | thread {i : ℕ} {ch : Choice} {th th' : Thread} {sh' : Shared} (at_i : s.threads[i]? = some th)
      (does : ThreadStep srv s.toShared th ch sh' th') :
      StateStep srv s (.thread i ch) { s with toShared := sh', threads := s.threads.set i th' }
  | append {e : Entry} :
      StateStep srv s (.append e)
        { s with ring := s.ring ++ [encode e], appended := s.appended ++ [encode e] }
  | call {c : Caller} {pc : Pc} (plain : pc.Plain) :
      StateStep srv s (.call c) { s with threads := s.threads ++ [⟨c, pc⟩] }
  | quiet {a : Action} {loads : List Load} {purges : List Purge} {cancelled : Bool}
      (no_thread : ∀ i ch, a ≠ .thread i ch) :
      StateStep srv s a { s with loads := loads, purges := purges, cancelled := cancelled }
  | purgePending {i : ℕ} {g : ℤ} {purges : List Purge} :
      StateStep srv s (.purgePending i)
        { s with pending := (s.pending.purgeBelow g).2, purges := purges }
  | purgeRows {i : ℕ} {ok : Bool} {g : ℤ} {purges : List Purge} :
      StateStep srv s (.purgeRows i ok)
        { s with table := s.table.purgeBelowGeneration g, purges := purges }
  | restart :
      StateStep srv s .restart
        { s with
          pending := newPending, arrived := [], threads := [runThread], loads := [], purges := [],
          cancelled := false }

theorem Caller.plain_entry {c : Caller} {pc : Pc} (h : c.entry = some pc) : pc.Plain := by
  intro c'
  cases c with
  | run => cases h
  | finalDrain => cases h
  | drainPartition dmap partitionID partitionCount =>
    cases h
    split_ifs
    all_goals exact ⟨rfl, rfl, rfl⟩
  | shutdown =>
    cases h
    exact ⟨rfl, rfl, rfl⟩

theorem Server.step_spec {srv : Server} {s u : State} {a : Action} (h : srv.step s a = some u) :
    StateStep srv s a u := by
  cases a with
  | append e =>
    cases h
    exact .append
  | call c =>
    obtain ⟨pc, hpc, rfl⟩ := Option.map_eq_some_iff.1 h
    exact .call (Caller.plain_entry hpc)
  | thread i ch =>
    obtain ⟨th, hth, h⟩ := Option.bind_eq_some_iff.1 h
    obtain ⟨⟨sh', th'⟩, hstep, h⟩ := Option.bind_eq_some_iff.1 h
    cases h
    exact .thread hth (stepThread_spec hstep)
  | load ref =>
    cases h
    exact .quiet (by simp)
  | lookup i nowMs =>
    simp only [step] at h
    split at h
    · cases h
      exact .quiet (by simp)
    · cases h
  | readRow i nowMs nowMs' =>
    simp only [step] at h
    split at h
    · cases h
      exact .quiet (by simp)
    · cases h
  | purge g =>
    cases h
    exact .quiet (by simp)
  | purgePending i =>
    simp only [step] at h
    split at h
    · cases h
      exact .purgePending
    · cases h
  | purgeRows i ok =>
    simp only [step] at h
    split at h
    · cases h
      cases ok
      · exact .quiet (by simp)
      · exact .purgeRows
    · cases h
  | cancel =>
    cases h
    exact .quiet (by simp)
  | restart =>
    cases h
    exact .restart

end OlricStack.Sidecar
