import OlricStack.Sidecar.Purge

/-!
# Calls one after another

The operations of `internal/sidecar/control.go` as whole calls, run while nothing else does.  What a
call does is what its thread does in a run in which no other thread moves (`drainPartition_alone`,
`shutdown_alone`).
-/

namespace OlricStack

namespace Pending

/-- `put` for each entry of a list in turn. -/
def putAll (p : Pending) (l : List Entry) : Pending := l.foldl put p

/-- The loop that drops what was flushed. -/
def dropAll (p : Pending) (l : List Entry) : Pending :=
  l.foldl (fun p e => p.drop e.ref e.ownerSeq) p

theorem putAll_cons (p : Pending) (e : Entry) (l : List Entry) :
    p.putAll (e :: l) = (p.put e).putAll l := rfl

theorem dropAll_cons (p : Pending) (e : Entry) (l : List Entry) :
    p.dropAll (e :: l) = (p.drop e.ref e.ownerSeq).dropAll l := rfl

/-- While nothing else is put, the loop removes exactly the references it was given. -/
theorem get_dropAll {p : Pending} {l : List Entry}
    (copied : ∀ e ∈ l, ∀ e' ∈ p.get e.ref, e' = e) (ref : EntryRef) :
    (p.dropAll l).get ref = if ∃ e ∈ l, e.ref = ref then none else p.get ref := by
  induction l generalizing p with
  | nil => simp [dropAll]
  | cons e l ih =>
    rw [dropAll_cons, ih fun x hx e' he' =>
      copied x (List.mem_cons_of_mem _ hx) e' (p.get_of_get_drop he')]
    by_cases hr : e.ref = ref
    · have gone : (p.drop e.ref e.ownerSeq).get ref = none := by
        rw [← hr, p.get_drop_self, Option.filter_eq_none_iff]
        intro e' he'
        rw [copied e List.mem_cons_self e' he']
        simp
      rw [gone, ite_self, if_pos ⟨e, List.mem_cons_self, hr⟩]
    · simp [hr, p.get_drop_of_ne (Ne.symm hr)]

end Pending

namespace Sidecar

open Transition

/-! ## The calls -/

/-- How an `UpsertEntries` call ends. -/
inductive UpsertResult
  | succeeds
  /-- with an error, after these records were committed -/
  | fails (committed : List EntryRecord)
deriving DecidableEq, Repr

/-- The errors of the calls, with the values their messages give. -/
inductive CallError
  | partitionCountIsZero
  | partitionIDOutOfRange (partitionID partitionCount : ℕ)
  | oplogDecode (err : DecodeError)
  | flushMySQL
  | drainPartitionFlush
deriving DecidableEq, Repr

/-- The loop of `drainRing` with `count` entries put so far; the last argument is the unread part of
the ring. -/
def Server.drainLoop (srv : Server) (sh : Shared) (count : ℕ) :
    List Entry → Except DecodeError ℕ × Shared
  | [] => (.ok count, { sh with ring := [] })
  | payload :: rest =>
    if srv.pendingFull sh.pending then (.ok count, { sh with ring := payload :: rest })
    else
      match decode payload with
      | .error err => (.error err, { sh with ring := rest })
      | .ok entry =>
        let sh := { sh with
          ring := rest, pending := sh.pending.put entry, arrived := sh.arrived ++ [entry] }
        if count + 1 ≥ srv.batchSize then (.ok (count + 1), sh)
        else srv.drainLoop sh (count + 1) rest

/-- `drainRing`: what it returns, and what it leaves. -/
def Server.drainRing (srv : Server) (sh : Shared) : Except DecodeError ℕ × Shared :=
  srv.drainLoop sh 0 sh.ring

/-- The common end of `flushOnce` and `DrainPartition`: upsert the copied entries, then drop
them. -/
def Server.flushEntries (srv : Server) (sh : Shared) (entries : List Entry) (err : CallError) :
    UpsertResult → Option (Except CallError Unit × Shared)
  | .succeeds =>
    if entries = [] then some (.ok (), sh)
    else
      some (.ok (), { sh with
        table := srv.backend.upsertEntries sh.table (entries.map recordFromEntry)
        pending := sh.pending.dropAll entries })
  | .fails committed =>
    if entries ≠ [] ∧ committed.Sublist (entries.map recordFromEntry) then
      some (.error err, { sh with table := sh.table.upsertAll srv.backend.dialect committed })
    else none

/-- `flushOnce`, with the order in which the map was iterated and the end of its upsert. -/
def Server.flushOnce (srv : Server) (sh : Shared) (entries : List Entry) (r : UpsertResult) :
    Option (Except CallError Unit × Shared) :=
  if sh.pending.Snapshot entries then srv.flushEntries sh entries .flushMySQL r else none

/-- `DrainPartition`, with the order in which the map was iterated and the end of its upsert. -/
def Server.drainPartition (srv : Server) (sh : Shared) (dmap : Bytes)
    (partitionID partitionCount : ℕ) (entries : List Entry) (r : UpsertResult) :
    Option (Except CallError Unit × Shared) :=
  if partitionCount = 0 then some (.error .partitionCountIsZero, sh)
  else if partitionID ≥ partitionCount then
    some (.error (.partitionIDOutOfRange partitionID partitionCount), sh)
  else
    match srv.drainRing sh with
    | (.error err, sh) => some (.error (.oplogDecode err), sh)
    | (.ok _, sh) =>
      if sh.pending.DrainPartition dmap partitionID partitionCount entries then
        srv.flushEntries sh entries .drainPartitionFlush r
      else none

/-- `Shutdown`. -/
def Server.shutdown (srv : Server) (sh : Shared) (entries : List Entry) (r : UpsertResult) :
    Option (Except CallError Unit × Shared) :=
  srv.flushOnce sh entries r

/-- What happens between two points at which no call is running. -/
inductive Call
  /-- the node appends an entry -/
  | append (e : Entry)
  | drainRing
  | flushOnce (entries : List Entry) (r : UpsertResult)
  | drainPartition (dmap : Bytes) (partitionID partitionCount : ℕ) (entries : List Entry)
      (r : UpsertResult)
  | shutdown (entries : List Entry) (r : UpsertResult)
  | loadFromMySQL (ref : EntryRef) (nowMs nowMs' : ℤ)
deriving DecidableEq, Repr

/-- A whole call. -/
def Server.call (srv : Server) (s : State) : Call → Option State
  | .append e => some { s with ring := s.ring ++ [encode e], appended := s.appended ++ [encode e] }
  | .drainRing => some { s with toShared := (srv.drainRing s.toShared).2 }
  | .flushOnce entries r =>
    (srv.flushOnce s.toShared entries r).map fun out => { s with toShared := out.2 }
  | .drainPartition dmap partitionID partitionCount entries r =>
    (srv.drainPartition s.toShared dmap partitionID partitionCount entries r).map fun out =>
      { s with toShared := out.2 }
  | .shutdown entries r =>
    (srv.shutdown s.toShared entries r).map fun out => { s with toShared := out.2 }
  | .loadFromMySQL _ _ _ => some s

/-! ## What the calls do -/

/-- A pass of `drainRing` puts the payloads it pops up to one that does not decode, which it throws
away. -/
theorem Server.drainLoop_spec {srv : Server} {sh : Shared} {count : ℕ} {ring : List Entry}
    {r : Except DecodeError ℕ} {sh' : Shared} (h : srv.drainLoop sh count ring = (r, sh')) :
    ∃ popped unread, (popped ++ unread).Sublist ring ∧ (∀ e ∈ popped, decode e = .ok e) ∧
      (∀ n, r = .ok n → popped ++ unread = ring ∧ n = count + popped.length) ∧
      sh' = { sh with
        ring := unread, pending := sh.pending.putAll popped, arrived := sh.arrived ++ popped } := by
  induction ring generalizing sh count with
  | nil =>
    obtain ⟨rfl, rfl⟩ := Prod.mk.inj h
    exact ⟨[], [], List.Sublist.refl _, by simp, by simp, by simp [Pending.putAll]⟩
  | cons payload rest ih =>
    simp only [drainLoop] at h
    split at h
    · obtain ⟨rfl, rfl⟩ := Prod.mk.inj h
      exact ⟨[], payload :: rest, List.Sublist.refl _, by simp, by simp, by simp [Pending.putAll]⟩
    split at h
    · obtain ⟨rfl, rfl⟩ := Prod.mk.inj h
      exact ⟨[], rest, List.sublist_cons_self _ _, by simp, by simp, by simp [Pending.putAll]⟩
    · next entry good =>
      obtain rfl := eq_of_decode good
      split at h
      · obtain ⟨rfl, rfl⟩ := Prod.mk.inj h
        exact ⟨[entry], rest, List.Sublist.refl _, by simpa using good, by simp, rfl⟩
      · obtain ⟨popped, unread, sub, decodes, all, rfl⟩ := ih h
        refine ⟨entry :: popped, unread, sub.cons_cons entry, ?_, ?_, ?_⟩
        · exact List.forall_mem_cons.2 ⟨good, decodes⟩
        · intro n hn
          obtain ⟨rfl, rfl⟩ := all n hn
          exact ⟨rfl, by simp only [List.length_cons]; omega⟩
        · simp [Pending.putAll_cons]

/-- A flush upserts some of the copied entries' records, and drops the entries if it upserted all
of them. -/
inductive Flushes (srv : Server) (sh : Shared) (entries : List Entry) :
    Except CallError Unit → Shared → Prop
  | done :
      Flushes srv sh entries (.ok ())
        { sh with
          table := sh.table.upsertAll srv.backend.dialect (entries.map recordFromEntry)
          pending := sh.pending.dropAll entries }
  | failed {err : CallError} {committed : List EntryRecord}
      (sub : committed.Sublist (entries.map recordFromEntry)) :
      Flushes srv sh entries (.error err)
        { sh with table := sh.table.upsertAll srv.backend.dialect committed }

theorem Server.flushEntries_spec {srv : Server} {sh sh' : Shared} {entries : List Entry}
    {err : CallError} {r : UpsertResult} {res : Except CallError Unit}
    (h : srv.flushEntries sh entries err r = some (res, sh')) : Flushes srv sh entries res sh' := by
  cases r with
  | succeeds =>
    simp only [flushEntries] at h
    split_ifs at h with empty
    · obtain ⟨rfl, rfl⟩ := Prod.mk.inj (Option.some.inj h)
      rw [empty]
      exact .done
    · obtain ⟨rfl, rfl⟩ := Prod.mk.inj (Option.some.inj h)
      rw [MySQLBackend.upsertEntries_eq]
      exact .done
  | fails committed =>
    simp only [flushEntries] at h
    split_ifs at h with sub
    obtain ⟨rfl, rfl⟩ := Prod.mk.inj (Option.some.inj h)
    exact .failed sub.2

/-- The calls, by what they change. -/
inductive CallStep (srv : Server) (s : State) : Call → State → Prop
  | idle {c : Call} : CallStep srv s c s
  | append {e : Entry} :
      CallStep srv s (.append e)
        { s with ring := s.ring ++ [encode e], appended := s.appended ++ [encode e] }
  | drain {popped unread : List Entry} {c : Call} (sub : (popped ++ unread).Sublist s.ring) :
      CallStep srv s c
        { s with
          ring := unread, pending := s.pending.putAll popped, arrived := s.arrived ++ popped }
  | flush {popped unread entries : List Entry} {c : Call} {res : Except CallError Unit}
      {sh sh' : Shared} (sub : (popped ++ unread).Sublist s.ring)
      (drained : sh = { s.toShared with
        ring := unread, pending := s.pending.putAll popped, arrived := s.arrived ++ popped })
      (copied : ∀ e ∈ entries, sh.pending.get e.ref = some e)
      (flushes : Flushes srv sh entries res sh') : CallStep srv s c { s with toShared := sh' }

theorem Server.flushOnce_spec {srv : Server} {s : State} {c : Call} {entries : List Entry}
    {r : UpsertResult} {out : Except CallError Unit × Shared}
    (h : srv.flushOnce s.toShared entries r = some out) :
    CallStep srv s c { s with toShared := out.2 } := by
  simp only [flushOnce] at h
  split_ifs at h with snapshot
  have none : ([] ++ s.ring).Sublist s.ring := List.Sublist.refl _
  refine .flush none (by simp [Pending.putAll]) (fun e he => ?_) (flushEntries_spec h)
  exact s.pending.mem_iff_get.1 (snapshot.mem_iff.1 he)

theorem Server.call_spec {srv : Server} {s u : State} {c : Call} (h : srv.call s c = some u) :
    CallStep srv s c u := by
  cases c with
  | append e =>
    cases h
    exact .append
  | drainRing =>
    cases h
    obtain ⟨popped, unread, sub, -, -, ends⟩ := drainLoop_spec (Prod.mk.eta.symm : srv.drainLoop
      s.toShared 0 s.ring = _)
    rw [drainRing, ends]
    exact .drain sub
  | flushOnce entries r =>
    obtain ⟨out, hout, rfl⟩ := Option.map_eq_some_iff.1 h
    exact flushOnce_spec hout
  | shutdown entries r =>
    obtain ⟨out, hout, rfl⟩ := Option.map_eq_some_iff.1 h
    exact flushOnce_spec hout
  | drainPartition dmap partitionID partitionCount entries r =>
    obtain ⟨out, hout, rfl⟩ := Option.map_eq_some_iff.1 h
    simp only [drainPartition] at hout
    split_ifs at hout
    · cases hout
      exact .idle
    · cases hout
      exact .idle
    split at hout
    · next drained =>
      cases hout
      obtain ⟨popped, unread, sub, -, -, rfl⟩ := drainLoop_spec drained
      exact .drain sub
    · next sh drained =>
      split_ifs at hout with collects
      obtain ⟨popped, unread, sub, -, -, ends⟩ := drainLoop_spec drained
      refine .flush sub ends (fun e he => ?_) (flushEntries_spec hout)
      exact sh.pending.mem_iff_get.1 (List.mem_filter.1 (collects.mem_iff.1 he)).1
  | loadFromMySQL ref nowMs nowMs' =>
    cases h
    exact .idle

/-! ## A call is its thread running alone -/

section Alone

variable {srv : Server} {s : State} {sh sh' sh'' : Shared} {th th' th'' : Thread}

/-- The state in which `th` is the last thread and has brought what is shared to `sh`. -/
def State.withLast (s : State) (sh : Shared) (th : Thread) : State :=
  { s with toShared := sh, threads := s.threads ++ [th] }

/-- The last thread, moving alone, gets from `th` to `th'`. -/
def Alone (srv : Server) (s : State) (sh : Shared) (th : Thread) (sh' : Shared) (th' : Thread) :
    Prop :=
  ∃ choices : List Choice, Run srv.step anyAction (s.withLast sh th)
    (choices.map (.thread s.threads.length)) (s.withLast sh' th')

theorem Alone.refl : Alone srv s sh th sh th := ⟨[], .nil⟩

theorem Alone.one (ch : Choice) (h : srv.stepThread s.cancelled sh th ch = some (sh', th')) :
    Alone srv s sh th sh' th' := by
  refine ⟨[ch], Run.nil.cons _ trivial ?_⟩
  simp [Server.step, State.withLast, h]

theorem Alone.trans (first : Alone srv s sh th sh' th') (second : Alone srv s sh' th' sh'' th'') :
    Alone srv s sh th sh'' th'' := by
  obtain ⟨choices, run⟩ := first
  obtain ⟨choices', run'⟩ := second
  refine ⟨choices ++ choices', ?_⟩
  rw [List.map_append]
  exact run.append run'

/-- Where `drainRing` leaves its thread. -/
def drainedPc : Except DecodeError ℕ → Pc
  | .ok n => .drained n
  | .error _ => .returned false

theorem drainLoop_alone (sh : Shared) (c : Caller) (count : ℕ) :
    Alone srv s sh ⟨c, .draining count⟩ (srv.drainLoop sh count sh.ring).2
      ⟨c, drainedPc (srv.drainLoop sh count sh.ring).1⟩ := by
  obtain ⟨ring, pending, table, arrived⟩ := sh
  induction ring generalizing pending arrived count with
  | nil =>
    by_cases full : srv.pendingFull pending
    · refine .one .go ?_
      simp [Server.stepThread, Server.drainLoop, drainedPc, full]
    · have free : Alone srv s ⟨[], pending, table, arrived⟩ ⟨c, .draining count⟩
          ⟨[], pending, table, arrived⟩ ⟨c, .popping count⟩ :=
        .one .go (by simp [Server.stepThread, full])
      refine free.trans (.one .go ?_)
      simp [Server.stepThread, Server.drainLoop, drainedPc]
  | cons payload rest ih =>
    by_cases full : srv.pendingFull pending
    · refine .one .go ?_
      simp [Server.stepThread, Server.drainLoop, drainedPc, full]
    have free : Alone srv s ⟨payload :: rest, pending, table, arrived⟩ ⟨c, .draining count⟩
        ⟨payload :: rest, pending, table, arrived⟩ ⟨c, .popping count⟩ :=
      .one .go (by simp [Server.stepThread, full])
    have pops : Alone srv s ⟨payload :: rest, pending, table, arrived⟩ ⟨c, .draining count⟩
        ⟨rest, pending, table, arrived⟩ ⟨c, .popped count payload⟩ :=
      free.trans (.one .go (by simp [Server.stepThread]))
    rcases good : decode payload with err | entry
    · refine pops.trans (.one .go ?_)
      simp [Server.stepThread, Server.drainLoop, drainedPc, full, good]
    by_cases enough : count + 1 ≥ srv.batchSize
    · refine pops.trans (.one .go ?_)
      simp [Server.stepThread, Server.drainLoop, drainedPc, full, good, enough]
    · have puts : Alone srv s ⟨rest, pending, table, arrived⟩ ⟨c, .popped count payload⟩
          ⟨rest, pending.put entry, table, arrived ++ [entry]⟩ ⟨c, .draining (count + 1)⟩ :=
        .one .go (by simp [Server.stepThread, good, enough])
      have loop := ih (count + 1) (pending.put entry) (arrived ++ [entry])
      simpa [Server.drainLoop, full, good, enough] using pops.trans (puts.trans loop)

theorem dropAll_alone (sh : Shared) (c : Caller) (drained : ℕ) (entries : List Entry) :
    Alone srv s sh ⟨c, .upserted drained entries⟩
      { sh with pending := sh.pending.dropAll entries } ⟨c, c.afterFlush drained⟩ := by
  induction entries generalizing sh with
  | nil => exact .one .go rfl
  | cons e entries ih =>
    have drops : Alone srv s sh ⟨c, .upserted drained (e :: entries)⟩
        { sh with pending := sh.pending.drop e.ref e.ownerSeq } ⟨c, .upserted drained entries⟩ :=
      .one .go rfl
    exact drops.trans (ih _)

/-- Where a flush leaves its thread. -/
def Caller.flushedPc (c : Caller) (drained : ℕ) : Except CallError Unit → Pc
  | .ok _ => c.afterFlush drained
  | .error _ => .returned false

theorem flushEntries_alone {c : Caller} {drained : ℕ} {entries : List Entry} {err : CallError}
    {r : UpsertResult} {res : Except CallError Unit} (collects : c.Collects sh.pending entries)
    (h : srv.flushEntries sh entries err r = some (res, sh')) :
    Alone srv s sh ⟨c, .drained drained⟩ sh' ⟨c, c.flushedPc drained res⟩ := by
  have copies : Alone srv s sh ⟨c, .drained drained⟩ sh
      ⟨c, if entries = [] then c.afterFlush drained else .collected drained entries⟩ := by
    refine .one (.order entries) ?_
    simp [Server.stepThread, collects]
  cases r with
  | succeeds =>
    simp only [Server.flushEntries] at h
    split_ifs at h with empty
    · obtain ⟨rfl, rfl⟩ := Prod.mk.inj (Option.some.inj h)
      rwa [if_pos empty] at copies
    · obtain ⟨rfl, rfl⟩ := Prod.mk.inj (Option.some.inj h)
      rw [if_neg empty] at copies
      have upserts : Alone srv s sh ⟨c, .collected drained entries⟩
          { sh with table := srv.backend.upsertEntries sh.table (entries.map recordFromEntry) }
          ⟨c, .upserted drained entries⟩ := .one .go rfl
      exact copies.trans (upserts.trans (dropAll_alone _ c drained entries))
  | fails committed =>
    simp only [Server.flushEntries] at h
    split_ifs at h with sub
    obtain ⟨rfl, rfl⟩ := Prod.mk.inj (Option.some.inj h)
    rw [if_neg sub.1] at copies
    refine copies.trans (.one (.fail committed) ?_)
    simp [Server.stepThread, sub.2, Caller.flushedPc]

/-- What a `DrainPartition` call does is what its thread does in a run in which only it moves. -/
theorem drainPartition_alone {dmap : Bytes} {partitionID partitionCount : ℕ} {entries : List Entry}
    {r : UpsertResult} {res : Except CallError Unit}
    (h : srv.drainPartition s.toShared dmap partitionID partitionCount entries r =
      some (res, sh')) :
    let c := Caller.drainPartition dmap partitionID partitionCount
    ∃ choices : List Choice, Run srv.step anyAction s
      (.call c :: choices.map (.thread s.threads.length))
      (s.withLast sh' ⟨c, .returned res.isOk⟩) := by
  intro c
  obtain ⟨pc, entry, choices, run⟩ : ∃ pc, c.entry = some pc ∧
      Alone srv s s.toShared ⟨c, pc⟩ sh' ⟨c, .returned res.isOk⟩ := by
    simp only [Server.drainPartition] at h
    split_ifs at h with zero range
    · cases h
      exact ⟨.returned false, by simp [c, Caller.entry, zero], .refl⟩
    · cases h
      exact ⟨.returned false, by simp [c, Caller.entry, range], .refl⟩
    refine ⟨.draining 0, by simp only [c, Caller.entry, if_neg zero, if_neg range], ?_⟩
    have drain : Alone srv s s.toShared _ _ _ := drainLoop_alone s.toShared c 0
    split at h
    · next drained =>
      cases h
      rw [Server.drainRing] at drained
      rwa [drained] at drain
    · next drained =>
      split_ifs at h with collects
      rw [Server.drainRing] at drained
      rw [drained] at drain
      refine drain.trans ?_
      cases res <;> exact flushEntries_alone (c := c) collects h
  refine ⟨choices, run.cons _ trivial ?_⟩
  simp [Server.step, entry, State.withLast]

/-- The same for `Shutdown`. -/
theorem shutdown_alone {entries : List Entry} {r : UpsertResult} {res : Except CallError Unit}
    (h : srv.shutdown s.toShared entries r = some (res, sh')) :
    ∃ choices : List Choice, Run srv.step anyAction s
      (.call .shutdown :: choices.map (.thread s.threads.length))
      (s.withLast sh' ⟨.shutdown, .returned res.isOk⟩) := by
  simp only [Server.shutdown, Server.flushOnce] at h
  split_ifs at h with snapshot
  obtain ⟨choices, run⟩ : Alone srv s s.toShared ⟨.shutdown, .drained 0⟩ sh'
      ⟨.shutdown, .returned res.isOk⟩ := by
    cases res <;> exact flushEntries_alone (c := .shutdown) snapshot h
  exact ⟨choices, run.cons _ trivial rfl⟩

end Alone

end Sidecar

end OlricStack
