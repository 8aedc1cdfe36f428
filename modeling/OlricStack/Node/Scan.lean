import Mathlib.Data.List.Sort
import OlricStack.Lib.Run
import OlricStack.Node.Engine

/-!
# Cursor scans

`Scan` and `ScanRegexMatch` of `internal/olricstore/engine.go`.  A call copies the entries from the
cursor on, in the order of their hashes, and hands those that match to a callback until it has
handed over `count` of them; the hash behind the last one is the next cursor.  One call is described
by `ScanSpec`.  An iteration is a run of calls with puts and deletions in between: it is in order
and complete, and alone it ends (`cursor_scans_complete`).
-/

namespace OlricStack.Node

open Transition

/-- A compiled regular expression, by what `MatchString` answers. -/
abbrev Regexp := Bytes → Bool

/-- The scan does not skip the entry. -/
def Slot.matches (re : Option Regexp) (slot : Slot) : Bool := re.all fun m => m slot.entry.key

/-- What a scan leaves: the callback's state, the slots whose entries it was called with, and the
returned cursor. -/
structure ScanResult (σ : Type*) where
  state : σ
  emitted : List Slot
  cursor : ℕ

namespace Engine

section

variable {σ : Type*} (re : Option Regexp) (f : σ → MemEntry → σ × Bool)

/-- The loop of `scan`, with the number of entries emitted so far. -/
def scanLoop (count : ℤ) : List Slot → ℕ → σ → ScanResult σ
  | [], _, s => ⟨s, [], 0⟩
  | slot :: slots, emitted, s =>
    if slot.matches re = false then scanLoop count slots emitted s
    else
      let called := f s slot.entry
      if called.2 = false then ⟨called.1, [slot], slot.hkey⟩
      else if (emitted + 1 : ℕ) ≥ count then
        ⟨called.1, [slot], (slots.head?.map Slot.hkey).getD 0⟩
      else
        let rest := scanLoop count slots (emitted + 1) called.1
        { rest with emitted := slot :: rest.emitted }

/-- The entries from the cursor on, sorted by their hashes. -/
def slotsFrom (m : Engine) (cursor : ℕ) : List Slot :=
  (m.toList.filter fun slot => slot.hkey ≥ cursor).insertionSort fun a b => a.hkey ≤ b.hkey

/-- `scan`. -/
def scan (m : Engine) (cursor : ℕ) (count : ℤ) (s : σ) : ScanResult σ :=
  let slots := m.slotsFrom cursor
  let count := if count ≤ 0 then (slots.length : ℤ) else count
  scanLoop re f count slots 0 s

/-- `ScanRegexMatch`; `none` is an error of `regexp.Compile`.  `Scan` is `scan` without an
expression. -/
def scanRegexMatch (compile : Bytes → Option Regexp) (m : Engine) (cursor : ℕ) (pattern : Bytes)
    (count : ℤ) (s : σ) : Option (ScanResult σ) :=
  (compile pattern).map fun re => m.scan (some re) f cursor count s

end

/-- The callback of `scanOnFragment`. -/
def collect (items : List Bytes) (e : MemEntry) : List Bytes × Bool := (items ++ [e.key], true)

/-- `scanOnFragment`, which collects the keys; without a pattern it calls `Scan`. -/
def scanOnFragment (compile : Bytes → Option Regexp) (m : Engine) (cursor : ℕ)
    (pattern : Option Bytes) (count : ℤ) : Option (List Bytes × ℕ) :=
  match pattern with
  | some pattern =>
    (m.scanRegexMatch collect compile cursor pattern count []).map fun r => (r.state, r.cursor)
  | none =>
    let r := m.scan none collect cursor count []
    some (r.state, r.cursor)

/-! ## One call -/

section

variable {σ : Type*} {re : Option Regexp} {f : σ → MemEntry → σ × Bool}

/-- Some entries are passed, and the matching ones among them emitted; the scan goes on behind
them with the next call, once the count is reached. -/
theorem scanLoop_spec (always : ∀ s e, (f s e).2 = true) {count : ℕ} (slots : List Slot)
    {emitted : ℕ} (room : emitted < count) (s : σ) :
    ∃ passed rest, slots = passed ++ rest ∧
      (scanLoop re f count slots emitted s).emitted = passed.filter (Slot.matches re) ∧
      (scanLoop re f count slots emitted s).cursor = (rest.head?.map Slot.hkey).getD 0 ∧
      (rest ≠ [] → emitted + (passed.filter (Slot.matches re)).length = count) := by
  induction slots generalizing emitted s with
  | nil => exact ⟨[], [], rfl, rfl, rfl, fun h => absurd rfl h⟩
  | cons slot slots ih =>
    simp only [scanLoop]
    cases matching : slot.matches re with
    | false =>
      obtain ⟨passed, rest, split, sent, next, full⟩ := ih room s
      refine ⟨slot :: passed, rest, by rw [split, List.cons_append], ?_, next, ?_⟩
      · rw [if_pos rfl, sent, List.filter_cons_of_neg (by simp [matching])]
      · rwa [List.filter_cons_of_neg (by simp [matching])]
    | true =>
      simp only [always, Bool.true_eq_false, if_false]
      split_ifs with reached
      · refine ⟨[slot], slots, rfl, by simp [matching], rfl, fun _ => ?_⟩
        simp only [List.filter_cons_of_pos matching, List.filter_nil, List.length_singleton]
        omega
      · obtain ⟨passed, rest, split, sent, next, full⟩ :=
          ih (show emitted + 1 < count by omega) (f s slot.entry).1
        refine ⟨slot :: passed, rest, by rw [split, List.cons_append], ?_, next, fun more => ?_⟩
        · rw [sent, List.filter_cons_of_pos matching]
        · rw [List.filter_cons_of_pos matching, List.length_cons, ← full more]
          omega

theorem pairwise_slotsFrom (m : Engine) (cursor : ℕ) :
    (m.slotsFrom cursor).Pairwise fun a b => a.hkey < b.hkey := by
  have total : Std.Total fun a b : Slot => a.hkey ≤ b.hkey := ⟨fun a b => le_total a.hkey b.hkey⟩
  have trans : IsTrans Slot fun a b => a.hkey ≤ b.hkey := ⟨fun _ _ _ => le_trans⟩
  have sorted : (m.slotsFrom cursor).Pairwise fun a b => a.hkey ≤ b.hkey :=
    List.pairwise_insertionSort _ _
  have distinct : ((m.slotsFrom cursor).map Slot.hkey).Nodup :=
    ((List.perm_insertionSort _ _).map Slot.hkey).nodup_iff.2
      (m.nodup.sublist (List.filter_sublist.map Slot.hkey))
  exact (sorted.and (List.pairwise_map.1 distinct)).imp fun h => lt_of_le_of_ne h.1 h.2

theorem mem_slotsFrom {m : Engine} {cursor : ℕ} {slot : Slot} :
    slot ∈ m.slotsFrom cursor ↔ slot ∈ m.toList ∧ cursor ≤ slot.hkey := by
  rw [slotsFrom, (List.perm_insertionSort _ _).mem_iff, List.mem_filter, decide_eq_true_eq,
    ge_iff_le]

/-- What a call emits and returns. -/
structure ScanSpec (re : Option Regexp) (count : ℕ) (m : Engine) (cursor : ℕ)
    (r : ScanResult σ) : Prop where
  ordered : r.emitted.Pairwise fun a b => a.hkey < b.hkey
  sound : ∀ slot ∈ r.emitted, slot ∈ m.toList ∧ slot.matches re = true ∧ cursor ≤ slot.hkey
  below : r.cursor ≠ 0 → ∀ slot ∈ r.emitted, slot.hkey < r.cursor
  complete : ∀ slot ∈ m.toList, slot.matches re = true → cursor ≤ slot.hkey →
    r.cursor = 0 ∨ slot.hkey < r.cursor → slot ∈ r.emitted
  full : r.cursor ≠ 0 → r.emitted.length = count

theorem scan_spec (always : ∀ s e, (f s e).2 = true) {count : ℕ} (positive : 1 ≤ count)
    (m : Engine) (cursor : ℕ) (s : σ) :
    ScanSpec re count m cursor (m.scan re f cursor count s) := by
  have counted : (if (count : ℤ) ≤ 0 then ((m.slotsFrom cursor).length : ℤ) else count) = count :=
    if_neg (by omega)
  simp only [scan, counted]
  obtain ⟨passed, rest, split, sent, next, full⟩ :=
    scanLoop_spec always (m.slotsFrom cursor) (show 0 < count by omega) s
  have sorted := m.pairwise_slotsFrom cursor
  rw [split] at sorted
  obtain ⟨before, behind, cross⟩ := List.pairwise_append.1 sorted
  have mem slot : slot ∈ m.toList ∧ cursor ≤ slot.hkey ↔ slot ∈ passed ∨ slot ∈ rest := by
    rw [← mem_slotsFrom, split, List.mem_append]
  rw [Nat.zero_add, ← sent] at full
  refine ⟨?_, fun slot member => ?_, fun more slot member => ?_,
    fun slot known matching beyond => ?_, fun more => full ?_⟩
  · rw [sent]
    exact before.sublist List.filter_sublist
  · rw [sent] at member
    obtain ⟨member, matching⟩ := List.mem_filter.1 member
    obtain ⟨known, beyond⟩ := (mem slot).2 (.inl member)
    exact ⟨known, matching, beyond⟩
  · rw [sent] at member
    cases rest with
    | nil => exact absurd next more
    | cons first rest =>
      rw [next]
      exact cross slot (List.mem_filter.1 member).1 first List.mem_cons_self
  · rintro reached
    rw [sent, List.mem_filter]
    refine ⟨((mem slot).1 ⟨known, beyond⟩).resolve_right fun later => ?_, matching⟩
    -- the first entry that was not passed is the cursor, and it is not the hash 0
    cases rest with
    | nil => cases later
    | cons first rest =>
      have standing : (scanLoop re f count (m.slotsFrom cursor) 0 s).cursor = first.hkey := next
      have le : first.hkey ≤ slot.hkey := by
        rcases List.mem_cons.1 later with rfl | later
        · exact le_rfl
        · exact ((List.pairwise_cons.1 behind).1 slot later).le
      have nonempty : 0 < (passed.filter (Slot.matches re)).length := by
        rw [← sent, full (by simp)]
        exact positive
      obtain ⟨last, member⟩ := List.length_pos_iff_exists_mem.1 nonempty
      have lt := cross last (List.mem_filter.1 member).1 first List.mem_cons_self
      omega
  · rintro rfl
    exact more next

/-- The cursor moves on. -/
theorem ScanSpec.lt {count : ℕ} {m : Engine} {cursor : ℕ} {r : ScanResult σ}
    (h : ScanSpec re count m cursor r) (positive : 1 ≤ count) (more : r.cursor ≠ 0) :
    cursor < r.cursor := by
  have nonempty : 0 < r.emitted.length := by
    rw [h.full more]
    exact positive
  obtain ⟨slot, member⟩ := List.length_pos_iff_exists_mem.1 nonempty
  exact (h.sound slot member).2.2.trans_lt (h.below more slot member)

/-- The callback is called with the emitted entries, one after the other. -/
theorem scanLoop_state (always : ∀ s e, (f s e).2 = true) (count : ℤ) (slots : List Slot)
    (emitted : ℕ) (s : σ) : (scanLoop re f count slots emitted s).state =
      (scanLoop re f count slots emitted s).emitted.foldl (fun s slot => (f s slot.entry).1) s := by
  induction slots generalizing emitted s with
  | nil => rfl
  | cons slot slots ih =>
    simp only [scanLoop, always, Bool.true_eq_false, if_false]
    split_ifs
    · exact ih emitted s
    · rfl
    · exact ih (emitted + 1) (f s slot.entry).1

theorem scan_state (always : ∀ s e, (f s e).2 = true) (m : Engine) (cursor : ℕ) (count : ℤ)
    (s : σ) :
    (m.scan re f cursor count s).state =
      (m.scan re f cursor count s).emitted.foldl (fun s slot => (f s slot.entry).1) s :=
  scanLoop_state always _ _ _ _

end

theorem foldl_collect (slots : List Slot) (items : List Bytes) :
    slots.foldl (fun s slot => (collect s slot.entry).1) items =
      items ++ slots.map fun slot => slot.entry.key := by
  induction slots generalizing items with
  | nil => rw [List.map_nil, List.append_nil, List.foldl_nil]
  | cons slot slots ih => rw [List.foldl_cons, ih, collect, List.map_cons, List.append_assoc]; rfl

/-- A fragment answers with the keys of the emitted entries. -/
theorem scanOnFragment_keys {compile : Bytes → Option Regexp} {m : Engine} {cursor : ℕ}
    {pattern : Option Bytes} {count : ℤ} {items : List Bytes} {next : ℕ}
    (h : m.scanOnFragment compile cursor pattern count = some (items, next)) :
    let r := m.scan (pattern.bind compile) collect cursor count []
    items = r.emitted.map (fun slot => slot.entry.key) ∧ next = r.cursor := by
  have keys re : (m.scan re collect cursor count []).state =
      (m.scan re collect cursor count []).emitted.map fun slot => slot.entry.key :=
    (scan_state (fun _ _ => rfl) m cursor count []).trans (foldl_collect _ [])
  cases pattern with
  | none =>
    cases h
    exact ⟨keys none, rfl⟩
  | some pattern =>
    obtain ⟨r, found, same⟩ := Option.map_eq_some_iff.1 h
    obtain ⟨re, compiled, rfl⟩ := Option.map_eq_some_iff.1 found
    cases same
    dsimp only
    rw [Option.bind_some, compiled]
    exact ⟨keys (some re), rfl⟩

end Engine

/-! ## Iterations -/

/-- An iteration under way: the engine, the callback's state, the cursor of the next call, which is
absent once a call has returned 0, and everything emitted so far. -/
structure Iteration (σ : Type*) where
  engine : Engine
  state : σ
  cursor : Option ℕ
  emitted : List Slot

/-- What happens between two calls of a scan, and the calls. -/
inductive IterationAction
  | scan
  | put (hkey : ℕ) (entry : MemEntry)
  | delete (hkey : ℕ)
deriving DecidableEq, Repr

namespace Iteration

section

variable {σ : Type*} (re : Option Regexp) (f : σ → MemEntry → σ × Bool) (count : ℕ)

/-- A scan that has not begun. -/
def start (m : Engine) (s : σ) : Iteration σ := ⟨m, s, some 0, []⟩

/-- One call of `Scan`, or a write by somebody else. -/
def step (t : Iteration σ) : IterationAction → Option (Iteration σ)
  | .scan => t.cursor.map fun cursor =>
    let r := t.engine.scan re f cursor count t.state
    ⟨t.engine, r.state, if r.cursor = 0 then none else some r.cursor, t.emitted ++ r.emitted⟩
  | .put hkey entry => some { t with engine := t.engine.put hkey entry }
  | .delete hkey => some { t with engine := t.engine.delete hkey }

end

variable {σ : Type*} {re : Option Regexp} {f : σ → MemEntry → σ × Bool} {count : ℕ}
  {t u : Iteration σ} {a : IterationAction}

/-- A step is a call, or it leaves everything but the engine alone. -/
theorem step_cases (always : ∀ s e, (f s e).2 = true) (positive : 1 ≤ count)
    (h : t.step re f count a = some u) :
    (∃ cursor r, a = .scan ∧ t.cursor = some cursor ∧
        Engine.ScanSpec re count t.engine cursor r ∧
        r.state = r.emitted.foldl (fun s slot => (f s slot.entry).1) t.state ∧
        u = ⟨t.engine, r.state, if r.cursor = 0 then none else some r.cursor,
          t.emitted ++ r.emitted⟩) ∨
      a ≠ .scan ∧ ∃ m, u = { t with engine := m } := by
  cases a with
  | scan =>
    obtain ⟨cursor, found, rfl⟩ := Option.map_eq_some_iff.1 h
    exact .inl ⟨cursor, _, rfl, found, t.engine.scan_spec always positive cursor t.state,
      t.engine.scan_state always cursor count t.state, rfl⟩
  | put | delete =>
    cases h
    exact .inr ⟨by simp, _, rfl⟩

/-- What has been emitted is in order and before the cursor, and the callback was called with it. -/
structure Ordered (f : σ → MemEntry → σ × Bool) (s₀ : σ) (t : Iteration σ) : Prop where
  ordered : t.emitted.Pairwise fun a b => a.hkey < b.hkey
  before : ∀ cursor, t.cursor = some cursor → ∀ slot ∈ t.emitted, slot.hkey < cursor
  called : t.state = t.emitted.foldl (fun s slot => (f s slot.entry).1) s₀

theorem ordered_run (always : ∀ s e, (f s e).2 = true) (positive : 1 ≤ count) {m : Engine} {s₀ : σ}
    {as : List IterationAction} {ok : Iteration σ → IterationAction → Prop}
    (r : Run (step re f count) ok (start m s₀) as t) : t.Ordered f s₀ := by
  refine r.invariant (Ordered f s₀) ⟨.nil, fun _ _ _ h => (by cases h), rfl⟩ fun t a u ih _ h => ?_
  rcases step_cases always positive h with ⟨cursor, r, -, standing, spec, called, rfl⟩ | ⟨-, m, rfl⟩
  · refine ⟨?_, fun cursor' at' slot member => ?_, ?_⟩
    · refine List.pairwise_append.2 ⟨ih.ordered, spec.ordered, fun a old b new => ?_⟩
      exact (ih.before cursor standing a old).trans_le (spec.sound b new).2.2
    · dsimp only at at'
      split_ifs at at' with finished
      cases at'
      rcases List.mem_append.1 member with old | new
      · exact (ih.before cursor standing slot old).trans (spec.lt positive finished)
      · exact spec.below finished slot new
    · rw [List.foldl_append, ← ih.called]
      exact called
  · exact ⟨ih.ordered, ih.before, ih.called⟩

/-- The entry is there. -/
def Present (hkey : ℕ) (key : Bytes) (t : Iteration σ) (_ : IterationAction) : Prop :=
  (t.engine.get hkey).map MemEntry.key = some key

instance (hkey : ℕ) (key : Bytes) (t : Iteration σ) (a : IterationAction) :
    Decidable (Present hkey key t a) := inferInstanceAs (Decidable (_ = _))

/-- An entry that is there during all calls is emitted, unless it is still to come. -/
theorem emitted_run (always : ∀ s e, (f s e).2 = true) (positive : 1 ≤ count) {m : Engine} {s₀ : σ}
    {as : List IterationAction} {hkey : ℕ} {key : Bytes} (matching : re.all (fun m => m key) = true)
    (r : Run (step re f count) (Present hkey key) (start m s₀) as t) :
    (∃ slot ∈ t.emitted, slot.hkey = hkey ∧ slot.entry.key = key) ∨
      ∃ cursor, t.cursor = some cursor ∧ cursor ≤ hkey := by
  refine r.invariant (fun t => (∃ slot ∈ t.emitted, slot.hkey = hkey ∧ slot.entry.key = key) ∨
    ∃ cursor, t.cursor = some cursor ∧ cursor ≤ hkey) (.inr ⟨0, rfl, Nat.zero_le _⟩) ?_
  intro t a u ih present h
  rcases step_cases always positive h with ⟨cursor, r, -, standing, spec, -, rfl⟩ | ⟨-, m, rfl⟩
  · rcases ih with ⟨slot, member, is⟩ | ⟨cursor', at', le⟩
    · exact .inl ⟨slot, List.mem_append_left _ member, is⟩
    · obtain rfl := Option.some.inj (standing.symm.trans at')
      by_cases later : r.cursor ≠ 0 ∧ r.cursor ≤ hkey
      · exact .inr ⟨r.cursor, if_neg later.1, later.2⟩
      · -- the call passes the entry
        obtain ⟨entry, found, rfl⟩ := Option.map_eq_some_iff.1 present
        obtain ⟨slot, known, rfl⟩ := Option.map_eq_some_iff.1 found
        obtain ⟨member, rfl⟩ := t.engine.lookup_eq_some_iff.1 known
        have sent := spec.complete slot member matching le (by omega)
        exact .inl ⟨slot, List.mem_append_right _ sent, rfl, rfl⟩
  · exact ih

/-- The entries that a scan emits. -/
def matching (re : Option Regexp) (m : Engine) : List Slot := m.toList.filter (Slot.matches re)

/-- After `n` calls on an engine that does not change each has emitted its count. -/
structure Counted (re : Option Regexp) (count : ℕ) (m : Engine) (n : ℕ) (t : Iteration σ) :
    Prop where
  engine : t.engine = m
  sound : ∀ slot ∈ t.emitted, slot ∈ matching re m
  full : t.emitted.length = n * count

/-- The iteration alone ends, or all its calls have emitted their count. -/
theorem calls_run (always : ∀ s e, (f s e).2 = true) (positive : 1 ≤ count) (m : Engine) (s₀ : σ)
    (n : ℕ) :
    (∃ k t, k ≤ n ∧ Run (step re f count) anyAction (start m s₀) (List.replicate k .scan) t ∧
      t.cursor = none) ∨
    ∃ t cursor, Run (step re f count) anyAction (start m s₀) (List.replicate n .scan) t ∧
      t.cursor = some cursor ∧ t.Counted re count m n := by
  induction n with
  | zero =>
    refine .inr ⟨start m s₀, 0, .nil, rfl, rfl, fun _ h => (by cases h), ?_⟩
    rw [Nat.zero_mul]
    rfl
  | succ n ih =>
    rcases ih with ⟨k, t, le, run, ended⟩ | ⟨t, cursor, run, standing, counted⟩
    · exact .inl ⟨k, t, by omega, run, ended⟩
    · have enabled : ∃ u, t.step re f count .scan = some u :=
        ⟨_, Option.map_eq_some_iff.2 ⟨_, standing, rfl⟩⟩
      obtain ⟨u, enabled⟩ := enabled
      have run' :
          Run (step re f count) anyAction (start m s₀) (List.replicate (n + 1) .scan) u := by
        rw [List.replicate_succ']
        exact .snoc _ run trivial enabled
      rcases step_cases always positive enabled with
        ⟨cursor', r, -, at', spec, -, rfl⟩ | ⟨other, -⟩
      · by_cases finished : r.cursor = 0
        · exact .inl ⟨n + 1, _, le_rfl, run', if_pos finished⟩
        · refine .inr ⟨_, r.cursor, run', if_neg finished, counted.engine,
            fun slot member => ?_, ?_⟩
          · rcases List.mem_append.1 member with old | new
            · exact counted.sound slot old
            · obtain ⟨known, matching, -⟩ := spec.sound slot new
              exact List.mem_filter.2 ⟨counted.engine ▸ known, matching⟩
          · rw [List.length_append, counted.full, spec.full finished, Nat.succ_mul]
      · exact absurd rfl other

/-- Scans with a cursor.  An iteration emits entries in the order of their hashes and no hash twice,
whatever is put and deleted between its calls; when it ends it has emitted every matching entry that
was there during all of its calls; and on an engine that does not change it ends. -/
theorem cursor_scans_complete {σ : Type*} (re : Option Regexp) {f : σ → MemEntry → σ × Bool}
    (always : ∀ s e, (f s e).2 = true) {count : ℕ} (positive : 1 ≤ count) (m : Engine) (s₀ : σ) :
    (∀ as t, Run (step re f count) anyAction (start m s₀) as t →
      (t.emitted.map Slot.hkey).Pairwise (· < ·) ∧
      t.state = t.emitted.foldl (fun s slot => (f s slot.entry).1) s₀) ∧
    (∀ hkey key, re.all (fun m => m key) = true →
      ∀ as t, Run (step re f count) (Present hkey key) (start m s₀) as t → t.cursor = none →
        ∃ slot ∈ t.emitted, slot.hkey = hkey ∧ slot.entry.key = key) ∧
    ∃ calls t, calls ≤ ((matching re m).length + count - 1) / count + 1 ∧
      Run (step re f count) anyAction (start m s₀) (List.replicate calls .scan) t ∧
      t.cursor = none := by
  refine ⟨fun as t r => ?_, fun hkey key matching as t r ended => ?_, ?_⟩
  · have ordered := ordered_run always positive r
    exact ⟨List.pairwise_map.2 ordered.ordered, ordered.called⟩
  · refine (emitted_run always positive matching r).resolve_right ?_
    rintro ⟨cursor, standing, -⟩
    rw [ended] at standing
    cases standing
  · rcases calls_run always positive m s₀ ((matching re m).length / count + 1) with
      ⟨k, t, le, run, ended⟩ | ⟨t, cursor, run, standing, counted⟩
    · refine ⟨k, t, le.trans (Nat.add_le_add_right (Nat.div_le_div_right ?_) 1), run, ended⟩
      omega
    · -- the emitted entries are distinct, so there are not that many
      have distinct : t.emitted.Nodup :=
        (ordered_run always positive run).ordered.imp fun lt same => by
          rw [same] at lt
          exact lt_irrefl _ lt
      have few := (List.subperm_of_subset distinct counted.sound).length_le
      rw [counted.full, Nat.mul_comm] at few
      have many := Nat.lt_mul_div_succ (matching re m).length positive
      omega

/-- The entry at the cursor is deleted and another one put between the two calls. -/
theorem cursor_scans_complete_deleted :
    ∃ t, Run (step none Engine.collect 2) (Present 9 [99])
        (start (((Engine.put .empty 9 ⟨[99], [], 0, 0, 0⟩).put 5 ⟨[98], [], 0, 0, 0⟩).put 7
          ⟨[97], [], 0, 0, 0⟩ |>.put 0 ⟨[96], [], 0, 0, 0⟩) [])
        [.scan, .delete 7, .put 8 ⟨[95], [], 0, 0, 0⟩, .scan] t ∧
      t.cursor = none ∧ t.state = [[96], [98], [95], [99]] ∧
      (∃ slot ∈ t.emitted, slot.hkey = 9 ∧ slot.entry.key = [99]) ∧
      (t.emitted.map Slot.hkey).Pairwise (· < ·) := by
  obtain ⟨t, run, ended, keys⟩ := Run.exists_of_exec (step none Engine.collect 2) (Present 9 [99])
    (start (((Engine.put .empty 9 ⟨[99], [], 0, 0, 0⟩).put 5 ⟨[98], [], 0, 0, 0⟩).put 7
      ⟨[97], [], 0, 0, 0⟩ |>.put 0 ⟨[96], [], 0, 0, 0⟩) [])
    [.scan, .delete 7, .put 8 ⟨[95], [], 0, 0, 0⟩, .scan]
    (fun t => t.cursor = none ∧ t.state = [[96], [98], [95], [99]]) (by decide +kernel)
  have always : ∀ items e, (Engine.collect items e).2 = true := fun _ _ => rfl
  obtain ⟨ordered, complete, -⟩ :=
    cursor_scans_complete none always (show 1 ≤ 2 by decide) _ _
  exact ⟨t, run, ended, keys, complete 9 [99] rfl _ t run ended,
    (ordered _ t (run.mono fun _ _ _ => trivial)).1⟩

end Iteration

end OlricStack.Node
