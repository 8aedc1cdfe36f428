import OlricStack.Topology.Live
import OlricStack.Topology.Membership

/-!
# Demotions

When a `SetLeadership` call demotes the service, it posts a standby envelope to every subscriber and
forgets the subscriber, under the lock.  Since it drains a channel before it posts, the envelope is
never dropped; since every subscriber has one stack, none of another stack can come behind it; and
since the role was written before, no envelope made later is a primary's
(`demotion_reaches_queue_last`).
-/

namespace OlricStack.Topology

open Transition Growth Watchdog
open OlricStack.Node (WatchdogRole)

namespace LiveService

variable {s u : LiveService} {a : LiveAction}

/-! ## What always holds -/

theorem history_take (s : LiveService) (j i : ℕ) : (s.take j).history i = s.history i := by
  unfold take
  split
  · rfl
  · next sub found =>
    unfold history Service.receiveEnvelope
    dsimp only
    rw [Service.channel_set _ found, List.filterMap_append, List.append_assoc]
    by_cases same : i = j
    · subst same
      rw [if_pos rfl, Service.channel_of_getElem? found]
      cases sub.ch <;> simp
    · rw [if_neg same]
      cases sub.ch <;> simp [Ne.symm same]

/-- Taking an envelope changes nothing but the channel. -/
theorem take_eq (s : LiveService) (j : ℕ) :
    ∃ subs taken, s.take j = { s with service := { s.service with subs := subs }, taken := taken } ∧
      subs.map Subscriber.id = s.service.ids ∧
      ∀ t ∈ taken, t ∈ s.taken ∨ ∃ dst, s.service.ids[t.1]? = some dst := by
  unfold take
  split
  · exact ⟨s.service.subs, s.taken, rfl, rfl, fun t ht => .inl ht⟩
  · next sub found =>
    refine ⟨_, _, rfl, map_set_of_getElem? found rfl, fun t ht => ?_⟩
    rcases List.mem_append.1 ht with old | new
    · exact .inl old
    · obtain ⟨env, -, rfl⟩ := Option.map_eq_some_iff.1 (Option.mem_toList.1 new)
      refine .inr ⟨sub.id, ?_⟩
      rw [Service.ids, List.getElem?_map, found]
      rfl

theorem holder_take (s : LiveService) (j : ℕ) : (s.take j).holder = s.holder := by
  unfold take
  split <;> rfl

theorem reader_take (s : LiveService) (j : ℕ) : (s.take j).reader = s.reader := by
  unfold take
  split <;> rfl

theorem cfg_take (s : LiveService) (j : ℕ) : (s.take j).service.cfg = s.service.cfg := by
  unfold take
  split <;> rfl

theorem channel_take (s : LiveService) (j i : ℕ) :
    (s.take j).service.channel i =
      if i = j then (s.service.channel i).tail else s.service.channel i := by
  unfold take
  split
  · next missing =>
    split_ifs with same
    · rw [same, Service.channel, missing]
      rfl
    · rfl
  · next sub found =>
    unfold Service.receiveEnvelope
    rw [Service.channel_set _ found]
    split_ifs with same
    · rw [same, Service.channel_of_getElem? found]
    · rfl

theorem channel_take_sublist (s : LiveService) (j i : ℕ) :
    ((s.take j).service.channel i).Sublist (s.service.channel i) := by
  rw [channel_take]
  split_ifs
  · exact List.tail_sublist _
  · exact .refl _

/-- What the holder of `mu` is about to touch belongs to it. -/
def Holds (s : Service) : Option Holder → Prop
  | none => True
  | some (.call parts) => ∀ p ∈ parts, s.OwnPart p
  | some (.demotion _ posts _ _) => ∀ p ∈ posts, s.Belongs p.registration p.stackID

theorem Holds.mono {s s' : Service} (keeps : s.KeepsIDs s') {holder : Option Holder}
    (h : Holds s holder) : Holds s' holder := by
  match holder, h with
  | none, _ => trivial
  | some (.call _), h => exact fun p member => (h p member).mono keeps
  | some (.demotion ..), h => exact fun p member => (h p member).mono keeps

/-- What holds in every state of a run. -/
structure Kept (s : LiveService) : Prop where
  owned : s.service.Owned
  taken : ∀ t ∈ s.taken, ∃ dst, s.service.ids[t.1]? = some dst
  held : Holds s.service s.holder

/-- The parts of the call that holds `mu`. -/
theorem Kept.ownParts (h : s.Kept) {parts : List Part} (held : s.holder = some (.call parts)) :
    ∀ p ∈ parts, s.service.OwnPart p := by
  have holds := h.held
  rwa [held] at holds

theorem Kept.postsBelong (h : s.Kept) {drained : Bool} {posts : List Post} {rest : List Bytes}
    {pending : List ℕ} (held : s.holder = some (.demotion drained posts rest pending)) :
    ∀ p ∈ posts, s.service.Belongs p.registration p.stackID := by
  have holds := h.held
  rwa [held] at holds

theorem kept_new (cfg : Config) (stackID : Bytes) : (new cfg stackID).Kept :=
  ⟨Service.owned_new cfg, by simp [new], trivial⟩

/-- A step of the service that touches no envelope that was taken. -/
theorem Kept.service (h : s.Kept) {service : Service} (owned : service.Owned)
    (keeps : s.service.KeepsIDs service) {w : Waiting} {reader : Reader} {holder : Option Holder}
    (held : Holds service holder) :
    Kept { s with service := service, waiting := w, reader := reader, holder := holder } where
  owned := owned
  taken t member := by
    obtain ⟨dst, found⟩ := h.taken t member
    exact ⟨dst, keeps _ _ found⟩
  held := held

/-- What every act keeps is kept by a sequence of acts. -/
theorem Kept.acts (h : s.Kept) {fresh : ClusterState → ℤ → Prop} {Inv : LiveService → Prop}
    (start : Inv s)
    (keep : ∀ t service, t.Kept → Inv t → Service.Act fresh t.service service →
      Inv { t with service := service })
    {service : Service} (acts : Service.Acts fresh s.service service) :
    Inv { s with service := service } := by
  induction acts with
  | refl => exact start
  | @tail middle service before act ih =>
    have keeps : s.service.KeepsIDs middle := fun _ _ =>
      Service.Moves.own (Service.Acts.moves before)
    have kept : Kept { s with service := middle } :=
      h.service (h.owned.acts before) keeps (h.held.mono keeps)
    exact keep { s with service := middle } service kept ih act

theorem Kept.take (h : s.Kept) (j : ℕ) {reader : Reader} {holder : Option Holder}
    (held : Holds s.service holder) :
    Kept { s.take j with reader := reader, holder := holder } := by
  have channel := fun i => (s.channel_take_sublist j i).length_le
  obtain ⟨subs, taken, same, ids, old⟩ := s.take_eq j
  rw [same] at channel ⊢
  have keeps : s.service.KeepsIDs { s.service with subs := subs } := by
    intro i dst found
    rwa [Service.ids, ids]
  refine ⟨h.owned.congr ids (fun _ => rfl) channel, fun t member => ?_, held.mono keeps⟩
  rw [Service.ids, ids]
  exact (old t member).elim (h.taken t) id

theorem Kept.turn (h : s.Kept) (t : Turn s a u) : u.Kept := by
  have same : s.service.KeepsIDs s.service := fun _ _ found => found
  cases t with
  | wait w => exact ⟨h.owned, h.taken, h.held⟩
  | lead role generation w => exact ⟨⟨h.owned.belongs, h.owned.room⟩, h.taken, h.held.mono same⟩
  | lock parts w free own => exact ⟨h.owned, h.taken, own⟩
  | register hb mine io w free =>
    refine h.service (h.owned.connect _) (fun _ _ found => (Service.Move.connect _).own found) ?_
    simp [Holds, heartbeatParts, Service.OwnPart, Service.ids_connect]
  | part p rest left held fewer =>
    have own := h.ownParts held
    have acts := Service.acts_runPart (own p (.head rest))
    have keeps : s.service.KeepsIDs (s.service.runPart p).1 := fun _ _ found =>
      Service.Moves.own (Service.Acts.moves acts) found
    exact h.service (h.owned.acts acts) keeps fun q member =>
      (own q (.tail p (fewer member))).mono keeps
  | demote order w free all => exact ⟨h.owned, h.taken, by simp [Holds]⟩
  | enter order drained id rest pending held all =>
    refine ⟨h.owned, h.taken, fun p member => ?_⟩
    obtain ⟨r, registered, rfl⟩ := List.mem_map.1 member
    exact h.owned.belongs id r (all.mem_iff.1 registered)
  | drain p posts rest pending held => exact h.take _ (h.postsBelong held)
  | post p posts rest pending held =>
    have belongs := h.postsBelong held
    have keeps : s.service.KeepsIDs (s.service.post p) := by
      intro i dst found
      rwa [Service.ids_post]
    exact h.service (h.owned.post (belongs p (.head posts))) keeps fun q member =>
      (belongs q (.tail p member)).mono keeps
  | unlock w => exact ⟨h.owned, h.taken, trivial⟩
  | close i w =>
    have keeps : s.service.KeepsIDs (s.service.closeSubscriber i) := by
      intro j dst found
      rwa [Service.ids_closeSubscriber]
    exact h.service (h.owned.closeSubscriber i) keeps (h.held.mono keeps)
  | refuse hb mine w => exact ⟨h.owned, h.taken, h.held⟩
  | answer id w => exact ⟨⟨h.owned.belongs, h.owned.room⟩, h.taken, h.held.mono same⟩
  | receive i env rest ready =>
    refine h.take i ?_
    rw [holder_take]
    exact h.held
  | apply env wire nowMs ready => exact ⟨h.owned, h.taken, h.held⟩
  | hangUp => exact ⟨h.owned, h.taken, h.held⟩

/-! ## What is put into the channels -/

/-- A channel may have grown, and nothing was taken out of it. -/
theorem history_grows {service : Service} {P : TopologyEnvelope → Prop} {i : ℕ}
    (grows : Grows P (s.service.channel i) (service.channel i)) {w : Waiting} {reader : Reader}
    {holder : Option Holder} :
    Grows P (s.history i)
      (history { s with service := service, waiting := w, reader := reader, holder := holder } i) :=
  grows.append_left _

/-- What a step adds to a channel has the role of the service, or was made by a demotion before. -/
theorem Turn.history (t : Turn s a u) (kept : s.Kept) (i : ℕ) :
    Grows (fun env => env.watchdogRole = s.service.cfg.role ∨ ∃ p ∈ s.posts, env = p.envelope)
      (s.history i) (u.history i) := by
  cases t with
  | wait | lead | lock | demote | enter | unlock | refuse | answer | apply | hangUp =>
    exact .of_eq rfl
  | register hb mine io w => exact history_grows (.of_eq (s.service.channel_connect _ i))
  | part p rest left held =>
    have acts := Service.acts_runPart (kept.ownParts held p (.head rest))
    exact history_grows ((Service.Acts.channel acts kept.owned i).mono fun _ => .inl)
  | drain p => exact .of_eq (s.history_take p.registration.sub i)
  | post p posts rest pending held =>
    have belongs := kept.postsBelong held p (.head posts)
    exact history_grows ((Service.grows_post belongs i).mono fun env same =>
      .inr ⟨p, mem_posts held (.head posts), same⟩)
  | close j w => exact history_grows (.of_eq (s.service.channel_closeSubscriber j i))
  | receive j => exact .of_eq (s.history_take j i)

/-- Only `SetLeadership` changes the configuration. -/
theorem Turn.cfg (t : Turn s a u) (kept : s.Kept) :
    u.service.cfg = s.service.cfg ∨
      ∃ role generation, a = .setLeadership role generation ∧
        u.service = s.service.lead role generation := by
  cases t with
  | wait | lock | register | demote | enter | unlock | refuse | answer | apply | hangUp =>
    exact .inl rfl
  | lead role generation => exact .inr ⟨role, generation, rfl, rfl⟩
  | part p rest left held =>
    have acts := Service.acts_runPart (kept.ownParts held p (.head rest))
    exact .inl (Service.Moves.cfg_eq (Service.Acts.moves acts))
  | drain p => exact .inl (s.cfg_take p.registration.sub)
  | post p => exact .inl (Service.cfg_post s.service p)
  | close i => exact .inl (s.service.cfg_closeSubscriber i)
  | receive i => exact .inl (s.cfg_take i)

/-- A demotion makes its envelopes when it comes to a stack. -/
theorem Turn.posts (t : Turn s a u) {p : Post} (h : p ∈ u.posts) :
    p ∈ s.posts ∨
      (∃ order, a = .enter order) ∧ p.envelope = s.service.standbyEnvelope p.stackID := by
  unfold LiveService.posts at h ⊢
  cases t with
  | wait | lead | close | refuse | answer | apply | hangUp => exact .inl h
  | lock | register | part | demote | unlock => exact absurd h List.not_mem_nil
  | enter order drained id rest pending held all =>
    obtain ⟨r, -, rfl⟩ := List.mem_map.1 h
    exact .inr ⟨⟨order, rfl⟩, rfl⟩
  | drain q posts rest pending held =>
    rw [held]
    exact .inl h
  | post q posts rest pending held =>
    rw [held]
    exact .inl (.tail q h)
  | receive i env rest ready =>
    dsimp only at h
    rw [holder_take] at h
    exact .inl h

/-! ## After a demotion -/

/-- No `SetLeadership` call makes the service primary. -/
def NoPromotion (_ : LiveService) : LiveAction → Prop
  | .setLeadership role _ => role ≠ .primary
  | _ => True

/-- The service is not primary, and no demotion has found that it was. -/
structure Demoted (s : LiveService) : Prop where
  role : s.service.cfg.role ≠ .primary
  posts : ∀ p ∈ s.posts, p.envelope.watchdogRole ≠ .primary

theorem Demoted.turn (h : s.Demoted) (kept : s.Kept) (allowed : NoPromotion s a)
    (t : Turn s a u) : u.Demoted where
  role := by
    rcases t.cfg kept with same | ⟨role, generation, rfl, same⟩
    · rw [same]
      exact h.role
    · rw [same]
      exact allowed
  posts p member := by
    rcases t.posts member with old | ⟨-, made⟩
    · exact h.posts p old
    · rw [made]
      exact h.role

/-- No envelope of a primary gets into a channel until the service is promoted. -/
theorem Demoted.run (h : s.Demoted) (kept : s.Kept) {as : List LiveAction}
    (r : Run step NoPromotion s as u) (i : ℕ) :
    Grows (fun env => env.watchdogRole ≠ .primary) (s.history i) (u.history i) := by
  refine (r.invariant (fun v => v.Kept ∧ v.Demoted ∧
    Grows (fun env => env.watchdogRole ≠ .primary) (s.history i) (v.history i))
    ⟨kept, h, .of_eq rfl⟩ ?_).2.2
  rintro v b w ⟨kept, demoted, grows⟩ allowed enabled
  have t := step_turn enabled
  refine ⟨kept.turn t, demoted.turn kept allowed t, grows.trans ((t.history kept i).mono ?_)⟩
  rintro env (role | ⟨p, member, rfl⟩)
  · rw [role]
    exact demoted.role
  · exact demoted.posts p member

/-! ## Phase 1 -/

/-- The last envelope in the channel so far is the standby envelope of the stack. -/
def Told (s : LiveService) (i : ℕ) (id : Bytes) : Prop :=
  ∃ earlier, s.history i = earlier ++ [s.service.standbyEnvelope id]

/-- Phase 1 is under way for the subscribers `targets` of the stacks. -/
structure Phase (targets : Bytes → Registration → Prop) (s : LiveService) (drained : Bool)
    (posts : List Post) (rest : List Bytes) : Prop where
  nodup : rest.Nodup
  current : ∀ p ∈ posts, p.stackID ∉ rest
  envelope : ∀ p ∈ posts, p.envelope = s.service.standbyEnvelope p.stackID
  room : drained = true → ∀ p ∈ posts.head?, (s.service.channel p.registration.sub).length < 8
  belongs : ∀ id r, targets id r → s.service.Belongs r id
  /-- the turn of a subscriber is still to come, or it has been told -/
  reached : ∀ id r, targets id r →
    id ∈ rest ∧ r ∈ (s.service.stack id).subscribers.toList ∨
      (∃ p ∈ posts, p.stackID = id ∧ p.registration = r) ∨ s.Told r.sub id

/-- The demotion that holds `mu` is in phase 1. -/
def InPhase (targets : Bytes → Registration → Prop) (s : LiveService) : Prop :=
  ∃ drained posts rest pending, s.holder = some (.demotion drained posts rest pending) ∧
    Phase targets s drained posts rest

variable {targets : Bytes → Registration → Prop} {drained : Bool} {posts : List Post}
  {rest : List Bytes}

/-- What does not touch the subscribers and adds nothing to the channels. -/
theorem Phase.quiet (h : Phase targets s drained posts rest) (cfg : u.service.cfg = s.service.cfg)
    (ids : u.service.ids = s.service.ids)
    (stack : ∀ id, (u.service.stack id).subscribers = (s.service.stack id).subscribers)
    (channel : ∀ i, (u.service.channel i).length ≤ (s.service.channel i).length)
    (history : ∀ i, u.history i = s.history i) : Phase targets u drained posts rest where
  nodup := h.nodup
  current := h.current
  envelope p member := (h.envelope p member).trans (Service.standbyEnvelope_congr cfg _).symm
  room ready p first := (channel _).trans_lt (h.room ready p first)
  belongs id r target := by
    rw [Service.Belongs, ids]
    exact h.belongs id r target
  reached id r target := by
    rw [stack, Told, history, Service.standbyEnvelope_congr cfg]
    exact h.reached id r target

theorem Phase.take (h : Phase targets s drained posts rest) (i : ℕ) {reader : Reader}
    {holder : Option Holder} :
    Phase targets { s.take i with reader := reader, holder := holder } drained posts rest := by
  have channel := fun j => (s.channel_take_sublist i j).length_le
  have history := s.history_take i
  obtain ⟨subs, taken, same, ids, -⟩ := s.take_eq i
  rw [same] at channel history ⊢
  exact h.quiet rfl ids (fun _ => rfl) channel history

theorem Phase.enter {id : Bytes} (h : Phase targets s drained [] (id :: rest))
    {order : List Registration} (all : order.Perm (s.service.stack id).subscribers.toList)
    {holder : Option Holder} :
    Phase targets { s with holder := holder } false
      (order.map fun r => ⟨id, r, s.service.standbyEnvelope id⟩) rest where
  nodup := h.nodup.of_cons
  current p member := by
    obtain ⟨r, -, rfl⟩ := List.mem_map.1 member
    exact (List.nodup_cons.1 h.nodup).1
  envelope p member := by
    obtain ⟨r, -, rfl⟩ := List.mem_map.1 member
    rfl
  room ready := absurd ready (by simp)
  belongs := h.belongs
  reached k r target := by
    rcases h.reached k r target with ⟨coming, registered⟩ | ⟨p, none, -⟩ | told
    · rcases List.mem_cons.1 coming with rfl | later
      · refine .inr (.inl ⟨_, List.mem_map.2 ⟨r, all.mem_iff.2 registered, rfl⟩, rfl, rfl⟩)
      · exact .inl ⟨later, registered⟩
    · exact absurd none List.not_mem_nil
    · exact .inr (.inr told)

/-- The channel has been drained, so it has room. -/
theorem Phase.drain {p : Post} (h : Phase targets s false (p :: posts) rest)
    (owned : s.service.Owned) {holder : Option Holder} :
    Phase targets { s.take p.registration.sub with holder := holder } true (p :: posts) rest := by
  have taken : Phase targets { s.take p.registration.sub with holder := holder } false (p :: posts)
      rest := h.take p.registration.sub
  refine { taken with room := fun _ q first => ?_ }
  obtain rfl : p = q := Option.some.inj first
  have full := owned.room p.registration.sub
  dsimp only
  rw [channel_take, if_pos rfl, List.length_tail]
  omega

theorem Phase.post {p : Post} (h : Phase targets s true (p :: posts) rest)
    (belongs : s.service.Belongs p.registration p.stackID) {holder : Option Holder} :
    Phase targets { s with service := s.service.post p, holder := holder } false posts rest := by
  have room := h.room rfl p rfl
  have standby := fun id => Service.standbyEnvelope_congr (Service.cfg_post s.service p) id
  -- the channel has room, so the envelope is now the last one there
  have told : ∀ i, history { s with service := s.service.post p, holder := holder } i =
      if i = p.registration.sub then s.history i ++ [p.envelope] else s.history i := by
    intro i
    unfold LiveService.history
    dsimp only
    rw [Service.channel_post belongs]
    simp only [room, and_true]
    split_ifs with same
    · rw [same, List.append_assoc]
    · rfl
  have envelope := h.envelope p (.head posts)
  refine ⟨h.nodup, fun q member => h.current q (.tail p member), fun q member => ?_,
    fun ready => absurd ready (by simp), fun id r target => ?_, fun id r target => ?_⟩
  · exact (h.envelope q (.tail p member)).trans (standby _).symm
  · rw [Service.Belongs, Service.ids_post]
    exact h.belongs id r target
  · unfold Told
    dsimp only
    rw [told, standby]
    rcases h.reached id r target with ⟨coming, registered⟩ | ⟨q, member, rfl, rfl⟩ | ⟨earlier, last⟩
    · have other : id ≠ p.stackID := fun same => h.current p (.head posts) (same ▸ coming)
      rw [Service.stack_post_of_ne other]
      exact .inl ⟨coming, registered⟩
    · rcases List.mem_cons.1 member with rfl | later
      · rw [if_pos rfl, envelope]
        exact .inr (.inr ⟨_, rfl⟩)
      · exact .inr (.inl ⟨q, later, rfl, rfl⟩)
    · split_ifs with same
      · -- a subscriber has one stack, so it is told the same once more
        obtain ⟨dst, found, rfl⟩ := h.belongs id r target
        obtain ⟨dst', found', stack⟩ := belongs
        rw [same] at found
        obtain rfl := Option.some.inj (found'.symm.trans found)
        rw [envelope, ← stack]
        exact .inr (.inr ⟨_, rfl⟩)
      · exact .inr (.inr ⟨earlier, last⟩)

/-- No `SetLeadership` call. -/
def SameLeadership (_ : LiveService) : LiveAction → Prop
  | .setLeadership .. => False
  | _ => True

/-- No `SetLeadership` call, and whoever holds `mu` keeps it. -/
def Locked (_ : LiveService) : LiveAction → Prop
  | .setLeadership .. | .unlock => False
  | _ => True

instance (s : LiveService) : (a : LiveAction) → Decidable (Locked s a)
  | .setLeadership .. | .unlock => .isFalse not_false
  | .demote _ | .enter _ | .next | .apply _ | .close _ | .watch _ | .register .. | .refuse .. |
    .query _ | .getTopology .. | .receiveHeartbeat .. | .observePods .. | .unregister _ |
    .reaperCheck | .bookwormCheck | .reaper .. | .bookworm _ | .receiveEnvelope _ | .hangUp =>
    .isTrue trivial

/-- Phase 1 is about to give `mu` back. -/
def phase1Over (s : LiveService) : Bool :=
  match s.holder with
  | some (.demotion _ [] [] _) => true
  | _ => false

theorem InPhase.turn (h : InPhase targets s) (kept : s.Kept) (allowed : Locked s a)
    (t : Turn s a u) : InPhase targets u := by
  obtain ⟨drained, posts, rest, pending, held, phase⟩ := h
  have busy : s.holder ≠ none := by
    rw [held]
    simp
  cases t with
  | wait | refuse | answer | apply | hangUp =>
    exact ⟨drained, posts, rest, pending, held,
      phase.quiet rfl rfl (fun _ => rfl) (fun _ => le_rfl) fun _ => rfl⟩
  | lead => exact allowed.elim
  | lock _ _ free | register _ _ _ _ free | demote _ _ free => exact absurd free busy
  | part p parts left held' =>
    rw [held] at held'
    cases held'
  | enter order drained' id rest' pending' held' all =>
    obtain ⟨rfl, rfl, rfl, rfl⟩ : drained = drained' ∧ posts = [] ∧ rest = id :: rest' ∧
        pending = pending' := by simpa using held.symm.trans held'
    exact ⟨_, _, _, _, rfl, phase.enter all⟩
  | drain p posts' rest' pending' held' =>
    obtain ⟨rfl, rfl, rfl, rfl⟩ : drained = false ∧ posts = p :: posts' ∧ rest = rest' ∧
        pending = pending' := by simpa using held.symm.trans held'
    exact ⟨_, _, _, _, rfl, phase.drain kept.owned⟩
  | post p posts' rest' pending' held' =>
    obtain ⟨rfl, rfl, rfl, rfl⟩ : drained = true ∧ posts = p :: posts' ∧ rest = rest' ∧
        pending = pending' := by simpa using held.symm.trans held'
    exact ⟨_, _, _, _, rfl, phase.post (kept.postsBelong held p (.head posts'))⟩
  | unlock => exact allowed.elim
  | close i w =>
    refine ⟨drained, posts, rest, pending, held, phase.quiet (s.service.cfg_closeSubscriber i)
      (s.service.ids_closeSubscriber i) (fun id => ?_) (fun j => ?_) fun j => ?_⟩
    · exact congrArg StackState.subscribers (s.service.stack_closeSubscriber i id)
    · exact le_of_eq (congrArg List.length (s.service.channel_closeSubscriber i j))
    · exact congrArg _ (s.service.channel_closeSubscriber i j)
  | receive i env rest' ready =>
    exact ⟨drained, posts, rest, pending, (s.holder_take i).trans held, phase.take i⟩

/-- When the demotion takes `mu`, the turns of all subscribers are still to come. -/
theorem inPhase_of_demote {order : List Bytes} (kept : s.Kept)
    (h : s.step (.demote order) = some u) :
    InPhase (fun id r => r ∈ (u.service.stack id).subscribers.toList) u := by
  simp only [step] at h
  split_ifs at h with ready
  cases h
  refine ⟨false, [], order, [], rfl, ready.2.2.nodup_iff.2 s.service.stackMap.nodup, by simp,
    by simp, by simp, kept.owned.belongs, fun id r registered => .inl ⟨?_, registered⟩⟩
  exact ready.2.2.mem_iff.2 (Service.mem_stackIDs registered)

theorem InPhase.told (h : InPhase targets s) (finished : s.phase1Over = true) {id : Bytes}
    {r : Registration} (target : targets id r) : s.Told r.sub id := by
  obtain ⟨drained, posts, rest, pending, held, phase⟩ := h
  rw [phase1Over, held] at finished
  split at finished
  · next same =>
    obtain ⟨-, rfl, rfl, -⟩ := by simpa using same
    rcases phase.reached id r target with ⟨coming, -⟩ | ⟨p, member, -⟩ | told
    · exact absurd coming List.not_mem_nil
    · exact absurd member List.not_mem_nil
    · exact told
  · cases finished

theorem posts_of_phase1Over (finished : s.phase1Over = true) : s.posts = [] := by
  unfold phase1Over at finished
  split at finished
  · next held => rw [LiveService.posts, held]
  · cases finished

theorem kept_of_run {ok : LiveService → LiveAction → Prop} {as : List LiveAction}
    (r : Run step ok s as u) (kept : s.Kept) : u.Kept :=
  r.invariant Kept kept fun _ _ _ h _ enabled => h.turn (step_turn enabled)

/-- The role and the generation stay without a `SetLeadership` call. -/
theorem cfg_of_run {ok : LiveService → LiveAction → Prop} {as : List LiveAction}
    (r : Run step ok s as u) (kept : s.Kept) (same : ∀ v b, ok v b → SameLeadership v b) :
    u.service.cfg = s.service.cfg := by
  refine (r.invariant (fun v => v.Kept ∧ v.service.cfg = s.service.cfg) ⟨kept, rfl⟩ ?_).2
  rintro v b w ⟨kept, eq⟩ allowed enabled
  have t := step_turn enabled
  refine ⟨kept.turn t, ?_⟩
  rcases t.cfg kept with eq' | ⟨role, generation, rfl, -⟩
  · exact eq'.trans eq
  · exact (same _ _ allowed).elim

theorem Locked.sameLeadership {s : LiveService} {a : LiveAction} (h : Locked s a) :
    SameLeadership s a := by
  cases a with
  | setLeadership => exact h
  | _ => trivial

end LiveService

open LiveService

/-- A `SetLeadership` call demotes a service that any calls have brought about, and no other such
call overlaps it.  Whatever happens before it gets `mu` and while it holds it in phase 1, at the end
of phase 1 the standby envelope of its stack is the last one ever put into the channel of every
subscriber that was registered when phase 1 began.  From then on no envelope of a primary is put
into any channel, until a `SetLeadership` call makes the service primary. -/
theorem demotion_reaches_queue_last {cfg : Config} {stackID : Bytes} {as bs cs : List LiveAction}
    {s₀ s₁ s₂ s₃ s₄ : LiveService} {generation : ℤ} {order : List Bytes}
    (reached : Run step anyAction (.new cfg stackID) as s₀)
    (demoted : s₀.step (.setLeadership .standby generation) = some s₁)
    (waited : Run step SameLeadership s₁ bs s₂) (locked : s₂.step (.demote order) = some s₃)
    (phase1 : Run step Locked s₃ cs s₄) (finished : s₄.phase1Over = true) :
    (∀ id, (s₁.service.standbyEnvelope id).watchdogRole = .standby) ∧
    (∀ id, ∀ r ∈ (s₃.service.stack id).subscribers.toList,
      ∃ earlier, s₄.history r.sub = earlier ++ [s₁.service.standbyEnvelope id]) ∧
    ∀ ds u, Run step NoPromotion s₄ ds u → ∀ i,
      Grows (fun env => env.watchdogRole ≠ .primary) (s₄.history i) (u.history i) := by
  have kept₁ := (kept_of_run reached (kept_new cfg stackID)).turn (step_turn demoted)
  have kept₂ := kept_of_run waited kept₁
  have kept₃ := kept₂.turn (step_turn locked)
  have kept₄ := kept_of_run phase1 kept₃
  have role₁ : s₁.service.cfg.role = .standby := by
    cases demoted
    rfl
  have cfg₃ : s₃.service.cfg = s₂.service.cfg := by
    simp only [step] at locked
    split_ifs at locked
    cases locked
    rfl
  have cfg₄ : s₄.service.cfg = s₁.service.cfg := calc
    s₄.service.cfg = s₃.service.cfg := cfg_of_run phase1 kept₃ fun _ _ => Locked.sameLeadership
    _ = s₂.service.cfg := cfg₃
    _ = s₁.service.cfg := cfg_of_run waited kept₁ fun _ _ h => h
  refine ⟨fun _ => role₁, fun id r registered => ?_, fun ds u later i => ?_⟩
  · have phase : InPhase _ s₄ := (phase1.invariant (fun v => v.Kept ∧ InPhase _ v)
      ⟨kept₃, inPhase_of_demote kept₂ locked⟩ fun v b w h allowed enabled =>
        ⟨h.1.turn (step_turn enabled), h.2.turn h.1 allowed (step_turn enabled)⟩).2
    obtain ⟨earlier, last⟩ := phase.told finished registered
    rw [Service.standbyEnvelope_congr cfg₄] at last
    exact ⟨earlier, last⟩
  · refine Demoted.run ⟨?_, ?_⟩ kept₄ later i
    · rw [cfg₄, role₁]
      simp
    · simp [posts_of_phase1Over finished]

/-- A node registers, and the bookworm fills its channel. -/
def fullChannel : List LiveAction :=
  [.watch (beatOf 1), .register 0 true (beatAt 0), .next, .next, .next, .unlock] ++
    (List.replicate 8 [.bookwormCheck, .bookworm [([97], ⟨1000000000, none⟩)], .next, .next,
      .unlock]).flatten

/-- A demotion at once: after its assignments, with `mu`, and at the end of phase 1. -/
def demoteNow (s : LiveService) : Option (LiveService × LiveService × LiveService) := do
  let s₁ ← s.step (.setLeadership .standby 0)
  let s₃ ← s₁.step (.demote [[97]])
  let s₄ ← exec step Locked s₃ [.enter [⟨[1], 0⟩], .next, .next]
  return (s₁, s₃, s₄)

/-- The demotion gets through to a subscriber whose channel is full. -/
theorem demotion_reaches_full_queue :
    ∃ s₀ s₁ s₃ s₄, Run step anyAction (.new standardConfig [97]) fullChannel s₀ ∧
      s₀.service.isPrimary = true ∧ s₀.step (.setLeadership .standby 0) = some s₁ ∧
      s₁.step (.demote [[97]]) = some s₃ ∧ (s₃.service.channel 0).length = 8 ∧
      Run step Locked s₃ [.enter [⟨[1], 0⟩], .next, .next] s₄ ∧
      ∃ earlier, s₄.history 0 = earlier ++ [s₁.service.standbyEnvelope [97]] := by
  obtain ⟨s₀, reached, primary, evaluated⟩ := Run.exists_of_exec step anyAction
    (.new standardConfig [97]) fullChannel
    (fun s₀ => s₀.service.isPrimary = true ∧ (demoteNow s₀).any (fun (_, s₃, s₄) =>
      (s₃.service.channel 0).length = 8 ∧ s₄.phase1Over = true ∧
        ⟨[1], 0⟩ ∈ (s₃.service.stack [97]).subscribers.toList) = true)
    (by decide +kernel)
  obtain ⟨⟨s₁, s₃, s₄⟩, found, facts⟩ := (Option.any_eq_true _ _).1 evaluated
  obtain ⟨full, finished, registered⟩ := of_decide_eq_true facts
  unfold demoteNow at found
  obtain ⟨s₁, demoted, found⟩ := Option.bind_eq_some_iff.1 found
  obtain ⟨s₃, locked, found⟩ := Option.bind_eq_some_iff.1 found
  obtain ⟨s₄, phase1, found⟩ := Option.bind_eq_some_iff.1 found
  cases found
  exact ⟨s₀, s₁, s₃, s₄, reached, primary, demoted, locked, full, .of_exec phase1,
    (demotion_reaches_queue_last reached demoted .nil locked (.of_exec phase1) finished).2.1 [97]
      ⟨[1], 0⟩ registered⟩

end OlricStack.Topology
