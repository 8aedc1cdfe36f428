import OlricStack.Wire.Safety

/-!
# Authentication over the requests of a connection

`AUTH` changes the context of its connection; every other request is refused until it has.
-/

namespace OlricStack.Wire

open Node

variable {F : Type} {lib : Library F} {password : Bytes}

/-! ## Requests of a connection -/

/-- A request, and whether the node is operable when it comes. -/
structure Request where
  operable : Bool
  args : List Bytes

/-- `authCommandHandler` behind its parser: the answer, and the context of the connection. -/
def authCommandHandler (password : Bytes) (authenticated : Bool) (given : Bytes) :
    Outcome (Command F) × Bool :=
  if password = [] then (.error .noPassword, authenticated)
  else if given = password then (.ok (.auth given), true)
  else (.error .wrongPass, authenticated)

/-- One request on a connection. `RequireAuth` is set when there is a password. -/
def serve (lib : Library F) (password : Bytes) (fuel : ℕ) (authenticated : Bool) (r : Request) :
    Outcome (Command F) × Bool :=
  match serveRESP lib ⟨password ≠ [], authenticated, r.operable⟩ fuel r.args with
  | .ok (.auth given) => authCommandHandler password authenticated given
  | outcome => (outcome, authenticated)

/-- The context of a connection after its requests. -/
def context (lib : Library F) (password : Bytes) (fuel : ℕ) (authenticated : Bool)
    (requests : List Request) : Bool :=
  requests.foldl (fun authenticated r => (serve lib password fuel authenticated r).2) authenticated

/-- The request is AUTH, in upper or lower case. -/
def Request.IsAuth (lib : Library F) (r : Request) : Prop :=
  ∃ command rest, r.args = command :: rest ∧ lib.toLower command = text "auth"

/-- The request that authenticates its connection. The precondition is left out for the name in
lower case only. -/
def Request.Grants (lib : Library F) (password : Bytes) (r : Request) : Prop :=
  ∃ command, r.args = [command, password] ∧ lib.toLower command = text "auth" ∧
    (command = text "auth" ∨ r.operable = true)

theorem auth_not_pubsub : Name.auth.text.take 6 ≠ text "pubsub" := by decide

theorem parseAuth_iff (args : List Bytes) (given : Bytes) :
    (parseAuthCommand args : Outcome (Command F)) = .ok (.auth given) ↔
      ∃ command, args = [command, given] := by
  match args with
  | [] | [_] | _ :: _ :: _ :: _ => simp [parseAuthCommand]
  | [_, _] => simp [parseAuthCommand]

theorem serveRESP_auth_iff (lib : Library F) (conn : Conn) (fuel : ℕ) (args : List Bytes)
    (given : Bytes) :
    serveRESP lib conn fuel args = .ok (.auth given) ↔
      ∃ command, args = [command, given] ∧ lib.toLower command = text "auth" ∧
        (command = text "auth" ∨ conn.operable = true) := by
  constructor
  · intro ok
    cases args with
    | nil => cases ok
    | cons command rest =>
      by_cases known : ∃ n : Name, lib.toLower command = n.text
      · obtain ⟨n, name⟩ := known
        rw [serve_known conn fuel name] at ok
        split_ifs at ok with refused closed
        have same := parse_name lib n fuel _ _ ok
        subst same
        obtain ⟨_, same⟩ := (parseAuth_iff _ _).1 ok
        cases same
        refine ⟨command, rfl, name, ?_⟩
        have other : command ≠ text "internal.node.updaterouting" := by
          rintro rfl
          cases name_injective ((toLower_name lib .updateRouting).symm.trans name)
        by_contra neither
        push Not at neither
        exact closed ⟨other, neither.1, by simpa using neither.2⟩
      · rcases serve_unknown conn fuel (fun n h => known ⟨n, h⟩) rest with ⟨e, eq⟩ | ⟨n, two, eq⟩
        · cases eq.symm.trans ok
        · have same := parse_name lib n fuel _ _ (eq.symm.trans ok)
          subst same
          exact absurd two auth_not_pubsub
  · rintro ⟨command, rfl, name, lower⟩
    rw [serve_known (n := .auth) conn fuel name, if_neg (fun h => h.2.1 rfl), if_neg ?_]
    · exact (parseAuth_iff _ _).2 ⟨command, rfl⟩
    · rintro ⟨-, other, closed⟩
      rcases lower with rfl | operable
      · exact other rfl
      · simp [operable] at closed

/-- What a request does to the context. -/
theorem serve_context (enabled : password ≠ []) (fuel : ℕ) (authenticated : Bool) (r : Request) :
    (serve lib password fuel authenticated r).2 = true ↔
      authenticated = true ∨ r.Grants lib password := by
  have grants := serveRESP_auth_iff lib ⟨password ≠ [], authenticated, r.operable⟩ fuel
    r.args password
  rw [Request.Grants, ← grants, serve]
  split
  · rename_i given ok
    rw [ok, authCommandHandler, if_neg enabled]
    split_ifs with same <;> simp [same]
  · rename_i other
    exact (or_iff_left (other password)).symm

theorem context_iff (lib : Library F) (enabled : password ≠ []) (fuel : ℕ) (authenticated : Bool)
    (requests : List Request) : context lib password fuel authenticated requests = true ↔
      authenticated = true ∨ ∃ r ∈ requests, r.Grants lib password := by
  induction requests generalizing authenticated with
  | nil => simp [context]
  | cons r requests ih =>
    rw [context, List.foldl_cons]
    refine (ih _).trans ?_
    rw [serve_context enabled]
    simp [or_assoc]

/-- Before it is authenticated a connection does nothing but `AUTH`. -/
theorem serve_refused (enabled : password ≠ []) (fuel : ℕ) {r : Request} (sent : r.args ≠ [])
    (other : ¬ r.IsAuth lib) : serve lib password fuel false r = (.error .authRequired, false) := by
  obtain ⟨command, rest, eq⟩ := List.exists_cons_of_ne_nil sent
  have name : lib.toLower command ≠ text "auth" := fun h => other ⟨command, rest, eq, h⟩
  have refused : serveRESP lib ⟨password ≠ [], false, r.operable⟩ fuel r.args =
      .error .authRequired := by
    rw [serveRESP, eq, arg_zero, ok_bind]
    dsimp only
    rw [if_pos ⟨by simpa using enabled, name, rfl⟩]
  rw [serve, refused]

/-- The answer to `AUTH` does not depend on the context. -/
theorem serve_auth (password : Bytes) (fuel : ℕ) {r : Request} (is : r.IsAuth lib)
    (authenticated : Bool) :
    (serve lib password fuel authenticated r).1 = (serve lib password fuel true r).1 := by
  obtain ⟨command, rest, eq, name⟩ := is
  have same : serveRESP lib ⟨password ≠ [], authenticated, r.operable⟩ fuel r.args =
      serveRESP lib ⟨password ≠ [], true, r.operable⟩ fuel r.args := by
    have refused : ∀ conn : Conn, ¬ (conn.requireAuth = true ∧ Name.auth.text ≠ text "auth" ∧
        conn.authenticated = false) := fun _ h => h.2.1 rfl
    rw [eq, serve_known (n := .auth) _ fuel name, serve_known (n := .auth) _ fuel name,
      if_neg (refused _), if_neg (refused _)]
  rw [serve, serve, same]
  split
  · rw [authCommandHandler, authCommandHandler]
    split_ifs <;> rfl
  · rfl

/-- On a connection to a node with a password, a request is answered as on an authenticated one when
it is `AUTH` itself or comes after `AUTH` with the password, and is refused otherwise. -/
theorem answered_iff_granted (lib : Library F) (enabled : password ≠ []) (fuel : ℕ)
    (before : List Request) {r : Request} (sent : r.args ≠ []) :
    ((r.IsAuth lib ∨ ∃ g ∈ before, g.Grants lib password) →
        (serve lib password fuel (context lib password fuel false before) r).1 =
          (serve lib password fuel true r).1) ∧
      (¬ (r.IsAuth lib ∨ ∃ g ∈ before, g.Grants lib password) →
        (serve lib password fuel (context lib password fuel false before) r).1 =
          .error .authRequired) := by
  have granted := context_iff lib enabled fuel false before
  simp only [Bool.false_eq_true, false_or] at granted
  refine ⟨?_, fun none => ?_⟩
  · rintro (is | some)
    · exact serve_auth password fuel is _
    · rw [granted.2 some]
  · push Not at none
    have closed : context lib password fuel false before = false := by
      rw [← Bool.not_eq_true, granted]
      push Not
      exact none.2
    rw [closed, serve_refused enabled fuel sent none.1]

/-- The name in upper case does not authenticate while the node is not operable. -/
theorem answered_iff_granted_upper :
    (serve wholeLibrary (text "pw") 9
      (context wholeLibrary (text "pw") 9 false [⟨false, [text "AUTH", text "pw"]⟩])
      ⟨true, [text "dm.get", text "d", text "k"]⟩).1 = .error .authRequired := by
  refine (answered_iff_granted wholeLibrary (by decide) 9 _ (by decide)).2 ?_
  rintro (⟨_, _, ⟨⟩, lower⟩ | ⟨g, mem, command, args, -, lower⟩)
  · exact absurd lower (by decide)
  · cases List.mem_singleton.1 mem
    cases args
    exact absurd lower (by decide)

end OlricStack.Wire
