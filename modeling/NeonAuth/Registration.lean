import NeonAuth.Hooks

namespace NeonAuth.Registration

open Protocol Session Hooks

def defaultMask (scheme : List Char) (isproxy : Bool) : Nat :=
  if scheme = "https".toList || isproxy then neAuthBasic ||| neAuthDigest ||| neAuthNegotiate
  else neAuthBasic ||| neAuthDigest

def callRequest (scheme : List Char) : ApiCall → Option (Role × AuthHandler)
  | .setServerAuth creds userdata => some (.server, ⟨defaultMask scheme false, creds, userdata⟩)
  | .setProxyAuth creds userdata => some (.proxy, ⟨defaultMask scheme true, creds, userdata⟩)
  | .addServerAuth protocol creds userdata => some (.server, ⟨protocol, creds, userdata⟩)
  | .addProxyAuth protocol creds userdata => some (.proxy, ⟨protocol, creds, userdata⟩)
  | .forgetAuth => none

def requestFor (scheme : List Char) (role : Role) (a : ApiCall) : Option AuthHandler :=
  (callRequest scheme a).bind fun (r, h) => if r = role then some h else none

def requested (scheme : List Char) (calls : List ApiCall) (role : Role) : List AuthHandler :=
  calls.filterMap (requestFor scheme role)

theorem addHandler_of_length_le {h : AuthHandler} {l : List AuthHandler} (hl : l.length ≤ 1) :
    addHandler h l = [h] := by
  match l, hl with
  | [], _ => rfl
  | [_], _ => rfl

@[simp] theorem scheme_apply (ns : NeSession) (a : ApiCall) : (a.apply ns).scheme = ns.scheme := by
  cases a <;> rfl

@[simp] theorem scheme_foldl (ns : NeSession) (calls : List ApiCall) :
    (calls.foldl ApiCall.apply ns).scheme = ns.scheme := by
  induction calls generalizing ns with
  | nil => rfl
  | cons a calls ih => simp [ih]

theorem handlers_authRegister (ns : NeSession) (isproxy : Bool) (m : Nat) (ahc : AuthClass)
    (id role : Role) (creds userdata : Nat) (hle : ∀ s, ns.priv id = some s → s.handlers.length ≤ 1) :
    ((authRegister ns isproxy m ahc id creds userdata).priv role).map (·.handlers) =
      if id = role then some [⟨m, creds, userdata⟩] else (ns.priv role).map (·.handlers) := by
  by_cases hr : id = role
  · subst hr
    cases h : ns.priv id with
    | none => simp [authRegister, h, addHandler]
    | some s => simp [authRegister, h, addHandler_of_length_le (hle s h)]
  · simp [authRegister, hr, Function.update_noteq (Ne.symm hr)]

theorem handlers_apply (ns : NeSession) (a : ApiCall) (role : Role)
    (hle : ∀ r s, ns.priv r = some s → s.handlers.length ≤ 1) :
    ((a.apply ns).priv role).map (·.handlers) =
      ((requestFor ns.scheme role a).map fun h => [h]).or ((ns.priv role).map (·.handlers)) := by
  cases a with
  | forgetAuth => simp [ApiCall.apply, neForgetAuth, requestFor, callRequest, Option.map_map]; rfl
  | _ =>
      simp only [ApiCall.apply, neSetServerAuth, neSetProxyAuth, neAddServerAuth, neAddProxyAuth,
        authRegisterDefault, handlers_authRegister _ _ _ _ _ _ _ _ (hle _)]
      cases role <;> simp [requestFor, callRequest, defaultMask]

/-- What any sequence of registrations leaves in a role's handler list: only the handler of the
last call for that role, where ne_auth.h's users expect one handler per call. -/
theorem handlers_after_calls (scheme : List Char) (calls : List ApiCall) (role : Role) :
    ((calls.foldl ApiCall.apply (NeSession.init scheme)).priv role).map (·.handlers) =
      (requested scheme calls role).getLast?.map fun h => [h] := by
  induction calls using List.reverseRecOn generalizing role with
  | nil => rfl
  | append_singleton calls a ih =>
      have hle : ∀ r s, (calls.foldl ApiCall.apply (NeSession.init scheme)).priv r = some s →
          s.handlers.length ≤ 1 := by
        intro r s hs
        have h := ih r
        rw [hs] at h
        cases hl : (requested scheme calls r).getLast? <;> simp_all
      rw [List.foldl_append, List.foldl_cons, List.foldl_nil, handlers_apply _ _ _ hle, ih,
        scheme_foldl]
      simp only [NeSession.init, requested, List.filterMap_append, List.getLast?_append,
        List.filterMap_cons, List.filterMap_nil]
      cases h : requestFor scheme role a <;> simp

/-- Two explicit registrations of the server role on a new session: the second handler has
taken the place of the first. -/
theorem addServerAuth_twice_keeps_second :
    ((neAddServerAuth (neAddServerAuth (NeSession.init "http".toList) neAuthBasic 1 1)
      neAuthDigest 2 2).priv .server).map (·.handlers) = some [⟨neAuthDigest, 2, 2⟩] :=
  (handlers_after_calls "http".toList [.addServerAuth neAuthBasic 1 1, .addServerAuth neAuthDigest 2 2] .server).trans
    rfl

end NeonAuth.Registration
