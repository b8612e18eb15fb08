import NeonAuth.Challenge

namespace NeonAuth.Hooks

open Text Protocol Session Verify Challenge

structure Response where
  code : Nat
  klass : Nat
  header : List Char → Option (List Char)

/-- What the outside world answers during one post-send hook: `ext i` while the `i`-th challenge
is tried, and the value an unset `nonce_count` local happens to hold. -/
structure Oracle where
  ext : Nat → Ext
  junk : Nat

structure Env where
  build : Build
  crypto : Crypto

def ahCreate (s : AuthSession) (method uri : List Char) : Option AuthRequest :=
  let isConnect := method == "CONNECT".toList
  if s.context = .any || (isConnect && s.context = .connect) || (!isConnect && s.context = .notConnect)
  then some ⟨uri, method, 0⟩ else none

def ahPreSend (c : Crypto) (s : AuthSession) (req : Option AuthRequest) :
    Option (AuthSession × Option (List Char)) :=
  match s.protocol, req with
  | some p, some areq =>
      (response p c s areq).map fun (s, value) =>
        (s, value.map fun v => s.spec.reqHdr ++ ": ".toList ++ v)
  | _, _ => some (s, none)

structure Posted where
  sess : AuthSession
  areq : AuthRequest
  ret : NeResult
  accepted : Option AuthChallenge
  calls : List CredsCall
  index : Nat

/-- The last branch of ah_post_send: a challenge in a 401/407 (or a 401 to a CONNECT). The
attempt counter is incremented before auth_challenge runs, and at INT_MAX that is undefined. -/
def challengeBranch (b : Build) (c : Crypto) (o : Oracle) (s : AuthSession) (areq : AuthRequest)
    (code : Nat) (authHdr : Option (List Char)) : Option Posted :=
  match authHdr with
  | some hdr =>
      if code = s.spec.statusCode || (code = 401 && s.context = .connect) then
        if areq.attempt < intMax then
          (authChallenge b c o.ext s areq.attempt hdr).map fun sel =>
            let areq := { areq with attempt := areq.attempt + 1 }
            match sel.accepted with
            | some _ => ⟨sel.sess, areq, .retry, sel.accepted, sel.calls, sel.index⟩
            | none => ⟨cleanSession sel.sess, areq, sel.sess.spec.failCode, none, sel.calls, sel.index⟩
        else none
      else some ⟨s, areq, .ok, none, [], 0⟩
  | none => some ⟨s, areq, .ok, none, [], 0⟩

inductive PostBranch
  | verify (p : AuthProtocol) (value : List Char)
  | challenge (authHdr : Option (List Char))

/-- The tests of ah_post_send, after the CONNECT fallback to WWW-Authenticate. The second test
reads `flags && AUTH_FLAG_VERIFY_NON40x`, which holds whenever the entry has any flag. -/
def postBranch (s : AuthSession) (st : Response) : PostBranch :=
  let fallback := s.context = .connect && st.code = 401 && (st.header s.spec.respHdr).isNone
  let authHdr := if fallback then st.header "WWW-Authenticate".toList else st.header s.spec.respHdr
  let authInfoHdr := if fallback then none else st.header s.spec.respInfoHdr
  match s.protocol, authInfoHdr, authHdr with
  | some p, some info, _ =>
      if p.hasVerify && p.flags &&& authFlagVerifyNon40x == 0 then .verify p info
      else if p.flags != 0 && (st.klass = 2 || st.klass = 3) && authHdr.isSome then .verify p (authHdr.getD [])
      else .challenge authHdr
  | some p, none, some hdr =>
      if p.flags != 0 && (st.klass = 2 || st.klass = 3) then .verify p hdr else .challenge authHdr
  | _, _, _ => .challenge authHdr

/-- ah_post_send for a request that has a record of this session; `none` for undefined
behaviour. -/
def ahPostSend (b : Build) (c : Crypto) (o : Oracle) (s : AuthSession) (areq : AuthRequest)
    (st : Response) : Option Posted :=
  let branch := postBranch s st
  let s := if b = .gssapi then { s with gssapiToken := none } else s
  match branch with
  | .verify p v => (verify p c o.junk areq s v).map fun (s, ret) => ⟨s, areq, ret, none, [], 0⟩
  | .challenge authHdr => challengeBranch b c o s areq st.code authHdr

inductive HookKind
  | createRequest
  | preSend
  | postSend
  | destroyRequest
  | destroySession
  deriving DecidableEq, Repr

structure NeRequest where
  method : List Char
  uri : List Char
  priv : Role → Option AuthRequest

/-- What an ne_session holds for this module: its URI scheme, the auth_session stored under each
hook id, the hooks registered in order, and the live requests. -/
structure NeSession where
  scheme : List Char
  priv : Role → Option AuthSession
  hooks : List (HookKind × Role)
  requests : Nat → Option NeRequest

def NeSession.init (scheme : List Char) : NeSession := ⟨scheme, fun _ => none, [], fun _ => none⟩

/-- The end of auth_register: the walk stops at the last handler rather than after it, and the
new handler is stored in the slot it stops at. -/
def addHandler (h : AuthHandler) : List AuthHandler → List AuthHandler
  | [] => [h]
  | [_] => [h]
  | x :: y :: rest => x :: addHandler h (y :: rest)

def authContext (scheme : List Char) (isproxy : Bool) : AuthContext :=
  if scheme = "https".toList then (if isproxy then .connect else .notConnect) else .any

def authHooks (id : Role) : List (HookKind × Role) :=
  [(.createRequest, id), (.preSend, id), (.postSend, id), (.destroyRequest, id), (.destroySession, id)]

def authRegister (ns : NeSession) (isproxy : Bool) (protomask : Nat) (ahc : AuthClass) (id : Role)
    (creds userdata : Nat) : NeSession :=
  let (ahs, hooks) : AuthSession × List (HookKind × Role) :=
    match ns.priv id with
    | some ahs => (ahs, ns.hooks)
    | none => ({ context := authContext ns.scheme isproxy, spec := ahc }, ns.hooks ++ authHooks id)
  { ns with
    hooks := hooks
    priv := Function.update ns.priv id
      (some { ahs with handlers := addHandler ⟨protomask, creds, userdata⟩ ahs.handlers }) }

def authRegisterDefault (ns : NeSession) (isproxy : Bool) (ahc : AuthClass) (id : Role)
    (creds userdata : Nat) : NeSession :=
  let protomask := neAuthBasic ||| neAuthDigest
  let protomask := if ns.scheme = "https".toList || isproxy then protomask ||| neAuthNegotiate else protomask
  authRegister ns isproxy protomask ahc id creds userdata

def neSetServerAuth (ns : NeSession) (creds userdata : Nat) : NeSession :=
  authRegisterDefault ns false ahServerClass .server creds userdata

def neSetProxyAuth (ns : NeSession) (creds userdata : Nat) : NeSession :=
  authRegisterDefault ns true ahProxyClass .proxy creds userdata

def neAddServerAuth (ns : NeSession) (protocol creds userdata : Nat) : NeSession :=
  authRegister ns false protocol ahServerClass .server creds userdata

def neAddProxyAuth (ns : NeSession) (protocol creds userdata : Nat) : NeSession :=
  authRegister ns true protocol ahProxyClass .proxy creds userdata

def neForgetAuth (ns : NeSession) : NeSession :=
  { ns with priv := fun r => (ns.priv r).map cleanSession }

inductive ApiCall
  | setServerAuth (creds userdata : Nat)
  | setProxyAuth (creds userdata : Nat)
  | addServerAuth (protocol creds userdata : Nat)
  | addProxyAuth (protocol creds userdata : Nat)
  | forgetAuth
  deriving DecidableEq, Repr

def ApiCall.apply (ns : NeSession) : ApiCall → NeSession
  | .setServerAuth creds userdata => neSetServerAuth ns creds userdata
  | .setProxyAuth creds userdata => neSetProxyAuth ns creds userdata
  | .addServerAuth protocol creds userdata => neAddServerAuth ns protocol creds userdata
  | .addProxyAuth protocol creds userdata => neAddProxyAuth ns protocol creds userdata
  | .forgetAuth => neForgetAuth ns

/-- What the application and the transport do to an ne_session, one hook call at a time:
request creation runs every create hook, and each pre-send and post-send hook of a role is
one event. -/
inductive Event
  | call (a : ApiCall)
  | create (r : Nat) (method uri : List Char)
  | preSend (r : Nat) (role : Role)
  | postSend (r : Nat) (role : Role) (resp : Response) (o : Oracle)
  | destroy (r : Nat)

inductive Obs
  | quiet
  | sent (r : Nat) (role : Role) (line : Option (List Char))
  | posted (r : Nat) (role : Role) (ret : NeResult) (accepted : Option AuthChallenge)
      (calls : List CredsCall) (index : Nat)
  deriving DecidableEq

def NeSession.setPriv (ns : NeSession) (role : Role) (s : AuthSession) : NeSession :=
  { ns with priv := Function.update ns.priv role (some s) }

def NeSession.setRequest (ns : NeSession) (r : Nat) (req : Option NeRequest) : NeSession :=
  { ns with requests := Function.update ns.requests r req }

/-- One event; `none` when a hook runs into undefined behaviour. -/
def step (env : Env) (ns : NeSession) : Event → Option (NeSession × Obs)
  | .call a => some (a.apply ns, .quiet)
  | .create r method uri =>
      some (ns.setRequest r (some ⟨method, uri, fun role => (ns.priv role).bind fun s => ahCreate s method uri⟩),
        .quiet)
  | .preSend r role =>
      match ns.requests r, ns.priv role with
      | some req, some s =>
          (ahPreSend env.crypto s (req.priv role)).map fun (s, line) => (ns.setPriv role s, .sent r role line)
      | _, _ => some (ns, .quiet)
  | .postSend r role resp o =>
      match ns.requests r, ns.priv role with
      | some req, some s =>
          match req.priv role with
          | none => some (ns, .posted r role .ok none [] 0)
          | some areq =>
              (ahPostSend env.build env.crypto o s areq resp).map fun p =>
                ((ns.setPriv role p.sess).setRequest r
                    (some { req with priv := Function.update req.priv role (some p.areq) }),
                  .posted r role p.ret p.accepted p.calls p.index)
      | _, _ => some (ns, .quiet)
  | .destroy r => some (ns.setRequest r none, .quiet)

/-- Every state a run reaches from a new ne_session, with each event of the run and what it
was observed to do. -/
inductive Reach (env : Env) : NeSession → List (Event × Obs) → Prop
  | init (scheme : List Char) : Reach env (NeSession.init scheme) []
  | step {ns ns' : NeSession} {log : List (Event × Obs)} {o : Obs} (e : Event) :
      Reach env ns log → step env ns e = some (ns', o) → Reach env ns' (log ++ [(e, o)])

def run (env : Env) : NeSession → List Event → Option (NeSession × List Obs)
  | ns, [] => some (ns, [])
  | ns, e :: es =>
      match step env ns e with
      | none => none
      | some (ns', o) => (run env ns' es).map fun (ns'', os) => (ns'', o :: os)

theorem Reach.run {env : Env} {ns ns' : NeSession} {log : List (Event × Obs)} {os : List Obs}
    (h : Reach env ns log) :
    ∀ {es : List Event}, run env ns es = some (ns', os) → ∃ log', Reach env ns' (log ++ log') ∧ log'.map Prod.snd = os
  | [], hr => by cases hr; exact ⟨[], by simpa using h, rfl⟩
  | e :: es, hr => by
      simp only [Hooks.run] at hr
      split at hr
      · cases hr
      · rename_i ns₁ o h₁
        obtain ⟨⟨ns₂, os₂⟩, h₂, heq⟩ := Option.map_eq_some'.mp hr
        cases heq
        obtain ⟨log', hr', hm⟩ := (h.step e h₁).run h₂
        exact ⟨(e, o) :: log', by simpa using hr', by simp [hm]⟩

end NeonAuth.Hooks
