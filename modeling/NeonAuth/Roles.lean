import NeonAuth.Steps

namespace NeonAuth.Roles

open Protocol Session Hooks Select Steps

variable {env : Env} {ns ns' : NeSession} {o : Obs}

def Admits (ctx : AuthContext) (method : List Char) : Prop :=
  ctx = .any ∨ (method = "CONNECT".toList ∧ ctx = .connect) ∨ (method ≠ "CONNECT".toList ∧ ctx = .notConnect)

theorem ahCreate_admits {s : AuthSession} {method uri : List Char} {areq : AuthRequest}
    (h : ahCreate s method uri = some areq) : Admits s.context method := by
  unfold ahCreate at h
  dsimp only at h
  split_ifs at h with hc
  simp only [Bool.or_eq_true, Bool.and_eq_true, decide_eq_true_eq, beq_iff_eq, Bool.not_eq_true',
    beq_eq_false_iff_ne] at hc
  unfold Admits
  tauto

theorem admits_https {role : Role} {method : List Char} :
    Admits (authContext "https".toList (role = .proxy)) method ↔ (method = "CONNECT".toList ↔ role = .proxy) := by
  cases role <;> simp [Admits, authContext]

def ReqOk (ns : NeSession) : Prop :=
  ∀ r req role areq, ns.requests r = some req → req.priv role = some areq →
    Admits (authContext ns.scheme (role = .proxy)) req.method

theorem ReqOk.step (h : ReqOk ns) (hp : PrivOk ns) {e : Event} (he : step env ns e = some (ns', o)) :
    ReqOk ns' := by
  cases e with
  | call a =>
      cases he
      intro r req role areq hreq ha
      rw [Registration.scheme_apply]
      exact h r req role areq (by rwa [requests_apply] at hreq) ha
  | create r method uri =>
      cases he
      refine setRequest_forall h ?_
      rintro _ role areq ⟨⟩ ha
      obtain ⟨s, hs, hc⟩ := Option.bind_eq_some.mp ha
      rw [setRequest_scheme, ← hp.context role s hs]
      exact ahCreate_admits hc
  | preSend r role =>
      rcases step_preSend he with ⟨rfl, -⟩ | ⟨-, -, -, -, -, -, -, rfl, -⟩ <;> exact h
  | postSend r role resp orc =>
      rcases step_postSend he with ⟨rfl, -⟩ | ⟨req, s, areq, p, hreq, -, hareq, -, rfl, -⟩
      · exact h
      refine setRequest_forall h ?_
      rintro _ role' areq' ⟨⟩ ha
      rcases eq_or_ne role' role with rfl | hne
      · exact h r req role' areq hreq hareq
      · exact h r req role' areq' hreq ((Function.update_noteq hne _ _).symm.trans ha)
  | destroy r =>
      cases he
      exact setRequest_forall h fun _ _ _ hx => nomatch hx

theorem reach_reqOk {log : List (Event × Obs)} (hr : Reach env ns log) : ReqOk ns := by
  induction hr with
  | init scheme => intro _ _ _ _ h; cases h
  | step e hr he ih => exact ih.step (reach_privOk hr) he

/-- What an observation may show on an https session: a credentials header goes out only under
the role's own header name and on the role's own requests, CONNECT ones for the proxy and the
others for the server; and the credentials callbacks a role's post-send hook runs are those of
the role's own handlers, on the role's own requests. -/
def Isolated (ns : NeSession) : Obs → Prop
  | .sent r role (some line) => ∃ req v, ns.requests r = some req ∧
      line = role.authClass.reqHdr ++ ": ".toList ++ v ∧ (req.method = "CONNECT".toList ↔ role = .proxy)
  | .posted r role _ _ calls _ => calls ≠ [] → ∃ req s, ns.requests r = some req ∧ ns.priv role = some s ∧
      (∀ call ∈ calls, call.handler ∈ s.handlers) ∧ (req.method = "CONNECT".toList ↔ role = .proxy)
  | _ => True

theorem https_roles_isolated {log : List (Event × Obs)} {e : Event} (hr : Reach env ns log)
    (hs : ns.scheme = "https".toList) (he : step env ns e = some (ns', o)) : Isolated ns o := by
  have hq := reach_reqOk hr
  have hown : ∀ {r req role areq}, ns.requests r = some req → req.priv role = some areq →
      (req.method = "CONNECT".toList ↔ role = .proxy) := fun hreq ha =>
    admits_https.mp (hs ▸ hq _ _ _ _ hreq ha)
  cases e with
  | preSend r role =>
      rcases step_preSend he with ⟨-, rfl⟩ | ⟨req, s, s₁, line, hreq, hps, hpre, -, rfl⟩
      · trivial
      · cases line with
        | none => trivial
        | some l =>
            obtain ⟨areq, v, ha, rfl⟩ := (ahPreSend_spec hpre).2 l rfl
            exact ⟨req, v, hreq, by rw [(reach_privOk hr).spec _ _ hps], hown hreq ha⟩
  | postSend r role resp orc =>
      rcases step_postSend he with ⟨-, rfl | rfl⟩ | ⟨req, s, areq, p, hreq, hps, ha, hpost, -, rfl⟩
      · trivial
      · exact fun h => absurd rfl h
      · exact fun _ => ⟨req, s, hreq, hps, fun call hc => (ahPostSend_calls hpost call hc).1, hown hreq ha⟩
  | _ => cases he; trivial

def proxyChallenge (h : String) : Response :=
  ⟨407, 4, fun n => if n = "Proxy-Authenticate".toList then some h.toList else none⟩

def grantProxy : Oracle :=
  ⟨fun _ => ⟨fun _ => ⟨false, some "px".toList, "pw".toList⟩, [], ⟨.failure, [], []⟩⟩, 0⟩

theorem connect_challenge_isolated :
    ∃ ns log, Reach ⟨.plain, constCrypto⟩ ns log ∧ ns.scheme = "https".toList ∧ ∃ ns' o,
      step ⟨.plain, constCrypto⟩ ns (.postSend 0 .proxy (proxyChallenge "Basic realm=\"p\"") grantProxy) =
        some (ns', o) ∧ Isolated ns o :=
  let hr := ((@Reach.init ⟨.plain, constCrypto⟩ "https".toList).step (.call (.setProxyAuth 1 1)) rfl).step
    (.create 0 "CONNECT".toList "h:443".toList) rfl
  ⟨_, _, hr, rfl, _, _, rfl,
    @https_roles_isolated _ _ _ _ _ (.postSend 0 .proxy (proxyChallenge "Basic realm=\"p\"") grantProxy) hr rfl rfl⟩

end NeonAuth.Roles
