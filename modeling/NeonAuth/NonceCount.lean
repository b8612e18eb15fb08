import NeonAuth.DigestRun
import NeonAuth.Forget

namespace NeonAuth.NonceCount

open Text Protocol Session Verify Hooks Select Steps Forget DigestRun

theorem ncTail_inj {cn : List Char} {a b : Nat} (h : ncTail cn a = ncTail cn b) : a % 2 ^ 32 = b % 2 ^ 32 := by
  simp only [ncTail, List.append_assoc, List.append_cancel_left_eq, List.append_cancel_right_eq] at h
  simpa using hexWidth_inj h

/-- The nonce-count discipline of a Digest window opened by a challenge that offered qop=auth:
the session's count is the number of lines sent, modulo 2^32; the `i`-th line (from 0) carries the
window's client nonce and the count `i + 1` modulo 2^32; and no two of the first 2^32 lines carry
the same count. -/
structure NcCount (w : Window) (cn : List Char) (s : AuthSession) : Prop where
  count : s.nonceCount = w.lines.length % 2 ^ 32
  tails : ∀ i (h : i < w.lines.length), ncTail cn ((i + 1) % 2 ^ 32) <:+ w.lines[i]
  distinct : ∀ i j, i < j → j < 2 ^ 32 → ncTail cn ((i + 1) % 2 ^ 32) ≠ ncTail cn ((j + 1) % 2 ^ 32)

variable {env : Env} {ns : NeSession} {log : List (Event × Obs)} {role : Role} {w : Window}

theorem nonceCount_follows_lines (hr : Reach env ns log) (hw : window role log = some w)
    (hd : w.chall.protocol.scheme = .digest) (hq : w.chall.gotQop = true) :
    ∃ s, ns.priv role = some s ∧ NcCount w (getCnonce env.crypto (w.orc.ext w.idx)) s := by
  obtain ⟨s, hs, hi⟩ := reach_windowOk hr w hw hd
  obtain ⟨hc, hl⟩ := hi.count hq
  exact ⟨s, hs, hc, hl, fun i j hij hj h => by have := ncTail_inj h; omega⟩

def qopChallenge : Response := challenge401 "Digest realm=\"r\", nonce=\"n\", qop=\"auth\""

def qopEnv : Env := ⟨.plain, constCrypto⟩

theorem nonceCount_after_one_line :
    ∃ ns log w, Reach qopEnv ns log ∧ window .server log = some w ∧ w.chall.protocol.scheme = .digest ∧
      w.chall.gotQop = true ∧ w.lines.length = 1 ∧
      ∃ s, ns.priv .server = some s ∧ NcCount w (getCnonce qopEnv.crypto (w.orc.ext w.idx)) s :=
  let hr := ((((@Reach.init qopEnv "http".toList).step (.call (.setServerAuth 1 1)) rfl).step
    (.create 0 "GET".toList "/".toList) rfl).step (.postSend 0 .server qopChallenge grantAll) rfl).step
    (.preSend 0 .server) rfl
  ⟨_, _, _, hr, rfl, rfl, rfl, rfl, nonceCount_follows_lines hr rfl rfl rfl⟩

variable {r : Nat} {req : NeRequest} {areq : AuthRequest} {s : AuthSession}

theorem requestDigest_isSome (c : Crypto) (areq : AuthRequest) (hn : s.nonce.isSome) (hc : s.cnonce.isSome) :
    (requestDigest c s areq).isSome := by
  obtain ⟨n, hn⟩ := Option.isSome_iff_exists.mp hn
  obtain ⟨x, hx⟩ := Option.isSome_iff_exists.mp hc
  by_cases hq : s.qop = .auth <;> simp [requestDigest, hq, hn, hx]

theorem step_preSend_digest (hreq : ns.requests r = some req) (ha : req.priv role = some areq)
    (hs : ns.priv role = some s) (hp : s.protocol = some digestProtocol) (hn : s.nonce.isSome)
    (hc : s.cnonce.isSome) :
    ∃ s' l, step env ns (.preSend r role) = some (ns.setPriv role s', .sent r role (some l)) ∧
      s'.protocol = s.protocol ∧ s'.nonce = s.nonce ∧ s'.cnonce = s.cnonce := by
  obtain ⟨⟨s', v⟩, hr⟩ := Option.isSome_iff_exists.mp (requestDigest_isSome env.crypto areq hn hc)
  obtain ⟨-, hf, hn', -⟩ := requestDigest_spec hr
  exact ⟨s', s'.spec.reqHdr ++ ": ".toList ++ v,
    by simp [step, hreq, hs, ha, ahPreSend, hp, response, digestProtocol, hr], hf.protocol, hn', hf.cnonce⟩

theorem preSend_pump (r : Nat) (role : Role) (ha : req.priv role = some areq) :
    ∀ n {ns log s}, Reach env ns log → ns.requests r = some req → ns.priv role = some s →
      s.protocol = some digestProtocol → s.nonce.isSome → s.cnonce.isSome →
      ∃ ns' log' L, Reach env ns' (log ++ log') ∧ L.length = n ∧
        window role (log ++ log') = (window role log).map fun w => { w with lines := w.lines ++ L }
  | 0, ns, log, _, hr, _, _, _, _, _ => ⟨ns, [], [], by simpa using hr, rfl, by simp⟩
  | n + 1, ns, log, s, hr, hreq, hs, hp, hn, hc => by
      obtain ⟨s', l, he, hp', hn', hc'⟩ := step_preSend_digest hreq ha hs hp hn hc
      obtain ⟨ns'', log', L, hr', hL, hw⟩ :=
        preSend_pump r role ha n (hr.step _ he) (by simpa using hreq) (by simp) (hp'.trans hp) (hn' ▸ hn) (hc' ▸ hc)
      refine ⟨ns'', _ :: log', l :: L, by simpa using hr', by simp [hL], ?_⟩
      rw [← List.singleton_append, ← List.append_assoc, hw, window_append]
      cases window role log <;> simp [windowStep]

/-- The count is a 32-bit unsigned int: in one window, the line after 2^32 others carries the
client nonce and the count of the first. -/
theorem nc_pair_repeats_after_wrap :
    ∃ ns log w cn, Reach qopEnv ns log ∧ window .server log = some w ∧ w.chall.protocol.scheme = .digest ∧
      w.chall.gotQop = true ∧ ∃ h : 2 ^ 32 < w.lines.length,
        ncTail cn 1 <:+ w.lines[0] ∧ ncTail cn 1 <:+ w.lines[2 ^ 32] := by
  obtain ⟨ns₀, log₀, req, areq, s₀, w₀, hr₀, hreq, ha, hs, hp, hn, hc, hw₀, hd, hq, hl₀⟩ :
      ∃ ns log req areq s w, Reach qopEnv ns log ∧ ns.requests 0 = some req ∧ req.priv .server = some areq ∧
        ns.priv .server = some s ∧ s.protocol = some digestProtocol ∧ s.nonce.isSome ∧ s.cnonce.isSome ∧
        window .server log = some w ∧ w.chall.protocol.scheme = .digest ∧ w.chall.gotQop = true ∧ w.lines = [] :=
    ⟨_, _, _, _, _, _, ((@Reach.init qopEnv "http".toList).step (.call (.setServerAuth 1 1)) rfl).step
      (.create 0 "GET".toList "/".toList) rfl |>.step (.postSend 0 .server qopChallenge grantAll) rfl,
      rfl, rfl, rfl, rfl, rfl, rfl, rfl, rfl, rfl, rfl⟩
  obtain ⟨ns, log', L, hr, hL, hw⟩ := preSend_pump 0 .server ha (2 ^ 32 + 1) hr₀ hreq hs hp hn hc
  rw [hw₀, Option.map_some'] at hw
  obtain ⟨s, -, hi⟩ := reach_windowOk hr _ hw hd
  have hlen : 2 ^ 32 < ({ w₀ with lines := w₀.lines ++ L } : Window).lines.length := by simp [hl₀, hL]
  have hc := (hi.count hq).2
  exact ⟨_, _, _, _, hr, hw, hd, hq, hlen, hc 0 (by omega), by simpa using hc (2 ^ 32) hlen⟩

end NeonAuth.NonceCount
