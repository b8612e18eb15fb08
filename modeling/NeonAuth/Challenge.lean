import NeonAuth.Verify

namespace NeonAuth.Challenge

open Text Tokenize Protocol Session Verify

def findProtocol (table : List AuthProtocol) (key : List Char) :
    List AuthHandler → Option (AuthProtocol × AuthHandler)
  | [] => none
  | h :: hs =>
      match table.find? (fun p => p.id &&& h.protomask != 0 && neStrcasecmp key p.name) with
      | some p => some (p, h)
      | none => findProtocol table key hs

def anyAdmitted (table : List AuthProtocol) (handlers : List AuthHandler) : Bool :=
  handlers.any fun h => table.any fun p => p.id &&& h.protomask != 0

def qopHasAuth (val : List Char) : Bool :=
  (val.splitOn ',').any fun tok => neStrcasecmp (neShave " \t".toList tok) "auth".toList

def challField (c : AuthChallenge) (key val : List Char) : AuthChallenge :=
  if neStrcasecmp key "realm".toList then { c with realm := some val }
  else if neStrcasecmp key "nonce".toList then { c with nonce := some val }
  else if neStrcasecmp key "opaque".toList then { c with opaqueValue := some val }
  else if neStrcasecmp key "stale".toList then { c with stale := neStrcasecmp val "true".toList }
  else if neStrcasecmp key "algorithm".toList then
    { c with alg := if neStrcasecmp val "md5".toList then .md5
        else if neStrcasecmp val "md5-sess".toList then .md5Sess else .unknown }
  else if neStrcasecmp key "qop".toList then
    { c with qopAuth := c.qopAuth || qopHasAuth val, gotQop := c.qopAuth || qopHasAuth val }
  else c

@[simp] theorem challField_protocol (c : AuthChallenge) (key val : List Char) :
    (challField c key val).protocol = c.protocol := by
  simp only [challField, apply_ite AuthChallenge.protocol, ite_self]

@[simp] theorem challField_handler (c : AuthChallenge) (key val : List Char) :
    (challField c key val).handler = c.handler := by
  simp only [challField, apply_ite AuthChallenge.handler, ite_self]

structure ChallScan where
  claimed : List AuthChallenge := []
  chall : Option AuthChallenge := none
  val : Option (Option (List Char)) := none
  sep : Option Char := none
  deriving DecidableEq, Repr

def ChallScan.flush (st : ChallScan) : List AuthChallenge :=
  match st.chall with
  | some c => st.claimed ++ [c]
  | none => st.claimed

def ChallScan.claims (st : ChallScan) : List (AuthProtocol × AuthHandler) :=
  st.flush.map fun c => (c.protocol, c.handler)

def insertChallenges (l : List AuthChallenge) : List AuthChallenge :=
  l.foldl (fun acc c => insertChallenge c acc) []

inductive StepOut
  | fault
  | stop (st : ChallScan)
  | next (st : ChallScan) (pnt : List Char)

def claim (st : ChallScan) (proto : AuthProtocol) (hdl : AuthHandler) (rest : List Char) : StepOut :=
  let c : AuthChallenge := ⟨proto, hdl, none, none, none, false, false, false, .md5⟩
  if proto.flags &&& authFlagOpaqueParam = 0 then .next { st with claimed := st.flush, chall := some c } rest
  else
    match st.sep with
    | none => .fault
    | some sep =>
        if sep = ' ' then
          let c := { c with opaqueValue := some (neShave " \t".toList (neToken ',' rest).1) }
          match (neToken ',' rest).2 with
          | none => .stop { st with claimed := st.flush, chall := some c }
          | some pnt => .next { st with claimed := st.flush, chall := some c } pnt
        else .next { st with claimed := st.flush, chall := some c } rest

def StepOut.state? : StepOut → Option ChallScan
  | .fault => none
  | .stop st => some st
  | .next st _ => some st

def parseStep (table : List AuthProtocol) (handlers : List AuthHandler) (st : ChallScan) (t : Token) :
    StepOut :=
  let st := { st with val := t.value <|> st.val, sep := t.sep <|> st.sep }
  match st.val with
  | none => .fault
  | some none =>
      match t.key with
      | none =>
          if anyAdmitted table handlers then .fault
          else .next { st with claimed := st.flush, chall := none } t.rest
      | some key =>
          match findProtocol table key handlers with
          | none => .next { st with claimed := st.flush, chall := none } t.rest
          | some (proto, hdl) => claim st proto hdl t.rest
  | some (some v) =>
      match st.chall with
      | none => .next st t.rest
      | some c =>
          match t.key with
          | none => .fault
          | some key =>
              let v := neShave "\"'".toList v
              .next { st with chall := some (challField c key v), val := some (some v) } t.rest

/-- The while loop of auth_challenge; `none` for undefined behaviour (a NULL key compared, an
unassigned local read). -/
def parseLoop (table : List AuthProtocol) (handlers : List AuthHandler) :
    Nat → ChallScan → List Char → Option ChallScan
  | 0, st, _ => some st
  | fuel + 1, st, pnt =>
      match tokenize pnt true with
      | .token t =>
          match parseStep table handlers st t with
          | .fault => none
          | .stop st => some st
          | .next st pnt => parseLoop table handlers fuel st pnt
      | _ => some st

theorem parseLoop_inv {table : List AuthProtocol} {handlers : List AuthHandler} (P : ChallScan → Prop)
    (hstep : ∀ st t st', P st → (parseStep table handlers st t).state? = some st' → P st') :
    ∀ fuel st pnt st', P st → parseLoop table handlers fuel st pnt = some st' → P st'
  | 0, _, _, _, h, he => by cases he; exact h
  | fuel + 1, st, pnt, st', h, he => by
      unfold parseLoop at he
      split at he
      · rename_i t _
        split at he
        · cases he
        · rename_i st'' hs; cases he; exact hstep st t st' h (by simp [hs, StepOut.state?])
        · rename_i st'' pnt' hs
          exact parseLoop_inv P hstep fuel st'' pnt' st' (hstep st t st'' h (by simp [hs, StepOut.state?])) he
      · cases he; exact h

/-- The result of the try loop: the session, the challenge accepted, each challenge tried with
whether its acceptor returned 0 (what the debug log reports), the credentials calls, and the
position at which the loop stopped. -/
structure Selection where
  sess : AuthSession
  accepted : Option AuthChallenge
  tried : List (AuthChallenge × Bool)
  calls : List CredsCall
  index : Nat

/-- The second loop of auth_challenge: try each challenge in list order until one is accepted.
`o i` is what the outside world answers while the `i`-th one is tried. -/
def tryChallenges (c : Crypto) (o : Nat → Ext) (attempt : Nat) :
    Nat → AuthSession → List AuthChallenge → Selection
  | i, s, [] => ⟨s, none, [], [], i⟩
  | i, s, ch :: rest =>
      let r := challenge ch.protocol c (o i) s attempt ch
      if r.accepted then ⟨{ r.sess with protocol := some ch.protocol }, some ch, [(ch, true)], r.calls, i⟩
      else
        let sel := tryChallenges c o attempt (i + 1) r.sess rest
        { sel with tried := (ch, false) :: sel.tried, calls := r.calls ++ sel.calls }

/-- auth_challenge; it returns 0 iff `accepted` is set. -/
def authChallenge (b : Build) (c : Crypto) (o : Nat → Ext) (s : AuthSession) (attempt : Nat)
    (value : List Char) : Option Selection := do
  let st ← parseLoop (protocols b) s.handlers (value.length + 1) {} value
  some (tryChallenges c o attempt 0 { s with protocol := none } (insertChallenges st.flush))

end NeonAuth.Challenge
