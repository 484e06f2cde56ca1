/-
**Sessions, and the tokens that outlive them.**

A login issues a signed token that says whose wallet it is for and until when, and keeps a record of
the session under the wallet.  A token is accepted while its signature verifies and the wallet has
a record, whichever login that record is of.  So a second login brings every earlier token of the
wallet back, as long as it has not expired by itself.

The service is seen with everything that has happened to it: tokens that were issued, and records
that were deleted.  The signatures are taken to work: what verifies is a token that a login has
issued, until it expires, and no two logins issue the same one.

Main definitions:

* `Auth.login`, `Auth.verifySession` — what the service does;
* `Auth.step` — logins, deletions of session records, and the time that goes by;
* `Auth.Current` — a token is that of the most recent login of its wallet, whose record is there;
* `Auth.Revocable` — **only current tokens are accepted**;
* `Auth.NoneLeft` — a login happens only when no earlier token of its wallet verifies any more.

Main results:

* `Auth.Inv.revocable` — where one token of each wallet verifies at most, sessions are revocable;
* `Auth.revocable_iff` — **sessions are revocable in the runs without overlapping logins, and in no
  others**;
* `Auth.not_revocable_second_login` — a dropped token that is valid again.
-/

import MedorCoin.Cache.Forgetting
import MedorCoin.Js.BigInt
import MedorCoin.Transition.Run

set_option autoImplicit false

namespace Auth

open Cache (Expiring)
open Js (Str)
open Transition (EveryStep)

/-! ### The service -/

/-- What a token says. -/
structure Claims where
  wallet : Str
  username : Str
  role : Str
  iat : ℕ
  exp : ℕ
  deriving DecidableEq

/-- The record of a user, `auth:<username>`. -/
structure AuthMapping where
  hash : Str
  address : Str
  deriving DecidableEq

/-- The record of a session, `session:<wallet>`. -/
structure SessionMeta where
  token : Str
  ip : Str
  lastSeen : ℕ
  deriving DecidableEq

structure LoginResult where
  token : Str
  address : Str
  deriving DecidableEq

/-- What has happened to the sessions. -/
inductive Happened
  /-- a login was given a token -/
  | issued (time : ℕ) (token : Str) (claims : Claims)
  /-- the record of a wallet was deleted -/
  | dropped (wallet : Str)
  deriving DecidableEq

/-- The clock in milliseconds, the three tables, and what has happened, latest first. -/
structure State where
  now : ℕ
  attempts : Expiring Str ℕ
  auth : Js.Map Str AuthMapping
  sessions : Expiring Str SessionMeta
  history : List Happened

/-- No one has logged in. -/
def start (now : ℕ) (attempts : Expiring Str ℕ) (auth : Js.Map Str AuthMapping) : State :=
  { now := now, attempts := attempts, auth := auth, sessions := Js.Map.empty, history := [] }

/-- What a token that was issued says. -/
def claimsOf? (token : Str) : List Happened → Option Claims
  | [] => none
  | .issued _ t c :: hs => if t = token then some c else claimsOf? token hs
  | .dropped _ :: hs => claimsOf? token hs

/-- `jwt.verify` -/
def jwtVerify? (s : State) (token : Str) : Option Claims :=
  (claimsOf? token s.history).filter fun c => decide (s.now / 1000 < c.exp)

def sessionSeconds : ℕ := 86400
def attemptsSeconds : ℕ := 600

section

variable (verifyHash : Str → Str → Except Str Bool)

/-- One more attempt of a user is counted, within ten minutes of the first. -/
def countAttempt (s : State) (user : Str) : ℕ × Expiring Str ℕ :=
  let found := s.attempts.find? s.now user
  let attempts := (found.map (·.value)).getD 0 + 1
  let expiresAt :=
    if attempts = 1 then some (s.now + attemptsSeconds * 1000) else found.bind (·.expiresAt)
  (attempts, s.attempts.put user attempts expiresAt)

/-- The first half of `login`: who it is.  A value that is not a text is `none`. -/
def authenticate (s : State) (username password : Option Str) :
    Expiring Str ℕ × Except Str (Str × AuthMapping) :=
  match username, password with
  | some username, some password =>
      let user := Js.trim username
      let (attempts, table) := countAttempt s user
      if 5 < attempts then
        (table, .error "Too many attempts. Account locked for 10 minutes.".toList)
      else
        match s.auth.get? user with
        | none => (table, .error "Authentication failed".toList)
        | some auth =>
            match verifyHash auth.hash password with
            | .error e => (table, .error e)
            | .ok false => (table, .error "Authentication failed".toList)
            | .ok true => (table.drop user, .ok (user, auth))
  | _, _ => (s.attempts, .error "Authentication failed".toList)

/-- The characters that are kept of an address: `[\w.:-]`. -/
def ipChar (c : Char) : Bool :=
  c.isAlphanum || c == '_' || c == '.' || c == ':' || c == '-'

/-- What a token of this moment says. -/
def newClaims (s : State) (user : Str) (auth : AuthMapping) : Claims :=
  { wallet := auth.address, username := user, role := "miner".toList, iat := s.now / 1000
    exp := s.now / 1000 + sessionSeconds }

/-- The second half of `login`, with the token that was signed for it. -/
def openSession (s : State) (attempts : Expiring Str ℕ) (user : Str) (auth : AuthMapping)
    (ip : Option Str) (token : Str) : State :=
  let sessionMeta : SessionMeta :=
    { token := token, ip := (ip.getD "unknown".toList).filter ipChar, lastSeen := s.now }
  { s with
    attempts := attempts
    sessions := s.sessions.put auth.address sessionMeta (some (s.now + sessionSeconds * 1000))
    history := .issued s.now token (newClaims s user auth) :: s.history }

def login (s : State) (username password ip : Option Str) (token : Str) :
    State × Except Str LoginResult :=
  match authenticate verifyHash s username password with
  | (attempts, .error e) => ({ s with attempts := attempts }, .error e)
  | (attempts, .ok (user, auth)) =>
      (openSession s attempts user auth ip token, .ok ⟨token, auth.address⟩)

/-- The claims of a token, if it is accepted. -/
def verifySession (s : State) : Option Str → Option Claims
  | none => none
  | some token =>
      match jwtVerify? s token with
      | none => none
      | some decoded =>
          if (s.sessions.find? s.now decoded.wallet).isSome then some decoded else none

/-! ### What can happen -/

inductive Event
  /-- a login, and the token that is signed for it if it succeeds -/
  | login (username password ip : Option Str) (token : Str)
  /-- the record of a wallet is deleted -/
  | drop (wallet : Str)
  /-- time goes by -/
  | tick (ms : ℕ)

/-- A session is verified at any time, which changes nothing. -/
def step (s : State) : Event → Option State
  | .login username password ip token =>
      -- the tokens of different logins are distinct
      if (claimsOf? token s.history).isSome then none
      else some (login verifyHash s username password ip token).1
  | .drop wallet =>
      some
        { s with
          sessions := s.sessions.drop wallet
          history := .dropped wallet :: s.history }
  | .tick ms => some { s with now := s.now + ms }

/-! ### What sessions are for -/

/-- The most recent login of a wallet, unless its record was deleted since: when it was, and its
token. -/
def lastLogin? (wallet : Str) : List Happened → Option (ℕ × Str)
  | [] => none
  | .issued time token c :: hs =>
      if c.wallet = wallet then some (time, token) else lastLogin? wallet hs
  | .dropped w :: hs => if w = wallet then none else lastLogin? wallet hs

/-- A token was issued by the most recent login of its wallet, the record of which has been neither
deleted since nor expired. -/
def Current (s : State) (token : Str) (c : Claims) : Prop :=
  ∃ time, lastLogin? c.wallet s.history = some (time, token) ∧
    s.now ≤ time + sessionSeconds * 1000

/-- The record of its wallet was deleted after a token was issued. -/
def Dropped (s : State) (token : Str) (c : Claims) : Prop :=
  ∃ later earlier, s.history = later ++ .dropped c.wallet :: earlier ∧
    claimsOf? token earlier = some c

/-- **Only current tokens are accepted**, and none whose session was dropped. -/
structure Revocable (s : State) : Prop where
  current : ∀ value c, verifySession s value = some c →
    ∃ token, value = some token ∧ Current s token c
  dropped : ∀ token c, Dropped s token c → verifySession s (some token) = none

/-- **No earlier token of the wallet verifies any more** when someone logs in. -/
def NoneLeft (s : State) : Event → Prop
  | .login username password _ _ =>
      ∀ user auth, (authenticate verifyHash s username password).2 = .ok (user, auth) →
        ∀ token c, jwtVerify? s token = some c → c.wallet ≠ auth.address
  | _ => True

variable {verifyHash} {s s' : State} {token t : Str} {wallet : Str} {c : Claims}

/-! ### What has happened -/

/-- No token was issued twice. -/
def Distinct : List Happened → Prop
  | [] => True
  | .issued _ token _ :: hs => claimsOf? token hs = none ∧ Distinct hs
  | .dropped _ :: hs => Distinct hs

theorem claimsOf?_append (token : Str) (later earlier : List Happened) :
    claimsOf? token (later ++ earlier) = (claimsOf? token later).or (claimsOf? token earlier) := by
  induction later with
  | nil => rfl
  | cons happened later ih =>
      cases happened with
      | issued time t c =>
          simp only [List.cons_append, claimsOf?]
          split
          · rfl
          · exact ih
      | dropped w => exact ih

theorem Distinct.claimsOf?_earlier {later earlier : List Happened}
    (h : Distinct (later ++ earlier)) (hlater : (claimsOf? token later).isSome) :
    claimsOf? token earlier = none := by
  induction later with
  | nil => simp [claimsOf?] at hlater
  | cons happened later ih =>
      cases happened with
      | issued time t c =>
          obtain ⟨hnew, hrest⟩ := h
          by_cases ht : t = token
          · have hnone : claimsOf? token (later ++ earlier) = none := ht ▸ hnew
            rw [claimsOf?_append, Option.or_eq_none_iff] at hnone
            exact hnone.2
          · rw [claimsOf?, if_neg ht] at hlater
            exact ih hrest hlater
      | dropped w => exact ih h hlater

theorem isSome_claimsOf?_of_lastLogin? {later earlier : List Happened} {time : ℕ}
    (h : lastLogin? wallet (later ++ .dropped wallet :: earlier) = some (time, token)) :
    (claimsOf? token later).isSome := by
  induction later with
  | nil => simp [lastLogin?] at h
  | cons happened later ih =>
      cases happened with
      | issued time' t c =>
          rw [List.cons_append, lastLogin?] at h
          rw [claimsOf?]
          split at h
          · rw [Option.some.injEq, Prod.mk.injEq] at h
            rw [if_pos h.2]
            rfl
          · split
            · rfl
            · exact ih h
      | dropped w =>
          rw [List.cons_append, lastLogin?] at h
          split at h
          · cases h
          · exact ih h

theorem Dropped.claimsOf?_eq (hdistinct : Distinct s.history) (h : Dropped s token c) :
    claimsOf? token s.history = some c := by
  obtain ⟨later, earlier, hhistory, hclaims⟩ := h
  rw [hhistory] at hdistinct ⊢
  rw [claimsOf?_append]
  cases hlater : claimsOf? token later with
  | none => exact hclaims
  | some d =>
      have hnone := hdistinct.claimsOf?_earlier (by rw [hlater]; rfl)
      rw [claimsOf?, hclaims] at hnone
      cases hnone

/-- **A token whose session was dropped is not current**, and will not be. -/
theorem Dropped.not_current (hdistinct : Distinct s.history) (h : Dropped s token c) :
    ¬ Current s token c := by
  rintro ⟨time, hlast, -⟩
  obtain ⟨later, earlier, hhistory, hclaims⟩ := h
  rw [hhistory] at hlast hdistinct
  have hnone := hdistinct.claimsOf?_earlier (isSome_claimsOf?_of_lastLogin? hlast)
  rw [claimsOf?, hclaims] at hnone
  cases hnone

/-! ### The invariant -/

/-- The records are those of the last logins, no token was issued twice, and only one token of a
wallet verifies. -/
structure Inv (s : State) : Prop where
  sessions : ∀ wallet, (s.sessions.get? wallet).map (fun e => (e.value.token, e.expiresAt)) =
    (lastLogin? wallet s.history).map fun l => (l.2, some (l.1 + sessionSeconds * 1000))
  distinct : Distinct s.history
  only : ∀ token c, jwtVerify? s token = some c →
    ∀ l, lastLogin? c.wallet s.history = some l → l.2 = token

theorem verifySession_eq_some : verifySession s (some token) = some c ↔
    jwtVerify? s token = some c ∧ (s.sessions.find? s.now c.wallet).isSome := by
  rw [verifySession]
  cases hjwt : jwtVerify? s token with
  | none => simp
  | some decoded =>
      simp only [Option.ite_none_right_eq_some, Option.some.injEq]
      constructor
      · rintro ⟨h, rfl⟩
        exact ⟨rfl, h⟩
      · rintro ⟨rfl, h⟩
        exact ⟨h, rfl⟩

/-- **A wallet has a record** as long as its last login has not expired. -/
theorem Inv.find?_isSome (h : Inv s) : (s.sessions.find? s.now wallet).isSome ↔
    ∃ l, lastLogin? wallet s.history = some l ∧ s.now ≤ l.1 + sessionSeconds * 1000 := by
  have hsessions := h.sessions wallet
  rw [Option.isSome_iff_exists]
  constructor
  · rintro ⟨e, he⟩
    obtain ⟨hget, hlive⟩ := Expiring.find?_eq_some_iff.1 he
    rw [hget, Option.map_some] at hsessions
    obtain ⟨l, hl, heq⟩ := Option.map_eq_some_iff.1 hsessions.symm
    rw [Prod.mk.injEq] at heq
    rw [Cache.Entry.live, ← heq.2] at hlive
    exact ⟨l, hl, of_decide_eq_true hlive⟩
  · rintro ⟨l, hl, hle⟩
    rw [hl, Option.map_some] at hsessions
    obtain ⟨e, he, heq⟩ := Option.map_eq_some_iff.1 hsessions
    rw [Prod.mk.injEq] at heq
    refine ⟨e, Expiring.find?_eq_some_iff.2 ⟨he, ?_⟩⟩
    rw [Cache.Entry.live, heq.2]
    exact decide_eq_true hle

/-- **Where one token of each wallet verifies at most, sessions are revocable.** -/
theorem Inv.revocable (h : Inv s) : Revocable s := by
  have hcurrent : ∀ token c, verifySession s (some token) = some c → Current s token c := by
    intro token c hverify
    obtain ⟨hjwt, hfind⟩ := verifySession_eq_some.1 hverify
    obtain ⟨⟨time, t⟩, hlast, hle⟩ := h.find?_isSome.1 hfind
    obtain rfl := h.only token c hjwt _ hlast
    exact ⟨time, hlast, hle⟩
  constructor
  · intro value c hverify
    cases value with
    | none => cases hverify
    | some token => exact ⟨token, rfl, hcurrent token c hverify⟩
  · intro token c hdropped
    cases hverify : verifySession s (some token) with
    | none => rfl
    | some decoded =>
        have hjwt := (verifySession_eq_some.1 hverify).1
        have hclaims := (Option.filter_eq_some_iff.1 hjwt).1
        rw [hdropped.claimsOf?_eq h.distinct, Option.some.injEq] at hclaims
        exact absurd (hcurrent token c (hclaims ▸ hverify)) (hdropped.not_current h.distinct)

theorem inv_start (now : ℕ) (attempts : Expiring Str ℕ) (auth : Js.Map Str AuthMapping) :
    Inv (start now attempts auth) where
  sessions _ := rfl
  distinct := trivial
  only token c h := by cases h

/-! ### One step -/

section

variable {attempts : Expiring Str ℕ} {user : Str} {auth : AuthMapping} {ip : Option Str}

theorem Inv.attempted (h : Inv s) (attempts : Expiring Str ℕ) :
    Inv { s with attempts := attempts } where
  sessions := h.sessions
  distinct := h.distinct
  only := h.only

theorem jwtVerify?_openSession (h : token ≠ t) :
    jwtVerify? (openSession s attempts user auth ip token) t = jwtVerify? s t := by
  have hclaims : claimsOf? t (openSession s attempts user auth ip token).history =
      claimsOf? t s.history := if_neg h
  rw [jwtVerify?, hclaims]
  rfl

theorem lastLogin?_openSession :
    lastLogin? wallet (openSession s attempts user auth ip token).history =
      if auth.address = wallet then some (s.now, token) else lastLogin? wallet s.history := rfl

/-- **A login keeps the invariant** where no earlier token of the wallet verifies. -/
theorem Inv.openSession (h : Inv s) (hnew : claimsOf? token s.history = none)
    (hleft : ∀ t c, jwtVerify? s t = some c → c.wallet ≠ auth.address) :
    Inv (openSession s attempts user auth ip token) where
  sessions wallet := by
    rw [lastLogin?_openSession]
    have hget := Js.Map.get?_set s.sessions auth.address wallet
    simp only [Auth.openSession, Expiring.put, hget]
    split
    · rfl
    · exact h.sessions wallet
  distinct := ⟨hnew, h.distinct⟩
  only t c hjwt l hl := by
    rw [lastLogin?_openSession] at hl
    by_cases ht : token = t
    · have hclaims := (Option.filter_eq_some_iff.1 hjwt).1
      simp only [Auth.openSession, claimsOf?, if_pos ht, Option.some.injEq] at hclaims
      rw [← hclaims, newClaims, if_pos rfl, Option.some.injEq] at hl
      rw [← hl, ht]
    · rw [jwtVerify?_openSession ht] at hjwt
      rw [if_neg (hleft t c hjwt).symm] at hl
      exact h.only t c hjwt l hl

/-- **A login brings the earlier tokens of the wallet back**, so that there must be none. -/
theorem not_verifies_of_revocable (hnew : claimsOf? token s.history = none)
    (h : Revocable (openSession s attempts user auth ip token)) (hjwt : jwtVerify? s t = some c) :
    c.wallet ≠ auth.address := by
  intro hwallet
  have hclaims := (Option.filter_eq_some_iff.1 hjwt).1
  have hne : token ≠ t := by
    rintro rfl
    rw [hnew] at hclaims
    cases hclaims
  have hfind : ((openSession s attempts user auth ip token).sessions.find?
      (openSession s attempts user auth ip token).now c.wallet).isSome := by
    simp [openSession, Expiring.find?_put, hwallet, Cache.Entry.live]
  have hverify := verifySession_eq_some.2 ⟨(jwtVerify?_openSession hne).trans hjwt, hfind⟩
  obtain ⟨t', ht, time, hlast, -⟩ := h.current (some t) c hverify
  rw [lastLogin?_openSession, if_pos hwallet.symm, Option.some.injEq, Prod.mk.injEq] at hlast
  exact hne (hlast.2.trans (Option.some.inj ht).symm)

end

theorem login_cases (verifyHash : Str → Str → Except Str Bool) (s : State)
    (username password ip : Option Str) (token : Str) :
    (∃ attempts, (login verifyHash s username password ip token).1 =
        { s with attempts := attempts } ∧
      ∀ found, (authenticate verifyHash s username password).2 ≠ .ok found) ∨
    ∃ attempts user auth, (authenticate verifyHash s username password).2 = .ok (user, auth) ∧
      (login verifyHash s username password ip token).1 =
        openSession s attempts user auth ip token := by
  rw [login]
  cases authenticate verifyHash s username password with
  | mk attempts result =>
      cases result with
      | error e => exact Or.inl ⟨attempts, rfl, fun _ h => nomatch h⟩
      | ok found => exact Or.inr ⟨attempts, found.1, found.2, rfl, rfl⟩

/-- **One step keeps the invariant** if no earlier token is left. -/
theorem Inv.step {e : Event} (h : Inv s) (hleft : NoneLeft verifyHash s e)
    (hstep : Auth.step verifyHash s e = some s') : Inv s' := by
  cases e with
  | login username password ip token =>
      obtain ⟨hnew, hlogin⟩ := Option.ite_none_left_eq_some.1 hstep
      rw [Bool.not_eq_true, Option.isSome_eq_false_iff, Option.isNone_iff_eq_none] at hnew
      rw [Option.some.injEq] at hlogin
      subst hlogin
      rcases login_cases verifyHash s username password ip token with
        ⟨attempts, heq, -⟩ | ⟨attempts, user, auth, hauth, heq⟩
      · rw [heq]
        exact h.attempted attempts
      · rw [heq]
        exact h.openSession hnew (hleft user auth hauth)
  | drop w =>
      cases hstep
      refine ⟨fun wallet => ?_, h.distinct, fun token c hjwt l hl => ?_⟩
      · simp only [Expiring.drop, Js.Map.get?_delete, lastLogin?]
        split
        · rfl
        · exact h.sessions wallet
      · rw [lastLogin?, Option.ite_none_left_eq_some] at hl
        exact h.only token c hjwt l hl.2
  | tick ms =>
      cases hstep
      refine ⟨h.sessions, h.distinct, fun token c hjwt => h.only token c ?_⟩
      obtain ⟨hclaims, hlive⟩ := Option.filter_eq_some_iff.1 hjwt
      have hlt : (s.now + ms) / 1000 < c.exp := of_decide_eq_true hlive
      refine Option.filter_eq_some_iff.2 ⟨hclaims, decide_eq_true ?_⟩
      omega

/-- **A step after which only current tokens are accepted** is one with no earlier token left. -/
theorem noneLeft_of_revocable {e : Event} (hstep : Auth.step verifyHash s e = some s')
    (h : Revocable s') : NoneLeft verifyHash s e := by
  cases e with
  | login username password ip token =>
      obtain ⟨hnew, hlogin⟩ := Option.ite_none_left_eq_some.1 hstep
      rw [Bool.not_eq_true, Option.isSome_eq_false_iff, Option.isNone_iff_eq_none] at hnew
      rw [Option.some.injEq] at hlogin
      subst hlogin
      intro user auth hauth t c hjwt
      rcases login_cases verifyHash s username password ip token with
        ⟨attempts, -, hfailed⟩ | ⟨attempts, user', auth', hauth', heq⟩
      · exact absurd hauth (hfailed (user, auth))
      · rw [hauth, Except.ok.injEq, Prod.mk.injEq] at hauth'
        rw [heq] at h
        exact hauth'.2 ▸ not_verifies_of_revocable hnew h hjwt
  | drop w => trivial
  | tick ms => trivial

/-- **When sessions are revocable**: a token is only accepted if it was issued by the most recent
login of its wallet, and the record has not been deleted or expired since, in the runs in which no
earlier token of a wallet verifies any more when someone logs in, and in no others. -/
theorem revocable_iff (verifyHash : Str → Str → Except Str Bool) (now : ℕ)
    (attempts : Expiring Str ℕ) (auth : Js.Map Str AuthMapping) (events : List Event) :
    EveryStep (step verifyHash) (fun _ _ s => Revocable s) (start now attempts auth) events ↔
      EveryStep (step verifyHash) (fun s e _ => NoneLeft verifyHash s e) (start now attempts auth)
        events := by
  refine Transition.everyStep_iff (fun s e s' h hstep => ⟨⟨?_, ?_⟩, ?_⟩)
    (inv_start now attempts auth)
  · exact noneLeft_of_revocable hstep
  · exact fun hleft => (h.step hleft hstep).revocable
  · exact fun hleft => h.step hleft hstep

/-- A user with a wallet. -/
def oneUser : Js.Map Str AuthMapping := Js.Map.empty.set ['u'] ⟨['h'], ['w']⟩

/-- A token whose session was dropped is valid again after another login. -/
theorem not_revocable_second_login :
    ¬ ∀ (verifyHash : Str → Str → Except Str Bool) (now : ℕ) (attempts : Expiring Str ℕ)
      (auth : Js.Map Str AuthMapping) (events : List Event),
      EveryStep (step verifyHash) (fun _ _ s => Revocable s) (start now attempts auth) events := by
  intro h
  have hrun := h (fun _ _ => .ok true) 0 Js.Map.empty oneUser
    [.login (some ['u']) (some ['p']) none ['1'], .drop ['w'],
      .login (some ['u']) (some ['p']) none ['2']]
  obtain ⟨-, hrun⟩ := hrun _ rfl
  obtain ⟨-, hrun⟩ := hrun _ rfl
  obtain ⟨hrevocable, -⟩ := hrun _ rfl
  have hnone := hrevocable.dropped ['1'] ⟨['w'], ['u'], "miner".toList, 0, 86400⟩
    ⟨[.issued 0 ['2'] ⟨['w'], ['u'], "miner".toList, 0, 86400⟩],
      [.issued 0 ['1'] ⟨['w'], ['u'], "miner".toList, 0, 86400⟩], rfl, rfl⟩
  revert hnone
  decide +kernel

end

end Auth
