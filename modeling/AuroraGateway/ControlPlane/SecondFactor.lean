import AuroraGateway.Foundation.AsciiText
import AuroraGateway.Foundation.Results
import AuroraGateway.Foundation.Runs

/-!
# The second factor

A login reads the user and then checks the code against what it read.  A code of
the authenticator is accepted as long as its time step is near; a recovery code
is taken off the list that was read, and the rest of the list is written back.
-/

namespace AuroraGateway.ControlPlane

open Foundation

/-- The row of a user.  The column of the recovery codes holds a JSON list, and stands here for
the list; it has no codes if it does not decode. -/
structure User where
  id : Text
  passwordHash : Text
  salt : Text
  twoFactorEnabled : Bool
  twoFactorSecret : Text
  twoFactorRecoveryCodes : List Text

structure TokenClaims where
  subject : Text
  type : Text

structure AuthLibrary where
  decodeSalt : Text → Option Bytes
  hashPassword : Text → Bytes → Text
  /-- The claims of a token with a good signature that has not expired. -/
  validateToken : Text → Int → Option TokenClaims
  /-- The key of a secret, with or without padding. -/
  decodeSecret : Text → Option Bytes
  generateHotp : Bytes → Int → Bytes
  toUpper : Text → Text

/-! ## Checking a code -/

section Check

variable (lib : AuthLibrary)

/-- The time step that the code belongs to, at most one step away. -/
def validateTotp (secret code : Text) (now : Int) : Option Int :=
  (lib.decodeSecret secret).bind fun key =>
    ([-1, 0, 1].map (now / 30 + ·)).find? fun step => lib.generateHotp key step = code.bytes

def normalizeCode (code : Text) : Text := lib.toUpper code.trim

inductive Verified where
  | totp (code : Text) (step : Int)
  | recovery (code : Text) (index : Nat)

def verifyTotp (user : User) (code : Text) (now : Int) : Option Int :=
  if code.bytes.length = 6 ∧ user.twoFactorSecret.bytes ≠ [] then
    validateTotp lib user.twoFactorSecret code now
  else none

def verifyUser2FACode (user : User) (code : Text) (now : Int) : Option Verified :=
  if code.trim.bytes.isEmpty then none
  else
    match verifyTotp lib user code.trim now with
    | some step => some (.totp code.trim step)
    | none =>
      (user.twoFactorRecoveryCodes.findIdx? fun stored =>
        normalizeCode lib stored = lib.toUpper code.trim).map (.recovery (lib.toUpper code.trim))

end Check

/-! ## Calls -/

inductive Factor where
  | totp (code : Text) (step : Int)
  | recovery (code : Text)
  deriving DecidableEq

structure Verification where
  user : User
  code : Text

structure AuthState where
  user : User
  verifying : List Verification
  sessions : List Factor
  /-- The codes of the authenticator that gave a session, and when. -/
  shown : List (Text × Int)

inductive AuthAction where
  | login (password code : Text)
  | verify2FALogin (token code : Text) (now : Int)
  | finish (index : Nat) (now : Int) (written : Bool)

namespace AuthState

variable (lib : AuthLibrary)

def checkPassword (user : User) (password : Text) : Bool :=
  (lib.decodeSalt user.salt).any fun salt => lib.hashPassword password salt = user.passwordHash

def checkToken (user : User) (token : Text) (now : Int) : Bool :=
  (lib.validateToken token now).any fun claims =>
    claims.type = .ofAscii "2fa_pending" && claims.subject = user.id

/-- Take the result of the check over; the result of the write is not looked at. -/
def accept (s : AuthState) (call : Verification) (now : Int) (written : Bool) :
    Verified → AuthState
  | .totp code step =>
    { s with sessions := s.sessions ++ [.totp code step], shown := s.shown ++ [(code, now)] }
  | .recovery code index =>
    { s with
      user := if written then
          { s.user with
            twoFactorRecoveryCodes := call.user.twoFactorRecoveryCodes.eraseIdx index }
        else s.user
      sessions := s.sessions ++ [.recovery code] }

/-- The calls of a user who has the second factor enabled.  A login without a code gives no
session, and neither does a code that is not right. -/
def step (s : AuthState) : AuthAction → Option AuthState
  | .login password code =>
    if checkPassword lib s.user password && s.user.twoFactorEnabled && !code.bytes.isEmpty then
      some { s with verifying := s.verifying ++ [⟨s.user, code⟩] }
    else none
  | .verify2FALogin token code now =>
    if !token.trim.bytes.isEmpty && !code.trim.bytes.isEmpty && checkToken lib s.user token now
        && s.user.twoFactorEnabled then
      some { s with verifying := s.verifying ++ [⟨s.user, code⟩] }
    else none
  | .finish index now written => do
      let call ← s.verifying[index]?
      let verified ← verifyUser2FACode lib call.user call.code now
      some { accept s call now written verified with verifying := s.verifying.eraseIdx index }

/-- A code of the authenticator that gave a session is not shown again within two time steps.  The
list that a recovery code is taken off is still the stored one, and the rest is written. -/
def Unspent (s : AuthState) : AuthAction → Prop
  | .finish index now written => ∀ call ∈ s.verifying[index]?,
      match verifyUser2FACode lib call.user call.code now with
      | some (.totp code _) => ∀ earlier, (code, earlier) ∈ s.shown →
        earlier / 30 + 2 < now / 30 ∨ now / 30 + 2 < earlier / 30
      | some (.recovery _ _) =>
        written = true ∧ call.user.twoFactorRecoveryCodes = s.user.twoFactorRecoveryCodes
      | none => True
  | _ => True

def copies (codes : List Text) (code : Text) : Nat :=
  codes.countP fun other => normalizeCode lib other = code

structure SingleUse (start : User) (s : AuthState) : Prop where
  recovery : ∀ code, s.sessions.count (.recovery code) +
    copies lib s.user.twoFactorRecoveryCodes code ≤ copies lib start.twoFactorRecoveryCodes code
  totp : ∀ code step, s.sessions.count (.totp code step) ≤ 1
  near : ∀ code step, .totp code step ∈ s.sessions → ∃ earlier, (code, earlier) ∈ s.shown ∧
    earlier / 30 - 1 ≤ step ∧ step ≤ earlier / 30 + 1

variable {lib} {start : User} {s t : AuthState} {action : AuthAction}

theorem countP_eraseIdx_findIdx? {codes : List Text} {norm : Text → Text} {code other : Text}
    {index : Nat} (h : (codes.findIdx? fun stored => norm stored = code) = some index) :
    (if other = code then 1 else 0) + (codes.eraseIdx index).countP (fun c => norm c = other) =
      codes.countP fun c => norm c = other := by
  induction codes generalizing index with
  | nil => cases h
  | cons first rest ih =>
    rw [List.findIdx?_cons] at h
    split at h
    · rename_i hfirst
      obtain rfl := Option.some.inj h
      have hnorm : norm first = code := by simpa using hfirst
      rw [List.countP_cons, hnorm]
      by_cases heq : other = code
      · simp [heq, Nat.add_comm]
      · simp [heq, Ne.symm heq]
    · obtain ⟨n, hn, rfl⟩ := Option.map_eq_some_iff.mp h
      have hrest := ih hn
      rw [List.eraseIdx_cons_succ, List.countP_cons, List.countP_cons]
      omega

theorem finish_cases {index : Nat} {now : Int} {written : Bool}
    (h : step lib s (.finish index now written) = some t) :
    ∃ call ∈ s.verifying[index]?, ∃ verified,
      verifyUser2FACode lib call.user call.code now = some verified ∧
        t = { accept s call now written verified with
          verifying := s.verifying.eraseIdx index } := by
  obtain ⟨call, hcall, h⟩ := Option.bind_eq_some_iff.mp h
  obtain ⟨verified, hverified, h⟩ := Option.bind_eq_some_iff.mp h
  exact ⟨call, hcall, verified, hverified, (Option.some.inj h).symm⟩

/-- An accepted code belongs to a step that is at most one away. -/
theorem near_of_totp {user : User} {code shown : Text} {now step : Int}
    (h : verifyUser2FACode lib user code now = some (.totp shown step)) :
    now / 30 - 1 ≤ step ∧ step ≤ now / 30 + 1 := by
  obtain ⟨-, h⟩ := of_guard h
  split at h
  · rename_i found hfound
    cases h
    obtain ⟨-, hfound⟩ := Option.ite_none_right_eq_some.mp hfound
    obtain ⟨key, -, hfound⟩ := Option.bind_eq_some_iff.mp hfound
    have hstep := List.mem_of_find?_eq_some hfound
    simp only [List.map_cons, List.map_nil, List.mem_cons, List.not_mem_nil, or_false] at hstep
    omega
  · obtain ⟨n, -, heq⟩ := Option.map_eq_some_iff.mp h
    cases heq

theorem findIdx?_of_recovery {user : User} {code norm : Text} {now : Int} {index : Nat}
    (h : verifyUser2FACode lib user code now = some (.recovery norm index)) :
    (user.twoFactorRecoveryCodes.findIdx? fun stored => normalizeCode lib stored = norm) =
      some index := by
  obtain ⟨-, h⟩ := of_guard h
  split at h
  · cases h
  · obtain ⟨n, hn, heq⟩ := Option.map_eq_some_iff.mp h
    cases heq
    exact hn

theorem singleUse_totp (h : SingleUse lib start s) {code : Text} {step now : Int}
    (hnear : now / 30 - 1 ≤ step ∧ step ≤ now / 30 + 1)
    (hnew : ∀ earlier, (code, earlier) ∈ s.shown →
      earlier / 30 + 2 < now / 30 ∨ now / 30 + 2 < earlier / 30) (huser : t.user = s.user)
    (hsessions : t.sessions = s.sessions ++ [.totp code step])
    (hshown : t.shown = s.shown ++ [(code, now)]) : SingleUse lib start t := by
  have hnew : Factor.totp code step ∉ s.sessions := by
    intro hmem
    obtain ⟨earlier, hearlier, hbefore⟩ := h.near code step hmem
    have hapart := hnew earlier hearlier
    omega
  refine ⟨?_, ?_, ?_⟩
  · intro other
    rw [hsessions, huser]
    simpa [List.count_append] using h.recovery other
  · intro other step'
    rw [hsessions, List.count_append]
    by_cases heq : Factor.totp code step = .totp other step'
    · rw [← heq, List.count_eq_zero.mpr hnew]
      simp
    · have hbefore := h.totp other step'
      have hone : [Factor.totp code step].count (.totp other step') = 0 :=
        List.count_eq_zero.mpr (by simpa [eq_comm] using heq)
      omega
  · intro other step' hmem
    rw [hshown]
    rw [hsessions] at hmem
    rcases List.mem_append.mp hmem with hmem | hmem
    · obtain ⟨earlier, hearlier, hbefore⟩ := h.near other step' hmem
      exact ⟨earlier, List.mem_append_left _ hearlier, hbefore⟩
    · cases List.mem_singleton.mp hmem
      exact ⟨now, List.mem_append_right _ (List.mem_singleton.mpr rfl), hnear⟩

theorem singleUse_recovery (h : SingleUse lib start s) {code : Text} {index : Nat}
    (hfind : (s.user.twoFactorRecoveryCodes.findIdx? fun stored =>
      normalizeCode lib stored = code) = some index)
    (huser : t.user.twoFactorRecoveryCodes = s.user.twoFactorRecoveryCodes.eraseIdx index)
    (hsessions : t.sessions = s.sessions ++ [.recovery code]) (hshown : t.shown = s.shown) :
    SingleUse lib start t := by
  refine ⟨?_, ?_, ?_⟩
  · intro other
    have hbefore := h.recovery other
    have hcopies := @countP_eraseIdx_findIdx? _ (normalizeCode lib) code other index hfind
    rw [hsessions, huser, List.count_append]
    unfold copies at hbefore ⊢
    have hone : [Factor.recovery code].count (.recovery other) =
        if other = code then 1 else 0 := by
      by_cases heq : other = code
      · simp [heq]
      · simp [heq, Ne.symm heq]
    omega
  · intro other step'
    rw [hsessions]
    simpa [List.count_append] using h.totp other step'
  · intro other step' hmem
    rw [hshown]
    exact h.near other step' (by simpa [hsessions] using hmem)

theorem SingleUse.step (h : SingleUse lib start s) (hok : Unspent lib s action)
    (hstep : AuthState.step lib s action = some t) : SingleUse lib start t := by
  cases action with
  | login password code =>
    obtain ⟨-, ⟨⟩⟩ := Option.ite_none_right_eq_some.mp hstep
    exact ⟨h.recovery, h.totp, h.near⟩
  | verify2FALogin token code now =>
    obtain ⟨-, ⟨⟩⟩ := Option.ite_none_right_eq_some.mp hstep
    exact ⟨h.recovery, h.totp, h.near⟩
  | finish index now written =>
    obtain ⟨call, hcall, verified, hverified, rfl⟩ := finish_cases hstep
    have hunspent := hok call hcall
    rw [hverified] at hunspent
    cases verified with
    | totp code step => exact singleUse_totp h (near_of_totp hverified) hunspent rfl rfl rfl
    | recovery code index =>
      obtain ⟨hwritten, hsame⟩ := hunspent
      have hfind := findIdx?_of_recovery hverified
      rw [hsame] at hfind
      refine singleUse_recovery h hfind ?_ rfl rfl
      simp only [accept, hwritten, if_true, hsame]

/-- If no code of the authenticator is shown again within two steps, every list is written, and
no call writes a list that another has changed since it read it, then every recovery code of
the user gives one session at most, and so does every code of the authenticator in its step. -/
theorem second_factor_single_use (user : User) (actions : List AuthAction)
    (hrun : RunsUnder (AuthState.step lib) (Unspent lib) ⟨user, [], [], []⟩ actions t) :
    (∀ code, t.sessions.count (.recovery code) ≤ copies lib user.twoFactorRecoveryCodes code) ∧
      ∀ code step, t.sessions.count (.totp code step) ≤ 1 := by
  have hinit : SingleUse lib user ⟨user, [], [], []⟩ := ⟨by simp, by simp, by simp⟩
  have hfinal := hrun.invariant (fun h hok hstep => h.step hok hstep) hinit
  exact ⟨fun code => (Nat.le_add_right _ _).trans (hfinal.recovery code), hfinal.totp⟩

end AuthState

/-! ## Codes that are used twice -/

def sampleAuthLibrary : AuthLibrary where
  decodeSalt := fun _ => some []
  hashPassword := fun password _ => password
  validateToken := fun _ _ => none
  decodeSecret := fun secret => some secret.bytes
  generateHotp := fun _ _ => ascii "123456"
  toUpper := id

def wafCode : Text := .ofAscii "WAF-0001-0002"

def sampleUser : User where
  id := .ofAscii "u1"
  passwordHash := .ofAscii "secret"
  salt := .ofAscii ""
  twoFactorEnabled := true
  twoFactorSecret := .ofAscii "JBSWY3DP"
  twoFactorRecoveryCodes := [wafCode]

/-- The same code of the authenticator is shown again three time steps later. -/
def spacedLogins : List AuthAction :=
  [.login (.ofAscii "secret") wafCode, .finish 0 60 true,
    .login (.ofAscii "secret") (.ofAscii "123456"), .finish 0 60 true,
    .login (.ofAscii "secret") (.ofAscii "123456"), .finish 0 150 true]

theorem two_factors_used_once :
    ∃ t, RunsUnder (AuthState.step sampleAuthLibrary) (AuthState.Unspent sampleAuthLibrary)
        ⟨sampleUser, [], [], []⟩ spacedLogins t ∧
      t.sessions = [.recovery wafCode, .totp (.ofAscii "123456") 1,
        .totp (.ofAscii "123456") 4] ∧
      (∀ code, t.sessions.count (.recovery code) ≤
        AuthState.copies sampleAuthLibrary sampleUser.twoFactorRecoveryCodes code) ∧
      ∀ code step, t.sessions.count (.totp code step) ≤ 1 := by
  have hrun : RunsUnder (AuthState.step sampleAuthLibrary)
      (AuthState.Unspent sampleAuthLibrary) ⟨sampleUser, [], [], []⟩ spacedLogins
      ⟨{ sampleUser with twoFactorRecoveryCodes := [] }, [],
        [.recovery wafCode, .totp (.ofAscii "123456") 1, .totp (.ofAscii "123456") 4],
        [(.ofAscii "123456", 60), (.ofAscii "123456", 150)]⟩ := by
    refine .cons trivial rfl (.cons ?_ rfl (.cons trivial rfl (.cons ?_ rfl
      (.cons trivial rfl (.cons ?_ rfl (.nil _))))))
    all_goals
      intro call hcall
      obtain rfl := Option.some.inj hcall
    · exact ⟨rfl, rfl⟩
    · exact nofun
    · intro earlier hearlier
      cases List.mem_singleton.mp hearlier
      exact .inl (by decide)
  exact ⟨_, hrun, rfl, AuthState.second_factor_single_use sampleUser _ hrun⟩

/-- The same code of the authenticator gives two sessions, one after the other.  A recovery code
gives two if both calls read the list before one of them writes, or if the write fails. -/
theorem second_factor_reused :
    (∃ t, execute (AuthState.step sampleAuthLibrary) ⟨sampleUser, [], [], []⟩
        [.login (.ofAscii "secret") (.ofAscii "123456"), .finish 0 60 true,
          .login (.ofAscii "secret") (.ofAscii "123456"), .finish 0 60 true] = some t ∧
      t.sessions.count (.totp (.ofAscii "123456") 1) = 2) ∧
    (∃ t, execute (AuthState.step sampleAuthLibrary) ⟨sampleUser, [], [], []⟩
        [.login (.ofAscii "secret") wafCode, .login (.ofAscii "secret") wafCode,
          .finish 0 60 true, .finish 0 60 true] = some t ∧
      t.sessions.count (.recovery wafCode) = 2) ∧
    ∃ t, execute (AuthState.step sampleAuthLibrary) ⟨sampleUser, [], [], []⟩
        [.login (.ofAscii "secret") wafCode, .finish 0 60 false,
          .login (.ofAscii "secret") wafCode, .finish 0 60 true] = some t ∧
      t.sessions.count (.recovery wafCode) = 2 :=
  ⟨⟨_, rfl, by decide⟩, ⟨_, rfl, by decide⟩, _, rfl, by decide⟩

end AuroraGateway.ControlPlane
