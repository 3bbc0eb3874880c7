/-
  ResearchSSH.Core.Authentication — `RusshProvider::connect`, up to the shell.

  The keys are tried one after another until the server accepts one.  If it accepts none the
  password is tried, and a channel is opened if either was accepted.  A key that cannot be loaded
  is left out, unless it was named by the user: then nothing more is tried.

  What the server and the file system answer is up to a `World`, which knows everything that was
  exchanged before; every exchange is recorded with its answer.

  Main results:
    * `publickeyLoop_runs`      — what the loop over the keys exchanges.
    * `connectWith_connects`    — the ways a connection attempt can go.
    * `authentication_policy`   — what is offered and sent, and when a channel is opened.
-/

import ResearchSSH.Core.Driver
import ResearchSSH.Core.SshConfig

namespace ResearchSSH.Core.Russh

/-! ## §1. Exchanges. -/

/-- What the provider asks for, and the answer.  `K` is the type of loaded keys. -/
inductive Exchange (K : Type)
  | connect (answer : Except String Unit)
  | loadSecretKey (path : List UInt8) (answer : Except String K)
  | authenticatePublickey (path : List UInt8) (key : K) (answer : Except String Bool)
  | authenticatePassword (password : Text) (answer : Except String Bool)
  | openSession (answer : Except String Unit)
  | requestPty (answer : Except String Unit)
  | requestShell (answer : Except String Unit)
  | openSftp (opened : Bool)

variable {K : Type}

/-- The answers, given what was exchanged before. -/
structure World (K : Type) where
  connect : List (Exchange K) → Except String Unit
  loadSecretKey : List (Exchange K) → List UInt8 → Option Text → Except String K
  authenticatePublickey : List (Exchange K) → Text → K → Except String Bool
  authenticatePassword : List (Exchange K) → Text → Text → Except String Bool
  openSession : List (Exchange K) → Except String Unit
  requestPty : List (Exchange K) → Except String Unit
  requestShell : List (Exchange K) → Except String Unit
  /-- Did an SFTP session open within two seconds? -/
  openSftp : List (Exchange K) → Bool

/-- The fields of `RusshProvider` that `connect` reads. -/
structure RusshProvider where
  config : Account
  secret : Option (List UInt8)
  keyPath : Option Text
  keyPassphrase : Option (List UInt8)
  deriving DecidableEq, Repr

/-- `PublicKeyAuthReport`. -/
structure PublicKeyAuthReport where
  authenticated : Bool
  attempted : Nat
  fatalLoadError : Bool
  lastError : Option String
  deriving DecidableEq, Repr

/-- The report before any candidate was tried. -/
def PublicKeyAuthReport.default : PublicKeyAuthReport :=
  { authenticated := false, attempted := 0, fatalLoadError := false, lastError := none }

/-- `connect_err`: the stage and what went wrong in it. -/
def connectErr (stage e : String) : CoreError :=
  { code := .connectFailed, detail := some (stage ++ ": " ++ e) }

/-- An error of the attempt itself. -/
def connectFailed (detail : String) : CoreError := { code := .connectFailed, detail := some detail }

/-- `path.display()`. -/
def display (path : List UInt8) : String := String.ofList (toStringLossy path)

/-! ## §2. Public keys. -/

section Provider

variable (w : World K) (p : RusshProvider)

/-- The loop of `try_publickey_auth`. -/
def publickeyLoop (passphrase : Option Text) (explicitKey : Bool) :
    List (List UInt8) → PublicKeyAuthReport → List (Exchange K) →
      PublicKeyAuthReport × List (Exchange K)
  | [], report, log => (report, log)
  | path :: rest, report, log =>
    let report := { report with attempted := report.attempted + 1 }
    let loaded := w.loadSecretKey log path passphrase
    let log := log ++ [.loadSecretKey path loaded]
    match loaded with
    | .error e =>
      let report := { report with
        lastError := some ("private key load failed for " ++ display path ++ ": " ++ e) }
      -- A key that the user named is not passed over in silence.
      if explicitKey then ({ report with fatalLoadError := true }, log)
      else publickeyLoop passphrase explicitKey rest report log
    | .ok key =>
      let answer := w.authenticatePublickey log p.config.username key
      let log := log ++ [.authenticatePublickey path key answer]
      match answer with
      | .ok true => ({ report with authenticated := true }, log)
      | .ok false =>
        publickeyLoop passphrase explicitKey rest { report with
          lastError := some ("public-key authentication rejected for " ++ display path) } log
      | .error e =>
        -- A failed exchange does not end the loop: the next key is offered all the same.
        publickeyLoop passphrase explicitKey rest { report with
          lastError := some ("public-key authentication failed for " ++ display path ++ ": " ++ e) }
          log

/-- `try_publickey_auth`: the candidates in their order. -/
def tryPublickeyAuth (candidates : List (List UInt8)) (passphrase : Option Text)
    (explicitKey : Bool) (log : List (Exchange K)) : PublicKeyAuthReport × List (Exchange K) :=
  publickeyLoop w p passphrase explicitKey candidates .default log

/-! ## §3. The connection. -/

/-- A key path that the user named is the only candidate. -/
def candidates (env : Environment) (isFile : List UInt8 → Bool)
    (readToString : List UInt8 → Option Text) : List (List UInt8) :=
  match p.keyPath with
  | some path => [utf8 path]
  | none =>
    match env.homeDir with
    | none => []
    | some home =>
      let sshDir := pathJoin home (asciiBytes ".ssh")
      keysInDir env isFile sshDir p.config (readToString (pathJoin sshDir (asciiBytes "config")))

/-- The passphrase of the keys, as text. -/
def passphrase : CoreResult (Option Text) :=
  match p.keyPassphrase with
  | none => .ok none
  | some bytes =>
    match fromUtf8 bytes with
    | some text => .ok (some text)
    | none => .error (connectFailed "key passphrase is not valid UTF-8")

/-- The password, where no key was accepted. -/
def passwordFallback (log : List (Exchange K)) : CoreResult Bool × List (Exchange K) :=
  match p.secret with
  | none => (.ok false, log)
  | some secret =>
    match fromUtf8 secret with
    | none => (.error (connectFailed "password is not valid UTF-8"), log)
    | some password =>
      let answer := w.authenticatePassword log p.config.username password
      (answer.mapError (connectErr "auth"), log ++ [.authenticatePassword password answer])

/-- Why nothing was accepted. -/
def rejection (keyAuth : PublicKeyAuthReport) : String :=
  match decide (0 < keyAuth.attempted), p.secret.isSome with
  | false, false => "no usable key or password"
  | true, false => keyAuth.lastError.getD "authentication failed (public-key)"
  | false, true => "authentication failed (password)"
  | true, true =>
    match keyAuth.lastError with
    | some error => "authentication failed (public-key: " ++ error ++ "; password)"
    | none => "authentication failed (public-key and password)"

/-- The channel with its terminal and shell, and the SFTP session beside it. -/
def openShell (log : List (Exchange K)) : CoreResult Unit × List (Exchange K) :=
  let opened := w.openSession log
  let log := log ++ [.openSession opened]
  match opened with
  | .error e => (.error (connectErr "open channel" e), log)
  | .ok () =>
    let pty := w.requestPty log
    let log := log ++ [.requestPty pty]
    match pty with
    | .error e => (.error (connectErr "request pty" e), log)
    | .ok () =>
      let shell := w.requestShell log
      let log := log ++ [.requestShell shell]
      match shell with
      | .error e => (.error (connectErr "request shell" e), log)
      -- Without an SFTP session the shell still works.
      | .ok () => (.ok (), log ++ [.openSftp (w.openSftp log)])

/-- `connect`, with its candidates. -/
def connectWith (explicitKey : Bool) (candidates : List (List UInt8)) :
    CoreResult Unit × List (Exchange K) :=
  let connected := w.connect []
  let log := [.connect connected]
  match connected with
  | .error e => (.error (connectErr "connect" e), log)
  | .ok () =>
    -- Read before any key is, whether or not a key needs it.
    match passphrase p with
    | .error e => (.error e, log)
    | .ok passphrase =>
      let (keyAuth, log) :=
        if candidates = [] then (.default, log)
        else tryPublickeyAuth w p candidates passphrase explicitKey log
      if keyAuth.fatalLoadError then
        (.error (connectFailed (keyAuth.lastError.getD "private key load failed")), log)
      else
        let (authenticated, log) :=
          if keyAuth.authenticated then (.ok true, log) else passwordFallback w p log
        match authenticated with
        | .error e => (.error e, log)
        | .ok false => (.error (connectFailed (rejection p keyAuth)), log)
        | .ok true => openShell w log

/-- `connect`: a key the user named is the only candidate. -/
def connect (env : Environment) (isFile : List UInt8 → Bool)
    (readToString : List UInt8 → Option Text) : CoreResult Unit × List (Exchange K) :=
  connectWith w p p.keyPath.isSome (candidates p env isFile readToString)

end Provider

/-! ## §4. What was exchanged. -/

/-- The key files that were read, and those of them that gave a key. -/
def loaded (log : List (Exchange K)) : List (List UInt8) :=
  log.filterMap fun
    | .loadSecretKey path _ => some path
    | _ => none

/-- The key files that could be loaded. -/
def usable (log : List (Exchange K)) : List (List UInt8) :=
  log.filterMap fun
    | .loadSecretKey path (.ok _) => some path
    | _ => none

/-- The keys that were offered. -/
def offered (log : List (Exchange K)) : List (List UInt8) :=
  log.filterMap fun
    | .authenticatePublickey path _ _ => some path
    | _ => none

/-- The passwords that were sent. -/
def sent (log : List (Exchange K)) : List Text :=
  log.filterMap fun
    | .authenticatePassword password _ => some password
    | _ => none

/-- Is something offered or sent to the server to be accepted? -/
def Exchange.Attempts : Exchange K → Prop
  | .authenticatePublickey _ _ _ => True
  | .authenticatePassword _ _ => True
  | _ => False

/-- Does the server accept it? -/
def Exchange.Accepts : Exchange K → Prop
  | .authenticatePublickey _ _ answer => answer = .ok true
  | .authenticatePassword _ answer => answer = .ok true
  | _ => False

/-- The server has taken a key. -/
def KeyAccepted (log : List (Exchange K)) : Prop :=
  ∃ path key, .authenticatePublickey path key (.ok true) ∈ log

/-- The server has taken the password. -/
def PasswordAccepted (log : List (Exchange K)) : Prop :=
  ∃ password, .authenticatePassword password (.ok true) ∈ log

/-- Some key file could not be loaded. -/
def LoadFailed (log : List (Exchange K)) : Prop := ∃ path e, .loadSecretKey path (.error e) ∈ log

/-- A session channel was asked for. -/
def ChannelAsked (log : List (Exchange K)) : Prop := ∃ answer, .openSession answer ∈ log

/-! ## §5. The keys. -/

/-- How the attempts with keys end. -/
inductive KeyOutcome
  | rejected
  | accepted
  /-- The key that the user named cannot be loaded. -/
  | unusable
  deriving DecidableEq, Repr

/-- What is exchanged over the candidates. -/
inductive KeyRun (explicitKey : Bool) :
    List (List UInt8) → List (Exchange K) → KeyOutcome → Prop
  | done : KeyRun explicitKey [] [] .rejected
  | skipped {path rest e log outcome} (hexplicit : explicitKey = false)
      (hrest : KeyRun explicitKey rest log outcome) :
      KeyRun explicitKey (path :: rest) (.loadSecretKey path (.error e) :: log) outcome
  | unusable {path rest e} (hexplicit : explicitKey = true) :
      KeyRun explicitKey (path :: rest) [.loadSecretKey path (.error e)] .unusable
  | accepted {path rest key} : KeyRun explicitKey (path :: rest)
      [.loadSecretKey path (.ok key), .authenticatePublickey path key (.ok true)] .accepted
  | refused {path rest key answer log outcome} (hanswer : answer ≠ .ok true)
      (hrest : KeyRun explicitKey rest log outcome) :
      KeyRun explicitKey (path :: rest)
        (.loadSecretKey path (.ok key) :: .authenticatePublickey path key answer :: log) outcome

/-- What a turn of the loop and all that follow exchange, behind `log`, and their report. -/
def Runs (explicitKey : Bool) (candidates : List (List UInt8)) (log : List (Exchange K))
    (r : PublicKeyAuthReport × List (Exchange K)) : Prop :=
  ∃ exchanges outcome, KeyRun explicitKey candidates exchanges outcome ∧ r.2 = log ++ exchanges ∧
    r.1.authenticated = decide (outcome = .accepted) ∧
    r.1.fatalLoadError = decide (outcome = .unusable)

/-- One more turn in front. -/
theorem Runs.after {explicitKey : Bool} {path : List UInt8} {rest : List (List UInt8)}
    {log log' turn : List (Exchange K)} {r : PublicKeyAuthReport × List (Exchange K)}
    (h : Runs explicitKey rest log' r) (hlog : log' = log ++ turn)
    (hturn : ∀ {exchanges outcome}, KeyRun explicitKey rest exchanges outcome →
      KeyRun explicitKey (path :: rest) (turn ++ exchanges) outcome) :
    Runs explicitKey (path :: rest) log r := by
  obtain ⟨exchanges, outcome, hkeys, hexchanges, hreport⟩ := h
  refine ⟨turn ++ exchanges, outcome, hturn hkeys, ?_, hreport⟩
  rw [hexchanges, hlog, List.append_assoc]

/-- **What the loop over the keys exchanges.** -/
theorem publickeyLoop_runs (w : World K) (p : RusshProvider) (passphrase : Option Text)
    (explicitKey : Bool) (candidates : List (List UInt8)) (report : PublicKeyAuthReport)
    (log : List (Exchange K)) (hauthenticated : report.authenticated = false)
    (hfatal : report.fatalLoadError = false) :
    Runs explicitKey candidates log
      (publickeyLoop w p passphrase explicitKey candidates report log) := by
  induction candidates generalizing report log with
  | nil => exact ⟨[], .rejected, .done, (List.append_nil log).symm, hauthenticated, hfatal⟩
  | cons path rest ih =>
    rw [publickeyLoop]
    dsimp only
    cases hload : w.loadSecretKey log path passphrase with
    | error e =>
      dsimp only
      split
      · next hexplicit =>
        exact ⟨_, .unusable, .unusable hexplicit, rfl, hauthenticated, rfl⟩
      · next hexplicit =>
        -- the key is passed over, and the rest is run from the report with its error
        refine Runs.after (ih _ _ ?_ ?_) rfl fun hkeys => ?_
        · exact hauthenticated
        · exact hfatal
        · exact .skipped (Bool.eq_false_iff.mpr hexplicit) hkeys
    | ok key =>
      dsimp only
      cases w.authenticatePublickey (log ++ [.loadSecretKey path (.ok key)])
          p.config.username key with
      | error e =>
        dsimp only
        refine Runs.after (ih _ _ ?_ ?_) (List.append_assoc _ _ _) fun hkeys => ?_
        · exact hauthenticated
        · exact hfatal
        · exact .refused nofun hkeys
      | ok accepted =>
        cases accepted with
        | true => exact ⟨_, .accepted, .accepted, List.append_assoc _ _ _, rfl, hfatal⟩
        | false =>
          dsimp only
          refine Runs.after (ih _ _ ?_ ?_) (List.append_assoc _ _ _) fun hkeys => ?_
          · exact hauthenticated
          · exact hfatal
          · exact .refused (by simp) hkeys

variable {explicitKey : Bool} {candidates : List (List UInt8)} {log : List (Exchange K)}
  {outcome : KeyOutcome}

/-- The candidates are read in order, and all of them where none is accepted or given up. -/
theorem KeyRun.loaded_prefix (h : KeyRun explicitKey candidates log outcome) :
    ∃ untried, candidates = loaded log ++ untried ∧ (outcome = .rejected → untried = []) := by
  induction h with
  | done => exact ⟨[], rfl, fun _ => rfl⟩
  | skipped _ _ ih =>
    obtain ⟨untried, rfl, hall⟩ := ih
    exact ⟨untried, rfl, hall⟩
  | @unusable path rest => exact ⟨rest, rfl, nofun⟩
  | @accepted path rest => exact ⟨rest, rfl, nofun⟩
  | refused _ _ ih =>
    obtain ⟨untried, rfl, hall⟩ := ih
    exact ⟨untried, rfl, hall⟩

/-- The keys that are offered are those that were loaded. -/
theorem KeyRun.offered_eq (h : KeyRun explicitKey candidates log outcome) :
    offered log = usable log := by
  induction h with
  | done => rfl
  | skipped _ _ ih => exact ih
  | unusable => rfl
  | accepted => rfl
  | @refused path _ _ _ _ _ _ _ ih => exact congrArg (path :: ·) ih

/-- A key was taken if that is how the attempts end. -/
theorem KeyRun.keyAccepted_iff (h : KeyRun explicitKey candidates log outcome) :
    KeyAccepted log ↔ outcome = .accepted := by
  unfold KeyAccepted
  induction h with
  | done => simp
  | skipped _ _ ih => simpa using ih
  | unusable => simp
  | accepted => simp
  | refused hanswer _ ih => simpa [hanswer.symm] using ih

/-- The user's own key could not be loaded if that is how the attempts end. -/
theorem KeyRun.loadFailed_iff (h : KeyRun explicitKey candidates log outcome) :
    (explicitKey = true ∧ LoadFailed log) ↔ outcome = .unusable := by
  unfold LoadFailed
  induction h with
  | done => simp
  | skipped hexplicit _ ih => simpa [hexplicit] using ih
  | unusable hexplicit => simpa using hexplicit
  | accepted => simp
  | refused _ _ ih => simpa using ih

/-- An accepted key is the last thing that is exchanged. -/
theorem KeyRun.accepted_last (h : KeyRun explicitKey candidates log outcome) :
    log.Pairwise fun x _ => ¬ x.Accepts := by
  induction h with
  | done => exact List.Pairwise.nil
  | skipped _ _ ih => exact List.Pairwise.cons (fun _ _ => id) ih
  | unusable => exact List.pairwise_singleton _ _
  | accepted => exact List.Pairwise.cons (fun _ _ => id) (List.pairwise_singleton _ _)
  | refused hanswer _ ih =>
    exact List.Pairwise.cons (fun _ _ => id) (List.Pairwise.cons (fun _ _ => hanswer) ih)

/-- While the keys are tried, no password is sent and no channel is asked for. -/
theorem KeyRun.quiet (h : KeyRun explicitKey candidates log outcome) :
    sent log = [] ∧ ¬ PasswordAccepted log ∧ ¬ ChannelAsked log := by
  unfold PasswordAccepted ChannelAsked
  induction h with
  | done => exact ⟨rfl, by simp, by simp⟩
  | skipped _ _ ih => exact ⟨ih.1, by simpa using ih.2⟩
  | unusable => exact ⟨rfl, by simp, by simp⟩
  | accepted => exact ⟨rfl, by simp, by simp⟩
  | refused _ _ ih => exact ⟨ih.1, by simpa using ih.2⟩

/-! ## §6. The ways a connection attempt can go. -/

/-- Is this one of the exchanges behind the authentication? -/
def Exchange.OfShell : Exchange K → Prop
  | .openSession _ => True
  | .requestPty _ => True
  | .requestShell _ => True
  | .openSftp _ => True
  | _ => False

/-- What follows a login: requests for the shell and nothing else. -/
structure ShellRun (session : List (Exchange K)) : Prop where
  asked : ChannelAsked session
  ofShell : ∀ x ∈ session, x.OfShell

/-- A channel and then requests for the shell. -/
theorem ShellRun.of_forall {answer : Except String Unit} {later : List (Exchange K)}
    (h : ∀ x ∈ later, x.OfShell) : ShellRun (.openSession answer :: later) where
  asked := ⟨answer, List.mem_cons_self⟩
  ofShell := List.forall_mem_cons.mpr ⟨trivial, h⟩

/-- What is asked once the login is done: a channel, a terminal and a shell. -/
theorem openShell_runs (w : World K) (log : List (Exchange K)) :
    ∃ session, ShellRun session ∧ (openShell w log).2 = log ++ session := by
  unfold openShell
  dsimp only
  generalize w.openSession log = opened
  generalize w.requestPty (log ++ [.openSession opened]) = pty
  generalize w.requestShell (log ++ [.openSession opened] ++ [.requestPty pty]) = shell
  generalize w.openSftp (log ++ [.openSession opened] ++ [.requestPty pty]
    ++ [.requestShell shell]) = sftp
  cases opened with
  | error e => exact ⟨[.openSession (.error e)], .of_forall nofun, rfl⟩
  | ok _ =>
    cases pty with
    | error e =>
      refine ⟨[.openSession (.ok ()), .requestPty (.error e)], .of_forall ?_, ?_⟩
      · simp [Exchange.OfShell]
      · exact List.append_assoc _ _ _
    | ok _ =>
      cases shell with
      | error e =>
        refine ⟨[.openSession (.ok ()), .requestPty (.ok ()), .requestShell (.error e)],
          .of_forall ?_, ?_⟩
        · simp [Exchange.OfShell]
        · simp
      | ok _ =>
        refine ⟨[.openSession (.ok ()), .requestPty (.ok ()), .requestShell (.ok ()),
          .openSftp sftp], .of_forall ?_, ?_⟩
        · simp [Exchange.OfShell]
        · simp

variable (w : World K) (p : RusshProvider) (explicitKey : Bool) (candidates : List (List UInt8))

/-- The server was reached, and the passphrase can be used. -/
def Reached : Prop :=
  w.connect [] = .ok () ∧ ∀ bytes, p.keyPassphrase = some bytes → ValidUtf8 bytes

/-- What a connection attempt exchanges, and what it returns. -/
inductive Connects : CoreResult Unit → List (Exchange K) → Prop
  | unreachable {e} (hconnect : w.connect [] = .error e) :
      Connects (.error (connectErr "connect" e)) [.connect (.error e)]
  | badPassphrase {bytes detail} (hconnect : w.connect [] = .ok ())
      (hpassphrase : p.keyPassphrase = some bytes) (hinvalid : ¬ ValidUtf8 bytes) :
      Connects (.error (connectFailed detail)) [.connect (.ok ())]
  | unusableKey {log detail} (hreached : Reached w p)
      (hkeys : KeyRun explicitKey candidates log .unusable) :
      Connects (.error (connectFailed detail)) (.connect (.ok ()) :: log)
  | byKey {log session result} (hreached : Reached w p)
      (hkeys : KeyRun explicitKey candidates log .accepted) (hshell : ShellRun session) :
      Connects result (.connect (.ok ()) :: (log ++ session))
  | noPassword {log detail} (hreached : Reached w p)
      (hkeys : KeyRun explicitKey candidates log .rejected)
      (hsecret : ∀ secret, p.secret = some secret → ¬ ValidUtf8 secret) :
      Connects (.error (connectFailed detail)) (.connect (.ok ()) :: log)
  | refusedPassword {log password answer detail} (hreached : Reached w p)
      (hkeys : KeyRun explicitKey candidates log .rejected)
      (hsecret : p.secret = some (utf8 password)) (hanswer : answer ≠ .ok true) :
      Connects (.error (connectFailed detail))
        (.connect (.ok ()) :: (log ++ [.authenticatePassword password answer]))
  | byPassword {log session password result} (hreached : Reached w p)
      (hkeys : KeyRun explicitKey candidates log .rejected)
      (hsecret : p.secret = some (utf8 password)) (hshell : ShellRun session) :
      Connects result
        (.connect (.ok ()) :: (log ++ .authenticatePassword password (.ok true) :: session))

/-- The passphrase is no text. -/
theorem passphrase_error {e : CoreError} {p : RusshProvider} (h : passphrase p = .error e) :
    ∃ bytes, p.keyPassphrase = some bytes ∧ ¬ ValidUtf8 bytes ∧
      e = connectFailed "key passphrase is not valid UTF-8" := by
  unfold passphrase at h
  split at h
  · cases h
  · next bytes hbytes =>
    split at h
    · cases h
    · next hinvalid =>
      refine ⟨bytes, hbytes, ?_, (Except.error.inj h).symm⟩
      rw [validUtf8_iff, hinvalid]
      exact Bool.false_ne_true

/-- The passphrase is a text, if there is one. -/
theorem passphrase_ok {text : Option Text} {p : RusshProvider} (h : passphrase p = .ok text) :
    ∀ bytes, p.keyPassphrase = some bytes → ValidUtf8 bytes := by
  intro bytes hbytes
  unfold passphrase at h
  rw [hbytes] at h
  dsimp only at h
  split at h
  · next text htext => exact ⟨text, fromUtf8_eq_some.mp htext⟩
  · cases h

/-- What the attempts with keys ask. -/
theorem keyPhase_runs (w : World K) (p : RusshProvider) (passphrase : Option Text)
    (explicitKey : Bool) (candidates : List (List UInt8)) (log : List (Exchange K)) :
    Runs explicitKey candidates log (if candidates = [] then (.default, log)
      else tryPublickeyAuth w p candidates passphrase explicitKey log) := by
  split
  · next hnone =>
    subst hnone
    exact ⟨[], .rejected, .done, (List.append_nil log).symm, rfl, rfl⟩
  · exact publickeyLoop_runs w p passphrase explicitKey candidates .default log rfl rfl

/-- What the fallback does: nothing, or it sends the password. -/
theorem passwordFallback_runs (w : World K) (p : RusshProvider) (log : List (Exchange K)) :
    ((∀ secret, p.secret = some secret → ¬ ValidUtf8 secret) ∧
      (passwordFallback w p log).2 = log ∧
      ((passwordFallback w p log).1 = .ok false ∨
        ∃ detail, (passwordFallback w p log).1 = .error (connectFailed detail))) ∨
    ∃ password answer, p.secret = some (utf8 password) ∧
      passwordFallback w p log = (answer.mapError (connectErr "auth"),
        log ++ [.authenticatePassword password answer]) := by
  unfold passwordFallback
  cases hsecret : p.secret with
  | none => exact .inl ⟨nofun, rfl, .inl rfl⟩
  | some secret =>
    dsimp only
    cases htext : fromUtf8 secret with
    | none =>
      refine .inl ⟨fun bytes hbytes => ?_, rfl, .inr ⟨_, rfl⟩⟩
      rw [← Option.some.inj hbytes, validUtf8_iff, htext]
      exact Bool.false_ne_true
    | some password =>
      rw [← fromUtf8_eq_some.mp htext]
      exact .inr ⟨password, _, rfl, rfl⟩

/-- **The ways a connection attempt can go.** -/
theorem connectWith_connects :
    Connects w p explicitKey candidates (connectWith w p explicitKey candidates).1
      (connectWith w p explicitKey candidates).2 := by
  unfold connectWith
  cases hconnect : w.connect [] with
  | error e => exact .unreachable hconnect
  | ok _ =>
    dsimp only
    cases hpassphrase : passphrase p with
    | error e =>
      obtain ⟨bytes, hbytes, hinvalid, rfl⟩ := passphrase_error hpassphrase
      exact .badPassphrase hconnect hbytes hinvalid
    | ok passphrase =>
      have hreached : Reached w p := ⟨hconnect, passphrase_ok hpassphrase⟩
      obtain ⟨exchanges, outcome, hkeys, hlog, hauthenticated, hfatal⟩ :=
        keyPhase_runs w p passphrase explicitKey candidates [.connect (.ok ())]
      dsimp only
      -- From here on it only matters what was exchanged over the keys and what came of it.
      generalize (if candidates = [] then (.default, [.connect (.ok ())])
        else tryPublickeyAuth w p candidates passphrase explicitKey [.connect (.ok ())]) = phase
        at hlog hauthenticated hfatal ⊢
      obtain ⟨keyAuth, log⟩ := phase
      dsimp only at hlog hauthenticated hfatal ⊢
      subst hlog
      rw [hauthenticated, hfatal]
      cases outcome with
      | unusable => exact .unusableKey hreached hkeys
      | accepted =>
        obtain ⟨session, hshell, hsession⟩ := openShell_runs w ([.connect (.ok ())] ++ exchanges)
        have hresult : Connects w p explicitKey candidates
            (openShell w ([.connect (.ok ())] ++ exchanges)).1
            (.connect (.ok ()) :: (exchanges ++ session)) := .byKey hreached hkeys hshell
        rw [show (.connect (.ok ()) :: (exchanges ++ session) : List (Exchange K))
          = [.connect (.ok ())] ++ exchanges ++ session from rfl, ← hsession] at hresult
        exact hresult
      | rejected =>
        -- No key was accepted, so the password decides.
        have hfallback := passwordFallback_runs w p ([.connect (.ok ())] ++ exchanges)
        rw [if_neg (by decide), if_neg (by decide)]
        generalize passwordFallback w p ([.connect (.ok ())] ++ exchanges) = fallback
          at hfallback ⊢
        obtain ⟨authenticated, log⟩ := fallback
        obtain ⟨hsecret, rfl, hanswer⟩ | ⟨password, answer, hsecret, hanswer⟩ := hfallback
        · dsimp only at hanswer ⊢
          obtain rfl | ⟨detail, rfl⟩ := hanswer
          · exact .noPassword hreached hkeys hsecret
          · exact .noPassword hreached hkeys hsecret
        · obtain ⟨rfl, rfl⟩ := Prod.mk.inj hanswer
          cases answer with
          | error e => exact .refusedPassword hreached hkeys hsecret nofun
          | ok accepted =>
            cases accepted with
            | false => exact .refusedPassword hreached hkeys hsecret (by simp)
            | true =>
              obtain ⟨session, hshell, hsession⟩ := openShell_runs w
                ([.connect (.ok ())] ++ exchanges ++ [.authenticatePassword password (.ok true)])
              have hresult : Connects w p explicitKey candidates
                  (openShell w ([.connect (.ok ())] ++ exchanges
                    ++ [.authenticatePassword password (.ok true)])).1
                  (.connect (.ok ()) ::
                    (exchanges ++ .authenticatePassword password (.ok true) :: session)) :=
                .byPassword hreached hkeys hsecret hshell
              have hall : [.connect (.ok ())] ++ exchanges
                    ++ [.authenticatePassword password (.ok true)] ++ session
                  = .connect (.ok ()) ::
                    (exchanges ++ .authenticatePassword password (.ok true) :: session) := by simp
              rw [← hall, ← hsession] at hresult
              exact hresult

/-! ## §7. The policy. -/

/-- What is offered and sent, and when a channel is opened. -/
structure AuthenticationPolicy (result : CoreResult Unit) (log : List (Exchange K)) : Prop where
  /-- The candidates are read in list order; those that give a key, and no others, are offered. -/
  inOrder : ∃ untried, candidates = loaded log ++ untried
  offeredUsable : offered log = usable log
  /-- No candidate is left out before one is accepted. -/
  allTried : Reached w p → ¬ KeyAccepted log → ¬ (explicitKey = true ∧ LoadFailed log) →
    loaded log = candidates
  /-- Nothing is offered or sent after something was accepted. -/
  nothingAfter : log.Pairwise fun x y => x.Accepts → ¬ y.Attempts
  sentOnce : (sent log).length ≤ 1
  sentWhen : ∀ password, password ∈ sent log ↔
    w.connect [] = .ok () ∧ p.secret = some (utf8 password) ∧ ¬ KeyAccepted log ∧
      (∀ bytes, p.keyPassphrase = some bytes → ValidUtf8 bytes) ∧
      ¬ (explicitKey = true ∧ LoadFailed log)
  openedWhen : ChannelAsked log ↔ KeyAccepted log ∨ PasswordAccepted log
  refused : ¬ (KeyAccepted log ∨ PasswordAccepted log) →
    ∃ detail, result = .error (connectFailed detail)

variable {w p explicitKey candidates} {keys tail : List (Exchange K)}

/-- What follows the keys. -/
def BehindKeys (tail : List (Exchange K)) : Prop :=
  ∀ x ∈ tail, x.OfShell ∨ ∃ password answer, x = .authenticatePassword password answer

/-- What is asked of keys only is found in the exchanges over the candidates. -/
theorem filterMap_keys {β : Type} {f : Exchange K → Option β} (htail : BehindKeys tail)
    (hconnect : f (.connect (.ok ())) = none) (hshell : ∀ x : Exchange K, x.OfShell → f x = none)
    (hpassword : ∀ password answer, f (.authenticatePassword password answer) = none) :
    (.connect (.ok ()) :: (keys ++ tail)).filterMap f = keys.filterMap f := by
  have hnone : tail.filterMap f = [] := by
    refine List.filterMap_eq_nil_iff.mpr fun x hx => ?_
    obtain hx | ⟨password, answer, rfl⟩ := htail x hx
    · exact hshell x hx
    · exact hpassword password answer
  rw [List.filterMap_cons_none hconnect, List.filterMap_append, hnone, List.append_nil]

/-- Everything about keys is in the exchanges over the candidates, and the rest in what follows. -/
theorem log_split (hkeys : KeyRun explicitKey candidates keys outcome) (htail : BehindKeys tail) :
    loaded (.connect (.ok ()) :: (keys ++ tail)) = loaded keys ∧
    usable (.connect (.ok ()) :: (keys ++ tail)) = usable keys ∧
    offered (.connect (.ok ()) :: (keys ++ tail)) = offered keys ∧
    sent (.connect (.ok ()) :: (keys ++ tail)) = sent tail ∧
    (KeyAccepted (.connect (.ok ()) :: (keys ++ tail)) ↔ KeyAccepted keys) ∧
    (LoadFailed (.connect (.ok ()) :: (keys ++ tail)) ↔ LoadFailed keys) ∧
    (PasswordAccepted (.connect (.ok ()) :: (keys ++ tail)) ↔ PasswordAccepted tail) ∧
    (ChannelAsked (.connect (.ok ()) :: (keys ++ tail)) ↔ ChannelAsked tail) := by
  obtain ⟨hsent, hpassword, hchannel⟩ := hkeys.quiet
  -- what follows has no exchange over a key, and the exchanges over the keys nothing else
  have hnone : ∀ x ∈ tail, (∀ path answer, x ≠ .loadSecretKey path answer) ∧
      ∀ path key answer, x ≠ .authenticatePublickey path key answer := by
    intro x hx
    obtain hx | ⟨password, answer, rfl⟩ := htail x hx
    · cases x <;> simp [Exchange.OfShell] at hx ⊢
    · simp
  refine ⟨?_, ?_, ?_, ?_, ?_, ?_, ?_, ?_⟩
  · exact filterMap_keys htail rfl (fun x hx => by cases x <;> first | rfl | exact hx.elim)
      fun _ _ => rfl
  · exact filterMap_keys htail rfl (fun x hx => by cases x <;> first | rfl | exact hx.elim)
      fun _ _ => rfl
  · exact filterMap_keys htail rfl (fun x hx => by cases x <;> first | rfl | exact hx.elim)
      fun _ _ => rfl
  · show sent (keys ++ tail) = _
    unfold sent at hsent ⊢
    rw [List.filterMap_append, hsent, List.nil_append]
  · unfold KeyAccepted
    refine exists_congr fun path => exists_congr fun key => ?_
    have hno : .authenticatePublickey path key (.ok true) ∉ tail := fun hmem =>
      (hnone _ hmem).2 _ _ _ rfl
    simp [hno]
  · unfold LoadFailed
    refine exists_congr fun path => exists_congr fun e => ?_
    have hno : .loadSecretKey path (.error e) ∉ tail := fun hmem => (hnone _ hmem).1 _ _ rfl
    simp [hno]
  · unfold PasswordAccepted at hpassword ⊢
    refine exists_congr fun password => ?_
    have hno : .authenticatePassword password (.ok true) ∉ keys := fun hmem =>
      hpassword ⟨password, hmem⟩
    simp [hno]
  · unfold ChannelAsked at hchannel ⊢
    refine exists_congr fun answer => ?_
    have hno : .openSession answer ∉ keys := fun hmem => hchannel ⟨answer, hmem⟩
    simp [hno]

/-- What is accepted while the keys are tried is a key. -/
theorem KeyRun.accepts (hkeys : KeyRun explicitKey candidates keys outcome) {x : Exchange K}
    (hx : x ∈ keys) (haccepts : x.Accepts) : outcome = .accepted := by
  cases x with
  | authenticatePublickey path key answer =>
    have hanswer : answer = .ok true := haccepts
    subst hanswer
    exact hkeys.keyAccepted_iff.mp ⟨path, key, hx⟩
  | authenticatePassword password answer =>
    have hanswer : answer = .ok true := haccepts
    subst hanswer
    exact absurd ⟨password, hx⟩ hkeys.quiet.2.1
  | _ => exact haccepts.elim

/-- The policy of an attempt that reached the keys, from what follows them. -/
theorem AuthenticationPolicy.of_keys {result : CoreResult Unit} (hreached : Reached w p)
    (hkeys : KeyRun explicitKey candidates keys outcome) (htail : BehindKeys tail)
    (hafter : tail.Pairwise fun x y => x.Accepts → ¬ y.Attempts)
    (hquiet : outcome = .accepted → ∀ y ∈ tail, ¬ y.Attempts)
    (honce : (sent tail).length ≤ 1)
    (hsent : ∀ password, password ∈ sent tail ↔
      p.secret = some (utf8 password) ∧ outcome = .rejected)
    (hopened : ChannelAsked tail ↔ outcome = .accepted ∨ PasswordAccepted tail)
    (hrefused : ¬ (outcome = .accepted ∨ PasswordAccepted tail) →
      ∃ detail, result = .error (connectFailed detail)) :
    AuthenticationPolicy w p explicitKey candidates result
      (.connect (.ok ()) :: (keys ++ tail)) := by
  obtain ⟨hloaded, husable, hoffered, hsentTail, hkey, hload, hpassword, hchannel⟩ :=
    log_split hkeys htail
  have hrejected : outcome = .rejected ↔ ¬ outcome = .accepted ∧ ¬ outcome = .unusable := by
    cases outcome <;> simp
  exact {
    inOrder := by
      rw [hloaded]
      obtain ⟨untried, hall, _⟩ := hkeys.loaded_prefix
      exact ⟨untried, hall⟩
    offeredUsable := by
      rw [hoffered, husable]
      exact hkeys.offered_eq
    allTried := by
      rw [hloaded, hkey, hload, hkeys.keyAccepted_iff, hkeys.loadFailed_iff]
      intro _ haccepted hunusable
      obtain ⟨untried, hall, hnone⟩ := hkeys.loaded_prefix
      rw [hnone (hrejected.mpr ⟨haccepted, hunusable⟩), List.append_nil] at hall
      exact hall.symm
    nothingAfter := by
      rw [List.pairwise_cons, List.pairwise_append]
      -- the greeting, the keys, what follows them, and the one against the other
      refine ⟨fun y _ haccepts => haccepts.elim, ?_, hafter, fun x hx y hy haccepts => ?_⟩
      · exact hkeys.accepted_last.imp fun hlast haccepts => absurd haccepts hlast
      · exact hquiet (hkeys.accepts hx haccepts) y hy
    sentOnce := by
      rw [hsentTail]
      exact honce
    sentWhen := by
      intro password
      rw [hsentTail, hsent, hkey, hload, hkeys.keyAccepted_iff, hkeys.loadFailed_iff, hrejected]
      exact ⟨fun h => ⟨hreached.1, h.1, h.2.1, hreached.2, h.2.2⟩,
        fun h => ⟨h.2.1, h.2.2.1, h.2.2.2.2⟩⟩
    openedWhen := by
      rw [hchannel, hkey, hpassword, hkeys.keyAccepted_iff]
      exact hopened
    refused := by
      rw [hkey, hpassword, hkeys.keyAccepted_iff]
      exact hrefused }

/-- The policy of an attempt that ended before the keys. -/
theorem AuthenticationPolicy.of_connect {answer : Except String Unit} {detail : String}
    (hnot : ¬ Reached w p) :
    AuthenticationPolicy w p explicitKey candidates (.error (connectFailed detail))
      [.connect answer] where
  inOrder := ⟨candidates, rfl⟩
  offeredUsable := rfl
  allTried := fun hreached => absurd hreached hnot
  nothingAfter := List.pairwise_singleton _ _
  sentOnce := Nat.zero_le 1
  sentWhen := fun _ => iff_of_false nofun fun h => hnot ⟨h.1, h.2.2.2.1⟩
  openedWhen := by simp [ChannelAsked, KeyAccepted, PasswordAccepted]
  refused := fun _ => ⟨detail, rfl⟩

/-- Different passwords have different bytes. -/
theorem secret_eq_iff {password text : Text} (h : p.secret = some (utf8 password)) :
    p.secret = some (utf8 text) ↔ text = password := by
  rw [h, Option.some.injEq, utf8_inj, eq_comm]

/-- The shell comes after the keys. -/
theorem ShellRun.behindKeys {session : List (Exchange K)} (h : ShellRun session) :
    BehindKeys session := fun x hx => .inl (h.ofShell x hx)

/-- Behind the authentication nothing is offered, sent or accepted. -/
theorem ShellRun.quiet {session : List (Exchange K)} (h : ShellRun session) :
    sent session = [] ∧ ¬ PasswordAccepted session ∧
      ∀ x ∈ session, ¬ x.Attempts ∧ ¬ x.Accepts := by
  refine ⟨?_, ?_, fun x hx => ?_⟩
  · refine List.filterMap_eq_nil_iff.mpr fun x hx => ?_
    have hshell := h.ofShell x hx
    cases x <;> first | rfl | exact hshell.elim
  · rintro ⟨password, hmem⟩
    exact (h.ofShell _ hmem).elim
  · have hshell := h.ofShell x hx
    cases x <;> first | exact ⟨id, id⟩ | exact hshell.elim

variable (w p explicitKey candidates)

/-- **The policy**, for any list of candidates. -/
theorem connectWith_policy :
    AuthenticationPolicy w p explicitKey candidates (connectWith w p explicitKey candidates).1
      (connectWith w p explicitKey candidates).2 := by
  have hconnects := connectWith_connects w p explicitKey candidates
  generalize (connectWith w p explicitKey candidates).1 = result at hconnects ⊢
  generalize (connectWith w p explicitKey candidates).2 = log at hconnects ⊢
  cases hconnects with
  | @unreachable e hconnect =>
    have hnot : ¬ Reached w p := by
      rintro ⟨hreached, _⟩
      rw [hreached] at hconnect
      cases hconnect
    exact @AuthenticationPolicy.of_connect _ w p explicitKey candidates _ ("connect: " ++ e) hnot
  | badPassphrase hconnect hpassphrase hinvalid =>
    exact .of_connect fun hreached => hinvalid (hreached.2 _ hpassphrase)
  | @unusableKey keys detail hreached hkeys =>
    -- nothing follows the keys
    rw [← List.append_nil keys]
    refine .of_keys hreached hkeys nofun .nil nofun (Nat.zero_le 1) ?_ ?_ fun _ => ⟨detail, rfl⟩
    · simp [sent]
    · simp [ChannelAsked, PasswordAccepted]
  | byKey hreached hkeys hshell =>
    obtain ⟨hsent, hpassword, hquiet⟩ := hshell.quiet
    refine .of_keys hreached hkeys hshell.behindKeys ?_ (fun _ x hx => (hquiet x hx).1) ?_ ?_ ?_ ?_
    · exact List.pairwise_of_forall_mem_list fun x hx y _ haccepts => absurd haccepts (hquiet x hx).2
    · simp [hsent]
    · simp [hsent]
    · exact iff_of_true hshell.asked (.inl rfl)
    · exact fun h => absurd (.inl rfl) h
  | @noPassword keys detail hreached hkeys hsecret =>
    rw [← List.append_nil keys]
    refine .of_keys hreached hkeys nofun .nil nofun (Nat.zero_le 1) ?_ ?_ fun _ => ⟨detail, rfl⟩
    · exact fun password => iff_of_false nofun fun h => hsecret _ h.1 ⟨password, rfl⟩
    · simp [ChannelAsked, PasswordAccepted]
  | @refusedPassword keys password answer detail hreached hkeys hsecret hanswer =>
    refine .of_keys hreached hkeys ?_ (List.pairwise_singleton _ _) nofun (Nat.le_refl 1) ?_ ?_
      fun _ => ⟨detail, rfl⟩
    · exact fun x hx => .inr ⟨password, answer, List.mem_singleton.mp hx⟩
    · intro text
      rw [secret_eq_iff hsecret, and_iff_left rfl]
      exact List.mem_singleton
    · simp [ChannelAsked, PasswordAccepted, hanswer.symm]
  | @byPassword keys session password result hreached hkeys hsecret hshell =>
    obtain ⟨hsent, hpassword, hquiet⟩ := hshell.quiet
    refine .of_keys hreached hkeys ?_ ?_ nofun ?_ ?_ ?_ ?_
    · refine List.forall_mem_cons.mpr ⟨.inr ⟨password, _, rfl⟩, hshell.behindKeys⟩
    · refine List.Pairwise.cons (fun x hx _ => (hquiet x hx).1) ?_
      exact List.pairwise_of_forall_mem_list fun x hx y _ haccepts =>
        absurd haccepts (hquiet x hx).2
    · show (password :: sent session).length ≤ 1
      rw [hsent]
      exact Nat.le_refl 1
    · intro text
      show text ∈ password :: sent session ↔ _
      rw [hsent, secret_eq_iff hsecret, and_iff_left rfl]
      exact List.mem_singleton
    · obtain ⟨answer, hasked⟩ := hshell.asked
      have haccepted : PasswordAccepted (.authenticatePassword password (.ok true) :: session) :=
        ⟨password, List.mem_cons_self⟩
      exact iff_of_true ⟨answer, List.mem_cons_of_mem _ hasked⟩ (.inr haccepted)
    · exact fun h => absurd (.inr ⟨password, List.mem_cons_self⟩) h

/-- **The authentication policy.**  Keys are read and offered in list order, and nothing after one
that was accepted; the password is sent at most once, and when; and a channel is asked for exactly
if a key or the password was accepted.  This holds for any candidates, and so for those that
`connect` finds. -/
theorem authentication_policy (w : World K) (p : RusshProvider) :
    (∀ explicitKey candidates, AuthenticationPolicy w p explicitKey candidates
      (connectWith w p explicitKey candidates).1 (connectWith w p explicitKey candidates).2) ∧
    ∀ env isFile readToString, AuthenticationPolicy w p p.keyPath.isSome
      (Russh.candidates p env isFile readToString) (connect w p env isFile readToString).1
      (connect w p env isFile readToString).2 :=
  ⟨fun explicitKey candidates => connectWith_policy w p explicitKey candidates,
    fun _ _ _ => connectWith_policy w p _ _⟩

end ResearchSSH.Core.Russh
