/-
  ResearchSSH.Core.SshConfig — which private keys `~/.ssh/config` names for a host.

  The file is read line by line, with a flag that says whether the current block is about the
  host.  Only `Host` lines set it: it is down before the first of them, where OpenSSH takes
  directives for all hosts, and a `Match` line leaves it as it is.

  Main results:
    * `identityFilesFromLines_concat` — what one line adds.
    * `identity_files_iff`            — when lines are taken from the blocks that apply.
    * `keysInDir_candidates`          — the candidates that are offered.
-/

import ResearchSSH.Core.HostPatterns
import ResearchSSH.Core.IdentityTokens
import ResearchSSH.Library.Blocks

namespace ResearchSSH.Core

open ResearchSSH.Library

/-! ## §1. One line. -/

/-- `str::trim`. -/
def trim (s : Text) : Text := (s.dropWhile fun c => isWhitespace c).rdropWhile isWhitespace

/-- What stands before the first blank, in lower case. -/
def keyword (line : Text) : Text := (line.takeWhile fun c => !isWhitespace c).map Char.toLower

/-- What stands behind it. -/
def argument (line : Text) : Text := trim ((line.dropWhile fun c => !isWhitespace c).drop 1)

/-- A blank line or a comment. -/
def Skipped (line : Text) : Prop := line = [] ∨ line.head? = some '#'

instance (line : Text) : Decidable (Skipped line) := inferInstanceAs (Decidable (_ ∨ _))

/-! ## §2. The file. -/

/-- The account that is connected to. -/
structure Account where
  host : Text
  username : Text
  port : UInt16
  deriving DecidableEq, Repr

/-- The loop of `identity_files_from_ssh_config`, with the values of `active` and `out`. -/
def configLoop (env : Environment) (sshDir : List UInt8) (a : Account) :
    List Text → Bool → List (List UInt8) → List (List UInt8)
  | [], _, out => out
  | raw :: rest, active, out =>
    let line := trim raw
    if Skipped line then configLoop env sshDir a rest active out
    else
      let key := keyword line
      let value := argument line
      if key = "host".toList then configLoop env sshDir a rest (hostClauseMatches value a.host) out
      -- There is no branch for `match`: it falls through to the last one.
      else if active = true ∧ key = "identityfile".toList ∧ value ≠ [] then
        configLoop env sshDir a rest active
          (out ++ [expandIdentityFile env value sshDir a.host a.username a.port])
      else configLoop env sshDir a rest active out

/-- `identity_files_from_ssh_config`, over the lines of the file. -/
def identityFilesFromLines (env : Environment) (sshDir : List UInt8) (a : Account)
    (ls : List Text) : List (List UInt8) := configLoop env sshDir a ls false []

/-- `identity_files_from_ssh_config`; `none` stands for a config that cannot be read.  The
carriage return that may end a line is trimmed with its blanks. -/
def identityFilesFromSshConfig (env : Environment) (sshDir : List UInt8) (a : Account)
    (config : Option Text) : List (List UInt8) :=
  match config with
  | none => []
  | some text => identityFilesFromLines env sshDir a (lines '\n' text)

/-! ## §3. Blocks. -/

/-- The lines that start a block. -/
inductive Header
  | host (clause : Text)
  | matching
  deriving DecidableEq, Repr

/-- What a line says about the blocks: a `Host` header, a `Match` header or neither. -/
def header (raw : Text) : Option Header :=
  if Skipped (trim raw) then none
  else if keyword (trim raw) = "host".toList then some (.host (argument (trim raw)))
  else if keyword (trim raw) = "match".toList then some .matching
  else none

/-- The value of an `IdentityFile` line that has one. -/
def identityFile (raw : Text) : Option Text :=
  if ¬ Skipped (trim raw) ∧ keyword (trim raw) = "identityfile".toList ∧ argument (trim raw) ≠ []
  then some (argument (trim raw)) else none

/-- What a line says, expanded. -/
def said (env : Environment) (sshDir : List UInt8) (a : Account) (raw : Text) :
    List (List UInt8) :=
  (identityFile raw).toList.map fun value =>
    expandIdentityFile env value sshDir a.host a.username a.port

/-- A line behind `pre` is about the host: no header stands before it, or the last one is a `Host`
line whose clause matches. -/
def Applies (host : Text) (pre : List Text) : Prop :=
  (∀ l ∈ pre, header l = none) ∨
    ∃ before l between clause, pre = before ++ l :: between ∧ header l = some (.host clause) ∧
      (∀ m ∈ between, header m = none) ∧ ClauseMatches (splitWhitespace clause) host

open Classical in

/-- What the lines that apply say, in file order. -/
noncomputable def saidByBlocks (env : Environment) (sshDir : List UInt8) (a : Account)
    (ls : List Text) : List (List UInt8) :=
  (placed [] ls).flatMap fun p => if Applies a.host p.1 then said env sshDir a p.2 else []

/-- Every line adds what it says if it applies, and nothing otherwise. -/
def Attributed (env : Environment) (sshDir : List UInt8) (a : Account) (ls : List Text) : Prop :=
  ∀ pre l post, ls = pre ++ l :: post →
    (Applies a.host pre → identityFilesFromLines env sshDir a (pre ++ [l])
      = identityFilesFromLines env sshDir a pre ++ said env sshDir a l) ∧
    (¬ Applies a.host pre → identityFilesFromLines env sshDir a (pre ++ [l])
      = identityFilesFromLines env sshDir a pre)

/-- `host` lines alone, as the loop sees them. -/
def hostClause (raw : Text) : Option Text :=
  match header raw with
  | some (.host clause) => some clause
  | _ => none

/-! ## §4. The loop. -/

variable {env : Environment} {sshDir : List UInt8} {a : Account}

theorem hostClause_eq_some {raw clause : Text} :
    hostClause raw = some clause ↔ header raw = some (.host clause) := by
  unfold hostClause
  split
  · next c heq => rw [heq, Option.some.injEq, Option.some.injEq, Header.host.injEq]
  · next hother =>
    refine iff_of_false nofun fun heq => hother clause heq

/-- What a line makes of the flag. -/
def nextActive (host : Text) (active : Bool) (raw : Text) : Bool :=
  ((hostClause raw).map (hostClauseMatches · host)).getD active

/-- One turn of the loop. -/
theorem configLoop_cons (raw : Text) (rest : List Text) (active : Bool) (out : List (List UInt8)) :
    configLoop env sshDir a (raw :: rest) active out
      = configLoop env sshDir a rest (nextActive a.host active raw)
          (out ++ if active then said env sshDir a raw else []) := by
  have hkeys : "host".toList ≠ "identityfile".toList := by decide
  rw [configLoop]
  unfold nextActive hostClause header said identityFile
  -- skipped, a `Host` line, or any other line
  by_cases hskip : Skipped (trim raw)
  · simp [hskip]
  · by_cases hhost : keyword (trim raw) = "host".toList
    · simp only [hskip, hhost, if_false, if_true, hkeys]
      simp
    · -- any other line leaves the flag as it is
      have hkeep : ∀ b : Bool, ((match
          (if keyword (trim raw) = "match".toList then some Header.matching else none) with
            | some (.host clause) => some clause
            | _ => none).map (hostClauseMatches · a.host)).getD b = b := by
        intro b
        by_cases hmatch : keyword (trim raw) = "match".toList
        · rw [if_pos hmatch]
          rfl
        · rw [if_neg hmatch]
          rfl
      simp only [hskip, hhost, if_false, hkeep]
      -- and the files, unless it is a directive with a value
      by_cases hdirective : keyword (trim raw) = "identityfile".toList ∧ argument (trim raw) ≠ []
      · cases active <;> simp [hdirective]
      · have hnot : ∀ p : Prop, ¬ (p ∧ keyword (trim raw) = "identityfile".toList ∧
            argument (trim raw) ≠ []) := fun p h => hdirective h.2
        simp only [hnot, if_false]
        cases active <;> simp

/-- The loop is one over positions. -/
theorem configLoop_eq (ls : List Text) (active : Bool) (out : List (List UInt8)) :
    configLoop env sshDir a ls active out
      = out ++ runLoop (nextActive a.host)
          (fun active raw => if active then said env sshDir a raw else []) active ls := by
  induction ls generalizing active out with
  | nil => rw [configLoop, runLoop, List.append_nil]
  | cons raw rest ih => rw [configLoop_cons, ih, runLoop, List.append_assoc]

/-- The flag after some lines: the last `Host` line sets it. -/
theorem foldl_nextActive (host : Text) (pre : List Text) :
    pre.foldl (nextActive host) false
      = ((under hostClause pre).map (hostClauseMatches · host)).getD false := by
  refine foldl_under (fun active raw clause h => ?_) (fun active raw h => ?_) pre
  · rw [nextActive, h]
    rfl
  · rw [nextActive, h]
    rfl

/-- **What one line adds**: what it says, if the clause of the last `Host` line before it matches
the host. -/
theorem identityFilesFromLines_concat (pre : List Text) (l : Text) :
    identityFilesFromLines env sshDir a (pre ++ [l])
      = identityFilesFromLines env sshDir a pre ++
          if ((under hostClause pre).map (hostClauseMatches · a.host)).getD false
          then said env sshDir a l else [] := by
  unfold identityFilesFromLines
  rw [configLoop_eq, configLoop_eq, List.nil_append, List.nil_append, runLoop_concat,
    foldl_nextActive]

/-! ## §5. The blocks that apply. -/

/-- Which lines apply, by the last header before them. -/
theorem applies_iff (host : Text) (pre : List Text) :
    Applies host pre ↔ under header pre = none ∨
      ∃ clause, under header pre = some (.host clause) ∧ hostClauseMatches clause host = true := by
  unfold Applies
  rw [under_eq_none]
  refine or_congr_right ?_
  constructor
  · rintro ⟨before, l, between, clause, hsplit, hl, hnone, hmatches⟩
    refine ⟨clause, under_eq_some.mpr ⟨before, l, between, hsplit, hl, hnone⟩, ?_⟩
    exact hostClauseMatches_iff.mpr hmatches
  · rintro ⟨clause, hunder, hmatches⟩
    obtain ⟨before, l, between, hsplit, hl, hnone⟩ := under_eq_some.mp hunder
    exact ⟨before, l, between, clause, hsplit, hl, hnone, hostClauseMatches_iff.mp hmatches⟩

/-- Where the last header is a `Host` line, it is the last of them. -/
theorem under_hostClause {pre : List Text} {clause : Text}
    (h : under header pre = some (.host clause)) : under hostClause pre = some clause := by
  obtain ⟨before, l, between, hsplit, hl, hnone⟩ := under_eq_some.mp h
  refine under_eq_some.mpr ⟨before, l, between, hsplit, hostClause_eq_some.mpr hl, fun m hm => ?_⟩
  unfold hostClause
  rw [hnone m hm]

theorem under_hostClause_none {pre : List Text} (h : under header pre = none) :
    under hostClause pre = none := by
  rw [under_eq_none] at h ⊢
  intro l hl
  unfold hostClause
  rw [h l hl]

/-- A line in front of all headers is missed; one under a `Match` line is taken for the `Host`
block before it. -/
def Misplaced (host : Text) (pre : List Text) : Prop :=
  under header pre = none ∨
    (under header pre = some .matching ∧
      ∃ clause, under hostClause pre = some clause ∧ ClauseMatches (splitWhitespace clause) host)

/-- The flag says whether the line applies, except where it is misplaced. -/
theorem active_iff_applies (host : Text) (pre : List Text) :
    (((under hostClause pre).map (hostClauseMatches · host)).getD false = true ↔
      Applies host pre) ↔ ¬ Misplaced host pre := by
  rw [applies_iff]
  unfold Misplaced
  cases hunder : under header pre with
  | none =>
    -- the line applies, and the flag is still down
    rw [under_hostClause_none hunder]
    simp
  | some h =>
    cases h with
    | host clause =>
      rw [under_hostClause hunder]
      simp
    | matching =>
      -- the line does not apply; the flag is that of the `Host` line before, if there is one
      cases hclause : under hostClause pre with
      | none => simp
      | some clause => simp [← hostClauseMatches_iff]

/-- Lines that are attributed are taken from the blocks that apply. -/
theorem Attributed.eq_saidByBlocks {ls : List Text} (h : Attributed env sshDir a ls) :
    identityFilesFromLines env sshDir a ls = saidByBlocks env sshDir a ls := by
  induction ls using List.reverseRecOn with
  | nil => rfl
  | append_singleton ls l ih =>
    -- the lines before the last one are attributed as they stand
    have hpre : Attributed env sshDir a ls := by
      rintro pre m post rfl
      exact h pre m (post ++ [l]) (by simp)
    have hlast := h ls l [] rfl
    unfold saidByBlocks at ih ⊢
    rw [placed_append, List.flatMap_append, ← ih hpre, List.nil_append]
    by_cases happlies : Applies a.host ls
    · rw [hlast.1 happlies]
      simp [placed, happlies]
    · rw [hlast.2 happlies]
      simp [placed, happlies]

/-- An account to try things with. -/
def hpcAccount : Account := { host := "hpc".toList, username := "alice".toList, port := 22 }

/-- An environment without a home directory. -/
def noHome : Environment := { userProfile := none, home := none }

/-- A config with a key for all hosts. -/
def globalConfig : Text := "IdentityFile /keys/id\n".toList

/-- A key for all hosts, in front of every header, is missed. -/
theorem not_attributed_global :
    identityFilesFromSshConfig noHome [] hpcAccount (some globalConfig) = [] ∧
      saidByBlocks noHome [] hpcAccount (lines '\n' globalConfig) = [asciiBytes "/keys/id"] ∧
      ¬ Attributed noHome [] hpcAccount (lines '\n' globalConfig) := by
  have hlines : lines '\n' globalConfig = ["IdentityFile /keys/id".toList] := by decide
  have hsaid : said noHome [] hpcAccount "IdentityFile /keys/id".toList
      = [asciiBytes "/keys/id"] := by decide
  have happlies : Applies hpcAccount.host [] := .inl nofun
  rw [hlines]
  refine ⟨by decide, ?_, fun h => ?_⟩
  · unfold saidByBlocks
    rw [placed, placed, List.flatMap_singleton, if_pos happlies, hsaid]
  · have hline := (h [] _ [] rfl).1 happlies
    rw [hsaid] at hline
    revert hline
    decide

/-- **When lines are taken from the blocks that apply.**  The files are those of the lines that
apply, in file order and each from its own line, exactly if no `IdentityFile` line with a value
stands in front of all headers, or under a `Match` line behind a `Host` line whose clause
matches. -/
theorem identity_files_iff (env : Environment) (sshDir : List UInt8) (a : Account) (text : Text) :
    (identityFilesFromSshConfig env sshDir a (some text)
        = saidByBlocks env sshDir a (lines '\n' text) ∧
      Attributed env sshDir a (lines '\n' text)) ↔
      ∀ pre l post, lines '\n' text = pre ++ l :: post → (identityFile l).isSome →
        ¬ Misplaced a.host pre := by
  have hattributed : Attributed env sshDir a (lines '\n' text) ↔
      ∀ pre l post, lines '\n' text = pre ++ l :: post → (identityFile l).isSome →
        ¬ Misplaced a.host pre := by
    unfold Attributed
    refine forall_congr' fun pre => forall_congr' fun l => forall_congr' fun post =>
      forall_congr' fun _ => ?_
    rw [identityFilesFromLines_concat, ← active_iff_applies]
    -- A line that says nothing is always attributed; one with a value, if the flag is right.
    cases hvalue : identityFile l with
    | none => simp [said, hvalue]
    | some value =>
      by_cases happlies : Applies a.host pre
      · cases hactive : ((under hostClause pre).map (hostClauseMatches · a.host)).getD false <;>
          simp [said, hvalue, happlies]
      · cases hactive : ((under hostClause pre).map (hostClauseMatches · a.host)).getD false <;>
          simp [said, hvalue, happlies]
  rw [← hattributed]
  exact ⟨And.right, fun h => ⟨h.eq_saidByBlocks, h⟩⟩

/-! ## §6. The candidates. -/

/-- What paths are compared by: the root, and the names without empty ones and, but for a leading
one, without `.`. -/
def components (path : List UInt8) : Bool × List (List UInt8) :=
  let names := (path.splitOn 0x2f).filter (· ≠ [])
  if path.head? = some 0x2f then (true, names.filter (· ≠ [0x2e]))
  else
    match names with
    | [] => (false, [])
    | first :: rest => (false, first :: rest.filter (· ≠ [0x2e]))

/-- The loop of `keys_in_dir`, with what has been seen. -/
def keysLoop (isFile : List UInt8 → Bool) :
    List (Bool × List (List UInt8)) → List (List UInt8) → List (List UInt8)
  | _, [] => []
  | seen, path :: paths =>
    -- a `HashSet` of paths tells them apart by their components
    if isFile path = true ∧ components path ∉ seen then
      path :: keysLoop isFile (components path :: seen) paths
    else keysLoop isFile seen paths

/-- The key files that are looked for in any case. -/
def defaultNames : List (List UInt8) :=
  [asciiBytes "id_ed25519", asciiBytes "id_ecdsa", asciiBytes "id_rsa"]

/-- All paths that are looked at, in order. -/
def identityPaths (env : Environment) (sshDir : List UInt8) (a : Account) (config : Option Text) :
    List (List UInt8) :=
  identityFilesFromSshConfig env sshDir a config ++ defaultNames.map (pathJoin sshDir)

/-- The key files found under a `.ssh` directory. -/
def keysInDir (env : Environment) (isFile : List UInt8 → Bool) (sshDir : List UInt8) (a : Account)
    (config : Option Text) : List (List UInt8) :=
  keysLoop isFile [] (identityPaths env sshDir a config)

variable {isFile : List UInt8 → Bool}

theorem keysLoop_sublist (seen : List (Bool × List (List UInt8))) (paths : List (List UInt8)) :
    (keysLoop isFile seen paths).Sublist paths := by
  induction paths generalizing seen with
  | nil => exact List.Sublist.refl []
  | cons path paths ih =>
    rw [keysLoop]
    split
    · exact (ih _).cons_cons path
    · exact (ih _).cons path

theorem of_mem_keysLoop {seen : List (Bool × List (List UInt8))} {paths : List (List UInt8)}
    {path : List UInt8} (h : path ∈ keysLoop isFile seen paths) :
    isFile path = true ∧ components path ∉ seen := by
  induction paths generalizing seen with
  | nil => cases h
  | cons first paths ih =>
    rw [keysLoop] at h
    split at h
    · next hfirst =>
      obtain rfl | h := List.mem_cons.mp h
      · exact hfirst
      · obtain ⟨hfile, hseen⟩ := ih h
        exact ⟨hfile, fun hmem => hseen (List.mem_cons_of_mem _ hmem)⟩
    · exact ih h

theorem nodup_keysLoop (seen : List (Bool × List (List UInt8))) (paths : List (List UInt8)) :
    ((keysLoop isFile seen paths).map components).Nodup := by
  induction paths generalizing seen with
  | nil => exact List.nodup_nil
  | cons path paths ih =>
    rw [keysLoop]
    split
    · rw [List.map_cons, List.nodup_cons]
      refine ⟨fun hmem => ?_, ih _⟩
      obtain ⟨other, hother, heq⟩ := List.mem_map.mp hmem
      exact (of_mem_keysLoop hother).2 (heq ▸ List.mem_cons_self)
    · exact ih _

/-- Every file that is not seen yet is kept, or one that is the same. -/
theorem mem_keysLoop {seen : List (Bool × List (List UInt8))} {paths : List (List UInt8)}
    {path : List UInt8} (hmem : path ∈ paths) (hfile : isFile path = true)
    (hseen : components path ∉ seen) :
    ∃ kept ∈ keysLoop isFile seen paths, components kept = components path := by
  induction paths generalizing seen with
  | nil => cases hmem
  | cons first paths ih =>
    rw [keysLoop]
    obtain rfl | hmem := List.mem_cons.mp hmem
    · rw [if_pos ⟨hfile, hseen⟩]
      exact ⟨path, List.mem_cons_self, rfl⟩
    · split
      · -- the file may be the one that was just kept, written in another way
        by_cases hsame : components path = components first
        · exact ⟨first, List.mem_cons_self, hsame.symm⟩
        · have hnew : components path ∉ components first :: seen := by
            rw [List.mem_cons, not_or]
            exact ⟨hsame, hseen⟩
          obtain ⟨kept, hkept, heq⟩ := ih hmem hnew
          exact ⟨kept, List.mem_cons_of_mem _ hkept, heq⟩
      · exact ih hmem hseen

/-- **The candidates**: the files among the paths that are looked at, in order and each once. -/
theorem keysInDir_candidates (env : Environment) (isFile : List UInt8 → Bool)
    (sshDir : List UInt8) (a : Account) (config : Option Text) :
    (keysInDir env isFile sshDir a config).Sublist (identityPaths env sshDir a config) ∧
    ((keysInDir env isFile sshDir a config).map components).Nodup ∧
    (∀ path ∈ keysInDir env isFile sshDir a config, isFile path = true) ∧
    ∀ path ∈ identityPaths env sshDir a config, isFile path = true →
      ∃ kept ∈ keysInDir env isFile sshDir a config, components kept = components path := by
  refine ⟨keysLoop_sublist [] _, nodup_keysLoop [] _, fun path h => (of_mem_keysLoop h).1, ?_⟩
  exact fun path hmem hfile => mem_keysLoop hmem hfile List.not_mem_nil

end ResearchSSH.Core
