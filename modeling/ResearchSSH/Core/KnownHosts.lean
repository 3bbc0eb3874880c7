/-
  ResearchSSH.Core.KnownHosts — writing an accepted host key to `~/.ssh/known_hosts`.

  `learn_known_hosts` opens the file for appending and writes one line.  It does not look at
  what is in the file: where the last line has no newline at its end, as an editor or another
  tool may leave it, the new entry becomes the tail of that line.

  Text is given by its UTF-8 bytes.  How the calls of one learn turn out is carried by
  `Answers`; a write that fails can have written a part.

  Main results:
    * `learnKnownHosts_ok`      — what a learn that succeeds has written.
    * `learn_glues`             — an entry lost to a missing newline.
    * `learns_append_lines_iff` — when learns add their lines and leave the others alone.
-/

import Mathlib.Data.List.Nodup
import Mathlib.Logic.Function.Basic
import ResearchSSH.Library.Lines

namespace ResearchSSH.Core

open ResearchSSH.Library

/-! ## §1. The learn. -/

/-- The byte `append` writes behind an entry. -/
def newline : UInt8 := 10

/-- What `to_openssh` makes of a key: one line. -/
structure OpensshKey where
  text : List UInt8
  oneLine : newline ∉ text

/-- The variables that name the home directory. -/
structure Environment where
  userProfile : Option (List UInt8)
  home : Option (List UInt8)
  deriving DecidableEq, Repr

/-- `home_dir`: `USERPROFILE` before `HOME`. -/
def Environment.homeDir (env : Environment) : Option (List UInt8) :=
  env.userProfile.orElse fun _ => env.home

/-- How the calls of one learn turn out. -/
structure Answers where
  createDirAll : Except String Unit
  toOpenssh : Except String Unit
  openFile : Except String Unit
  /-- The error of the write, and how much was written before it. -/
  writeFails : Option (Nat × String)
  deriving DecidableEq, Repr

/-- Nothing fails. -/
def Answers.good : Answers :=
  { createDirAll := .ok (), toOpenssh := .ok (), openFile := .ok (), writeFails := none }

/-- Files by path; `none` where there is none. -/
abbrev Files := List UInt8 → Option (List UInt8)

/-- `PathBuf::push` of a relative component. -/
def pathPush (path component : List UInt8) : List UInt8 :=
  if path = [] ∨ path.getLast? = some 0x2f then path ++ component else path ++ 0x2f :: component

/-- The bytes of a text of ASCII characters. -/
def asciiBytes (s : String) : List UInt8 := s.toList.map fun c => c.toNat.toUInt8

/-- Where the entries of the known hosts are kept. -/
def knownHostsPath (home : List UInt8) : List UInt8 :=
  pathPush (pathPush home (asciiBytes ".ssh")) (asciiBytes "known_hosts")

/-- The decimal digits of a port. -/
def decimal (port : UInt16) : List UInt8 :=
  (Nat.toDigits 10 port.toNat).map fun c => c.toNat.toUInt8

/-- `host`, or `[host]:port` where the port is not 22. -/
def hostField (host : List UInt8) (port : UInt16) : List UInt8 :=
  if port = 22 then host else asciiBytes "[" ++ host ++ asciiBytes "]:" ++ decimal port

/-- The line of an entry, without its newline. -/
def entryLine (host : List UInt8) (port : UInt16) (key : OpensshKey) : List UInt8 :=
  hostField host port ++ asciiBytes " " ++ key.text

/-- `learn_known_hosts`: each step that fails ends it with an error. -/
def learnKnownHosts (env : Environment) (answers : Answers) (files : Files) (host : List UInt8)
    (port : UInt16) (key : OpensshKey) : Except String Unit × Files :=
  match env.homeDir with
  | none => (.error "no home directory", files)
  | some home =>
    match answers.createDirAll, answers.toOpenssh, answers.openFile with
    | .error e, _, _ => (.error e, files)
    | .ok (), .error e, _ => (.error e, files)
    | .ok (), .ok (), .error e => (.error e, files)
    | .ok (), .ok (), .ok () =>
      let path := knownHostsPath home
      -- Opened with `append`, and created where it is missing.
      let content := (files path).getD []
      let line := entryLine host port key ++ [newline]
      match answers.writeFails with
      | some (written, e) =>
        (.error e, Function.update files path (some (content ++ line.take written)))
      | none => (.ok (), Function.update files path (some (content ++ line)))

/-! ## §2. What is in the file. -/

/-- The content of `known_hosts`; a missing file has none. -/
def knownHosts (env : Environment) (files : Files) : List UInt8 :=
  match env.homeDir with
  | some home => (files (knownHostsPath home)).getD []
  | none => []

/-- **What a learn that succeeds has written**: the line of the entry and a newline, behind
everything that was there. -/
theorem learnKnownHosts_ok {env : Environment} {answers : Answers} {files : Files}
    {host : List UInt8} {port : UInt16} {key : OpensshKey}
    (h : (learnKnownHosts env answers files host port key).1 = .ok ()) :
    knownHosts env (learnKnownHosts env answers files host port key).2
      = knownHosts env files ++ (entryLine host port key ++ [newline]) := by
  unfold learnKnownHosts at h ⊢
  unfold knownHosts
  cases hhome : env.homeDir with
  | none => simp [hhome] at h
  | some home =>
    simp only [hhome] at h ⊢
    split at h
    · cases h
    · cases h
    · cases h
    · split at h
      · cases h
      · simp only [Function.update_self, Option.getD_some]

/-- A learn touches no other file, however it ends. -/
theorem learnKnownHosts_other (env : Environment) (answers : Answers) (files : Files)
    (host : List UInt8) (port : UInt16) (key : OpensshKey) {path : List UInt8}
    (hpath : ∀ home, env.homeDir = some home → path ≠ knownHostsPath home) :
    (learnKnownHosts env answers files host port key).2 path = files path := by
  unfold learnKnownHosts
  cases hhome : env.homeDir with
  | none => rfl
  | some home =>
    have hne := hpath home hhome
    simp only
    split
    · rfl
    · rfl
    · rfl
    · split
      · exact Function.update_of_ne hne _ _
      · exact Function.update_of_ne hne _ _

/-! ## §3. Learns, one after another. -/

/-- One call of `learn_known_hosts`. -/
structure Learn where
  answers : Answers
  host : List UInt8
  port : UInt16
  key : OpensshKey

/-- The line that is written for it. -/
def Learn.line (l : Learn) : List UInt8 := entryLine l.host l.port l.key

/-- Learns one after another, as long as each succeeds. -/
def learnAll (env : Environment) : Files → List Learn → Option Files
  | files, [] => some files
  | files, l :: ls =>
    match learnKnownHosts env l.answers files l.host l.port l.key with
    | (.ok (), files') => learnAll env files' ls
    | (.error _, _) => none

/-- Each entry is appended with its newline. -/
theorem learnAll_content {env : Environment} (ls : List Learn) : ∀ {files files' : Files},
    learnAll env files ls = some files' →
      knownHosts env files'
        = knownHosts env files ++ (ls.map Learn.line).flatMap (· ++ [newline]) := by
  induction ls with
  | nil =>
    intro files files' h
    rw [learnAll, Option.some.injEq] at h
    simp [h]
  | cons l ls ih =>
    intro files files' h
    rw [learnAll] at h
    split at h
    · next files₁ hlearn =>
      have hfirst : (learnKnownHosts env l.answers files l.host l.port l.key).1 = .ok () := by
        rw [hlearn]
      have hok := learnKnownHosts_ok hfirst
      rw [hlearn] at hok
      rw [ih h, hok, List.map_cons, List.flatMap_cons, List.append_assoc]
      rfl
    · cases h

/-- The new lines stand behind the old ones, which are as they were: whatever a reader makes of
a line, it finds its entries and the new ones. -/
structure Appended (before after : List UInt8) (new : List (List UInt8)) : Prop where
  behind : lines newline after = lines newline before ++ new
  entries : ∀ {E : Type} (read : List UInt8 → Option E),
    (lines newline after).filterMap read
      = (lines newline before).filterMap read ++ new.filterMap read
  found : ∀ l ∈ new, l ∈ lines newline after

/-- Lines that are appended are behind the others. -/
theorem Appended.of_lines {before after : List UInt8} {new : List (List UInt8)}
    (h : lines newline after = lines newline before ++ new) : Appended before after new where
  behind := h
  entries := by
    intro E read
    rw [h, List.filterMap_append]
  found := by
    intro l hl
    rw [h]
    exact List.mem_append_right _ hl

/-- A port has no newline. -/
theorem newline_not_mem_decimal (port : UInt16) : newline ∉ decimal port := by
  intro hin
  obtain ⟨c, hc, heq⟩ := List.mem_map.mp hin
  have hdigit := Nat.isDigit_of_mem_toDigits (by decide) (by decide) hc
  unfold Char.isDigit at hdigit
  rw [Bool.and_eq_true, decide_eq_true_eq, decide_eq_true_eq] at hdigit
  have hlow : 48 ≤ c.toNat := hdigit.1
  have hhigh : c.toNat ≤ 57 := hdigit.2
  have hbyte : c.toNat % 256 = 10 := congrArg UInt8.toNat heq
  omega

/-- A learned line is one line exactly if the host has no newline. -/
theorem newline_mem_entryLine (host : List UInt8) (port : UInt16) (key : OpensshKey) :
    newline ∈ entryLine host port key ↔ newline ∈ host := by
  have hkey := key.oneLine
  have hport := newline_not_mem_decimal port
  have hspace : newline ∉ asciiBytes " " := by decide
  have hopen : newline ∉ asciiBytes "[" := by decide
  have hclose : newline ∉ asciiBytes "]:" := by decide
  unfold entryLine hostField
  split <;> simp only [List.mem_append, hkey, hport, hspace, hopen, hclose, or_false, false_or]

/-! ## §4. When learns leave the other lines alone. -/

/-- An entry, as an editor may leave it at the end of the file. -/
def editedFile : List UInt8 := asciiBytes "alpha ssh-ed25519 AAAA"

/-- A key to try things with. -/
def someKey : OpensshKey := { text := asciiBytes "ssh-ed25519 BBBB", oneLine := by decide }

/-- An environment with a home directory. -/
def someEnv : Environment := { userProfile := none, home := some (asciiBytes "/home/u") }

/-- The file holds the content, and there is no other. -/
def onlyKnownHosts (content : List UInt8) : Files :=
  fun path => if path = asciiBytes "/home/u/.ssh/known_hosts" then some content else none

/-- The accepted key of `beta` is glued to the entry of `alpha`. -/
theorem learn_glues :
    ∃ files', learnAll someEnv (onlyKnownHosts editedFile)
        [{ answers := .good, host := asciiBytes "beta", port := 22, key := someKey }]
          = some files' ∧
      lines newline (knownHosts someEnv (onlyKnownHosts editedFile))
        = [asciiBytes "alpha ssh-ed25519 AAAA"] ∧
      lines newline (knownHosts someEnv files')
        = [asciiBytes "alpha ssh-ed25519 AAAAbeta ssh-ed25519 BBBB"] ∧
      ¬ Appended (knownHosts someEnv (onlyKnownHosts editedFile)) (knownHosts someEnv files')
        [asciiBytes "beta ssh-ed25519 BBBB"] := by
  obtain ⟨files', hrun⟩ : ∃ files', learnAll someEnv (onlyKnownHosts editedFile)
      [{ answers := .good, host := asciiBytes "beta", port := 22, key := someKey }]
        = some files' := Option.isSome_iff_exists.mp (by decide)
  have hcontent := learnAll_content _ hrun
  have hbefore : knownHosts someEnv (onlyKnownHosts editedFile) = editedFile := by decide
  rw [hbefore] at hcontent
  have hafter : lines newline (knownHosts someEnv files')
      = [asciiBytes "alpha ssh-ed25519 AAAAbeta ssh-ed25519 BBBB"] := by
    rw [hcontent]
    decide
  refine ⟨files', hrun, by decide, hafter, fun h => ?_⟩
  have hlines := h.behind
  rw [hafter] at hlines
  revert hlines
  decide

/-- **When learning adds one line each and damages none.**  After any number of learns that all
succeed, the lines of the file are the old ones followed by the learned ones, exactly if nothing
was learned, or the old content was empty or ended with a newline and no host contains one. -/
theorem learns_append_lines_iff {env : Environment} {files files' : Files} {ls : List Learn}
    (hrun : learnAll env files ls = some files') :
    Appended (knownHosts env files) (knownHosts env files') (ls.map Learn.line) ↔
      ls = [] ∨ (Ended newline (knownHosts env files) ∧ ∀ l ∈ ls, newline ∉ l.host) := by
  rw [learnAll_content ls hrun]
  constructor
  · intro h
    by_cases hnone : ls = []
    · exact .inl hnone
    · right
      have hone : ∀ l ∈ ls, newline ∉ l.line := fun l hl =>
        not_mem_of_mem_lines l.line (h.found l.line (List.mem_map_of_mem hl))
      have hhosts : ∀ l ∈ ls, newline ∉ l.host := fun l hl hin =>
        hone l hl ((newline_mem_entryLine l.host l.port l.key).mpr hin)
      have hlines := h.behind
      have hnew : lines newline ((ls.map Learn.line).flatMap (· ++ [newline]))
          = ls.map Learn.line := lines_flatMap (List.forall_mem_map.mpr hone)
      -- the learned lines alone are read back, so only the old content can glue
      nth_rewrite 2 [← hnew] at hlines
      rcases lines_append_iff.mp hlines with hended | hempty
      · exact ⟨hended, hhosts⟩
      · rw [hempty] at hnew
        exact absurd (List.map_eq_nil_iff.mp hnew.symm) hnone
  · rintro (rfl | ⟨hended, hhosts⟩)
    · exact .of_lines (by simp)
    · have hone : ∀ l ∈ ls, newline ∉ l.line := fun l hl hin =>
        hhosts l hl ((newline_mem_entryLine l.host l.port l.key).mp hin)
      refine .of_lines ?_
      rw [lines_append hended, lines_flatMap (List.forall_mem_map.mpr hone)]

/-- Two hosts learned into a file that ends with a newline. -/
theorem learns_append_lines_two :
    ∃ files', learnAll someEnv (onlyKnownHosts (editedFile ++ [newline]))
        [{ answers := .good, host := asciiBytes "beta", port := 22, key := someKey },
          { answers := .good, host := asciiBytes "gamma", port := 2222, key := someKey }]
          = some files' ∧
      Appended (knownHosts someEnv (onlyKnownHosts (editedFile ++ [newline])))
        (knownHosts someEnv files')
        [asciiBytes "beta ssh-ed25519 BBBB", asciiBytes "[gamma]:2222 ssh-ed25519 BBBB"] := by
  obtain ⟨files', hrun⟩ : ∃ files', learnAll someEnv (onlyKnownHosts (editedFile ++ [newline]))
      [{ answers := .good, host := asciiBytes "beta", port := 22, key := someKey },
        { answers := .good, host := asciiBytes "gamma", port := 2222, key := someKey }]
          = some files' := Option.isSome_iff_exists.mp (by decide)
  refine ⟨files', hrun, (learns_append_lines_iff hrun).mpr (.inr ⟨by decide, ?_⟩)⟩
  intro l hl
  simp only [List.mem_cons, List.not_mem_nil, or_false] at hl
  rcases hl with rfl | rfl <;> decide

end ResearchSSH.Core
