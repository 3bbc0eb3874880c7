/-
  ResearchSSH.Core.IdentityTokens — the value of an `IdentityFile` line.

  Quotes around it are dropped and `~` is replaced by the home directory.  Then the tokens `%h`,
  `%n`, `%r` and `%p` are replaced, one kind after another and each in the whole text: a percent
  sign that came with the host or the user name is read again by the kinds that follow, and `%%`
  is no token at all.

  Paths are those of Unix, given by their bytes.

  Main results:
    * `expandedText_iff`      — when the tokens are replaced in one pass.
    * `expandedText_unmarked` — they are, where host and user name have no percent sign.
-/

import Mathlib.Data.List.DropRight
import ResearchSSH.Core.KnownHosts
import ResearchSSH.Core.TextDecoding
import ResearchSSH.Library.TokenText

namespace ResearchSSH.Core

open ResearchSSH.Library

/-! ## §1. The expansion. -/

/-- `trim_matches('"')`. -/
def trimQuotes (s : Text) : Text := (s.dropWhile (· = '\x22')).rdropWhile (· = '\x22')

/-- `PathBuf::join`: a component with a root replaces the path. -/
def pathJoin (path component : List UInt8) : List UInt8 :=
  if component.head? = some 0x2f then component else pathPush path component

/-- A leading `~` is the home directory, if there is one. -/
def expandTilde (env : Environment) (s : Text) : Text :=
  match env.homeDir with
  | none => s
  | some home =>
    if s = ['~'] then toStringLossy home
    else
      match s with
      | '~' :: '/' :: rest => toStringLossy (pathJoin home (utf8 rest))
      -- `~user` is not expanded
      | _ => s

/-- The port in decimal, as text. -/
def portText (port : UInt16) : Text := Nat.toDigits 10 port.toNat

/-- What is scanned for tokens. -/
def tokenSource (env : Environment) (raw : Text) : Text := expandTilde env (trimQuotes raw)

/-- The text that `expand_identity_file` makes a path of. -/
def expandedText (env : Environment) (raw host username : Text) (port : UInt16) : Text :=
  let value := tokenSource env raw
  -- Each kind is replaced in what the kinds before it have made of the value.
  let value := replacePair '%' 'h' host value
  let value := replacePair '%' 'n' host value
  let value := replacePair '%' 'r' username value
  replacePair '%' 'p' (portText port) value

/-- `expand_identity_file`: what is not absolute lies in the `.ssh` directory. -/
def expandIdentityFile (env : Environment) (raw : Text) (sshDir : List UInt8)
    (host username : Text) (port : UInt16) : List UInt8 :=
  let path := utf8 (expandedText env raw host username port)
  if path.head? = some 0x2f then path else pathJoin sshDir path

/-! ## §2. One pass. -/

/-- The letters of the tokens, in the order in which they are replaced. -/
def tokenLetters : List Char := ['h', 'n', 'r', 'p']

/-- What stands for `%h`, `%p` and `%r`. -/
def tokenValue (host username : Text) (port : UInt16) (k : Char) : Text :=
  if k = 'r' then username else if k = 'p' then portText port else host

/-- The value, scanned once from left to right. -/
def scannedOnce (env : Environment) (raw host username : Text) (port : UInt16) : Text :=
  onePass '%' tokenLetters (tokenValue host username port) (tokenSource env raw)

/-- The parts of the value, and what becomes of them once the tokens of `done` are replaced. -/
def partly (env : Environment) (raw host username : Text) (port : UInt16) (done : List Char) :
    List (Char × Bool) :=
  markedText '%' (tokenValue host username port) done (parts '%' tokenLetters (tokenSource env raw))

/-- Nothing is replaced but tokens of the value. -/
def OnlyTokens (env : Environment) (raw host username : Text) (port : UInt16) : Prop :=
  Clean '%' (tokenValue host username port) tokenLetters (partly env raw host username port [])

theorem expandedText_eq (env : Environment) (raw host username : Text) (port : UInt16) :
    expandedText env raw host username port
      = replaceEach '%' (tokenValue host username port) tokenLetters (tokenSource env raw) := rfl

theorem percent_not_mem_portText (port : UInt16) : '%' ∉ portText port := by
  intro hin
  have hdigit := Nat.isDigit_of_mem_toDigits (by decide) (by decide) hin
  exact absurd hdigit (by decide)

/-- A link-local address of an interface `ppp0`: its `%p` is taken for a token. -/
theorem not_one_pass_zone :
    expandedText { userProfile := none, home := none } "id_%h".toList "fe80::1%ppp0".toList
        "alice".toList 22 = "id_fe80::122pp0".toList ∧
      scannedOnce { userProfile := none, home := none } "id_%h".toList "fe80::1%ppp0".toList
        "alice".toList 22 = "id_fe80::1%ppp0".toList ∧
      expandedText { userProfile := none, home := none } "id_%h".toList "fe80::1%ppp0".toList
          "alice".toList 22
        ≠ scannedOnce { userProfile := none, home := none } "id_%h".toList "fe80::1%ppp0".toList
          "alice".toList 22 := by
  decide

/-- **When the tokens are replaced in one pass.**  The text is that of one scan, and nothing that
was put in is scanned again, exactly if the value has no `%%` and, for every letter in turn, no
percent sign has come to stand before it that is not the token's own. -/
theorem expandedText_iff (env : Environment) (raw host username : Text) (port : UInt16) :
    (expandedText env raw host username port = scannedOnce env raw host username port ∧
        OnlyTokens env raw host username port) ↔
      .escape ∉ parts '%' tokenLetters (tokenSource env raw) ∧
        ∀ before k after, tokenLetters = before ++ k :: after →
          ¬ Stray '%' k (partly env raw host username port before) := by
  rw [expandedText_eq]
  exact replaceEach_iff (by decide) (by decide) (tokenSource env raw)

/-- They are replaced in one pass where host and user name have no percent sign. -/
theorem expandedText_unmarked {env : Environment} {raw host username : Text} {port : UInt16}
    (hhost : '%' ∉ host) (husername : '%' ∉ username)
    (hescape : .escape ∉ parts '%' tokenLetters (tokenSource env raw)) :
    expandedText env raw host username port = scannedOnce env raw host username port := by
  rw [expandedText_eq]
  refine replaceEach_unmarked (by decide) (by decide) (fun k _ => ?_) hescape
  unfold tokenValue
  split
  · exact husername
  · split
    · exact percent_not_mem_portText port
    · exact hhost

end ResearchSSH.Core
