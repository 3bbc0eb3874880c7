/-
  ResearchSSH.App.ShellQuoting — what the remote shell makes of a name in a command line.

  A name is quoted first and then put into a template, and that template into another one.  `arg`
  reads a template once and never what it puts in, so the name stands in the command line as it
  was quoted; and a quoted text is one literal word for the shell, whatever it is.

  Main results:
    * `mutation_shape`          — a command line whose tokens do not depend on the name.
    * `fill_alike`              — what such command lines have in common.
    * `quoting_injection_proof` — all names, behind any text and in every package command.
-/

import ResearchSSH.App.PlaceMarkers
import ResearchSSH.App.RemoteCommands
import ResearchSSH.Library.ShellLexer

namespace ResearchSSH.App

open ResearchSSH.Library

/-! ## §1. The units of the shell. -/

/-- The operators of the POSIX shell; a newline is one of them. -/
def shellOperators : List QString :=
  [lit "\n", lit "&", lit "&&", lit "|", lit "||", lit ";", lit ";;", lit "<", lit "<<", lit "<<-",
    lit "<&", lit "<>", lit ">", lit ">>", lit ">&", lit ">|", lit "(", lit ")"]

/-- The shell's signs as code units. -/
def shellUnits : ShellUnits QChar where
  single := 0x27
  double := 0x22
  backslash := 0x5c
  newline := 0x0a
  escapable u := u = 0x24 || u = 0x60 || u = 0x22 || u = 0x5c
  blank u := u = 0x20 || u = 0x09
  operator signs := shellOperators.contains signs
  double_ne_single := by decide
  backslash_ne_single := by decide
  backslash_ne_double := by decide
  single_ne_newline := by decide

/-- It is the library's quoting, with these signs. -/
theorem shellQuote_eq (value : QString) : shellQuote value = quote shellUnits value := rfl

/-! ## §2. Tokens. -/

/-- The words that mean something to the shell where a command may begin. -/
def reservedWords : List QString :=
  [lit "!", lit "\x7b", lit "\x7d", lit "case", lit "do", lit "done", lit "elif", lit "else",
    lit "esac", lit "fi", lit "for", lit "if", lit "in", lit "then", lit "until", lit "while"]

/-- The signs of an operator. -/
def operatorOf : ShellToken QChar → Option QString
  | .operator signs => some signs
  | .word _ => none

/-- A control word has no quoted unit. -/
def controlWordOf : ShellToken QChar → Option QString
  | .operator _ => none
  | .word units =>
    if (∀ q ∈ units, q.2 = .plain) ∧ reservedWords.contains (units.map Prod.fst)
    then some (units.map Prod.fst) else none

/-- The token is a word. -/
def isWord : ShellToken QChar → Bool
  | .operator _ => false
  | .word _ => true

/-! ## §3. Package commands. -/

/-- What `packageMutationCommand` puts in front of the operation, up to the name. -/
def mutationStart (action : PackageAction) (manager : QString) : QString :=
  lit "printf '__RSSH_PKG_ACTION__ %s %s %s\\n' " ++ shellQuote (packageActionName action) ++ lit " "
    ++ shellQuote manager ++ lit " "

/-- What stands behind the operation in every script. -/
def mutationEnd : QString :=
  lit "; rc=$?; printf '__RSSH_PKG_ACTION_DONE__\\n'; exit $rc"

/-- The texts around the name, given those of the operation. -/
def mutationTexts (action : PackageAction) (manager : QString) : List QString → List QString
  | [before, after] =>
    [mutationStart action manager, lit "; " ++ before, after ++ mutationEnd]
  | _ => []

/-- The template of `packageMutationCommand`, with its arguments in place. -/
theorem mutationTemplate (action manager name operation : QString) :
    arg (lit ("printf '__RSSH_PKG_ACTION__ %s %s %s\\n' %1 %2 %3; %4; rc=$?; "
        ++ "printf '__RSSH_PKG_ACTION_DONE__\\n'; exit $rc")) [action, manager, name, operation]
      = lit "printf '__RSSH_PKG_ACTION__ %s %s %s\\n' " ++ (action ++ (lit " " ++ (manager ++
          (lit " " ++ (name ++ (lit "; " ++ (operation ++ mutationEnd))))))) := (rfl)

/-- A quoted text is not empty. -/
theorem shellQuote_ne_nil (value : QString) : shellQuote value ≠ [] := List.cons_ne_nil _ _

/-- The script around the quoted name. -/
theorem mutationCommand_eq {action : PackageAction} {manager name : QString} {texts : List QString}
    (htexts : mutationTexts action manager texts ≠ [])
    (h : packageOperation action manager name = (shellQuote name).intercalate texts) :
    packageMutationCommand action manager name
      = (shellQuote name).intercalate (mutationTexts action manager texts) := by
  obtain ⟨before, after, rfl⟩ : ∃ before after, texts = [before, after] := by
    obtain _ | ⟨before, _ | ⟨after, _ | ⟨more, rest⟩⟩⟩ := texts
    · exact absurd rfl htexts
    · exact absurd rfl htexts
    · exact ⟨before, after, rfl⟩
    · exact absurd rfl htexts
  have hne : packageOperation action manager name ≠ [] := by
    rw [h, List.intercalate_cons_cons, List.append_assoc]
    exact List.append_ne_nil_of_right_ne_nil _
      (List.append_ne_nil_of_left_ne_nil (shellQuote_ne_nil name) _)
  unfold packageMutationCommand
  dsimp only
  rw [if_neg hne, mutationTemplate, h]
  simp only [mutationTexts, mutationStart, List.intercalate_cons_cons, List.intercalate_singleton,
    List.append_assoc]

/-- The slots are words of their own, and there are two. -/
def twoNames (shape : List (Slot QChar)) : Bool :=
  shape.count (.hole []) = 2 && shape.all fun
    | .hole before => before = []
    | .fixed _ => true

/-- The tokens of a package command do not depend on the name, which is a literal word twice. -/
def LiteralName (action : PackageAction) (manager : QString) : Prop :=
  ∃ shape : List (Slot QChar), twoNames shape = true ∧
    ∀ name, tokens shellUnits (packageMutationCommand action manager name)
      = some (shape.map (Slot.fill name))

/-- The texts around the name are separated from it, and the name is a word of its own twice. -/
def namesApart (action : PackageAction) (manager : QString) (texts : List QString) : Bool :=
  separated shellUnits (mutationTexts action manager texts)
    && twoNames (slots shellUnits (mutationTexts action manager texts))

/-- Where the names of the manager stand apart, the package's name is literal. -/
theorem LiteralName.of_namesApart {action : PackageAction} {manager text : QString}
    {args : List QString} {i : Nat} (hi : i < args.length)
    (hoperation : ∀ name, packageOperation action manager name
      = arg text (args.set i (shellQuote name)))
    (hcheck : namesApart action manager (argSegments text args i) = true) :
    LiteralName action manager := by
  rw [namesApart, Bool.and_eq_true] at hcheck
  obtain ⟨hseparated, hnames⟩ := hcheck
  -- The check does not hold of no texts.
  have hne : mutationTexts action manager (argSegments text args i) ≠ [] := by
    intro hnil
    rw [hnil] at hseparated
    cases hseparated
  refine ⟨_, hnames, fun name => ?_⟩
  rw [mutationCommand_eq hne ((hoperation name).trans (arg_set text hi _)), shellQuote_eq]
  exact tokens_intercalate shellUnits hseparated name

/-- **A command line whose tokens do not depend on the name**: the operation is a template with
the name as one argument, and the texts around it are separated from it. -/
theorem mutation_shape {manager : QString} (text : PackageAction → QString)
    (args : PackageAction → List QString) (i : Nat) (hi : ∀ action, i < (args action).length)
    (hoperation : ∀ action name, packageOperation action manager name
      = arg (text action) ((args action).set i (shellQuote name)))
    (hcheck : (namesApart .install manager (argSegments (text .install) (args .install) i)
      && namesApart .update manager (argSegments (text .update) (args .update) i)
      && namesApart .remove manager (argSegments (text .remove) (args .remove) i)) = true)
    (action : PackageAction) : LiteralName action manager := by
  rw [Bool.and_eq_true, Bool.and_eq_true] at hcheck
  obtain ⟨⟨hinstall, hupdate⟩, hremove⟩ := hcheck
  refine .of_namesApart (hi action) (hoperation action) ?_
  cases action with
  | install => exact hinstall
  | update => exact hupdate
  | remove => exact hremove

/-! ## §4. The managers. -/

/-- The text for a removal, and the one for the other actions. -/
def byRemoval (removal other : QString) : PackageAction → QString
  | .remove => removal
  | _ => other

/-- `pip` and `pip3`. -/
theorem literalName_pip {manager : QString} (h : isPipManager manager = true)
    (action : PackageAction) : LiteralName action manager := by
  obtain rfl | rfl : manager = lit "pip" ∨ manager = lit "pip3" := by
    simpa [isPipManager] using h
  -- The templates are read off `packageOperation`; what is left is a check of fixed texts.
  all_goals
    refine mutation_shape (byRemoval _ _) (fun _ => [[]]) 0 (fun _ => Nat.one_pos)
      (fun action name => by
        unfold packageOperation
        rw [if_pos h]
        cases action <;> exact congrArg (arg _) rfl) ?_ action
    decide +kernel

/-- `uv`. -/
theorem literalName_uv (action : PackageAction) : LiteralName action (lit "uv") := by
  refine mutation_shape (byRemoval _ _) (fun _ => [[]]) 0 (fun _ => Nat.one_pos)
    (fun action name => by
      unfold packageOperation
      rw [if_neg (by decide), if_pos rfl]
      cases action <;> exact congrArg (arg _) rfl) ?_ action
  decide +kernel

/-- `conda` and `mamba`. -/
theorem literalName_conda {manager : QString} (h : isCondaManager manager = true)
    (action : PackageAction) : LiteralName action manager := by
  obtain rfl | rfl : manager = lit "conda" ∨ manager = lit "mamba" := by
    simpa [isCondaManager] using h
  all_goals
    refine mutation_shape (fun _ => _) (fun _ => [_, _, []]) 2 (fun _ => Nat.lt_succ_self 2)
      (fun action name => by
        unfold packageOperation
        rw [if_neg (by decide), if_neg (by decide), if_pos h]
        exact congrArg (arg _) rfl) ?_ action
    decide +kernel

/-- The package managers of the system. -/
theorem literalName_system {manager : QString} (h : isSystemPackageManager manager = true)
    (action : PackageAction) : LiteralName action manager := by
  obtain rfl | rfl | rfl | rfl | rfl : manager = lit "apt" ∨ manager = lit "dnf" ∨
      manager = lit "yum" ∨ manager = lit "pacman" ∨ manager = lit "zypper" := by
    simpa [isSystemPackageManager, or_assoc] using h
  · refine mutation_shape (fun _ => _) (fun _ => [_, []]) 1 (fun _ => Nat.lt_succ_self 1)
      (fun action name => by
        unfold packageOperation
        rw [if_neg (by decide), if_neg (by decide), if_neg (by decide), if_pos rfl]
        exact congrArg (arg _) rfl) ?_ action
    decide +kernel
  iterate 2
    · refine mutation_shape (fun _ => _) (fun _ => [_, _, []]) 2 (fun _ => Nat.lt_succ_self 2)
        (fun action name => by
          unfold packageOperation
          rw [if_neg (by decide), if_neg (by decide), if_neg (by decide), if_neg (by decide),
            if_pos (by decide)]
          exact congrArg (arg _) rfl) ?_ action
      decide +kernel
  · refine mutation_shape (fun _ => _) (fun _ => [_, []]) 1 (fun _ => Nat.lt_succ_self 1)
      (fun action name => by
        unfold packageOperation
        rw [if_neg (by decide), if_neg (by decide), if_neg (by decide), if_neg (by decide),
          if_neg (by decide), if_pos rfl]
        exact congrArg (arg _) rfl) ?_ action
    decide +kernel
  · refine mutation_shape (fun _ => _) (fun _ => [_, []]) 1 (fun _ => Nat.lt_succ_self 1)
      (fun action name => by
        unfold packageOperation
        rw [if_neg (by decide), if_neg (by decide), if_neg (by decide), if_neg (by decide),
          if_neg (by decide), if_neg (by decide), if_pos rfl]
        exact congrArg (arg _) rfl) ?_ action
    decide +kernel

/-- `npm`. -/
theorem literalName_npm {manager : QString} (h : isNpmManager manager = true)
    (action : PackageAction) : LiteralName action manager := by
  obtain rfl : manager = lit "npm" := of_decide_eq_true h
  refine mutation_shape (fun _ => _) (fun _ => [_, []]) 1 (fun _ => Nat.lt_succ_self 1)
    (fun action name => by
      unfold packageOperation
      rw [if_neg (by decide), if_neg (by decide), if_neg (by decide), if_neg (by decide),
        if_neg (by decide), if_neg (by decide), if_neg (by decide), if_pos rfl]
      exact congrArg (arg _) rfl) ?_ action
  decide +kernel

/-! ## §5. All names. -/

/-- The managers that the interface offers for an action. -/
def supports : PackageAction → QString → Bool
  | .install, manager => canInstallPackageManager manager
  | .update, manager => canUpdatePackageManager manager
  | .remove, manager => canRemovePackageManager manager

/-- Every manager that is supported. -/
theorem literalName_supported {action : PackageAction} {manager : QString}
    (h : supports action manager = true) : LiteralName action manager := by
  have hmanager : isPipManager manager = true ∨ manager = lit "uv" ∨
      isCondaManager manager = true ∨ isSystemPackageManager manager = true ∨
      isNpmManager manager = true := by
    cases action <;>
      simpa [supports, canInstallPackageManager, canUpdatePackageManager,
        canRemovePackageManager, or_assoc] using h
  obtain hpip | rfl | hconda | hsystem | hnpm := hmanager
  · exact literalName_pip hpip action
  · exact literalName_uv action
  · exact literalName_conda hconda action
  · exact literalName_system hsystem action
  · exact literalName_npm hnpm action

/-- A literal word is no control word, not even an empty one. -/
theorem controlWordOf_literally (v : QString) :
    controlWordOf (.word (literally v)) = none := by
  refine if_neg ?_
  rintro ⟨hplain, hreserved⟩
  cases v with
  | nil =>
    revert hreserved
    decide
  | cons u v => exact absurd (hplain (u, .literal) List.mem_cons_self) nofun

/-- Two command lines that differ in a name only have the same operators and control words, and
equally many words. -/
theorem fill_alike {shape : List (Slot QChar)} (h : twoNames shape = true) (name name' : QString) :
    (shape.map (Slot.fill name)).filterMap operatorOf
      = (shape.map (Slot.fill name')).filterMap operatorOf ∧
    (shape.map (Slot.fill name)).filterMap controlWordOf
      = (shape.map (Slot.fill name')).filterMap controlWordOf ∧
    (shape.map (Slot.fill name)).countP isWord = (shape.map (Slot.fill name')).countP isWord := by
  rw [twoNames, Bool.and_eq_true, List.all_eq_true] at h
  -- a slot is a fixed token or the name alone, whose units are all literal
  have hslot : ∀ slot ∈ shape, (∃ t, slot = .fixed t) ∨ slot = .hole [] := by
    intro slot hslot
    cases slot with
    | fixed t => exact .inl ⟨t, rfl⟩
    | hole before => exact .inr (congrArg Slot.hole (of_decide_eq_true (h.2 _ hslot)))
  rw [List.filterMap_map, List.filterMap_map, List.filterMap_map, List.filterMap_map,
    List.countP_map, List.countP_map]
  refine ⟨List.filterMap_congr fun slot hmem => ?_, List.filterMap_congr fun slot hmem => ?_,
    List.countP_congr fun slot hmem => ?_⟩
  · obtain ⟨t, rfl⟩ | rfl := hslot slot hmem <;> rfl
  · obtain ⟨t, rfl⟩ | rfl := hslot slot hmem
    · rfl
    · exact (controlWordOf_literally name).trans (controlWordOf_literally name').symm
  · obtain ⟨t, rfl⟩ | rfl := hslot slot hmem <;> rfl

/-- **Quoting cannot be broken out of.**  Behind any text that leaves the shell outside of
quotations a quoted value is read as its units, all literal; and the tokens of a package command
are the same for all names, but for the two literal words that are the name. -/
theorem quoting_injection_proof :
    (∀ before value : QString, (lex shellUnits before).mode = .outside →
      lex shellUnits (before ++ shellQuote value)
        = { mode := .outside, draft := (lex shellUnits before).draft.put (literally value) }) ∧
    ∀ action manager, supports action manager = true → LiteralName action manager ∧
      ∀ name name' : QString, ∃ ts ts',
        tokens shellUnits (packageMutationCommand action manager name) = some ts ∧
        tokens shellUnits (packageMutationCommand action manager name') = some ts' ∧
        ts.filterMap operatorOf = ts'.filterMap operatorOf ∧
        ts.filterMap controlWordOf = ts'.filterMap controlWordOf ∧
        ts.countP isWord = ts'.countP isWord := by
  refine ⟨fun before value houtside => ?_, fun action manager hsupports => ?_⟩
  · rw [lex, lexFrom_append, shellQuote_eq]
    exact lex_quote shellUnits houtside value
  · have hliteral := literalName_supported hsupports
    obtain ⟨shape, hnames, htokens⟩ := literalName_supported hsupports
    refine ⟨hliteral, fun name name' => ⟨_, _, htokens name, htokens name', ?_⟩⟩
    exact fill_alike hnames name name'

end ResearchSSH.App
