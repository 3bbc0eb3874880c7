/-
  ResearchSSH.Library.ShellLexer — the quoting rules of the POSIX shell.

  A command line is read unit by unit.  Outside of quotes blanks end words, operators are tokens
  of their own, and a backslash quotes the next unit; single quotes quote everything up to the
  next one; double quotes leave the backslash its meaning before a few units.  Words keep for
  every unit how it is quoted.  Comments and expansions are no part of the quoting rules.

  Main results:
    * `lex_quote`          — a quoted text is read as its units, whatever they are.
    * `tokens_intercalate` — a quoted text between others is a word of its own.
-/

import Mathlib.Data.List.Basic

namespace ResearchSSH.Library

variable {α : Type*}

/-! ## §1. Tokens. -/

/-- The units that mean something to the shell. -/
structure ShellUnits (α : Type*) where
  single : α
  double : α
  backslash : α
  newline : α
  /-- The units before which a backslash in double quotes keeps its meaning. -/
  escapable : α → Bool
  blank : α → Bool
  operator : List α → Bool
  double_ne_single : double ≠ single
  backslash_ne_single : backslash ≠ single
  backslash_ne_double : backslash ≠ double
  single_ne_newline : single ≠ newline

/-- How a unit of a word is quoted. -/
inductive Quoting
  | plain
  | inDouble
  /-- In single quotes, or behind a backslash: the unit stands for itself. -/
  | literal
  deriving DecidableEq, Repr

/-- A word, each of its characters with its quoting, or an operator. -/
inductive ShellToken (α : Type*)
  | word (units : List (α × Quoting))
  | operator (signs : List α)
  deriving DecidableEq, Repr

/-- What the lexer is inside of. -/
inductive ShellMode
  | outside
  | escaped
  | single
  | double
  | doubleEscaped
  deriving DecidableEq, Repr

/-- The tokens that are done, and the one that is being read. -/
structure Draft (α : Type*) where
  done : List (ShellToken α)
  current : Option (ShellToken α)
  deriving DecidableEq, Repr

namespace Draft

/-- No token is finished and none begun. -/
def empty : Draft α := { done := [], current := none }

/-- The current token is done. -/
def settle (d : Draft α) : Draft α := { done := d.done ++ d.current.toList, current := none }

/-- Units are put at the end of the current word; there is one from now on. -/
def put (d : Draft α) (units : List (α × Quoting)) : Draft α :=
  match d.current with
  | some (.word w) => { d with current := some (.word (w ++ units)) }
  | _ => { d.settle with current := some (.word units) }

/-- A sign belongs to the current operator if the two make an operator. -/
def sign (operator : List α → Bool) (d : Draft α) (u : α) : Draft α :=
  match d.current with
  | some (.operator signs) =>
    -- An operator is as long as it can be.
    if operator (signs ++ [u]) then { d with current := some (.operator (signs ++ [u])) }
    else { d.settle with current := some (.operator [u]) }
  | _ => { d.settle with current := some (.operator [u]) }

@[simp] theorem put_put (d : Draft α) (l m : List (α × Quoting)) :
    (d.put l).put m = d.put (l ++ m) := by
  obtain ⟨done, current⟩ := d
  obtain _ | ⟨w⟩ | signs := current
  · rfl
  · simp only [put, List.append_assoc]
  · rfl

/-- Tokens that were done before. -/
def behind (done : List (ShellToken α)) (d : Draft α) : Draft α := { d with done := done ++ d.done }

theorem settle_behind (done : List (ShellToken α)) (d : Draft α) :
    (d.behind done).settle = d.settle.behind done := by
  simp only [settle, behind, List.append_assoc]

theorem put_behind (done : List (ShellToken α)) (d : Draft α) (units : List (α × Quoting)) :
    (d.behind done).put units = (d.put units).behind done := by
  obtain ⟨before, current⟩ := d
  obtain _ | ⟨w⟩ | signs := current
  · simp [put, settle, behind]
  · rfl
  · simp [put, settle, behind]

theorem sign_behind (operator : List α → Bool) (done : List (ShellToken α)) (d : Draft α) (u : α) :
    (d.behind done).sign operator u = (d.sign operator u).behind done := by
  obtain ⟨before, current⟩ := d
  obtain _ | ⟨w⟩ | signs := current
  · simp [sign, settle, behind]
  · simp [sign, settle, behind]
  · by_cases hlonger : operator (signs ++ [u])
    · simp [sign, behind, hlonger]
    · simp [sign, settle, behind, hlonger]

end Draft

/-! ## §2. Tokens around a text. -/

/-- Units that stand for themselves. -/
def literally (v : List α) : List (α × Quoting) := v.map (·, .literal)

/-- A token, or the word that ends with the quoted text. -/
inductive Slot (α : Type*)
  | fixed (t : ShellToken α)
  | hole (before : List (α × Quoting))
  deriving DecidableEq, Repr

/-- The token that a slot becomes with the text in its place. -/
def Slot.fill (v : List α) : Slot α → ShellToken α
  | .fixed t => t
  | .hole before => .word (before ++ literally v)

/-- The slots of a text with a quoted one behind it. -/
def Draft.slots (d : Draft α) : List (Slot α) :=
  match d.current with
  | some (.word w) => d.done.map .fixed ++ [.hole w]
  | _ => d.settle.done.map .fixed ++ [.hole []]

@[simp] theorem map_fixed (v : List α) (l : List (ShellToken α)) :
    (l.map Slot.fixed).map (Slot.fill v) = l := by
  rw [List.map_map]
  exact List.map_id' l

/-- A quoted text fills the slot. -/
theorem put_slots (d : Draft α) (v : List α) : ∃ done w,
    d.put (literally v) = { done := done, current := some (.word w) } ∧
      d.slots.map (Slot.fill v) = done ++ [.word w] := by
  obtain ⟨before, current⟩ := d
  obtain _ | ⟨w⟩ | signs := current
  · refine ⟨before ++ [], literally v, rfl, ?_⟩
    simp only [Draft.slots, Draft.settle, List.map_append, map_fixed]
    rfl
  · refine ⟨before, w ++ literally v, rfl, ?_⟩
    simp only [Draft.slots, List.map_append, map_fixed]
    rfl
  · refine ⟨before ++ [.operator signs], literally v, rfl, ?_⟩
    simp only [Draft.slots, Draft.settle, List.map_append, map_fixed]
    rfl

/-! ## §3. The lexer. -/

/-- The state of the lexer between two characters. -/
structure Lexing (α : Type*) where
  mode : ShellMode
  draft : Draft α
  deriving DecidableEq, Repr

/-- The state before the first character. -/
def Lexing.start : Lexing α := { mode := .outside, draft := .empty }

variable [DecidableEq α] (A : ShellUnits α)

/-- One unit. -/
def lexUnit (s : Lexing α) (u : α) : Lexing α :=
  match s.mode with
  | .outside =>
    -- A quote opens a word, even if nothing is in it.
    if u = A.single then { mode := .single, draft := s.draft.put [] }
    else if u = A.double then { mode := .double, draft := s.draft.put [] }
    else if u = A.backslash then { s with mode := .escaped }
    else if A.blank u then { s with draft := s.draft.settle }
    else if A.operator [u] then { s with draft := s.draft.sign A.operator u }
    else { s with draft := s.draft.put [(u, .plain)] }
  | .escaped =>
    -- A backslash and a newline continue the line.
    if u = A.newline then { s with mode := .outside }
    else { mode := .outside, draft := s.draft.put [(u, .literal)] }
  | .single =>
    if u = A.single then { s with mode := .outside }
    else { s with draft := s.draft.put [(u, .literal)] }
  | .double =>
    if u = A.double then { s with mode := .outside }
    else if u = A.backslash then { s with mode := .doubleEscaped }
    else { s with draft := s.draft.put [(u, .inDouble)] }
  | .doubleEscaped =>
    if u = A.newline then { s with mode := .double }
    else if A.escapable u then { mode := .double, draft := s.draft.put [(u, .literal)] }
    -- Before any other unit the backslash stands for itself.
    else { mode := .double, draft := s.draft.put [(A.backslash, .literal), (u, .inDouble)] }

/-- The lexer over a text, from any state. -/
def lexFrom (s : Lexing α) (text : List α) : Lexing α := text.foldl (lexUnit A) s

/-- The lexer over a text. -/
def lex (text : List α) : Lexing α := lexFrom A .start text

/-- The tokens of a text; `none` if it ends in a quotation. -/
def tokens (text : List α) : Option (List (ShellToken α)) :=
  if (lex A text).mode = .outside then some (lex A text).draft.settle.done else none

/-- A text is lexed in two parts. -/
theorem lexFrom_append (s : Lexing α) (l m : List α) :
    lexFrom A s (l ++ m) = lexFrom A (lexFrom A s l) m := List.foldl_append

/-! ## §4. Quoted texts. -/

/-- Single quotes around a text; each of its own leaves them for a moment. -/
def quote (v : List α) : List α :=
  [A.single] ++ (v.flatMap fun u =>
    if u = A.single then [A.single, A.backslash, A.single, A.single] else [u]) ++ [A.single]

/-- One unit of the text. -/
theorem lexFrom_quoted_unit (d : Draft α) (u : α) :
    lexFrom A { mode := .single, draft := d }
        (if u = A.single then [A.single, A.backslash, A.single, A.single] else [u])
      = { mode := .single, draft := d.put [(u, .literal)] } := by
  unfold lexFrom
  by_cases hu : u = A.single
  · subst hu
    rw [if_pos rfl]
    simp [lexUnit, A.backslash_ne_single, A.backslash_ne_double, A.single_ne_newline]
  · rw [if_neg hu]
    simp [lexUnit, hu]

/-- **A quoted text is read as its units, whatever they are**: they are literal, and the lexer is
outside again. -/
theorem lex_quote {s : Lexing α} (h : s.mode = .outside) (v : List α) :
    lexFrom A s (quote A v) = { mode := .outside, draft := s.draft.put (literally v) } := by
  -- Between the quotes, behind what has been read of the word already.
  have hinside : ∀ (v : List α) (l : List (α × Quoting)),
      lexFrom A { mode := .single, draft := s.draft.put l } (v.flatMap fun u =>
          if u = A.single then [A.single, A.backslash, A.single, A.single] else [u])
        = { mode := .single, draft := s.draft.put (l ++ literally v) } := by
    intro v
    induction v with
    | nil =>
      intro l
      rw [literally, List.map_nil, List.append_nil]
      rfl
    | cons u v ih =>
      intro l
      rw [List.flatMap_cons, lexFrom_append, lexFrom_quoted_unit, Draft.put_put, ih,
        List.append_assoc]
      rfl
  have hopen : lexFrom A s [A.single] = { mode := .single, draft := s.draft.put [] } := by
    show lexUnit A s A.single = _
    rw [lexUnit, h]
    exact if_pos rfl
  have hclose : ∀ d : Draft α, lexFrom A { mode := .single, draft := d } [A.single]
      = { mode := .outside, draft := d } := fun d => if_pos rfl
  rw [quote, lexFrom_append, lexFrom_append, hopen, hinside, hclose, List.nil_append]

/-! ## §5. Quoted texts between others. -/

/-- The same state with tokens in front of those it has finished. -/
def Lexing.behind (done : List (ShellToken α)) (s : Lexing α) : Lexing α :=
  { s with draft := s.draft.behind done }

/-- What is done already has no effect on what follows. -/
theorem lexUnit_behind (done : List (ShellToken α)) (s : Lexing α) (u : α) :
    lexUnit A (s.behind done) u = (lexUnit A s u).behind done := by
  obtain ⟨mode, d⟩ := s
  cases mode with
  | outside =>
    simp only [lexUnit, Lexing.behind, Draft.put_behind, Draft.settle_behind, Draft.sign_behind]
    split_ifs <;> rfl
  | escaped =>
    simp only [lexUnit, Lexing.behind, Draft.put_behind]
    split_ifs <;> rfl
  | single =>
    simp only [lexUnit, Lexing.behind, Draft.put_behind]
    split_ifs <;> rfl
  | double =>
    simp only [lexUnit, Lexing.behind, Draft.put_behind]
    split_ifs <;> rfl
  | doubleEscaped =>
    simp only [lexUnit, Lexing.behind, Draft.put_behind]
    split_ifs <;> rfl

/-- Tokens that are finished do not count. -/
theorem lexFrom_behind (done : List (ShellToken α)) (text : List α) :
    ∀ s : Lexing α, lexFrom A (s.behind done) text = (lexFrom A s text).behind done := by
  induction text with
  | nil => intro s; rfl
  | cons u text ih =>
    intro s
    show lexFrom A (lexUnit A (s.behind done) u) text = _
    rw [lexUnit_behind, ih]
    rfl

/-- The unit ends a word. -/
def delimits (u : α) : Bool :=
  u ≠ A.single && u ≠ A.double && u ≠ A.backslash && (A.blank u || A.operator [u])

/-- A unit that ends a word: what follows is read as from the start. -/
theorem lexFrom_delimits {u : α} (h : delimits A u = true) (done : List (ShellToken α))
    (w : List (α × Quoting)) (rest : List α) :
    lexFrom A { mode := .outside, draft := { done := done, current := some (.word w) } } (u :: rest)
      = (lex A (u :: rest)).behind (done ++ [.word w]) := by
  have hunit : lexUnit A { mode := .outside, draft := { done := done, current := some (.word w) } } u
      = (lexUnit A .start u).behind (done ++ [.word w]) := by
    simp only [delimits, Bool.and_eq_true, decide_eq_true_eq] at h
    obtain ⟨⟨⟨hsingle, hdouble⟩, hbackslash⟩, hends⟩ := h
    unfold lexUnit Lexing.start
    dsimp only
    simp only [if_neg hsingle, if_neg hdouble, if_neg hbackslash]
    -- A blank ends the word, and an operator ends it and is the next token.
    by_cases hblank : A.blank u = true
    · rw [if_pos hblank, if_pos hblank]
      simp [Lexing.behind, Draft.behind, Draft.settle, Draft.empty]
    · have hoperator : A.operator [u] = true := by simpa [hblank] using hends
      rw [if_neg hblank, if_neg hblank, if_pos hoperator, if_pos hoperator]
      simp [Lexing.behind, Draft.behind, Draft.sign, Draft.settle, Draft.empty]
  show lexFrom A (lexUnit A _ u) rest = (lexFrom A (lexUnit A .start u) rest).behind _
  rw [hunit, lexFrom_behind]

/-- The texts end outside of quotations, and those behind a quoted one begin with a unit that ends
a word. -/
def separated : List (List α) → Bool
  | [] => false
  | [text] => (lex A text).mode = .outside
  | text :: next :: texts =>
    (lex A text).mode = .outside && next.head?.any (delimits A) && separated (next :: texts)

/-- The slots of texts with a quoted one between any two. -/
def slots : List (List α) → List (Slot α)
  | [] => []
  | [text] => (lex A text).draft.settle.done.map .fixed
  | text :: next :: texts => (lex A text).draft.slots ++ slots (next :: texts)

/-- **A quoted text between others is a word of its own**, or the end of one. -/
theorem tokens_intercalate {texts : List (List α)} (h : separated A texts = true) (v : List α) :
    tokens A ((quote A v).intercalate texts) = some ((slots A texts).map (Slot.fill v)) := by
  fun_induction separated A texts with
  | case1 => cases h
  | case2 text =>
    rw [List.intercalate_singleton, tokens, if_pos (of_decide_eq_true h), slots, map_fixed]
  | case3 text next texts ih =>
    simp only [Bool.and_eq_true, decide_eq_true_eq] at h
    obtain ⟨⟨hmode, hnext⟩, hrest⟩ := h
    have htokens := ih hrest
    -- the text, the quoted one, and what follows, which is read as from the start
    obtain ⟨done, w, hput, hslots⟩ := put_slots (lex A text).draft v
    obtain ⟨u, next', rfl, hu⟩ : ∃ u next', next = u :: next' ∧ delimits A u = true := by
      cases next with
      | nil => cases hnext
      | cons u next' => exact ⟨u, next', rfl, hnext⟩
    obtain ⟨rest, hfollows⟩ : ∃ rest, (quote A v).intercalate ((u :: next') :: texts) = u :: rest :=
      ⟨_, List.intercalate_cons_cons_left⟩
    have hlex : lex A ((quote A v).intercalate (text :: (u :: next') :: texts))
        = (lex A ((quote A v).intercalate ((u :: next') :: texts))).behind (done ++ [.word w]) := by
      rw [List.intercalate_cons_cons, hfollows, lex, lexFrom_append, lexFrom_append]
      rw [show lexFrom A .start text = lex A text from rfl, lex_quote A hmode, hput]
      exact lexFrom_delimits A hu done w rest
    unfold tokens at htokens ⊢
    rw [hlex]
    split at htokens
    · next houtside =>
      rw [Option.some.injEq] at htokens
      unfold Lexing.behind
      dsimp only
      rw [if_pos houtside, slots, List.map_append, hslots, ← htokens, Draft.settle_behind]
      rfl
    · cases htokens

end ResearchSSH.Library
