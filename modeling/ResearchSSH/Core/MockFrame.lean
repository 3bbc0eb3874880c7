/-
  ResearchSSH.Core.MockFrame — what a file operation leaves alone.

  The operations find what they touch by comparing paths: an entry is touched when its path is one
  of those named by the call, or begins with one of them and a slash.  A sibling whose name only
  begins like that of a directory is not below it.

  Main results:
    * `unchanged_rename`, `unchanged_copy`, `unchanged_remove` — what each call leaves alone.
    * `perform_confined` — no call touches an entry outside what it names, a call that fails touches
      nothing, and removing without recursion touches one path.
-/

import ResearchSSH.Core.MockTree

namespace ResearchSSH.Core

/-- The paths that a call names. -/
def FsOp.paths : FsOp → List Text
  | .list path => [path]
  | .stat path => [path]
  | .read path _ => [path]
  | .write path _ => [path]
  | .rename src dst => [src, dst]
  | .remove path _ => [path]
  | .mkdir path => [path]
  | .copy src dst => [src, dst]

namespace MockFs

/-! ## §1. Calls that fail. -/

variable {fs : MockFs} {src dst path p : Text} {e : CoreError}

/-- A rename that fails changes nothing. -/
theorem rename_error (h : (fs.rename src dst).1 = .error e) : (fs.rename src dst).2 = fs := by
  cases hfile : fs.files.lookup src with
  | some content =>
    rw [rename_file hfile] at h
    cases h
  | none =>
    by_cases hdir : src ∈ fs.dirs
    · rw [rename_dir_ok hfile hdir] at h
      cases h
    · exact (rename_absent (AList.lookup_eq_none.mp hfile) hdir).1

/-- A copy that fails changes nothing. -/
theorem copy_error (h : (fs.copy src dst).1 = .error e) : (fs.copy src dst).2 = fs := by
  cases hfile : fs.files.lookup src with
  | some content =>
    rw [copy_file hfile] at h
    cases h
  | none =>
    by_cases hdir : src ∈ fs.dirs
    · rw [copy_dir_ok hfile hdir] at h
      cases h
    · exact (rename_absent (AList.lookup_eq_none.mp hfile) hdir).2

theorem remove_absent (hfile : fs.files.lookup path = none) (hdir : path ∉ fs.dirs)
    (recursive : Bool) : (fs.remove path recursive).2 = fs := by
  unfold remove
  rw [hfile, Option.isSome_none, if_neg Bool.false_ne_true, if_neg hdir]

/-- A removal that fails changes nothing. -/
theorem remove_error {recursive : Bool} (h : (fs.remove path recursive).1 = .error e) :
    (fs.remove path recursive).2 = fs := by
  cases hfile : fs.files.lookup path with
  | some content =>
    rw [remove_file hfile] at h
    cases h
  | none =>
    by_cases hdir : path ∈ fs.dirs
    · obtain hsame | hsame := remove_dir_cases hfile hdir recursive
      · exact hsame
      · rw [hsame, remove_dir_ok hfile hdir] at h
        cases h
    · exact remove_absent hfile hdir recursive

/-- **An operation that fails changes nothing.** -/
theorem perform_error (op : FsOp) (h : (fs.perform op).1 = .failed e) : (fs.perform op).2 = fs := by
  cases op with
  | list path => rfl
  | stat path => rfl
  | read path maxLen => rfl
  | write path data => cases h
  | mkdir path => cases h
  | rename src dst => exact rename_error (done_failed h)
  | remove path recursive => exact remove_error (done_failed h)
  | copy src dst => exact copy_error (done_failed h)

/-! ## §2. What a call does not touch. -/

/-- What stands at the path, of either kind, is what stood there. -/
structure Unchanged (fs fs' : MockFs) (p : Text) : Prop where
  dir : p ∈ fs'.dirs ↔ p ∈ fs.dirs
  file : fs'.files.lookup p = fs.files.lookup p

theorem Unchanged.refl (fs : MockFs) (p : Text) : fs.Unchanged fs p := ⟨Iff.rfl, rfl⟩

/-- One after the other. -/
theorem Unchanged.trans {fs' fs'' : MockFs} (h : fs.Unchanged fs' p) (h' : fs'.Unchanged fs'' p) :
    fs.Unchanged fs'' p :=
  ⟨h'.dir.trans h.dir, h'.file.trans h.file⟩

theorem Unchanged.of_eq {fs' : MockFs} (h : fs' = fs) (p : Text) : fs.Unchanged fs' p := by
  rw [h]
  exact Unchanged.refl fs p

theorem not_atOrBelow_iff : ¬ AtOrBelow path p ↔ p ≠ path ∧ ¬ below path <+: p := by
  unfold AtOrBelow startsWith
  rw [not_or, List.isPrefixOf_iff_prefix]

/-- Where something that moves along arrives. -/
theorem atOrBelow_renamedDir {d : Text} (h : AtOrBelow src d) :
    AtOrBelow dst (renamedDir src dst d) := by
  unfold renamedDir
  split
  · exact .inl rfl
  · next hne =>
    obtain ⟨rest, rfl⟩ := startsWith_iff.mp (h.resolve_left hne)
    rw [replacePrefix_append]
    exact .inr (startsWith_iff.mpr ⟨rest, rfl⟩)

/-- A write changes its own path only. -/
theorem unchanged_writeFile (data : List UInt8) (h : p ≠ path) :
    fs.Unchanged (fs.writeFile path data) p :=
  ⟨Iff.rfl, AList.lookup_insert_ne h⟩

/-- A new directory changes its own path only. -/
theorem unchanged_mkdir (h : p ≠ path) : fs.Unchanged (fs.mkdir path) p :=
  ⟨Finset.mem_insert.trans (or_iff_right h), rfl⟩

/-- A rename changes nothing beside its two paths. -/
theorem unchanged_rename (hsrc : ¬ AtOrBelow src p) (hdst : ¬ AtOrBelow dst p) :
    fs.Unchanged (fs.rename src dst).2 p := by
  have hne : p ≠ src := fun h => hsrc (.inl h)
  have hne' : p ≠ dst := fun h => hdst (.inl h)
  cases hfile : fs.files.lookup src with
  | some content =>
    rw [rename_file hfile]
    refine ⟨Iff.rfl, ?_⟩
    rw [AList.lookup_insert_ne hne', AList.lookup_erase_ne hne]
  | none =>
    by_cases hdir : src ∈ fs.dirs
    · refine ⟨?_, Option.ext fun content => ?_⟩
      · rw [mem_dirs_rename hfile hdir]
        constructor
        · rintro (⟨d, _, hd, rfl⟩ | ⟨hp, _⟩)
          · exact absurd (atOrBelow_renamedDir hd) hdst
          · exact hp
        · exact fun hp => .inr ⟨hp, hsrc⟩
      · rw [lookup_rename hfile hdir]
        -- nothing arrives below the destination
        have hfree : ∀ rest, p ≠ below dst ++ rest :=
          fun rest h => hdst (.inr (startsWith_iff.mpr ⟨rest, h⟩))
        constructor
        · rintro (⟨rest, h, _⟩ | ⟨_, hp, _⟩)
          · exact absurd h (hfree rest)
          · exact hp
        · exact fun hp => .inr ⟨fun rest h => absurd h (hfree rest), hp, hsrc⟩
    · exact .of_eq (rename_absent (AList.lookup_eq_none.mp hfile) hdir).1 p

/-- A copy leaves alone also what it copies. -/
theorem unchanged_copy (hdst : ¬ AtOrBelow dst p) : fs.Unchanged (fs.copy src dst).2 p := by
  have hne : p ≠ dst := fun h => hdst (.inl h)
  cases hfile : fs.files.lookup src with
  | some content =>
    rw [copy_file hfile]
    exact ⟨Iff.rfl, AList.lookup_insert_ne hne⟩
  | none =>
    by_cases hdir : src ∈ fs.dirs
    · refine ⟨?_, Option.ext fun content => ?_⟩
      · rw [mem_dirs_copy hfile hdir]
        refine or_iff_right ?_
        rintro ⟨d, _, hd, rfl⟩
        exact hdst (atOrBelow_renamedDir hd)
      · rw [lookup_copy hfile hdir]
        have hfree : ∀ rest, p ≠ below dst ++ rest :=
          fun rest h => hdst (.inr (startsWith_iff.mpr ⟨rest, h⟩))
        constructor
        · rintro (⟨rest, h, _⟩ | ⟨_, hp⟩)
          · exact absurd h (hfree rest)
          · exact hp
        · exact fun hp => .inr ⟨fun rest h => absurd h (hfree rest), hp⟩
    · exact .of_eq (rename_absent (AList.lookup_eq_none.mp hfile) hdir).2 p

/-- A removal changes nothing beside its path. -/
theorem unchanged_remove (recursive : Bool) (h : ¬ AtOrBelow path p) :
    fs.Unchanged (fs.remove path recursive).2 p := by
  have hne : p ≠ path := fun hp => h (.inl hp)
  cases hfile : fs.files.lookup path with
  | some content =>
    rw [remove_file hfile]
    exact ⟨Iff.rfl, AList.lookup_erase_ne hne⟩
  | none =>
    by_cases hdir : path ∈ fs.dirs
    · obtain hsame | hsame := remove_dir_cases hfile hdir recursive
      · exact .of_eq hsame p
      · rw [hsame]
        refine ⟨?_, Option.ext fun content => ?_⟩
        · rw [mem_dirs_remove hfile hdir]
          exact and_iff_left h
        · rw [lookup_remove hfile hdir]
          exact and_iff_left h
    · exact .of_eq (remove_absent hfile hdir recursive) p

/-- Where there was nothing, removing leaves nothing. -/
theorem remove_absent_at (hdirs : p ∉ fs.dirs) (hfiles : fs.files.lookup p = none)
    (recursive : Bool) : p ∉ (fs.remove path recursive).2.dirs
      ∧ (fs.remove path recursive).2.files.lookup p = none := by
  by_cases hat : AtOrBelow path p
  · cases hfile : fs.files.lookup path with
    | some content =>
      rw [remove_file hfile]
      refine ⟨hdirs, ?_⟩
      rw [AList.lookup_eq_none] at hfiles ⊢
      exact fun hmem => hfiles (AList.mem_erase.mp hmem).2
    | none =>
      by_cases hdir : path ∈ fs.dirs
      · obtain hsame | hsame := remove_dir_cases hfile hdir recursive
        · rw [hsame]
          exact ⟨hdirs, hfiles⟩
        · rw [hsame]
          refine ⟨fun hmem => hdirs ((mem_dirs_remove hfile hdir).mp hmem).1, ?_⟩
          by_contra hsome
          obtain ⟨content, hc⟩ := Option.ne_none_iff_exists'.mp hsome
          exact ((lookup_remove hfile hdir).mp hc).2 hat
      · rw [remove_absent hfile hdir]
        exact ⟨hdirs, hfiles⟩
  · have hkept : fs.Unchanged (fs.remove path recursive).2 p := unchanged_remove recursive hat
    exact ⟨fun hmem => hdirs (hkept.dir.mp hmem), hkept.file.trans hfiles⟩

/-- Without recursion a directory goes only when nothing is below it. -/
theorem remove_alone (h : p ∈ fs.dirs ∨ p ∈ fs.files) (hp : startsWith p (below path) = true)
    (hfile : fs.files.lookup path = none) : (fs.remove path false).2 = fs := by
  by_cases hdir : path ∈ fs.dirs
  · have hchild : (∃ d ∈ fs.dirs, startsWith d (below path) = true)
        ∨ fs.files.keys.any (startsWith · (below path)) = true := by
      refine h.imp (fun hd => ⟨p, hd, hp⟩) fun hf => ?_
      exact List.any_eq_true.mpr ⟨p, AList.mem_keys.mp hf, hp⟩
    unfold remove
    rw [hfile, Option.isSome_none, if_neg Bool.false_ne_true, if_pos hdir]
    dsimp only
    rw [if_pos ⟨hchild, rfl⟩]
  · exact remove_absent hfile hdir false

theorem unchanged_remove_one (h : p ≠ path) : fs.Unchanged (fs.remove path false).2 p := by
  by_cases hp : startsWith p (below path) = true
  · cases hfile : fs.files.lookup path with
    | some content =>
      rw [remove_file hfile]
      exact ⟨Iff.rfl, AList.lookup_erase_ne h⟩
    | none =>
      by_cases hthere : p ∈ fs.dirs ∨ p ∈ fs.files
      · exact .of_eq (remove_alone hthere hp hfile) p
      · obtain ⟨hdirs, hfiles⟩ := not_or.mp hthere
        have hafter : p ∉ (fs.remove path false).2.dirs
            ∧ (fs.remove path false).2.files.lookup p = none :=
          remove_absent_at hdirs (AList.lookup_eq_none.mpr hfiles) false
        exact ⟨iff_of_false hafter.1 hdirs, hafter.2.trans (AList.lookup_eq_none.mpr hfiles).symm⟩
  · exact unchanged_remove false fun hat => hat.elim h hp

/-! ## §3. Every operation. -/

/-- **An operation changes nothing beside its paths.** -/
theorem unchanged_perform (op : FsOp) (h : ∀ arg ∈ op.paths, ¬ AtOrBelow arg p) :
    fs.Unchanged (fs.perform op).2 p := by
  have hne : ∀ arg ∈ op.paths, p ≠ arg := fun arg harg hp => h arg harg (.inl hp)
  cases op with
  | list path => exact .refl fs p
  | stat path => exact .refl fs p
  | read path maxLen => exact .refl fs p
  | write path data => exact unchanged_writeFile data (hne path List.mem_cons_self)
  | mkdir path => exact unchanged_mkdir (hne path List.mem_cons_self)
  | rename src dst =>
    exact unchanged_rename (h src List.mem_cons_self)
      (h dst (List.mem_cons_of_mem _ List.mem_cons_self))
  | remove path recursive => exact unchanged_remove recursive (h path List.mem_cons_self)
  | copy src dst => exact unchanged_copy (h dst (List.mem_cons_of_mem _ List.mem_cons_self))

/-- What none of the commands of a queue names, or holds below it, is as it was after them all. -/
theorem unchanged_serve (queue : List Command) : ∀ fs : MockFs,
    (∀ id op, Command.fs id op ∈ queue → ∀ arg ∈ op.paths, ¬ AtOrBelow arg p) →
    fs.Unchanged (fs.serve queue).2 p := by
  induction queue with
  | nil => exact fun fs _ => .refl fs p
  | cons command rest ih =>
    intro fs h
    have hrest := fun fs' : MockFs =>
      ih fs' fun id op hmem => h id op (List.mem_cons_of_mem _ hmem)
    cases command with
    | fs id op =>
      exact (unchanged_perform op (h id op List.mem_cons_self)).trans (hrest _)
    | _ => exact hrest fs

/-- A call touches what it names and what is below it; one that fails touches nothing; a directory
that is removed without recursion goes alone. -/
theorem perform_confined (fs : MockFs) (op : FsOp) :
    (∀ e, (fs.perform op).1 = .failed e → (fs.perform op).2 = fs)
      ∧ (∀ p, (∀ arg ∈ op.paths, p ≠ arg ∧ ¬ (arg.rdropWhile (· = '/') ++ ['/']) <+: p) →
          fs.Unchanged (fs.perform op).2 p)
      ∧ ∀ path, op = .remove path false → ∀ p, p ≠ path → fs.Unchanged (fs.perform op).2 p := by
  refine ⟨fun e h => perform_error op h, fun p h => ?_, ?_⟩
  · exact unchanged_perform op fun arg harg => not_atOrBelow_iff.mpr (h arg harg)
  · rintro path rfl p hp
    exact unchanged_remove_one hp

end MockFs

end ResearchSSH.Core
