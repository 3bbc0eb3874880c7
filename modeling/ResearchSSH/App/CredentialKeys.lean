/-
  ResearchSSH.App.CredentialKeys — which logins share a key in the credential store.

  A key is made by `"%1@%2:%3".arg(user, host).arg(port)`.  The first call writes the user name
  and the host into the text; the second one looks for the lowest place marker in all of it, so a
  marker in a user name or in a host is taken for the port's, and so is one of the number 3.  What
  is left is cut at no certain place: a user name and a host may have an `@` of their own.

  Main results:
    * `endpoint_eq` — a key by the lowest marker of its login.
    * `key_ne_keyPassKey` — no password key is a passphrase key.
    * `key_unambiguous_iff` — the logins that share their key with no other one.
-/

import ResearchSSH.App.ControllerFrame
import ResearchSSH.App.Numerals
import ResearchSSH.App.PlaceMarkers

namespace ResearchSSH.App

open ResearchSSH.Core

/-! ## §1. The text of a key. -/

/-- The lowest marker in a user name and a host, where `%3` is the one behind them. -/
def lowestMarker (username host : QString) : Nat := (markers username ++ markers host).foldr min 3

/-- The least of a list is no more than each of it. -/
theorem foldr_min_le {n : Nat} {ns : List Nat} (h : n ∈ ns) (k : Nat) : ns.foldr min k ≤ n := by
  induction ns with
  | nil => exact absurd h List.not_mem_nil
  | cons m ns ih =>
    rw [List.foldr_cons]
    rcases List.mem_cons.mp h with rfl | h
    · exact Nat.min_le_left _ _
    · exact Nat.le_trans (Nat.min_le_right _ _) (ih h)

/-- The least of a list is one of it, or the start. -/
theorem foldr_min_mem (ns : List Nat) (k : Nat) : ns.foldr min k ∈ ns ∨ ns.foldr min k = k := by
  induction ns with
  | nil => exact Or.inr rfl
  | cons m ns ih =>
    rw [List.foldr_cons]
    rcases Nat.le_total m (ns.foldr min k) with h | h
    · rw [Nat.min_eq_left h]
      exact Or.inl List.mem_cons_self
    · rw [Nat.min_eq_right h]
      exact ih.imp_left (List.mem_cons_of_mem m)

/-- The least is no more than the start. -/
theorem foldr_min_le_start (ns : List Nat) (k : Nat) : ns.foldr min k ≤ k := by
  induction ns with
  | nil => exact Nat.le_refl k
  | cons m ns ih => exact Nat.le_trans (Nat.min_le_right _ _) ih

/-- The text after the first call. -/
theorem endpoint_eq_arg (username host : QString) (port : UInt16) :
    AppController.endpoint username host port =
      arg (username ++ 0x40 :: (host ++ 0x3a :: [0x25, 0x33])) [number port.toNat] := by
  have hpieces : argPieces 0 (lit "%1@%2:%3") =
      [(some 1, [0x25, 0x31]), (none, [0x40]), (some 2, [0x25, 0x32]), (none, [0x3a]),
       (some 3, [0x25, 0x33])] := by decide
  have hnumbers : (([(some 1, [0x25, 0x31]), (none, [0x40]), (some 2, [0x25, 0x32]),
      (none, [0x3a]), (some 3, [0x25, 0x33])] : List (Option Nat × QString)).filterMap
        Prod.fst).dedup.insertionSort (· ≤ ·) = [1, 2, 3] := by decide
  have hfirst : arg (lit "%1@%2:%3") [username, host] =
      username ++ 0x40 :: (host ++ 0x3a :: [0x25, 0x33]) := by
    unfold arg
    dsimp only
    rw [hpieces, hnumbers]
    show username ++ ([0x40] ++ (host ++ ([0x3a] ++ ([0x25, 0x33] ++ [])))) = _
    rfl
  unfold AppController.endpoint
  rw [hfirst]

/-- A key by the lowest marker of its login, which stands for the port. -/
theorem endpoint_eq (username host : QString) (port : UInt16) :
    AppController.endpoint username host port =
      substitute (lowestMarker username host) (number port.toNat) (argPieces 0 username) ++
        0x40 :: (substitute (lowestMarker username host) (number port.toNat) (argPieces 0 host) ++
          0x3a :: if lowestMarker username host = 3 then number port.toNat else [0x25, 0x33]) := by
  -- the template's own marker of the port is %3
  have hend : argPieces 0 [0x25, 0x33] = [(some 3, [0x25, 0x33])] := by decide
  have hmarkers : markers (username ++ 0x40 :: (host ++ 0x3a :: [0x25, 0x33])) =
      markers username ++ (markers host ++ [3]) := by
    rw [markers_separator (by decide) (by decide), markers_separator (by decide) (by decide)]
    unfold markers
    rw [hend]
    rfl
  have hmem : lowestMarker username host ∈ markers username ++ (markers host ++ [3]) := by
    rw [← List.append_assoc, List.mem_append, List.mem_singleton]
    exact foldr_min_mem _ 3
  -- the lowest of all markers in the text is what arg replaces
  have hmin : ∀ n ∈ markers username ++ (markers host ++ [3]), lowestMarker username host ≤ n := by
    intro n hn
    rw [← List.append_assoc, List.mem_append, List.mem_singleton] at hn
    rcases hn with hn | rfl
    · exact foldr_min_le hn 3
    · exact foldr_min_le_start _ 3
  rw [endpoint_eq_arg, arg_single (hmarkers ▸ hmem) (hmarkers ▸ hmin),
    argPieces_separator (by decide) (by decide), argPieces_separator (by decide) (by decide), hend]
  generalize lowestMarker username host = m
  rw [substitute_append]
  congr 1
  show 0x40 :: substitute m (number port.toNat)
    (argPieces 0 host ++ (none, [0x3a]) :: [(some 3, [0x25, 0x33])]) = _
  rw [substitute_append]
  congr 2
  show 0x3a :: ((if some 3 = some m then number port.toNat else [0x25, 0x33]) ++ []) = _
  rw [List.append_nil]
  congr 1
  by_cases h : m = 3
  · rw [if_pos h, if_pos (congrArg some h.symm)]
  · rw [if_neg h, if_neg (fun hsome => h (Option.some.inj hsome).symm)]

/-! ## §2. Password keys and passphrase keys. -/

/-- The key of a login's password. -/
def Login.key (l : Login) : QString := AppController.endpoint l.username l.host l.port

/-- A key ends with a digit. -/
theorem Login.exists_key_concat (l : Login) :
    ∃ front u, l.key = front ++ [u] ∧ (digitOf u).isSome = true := by
  unfold Login.key
  rw [endpoint_eq]
  have hend : ∃ front u, (if lowestMarker l.username l.host = 3 then number l.port.toNat
      else [0x25, 0x33]) = front ++ [u] ∧ (digitOf u).isSome = true := by
    split
    · rcases List.eq_nil_or_concat (number l.port.toNat) with hnil | ⟨front, u, hconcat⟩
      · exact absurd hnil (number_ne_nil _)
      · rw [List.concat_eq_append] at hconcat
        refine ⟨front, u, hconcat, digitOf_of_mem_number (n := l.port.toNat) ?_⟩
        rw [hconcat]
        exact List.mem_append_right _ List.mem_cons_self
    · exact ⟨[0x25], 0x33, rfl, by decide⟩
  obtain ⟨front, u, hconcat, hu⟩ := hend
  rw [hconcat, ← List.cons_append, ← List.append_assoc, ← List.cons_append, ← List.append_assoc]
  exact ⟨_, u, rfl, hu⟩

/-- **Passwords and passphrases.**  No password key is a passphrase key. -/
theorem key_ne_keyPassKey (l l' : Login) : l.key ≠ AppController.keyPassKey l'.key := by
  intro h
  obtain ⟨front, u, hconcat, hu⟩ := l.exists_key_concat
  have hsuffix : AppController.keyPassKey l'.key = (l'.key ++ lit "#keypas") ++ [0x73] := by
    rw [List.append_assoc]
    rfl
  rw [hconcat, hsuffix] at h
  obtain ⟨-, hlast⟩ := List.append_inj' h rfl
  rw [List.singleton_inj.mp hlast] at hu
  exact absurd hu (by decide)

/-! ## §3. Logins that share their key with no other one. -/

/-- What `connectToHost` and `editServer` take for a login. -/
structure Login.Accepted (l : Login) : Prop where
  username : l.username ≠ []
  host : l.host ≠ []
  port : l.port ≠ 0

/-- Nothing in the login is taken for a marker, nothing in it may be the port written by one, and
its user name and host can be told apart. -/
structure Login.Plain (l : Login) : Prop where
  unmarked : ∀ n ∈ markers l.username ++ markers l.host, 3 < n
  /-- Where the digits of the port stand, what is in front of them is cut off inside a marker. -/
  portInUsername : ∀ a b, l.username = a ++ number l.port.toNat ++ b → ∃ n ∈ markers a, n ≤ 3
  portInHost : ∀ a b, l.host = a ++ number l.port.toNat ++ b → ∃ n ∈ markers a, n ≤ 3
  atInUsername : (0x40 : QChar) ∉ l.username.tail
  atInHost : (0x40 : QChar) ∉ l.host.dropLast

/-- A text is cut in one way only at the last of its separators. -/
theorem append_cons_inj_of_notMem_right {α : Type} {c : α} {s t x y : List α}
    (h : s ++ c :: x = t ++ c :: y) (hx : c ∉ x) (hy : c ∉ y) : s = t ∧ x = y := by
  rcases List.append_eq_append_iff.mp h with ⟨z, rfl, hz⟩ | ⟨z, rfl, hz⟩
  · cases z with
    | nil =>
      rw [List.nil_append] at hz
      exact ⟨(List.append_nil s).symm, (List.cons_inj_right c).mp hz⟩
    | cons d z =>
      rw [List.cons_append, List.cons.injEq] at hz
      exact absurd (hz.2 ▸ List.mem_append_right z List.mem_cons_self) hx
  · cases z with
    | nil =>
      rw [List.nil_append] at hz
      exact ⟨List.append_nil t, ((List.cons_inj_right c).mp hz).symm⟩
    | cons d z =>
      rw [List.cons_append, List.cons.injEq] at hz
      exact absurd (hz.2 ▸ List.mem_append_right z List.mem_cons_self) hy

/-- A user name and a host that can be told apart are told apart. -/
theorem append_at_inj {s t x y : QString} (h : s ++ 0x40 :: x = t ++ 0x40 :: y)
    (hs : (0x40 : QChar) ∉ s.tail) (hx : (0x40 : QChar) ∉ x.dropLast) (ht : t ≠ [])
    (hy : y ≠ []) : s = t ∧ x = y := by
  rcases List.append_eq_append_iff.mp h with ⟨z, rfl, hz⟩ | ⟨z, rfl, hz⟩
  · cases z with
    | nil =>
      rw [List.nil_append] at hz
      exact ⟨(List.append_nil s).symm, (List.cons_inj_right _).mp hz⟩
    | cons d z =>
      rw [List.cons_append, List.cons.injEq] at hz
      rw [hz.2, List.dropLast_append_of_ne_nil (List.cons_ne_nil _ _),
        List.dropLast_cons_of_ne_nil hy] at hx
      exact absurd (List.mem_append_right z List.mem_cons_self) hx
  · cases z with
    | nil =>
      rw [List.nil_append] at hz
      exact ⟨List.append_nil t, ((List.cons_inj_right _).mp hz).symm⟩
    | cons d z =>
      rw [List.cons_append, List.cons.injEq] at hz
      rw [← hz.1, List.tail_append_of_ne_nil ht] at hs
      exact absurd (List.mem_append_right _ List.mem_cons_self) hs

/-- No text becomes empty when something is put in. -/
theorem substitute_ne_nil {s d : QString} (hs : s ≠ []) (hd : d ≠ []) (m : Nat) :
    substitute m d (argPieces 0 s) ≠ [] := by
  cases s with
  | nil => exact absurd rfl hs
  | cons u rest =>
    rw [argPieces]
    split
    · unfold substitute
      rw [List.flatMap_cons]
      split
      · exact List.append_ne_nil_of_left_ne_nil hd _
      · exact List.append_ne_nil_of_left_ne_nil (List.cons_ne_nil _ _) _
    · unfold substitute
      rw [List.flatMap_cons, if_neg (Option.some_ne_none m).symm]
      exact List.append_ne_nil_of_left_ne_nil (List.cons_ne_nil _ _) _

/-- Where the port is written by a marker of its own, its digits stand at that place. -/
theorem exists_port_of_marked {s d : QString} {m : Nat} (h : m ∈ markers s) :
    ∃ a b, substitute m d (argPieces 0 s) = a ++ d ++ b ∧ m ∉ markers a ∧
      ∀ n ∈ markers a, n ∈ markers s := by
  obtain ⟨a, rest, size, rfl, hmarker, hfree⟩ := exists_marker h
  refine ⟨a, substitute m d (argPieces 0 (rest.drop size)), ?_, hfree, ?_⟩
  · rw [argPieces_percent hmarker, substitute_append, substitute_cons_self,
      substitute_of_notMem hfree, List.append_assoc]
  · intro n hn
    rw [markers_percent hmarker]
    exact List.mem_append_left _ hn

/-- What stands in front hides no marker. -/
theorem markers_suffix {n : Nat} {s : QString} (h : n ∈ markers s) (a : QString) :
    n ∈ markers (a ++ s) := by
  obtain ⟨b, rest, size, rfl, hmarker, -⟩ := exists_marker h
  rw [← List.append_assoc, markers_percent hmarker]
  exact List.mem_append_right _ List.mem_cons_self

/-- Texts without markers leave the third one the lowest. -/
theorem lowestMarker_of_unmarked {username host : QString}
    (h : ∀ n ∈ markers username ++ markers host, 3 ≤ n) : lowestMarker username host = 3 := by
  apply Nat.le_antisymm (foldr_min_le_start _ 3)
  rcases foldr_min_mem (markers username ++ markers host) 3 with hmem | heq
  · exact h _ hmem
  · exact Nat.le_of_eq heq.symm

/-- The key of a login in which nothing is taken for a marker. -/
theorem Login.key_of_unmarked {l : Login}
    (h : ∀ n ∈ markers l.username ++ markers l.host, 3 < n) :
    l.key = l.username ++ 0x40 :: (l.host ++ 0x3a :: number l.port.toNat) := by
  have hlowest : lowestMarker l.username l.host = 3 :=
    lowestMarker_of_unmarked fun n hn => Nat.le_of_lt (h n hn)
  unfold Login.key
  rw [endpoint_eq, hlowest, if_pos rfl, substitute_of_notMem, substitute_of_notMem]
  · exact fun hmem => Nat.lt_irrefl 3 (h 3 (List.mem_append_right _ hmem))
  · exact fun hmem => Nat.lt_irrefl 3 (h 3 (List.mem_append_left _ hmem))

/-- A plain login is the only one of its key. -/
theorem Login.Plain.eq_of_key_eq {l l' : Login} (h : l.Plain) (hl : l'.Accepted)
    (hkey : l.key = l'.key) : l = l' := by
  rw [Login.key_of_unmarked h.unmarked] at hkey
  unfold Login.key at hkey
  rw [endpoint_eq, ← List.cons_append, ← List.append_assoc, ← List.cons_append,
    ← List.append_assoc] at hkey
  generalize hm : lowestMarker l'.username l'.host = m at hkey
  obtain ⟨htext, hport⟩ := append_cons_inj_of_notMem_right hkey (notMem_number (by decide) _) (by
    split
    · exact notMem_number (by decide) _
    · decide)
  -- the port is written at its own place
  have hm3 : m = 3 := by
    by_contra hne
    rw [if_neg hne] at hport
    have hpercent : (0x25 : QChar) ∈ number l.port.toNat := by
      rw [hport]
      exact List.mem_cons_self
    exact notMem_number (by decide) _ hpercent
  subst hm3
  rw [if_pos rfl] at hport
  have hports : l.port = l'.port := UInt16.toNat_inj.mp (number_injective hport)
  have hmin : ∀ n ∈ markers l'.username ++ markers l'.host, 3 ≤ n := by
    intro n hn
    rw [← hm]
    exact foldr_min_le hn 3
  obtain ⟨husername, hhost⟩ := append_at_inj htext h.atInUsername h.atInHost
    (substitute_ne_nil hl.username (number_ne_nil _) 3)
    (substitute_ne_nil hl.host (number_ne_nil _) 3)
  -- and by no marker in the user name or in the host
  have hplain : ∀ s : QString, (∀ n ∈ markers s, 3 ≤ n) →
      (∀ a b, substitute 3 (number l'.port.toNat) (argPieces 0 s) = a ++ number l.port.toNat ++ b →
        ∃ n ∈ markers a, n ≤ 3) →
      substitute 3 (number l'.port.toNat) (argPieces 0 s) = s := by
    intro s hs hcut
    apply substitute_of_notMem
    intro hmem
    obtain ⟨a, b, hab, hfree, hsub⟩ := exists_port_of_marked (d := number l'.port.toNat) hmem
    rw [hports] at hcut
    obtain ⟨n, hn, hle⟩ := hcut a b hab
    have hge := hs n (hsub n hn)
    have hn3 : n = 3 := by omega
    exact hfree (hn3 ▸ hn)
  rw [hplain l'.username (fun n hn => hmin n (List.mem_append_left _ hn))
    (husername ▸ h.portInUsername)] at husername
  rw [hplain l'.host (fun n hn => hmin n (List.mem_append_right _ hn))
    (hhost ▸ h.portInHost)] at hhost
  obtain ⟨host, port, username⟩ := l
  obtain ⟨host', port', username'⟩ := l'
  dsimp only at husername hhost hports
  rw [husername, hhost, hports]

/-- The digits of the port in a text, written by a marker instead. -/
theorem exists_marked_port {a b : QString} {port : Nat}
    (htext : ∀ n ∈ markers (a ++ number port ++ b), 3 < n) (ha : ∀ n ∈ markers a, 3 < n) :
    ∃ t, t ≠ a ++ number port ++ b ∧ t ≠ [] ∧ (∀ n ∈ markers t, 3 ≤ n) ∧
      substitute 3 (number port) (argPieces 0 t) = a ++ number port ++ b := by
  have hmarker : placeMarker (0x30 :: 0x33 :: b) = some (3, 2) := by
    rw [placeMarker_eq]
    rfl
  have hb : ∀ n ∈ markers b, 3 < n := fun n hn => htext n (markers_suffix hn _)
  refine ⟨a ++ 0x25 :: 0x30 :: 0x33 :: b, ?_, ?_, ?_, ?_⟩
  · intro heq
    rw [List.append_assoc, List.append_cancel_left_eq] at heq
    obtain ⟨u, rest, hnumber⟩ := List.exists_cons_of_ne_nil (number_ne_nil port)
    rw [hnumber, List.cons_append, List.cons.injEq] at heq
    have hpercent : (0x25 : QChar) ∈ number port := by
      rw [hnumber, heq.1]
      exact List.mem_cons_self
    exact notMem_number (by decide) _ hpercent
  · exact List.append_ne_nil_of_right_ne_nil _ (List.cons_ne_nil _ _)
  · intro n hn
    rw [markers_percent hmarker, List.mem_append, List.mem_cons] at hn
    rcases hn with hn | rfl | hn
    · exact Nat.le_of_lt (ha n hn)
    · exact Nat.le_refl 3
    · exact Nat.le_of_lt (hb n hn)
  · have hfree : ∀ s, (∀ n ∈ markers s, 3 < n) → 3 ∉ markers s :=
      fun s hs hmem => Nat.lt_irrefl 3 (hs 3 hmem)
    rw [argPieces_percent hmarker, substitute_append, substitute_cons_self,
      substitute_of_notMem (hfree a ha), List.append_assoc]
    congr 2
    exact substitute_of_notMem (hfree b hb) _

/-- A login whose lowest marker stands in its user name or in its host shares its key with the
login in which that marker is written otherwise. -/
theorem Login.exists_of_marked {l : Login} (hl : l.Accepted) {n : Nat}
    (hn : n ∈ markers l.username ++ markers l.host) (hle : n ≤ 3) :
    ∃ l', l'.Accepted ∧ l.key = l'.key ∧ l ≠ l' := by
  have hmem : lowestMarker l.username l.host ∈ markers l.username ++ markers l.host := by
    rcases foldr_min_mem (markers l.username ++ markers l.host) 3 with hmem | heq
    · exact hmem
    · -- the lowest one is a 3, and so is the one there is
      have hn3 : n = 3 := Nat.le_antisymm hle (heq ▸ foldr_min_le hn 3)
      unfold lowestMarker
      rw [heq, ← hn3]
      exact hn
  rcases List.mem_append.mp hmem with hmem | hmem
  · obtain ⟨t, hne, hnil, hmarkers, hsame⟩ := exists_rewritten hmem
    have hlowest : lowestMarker t l.host = lowestMarker l.username l.host := by
      unfold lowestMarker
      rw [hmarkers]
    refine ⟨{ l with username := t }, ⟨hnil, hl.host, hl.port⟩, ?_, ?_⟩
    · show AppController.endpoint l.username l.host l.port = AppController.endpoint t l.host l.port
      rw [endpoint_eq, endpoint_eq, hlowest, hsame]
    · exact fun heq => hne (congrArg Login.username heq).symm
  · obtain ⟨t, hne, hnil, hmarkers, hsame⟩ := exists_rewritten hmem
    have hlowest : lowestMarker l.username t = lowestMarker l.username l.host := by
      unfold lowestMarker
      rw [hmarkers]
    refine ⟨{ l with host := t }, ⟨hl.username, hnil, hl.port⟩, ?_, ?_⟩
    · show AppController.endpoint l.username l.host l.port =
        AppController.endpoint l.username t l.port
      rw [endpoint_eq, endpoint_eq, hlowest, hsame]
    · exact fun heq => hne (congrArg Login.host heq).symm

/-- Two logins with the same text before the port share their key. -/
theorem Login.key_congr {l l' : Login} (htext : l.username ++ 0x40 :: l.host =
    l'.username ++ 0x40 :: l'.host) (hport : l.port = l'.port) : l.key = l'.key := by
  have hwhole : l.username ++ 0x40 :: (l.host ++ 0x3a :: [0x25, 0x33]) =
      l'.username ++ 0x40 :: (l'.host ++ 0x3a :: [0x25, 0x33]) := by
    have hlonger := congrArg (· ++ ([0x3a, 0x25, 0x33] : QString)) htext
    rw [List.append_assoc, List.append_assoc] at hlonger
    exact hlonger
  unfold Login.key
  rw [endpoint_eq_arg, endpoint_eq_arg, hwhole, hport]

/-- A login that is the only one of its key is plain. -/
theorem Login.plain_of_unique {l : Login} (hl : l.Accepted)
    (h : ∀ l', l'.Accepted → l.key = l'.key → l = l') : l.Plain := by
  -- a marker up to %3 is replaced, so another login has the same key
  have hunmarked : ∀ n ∈ markers l.username ++ markers l.host, 3 < n := by
    intro n hn
    by_contra hle
    obtain ⟨l', hl', hkey, hne⟩ := Login.exists_of_marked hl hn (Nat.not_lt.mp hle)
    exact hne (h l' hl' hkey)
  have hkey := Login.key_of_unmarked hunmarked
  refine ⟨hunmarked, ?_, ?_, ?_, ?_⟩
  · intro a b hab
    by_contra hcut
    push Not at hcut
    obtain ⟨t, hne, hnil, hmarkers, hsame⟩ := exists_marked_port
      (fun n hn => hunmarked n (List.mem_append_left _ (hab ▸ hn))) hcut
    -- the other user name has the port's digits in it, and its marker is the lowest
    have hlowest : lowestMarker t l.host = 3 := by
      apply lowestMarker_of_unmarked
      intro n hn
      rcases List.mem_append.mp hn with hn | hn
      · exact hmarkers n hn
      · exact Nat.le_of_lt (hunmarked n (List.mem_append_right _ hn))
    have hfree : 3 ∉ markers l.host := fun hmem =>
      Nat.lt_irrefl 3 (hunmarked 3 (List.mem_append_right _ hmem))
    have heq := h { l with username := t } ⟨hnil, hl.host, hl.port⟩ (by
      rw [hkey, Login.key, endpoint_eq, hlowest, if_pos rfl, hsame, ← hab, substitute_of_notMem hfree])
    exact hne ((congrArg Login.username heq).symm.trans hab)
  · intro a b hab
    by_contra hcut
    push Not at hcut
    obtain ⟨t, hne, hnil, hmarkers, hsame⟩ := exists_marked_port
      (fun n hn => hunmarked n (List.mem_append_right _ (hab ▸ hn))) hcut
    -- the same with the host's
    have hlowest : lowestMarker l.username t = 3 := by
      apply lowestMarker_of_unmarked
      intro n hn
      rcases List.mem_append.mp hn with hn | hn
      · exact Nat.le_of_lt (hunmarked n (List.mem_append_left _ hn))
      · exact hmarkers n hn
    have hfree : 3 ∉ markers l.username := fun hmem =>
      Nat.lt_irrefl 3 (hunmarked 3 (List.mem_append_left _ hmem))
    have heq := h { l with host := t } ⟨hl.username, hnil, hl.port⟩ (by
      rw [hkey, Login.key, endpoint_eq, hlowest, if_pos rfl, hsame, ← hab, substitute_of_notMem hfree])
    exact hne ((congrArg Login.host heq).symm.trans hab)
  · -- an `@` behind the first letter of the user name: cut there instead
    intro hat
    obtain ⟨x, xs, hcons⟩ := List.exists_cons_of_ne_nil hl.username
    rw [hcons, List.tail_cons] at hat
    obtain ⟨y, z, hsplit⟩ := List.append_of_mem hat
    have heq := h { l with username := x :: y, host := z ++ 0x40 :: l.host }
      ⟨List.cons_ne_nil _ _, List.append_ne_nil_of_right_ne_nil _ (List.cons_ne_nil _ _), hl.port⟩
      (Login.key_congr (by rw [hcons, hsplit]; simp) rfl)
    have husername : l.username = x :: y := congrArg Login.username heq
    have hlength := congrArg List.length (hcons.symm.trans husername)
    rw [hsplit, List.length_cons, List.length_cons, List.length_append, List.length_cons] at hlength
    omega
  · -- an `@` before the last letter of the host: cut there instead
    intro hat
    rcases List.eq_nil_or_concat l.host with hnil | ⟨front, u, hconcat⟩
    · exact hl.host hnil
    rw [List.concat_eq_append] at hconcat
    rw [hconcat, List.dropLast_concat] at hat
    obtain ⟨y, z, hsplit⟩ := List.append_of_mem hat
    have heq := h { l with username := l.username ++ 0x40 :: y, host := z ++ [u] }
      ⟨List.append_ne_nil_of_left_ne_nil hl.username _,
        List.append_ne_nil_of_right_ne_nil _ (List.cons_ne_nil _ _), hl.port⟩
      (Login.key_congr (by rw [hconcat, hsplit]; simp) rfl)
    have husername : l.username = l.username ++ 0x40 :: y := congrArg Login.username heq
    have hlength := congrArg List.length husername
    rw [List.length_append, List.length_cons] at hlength
    omega

/-! ## §4. The exact condition. -/

/-- **Credential keys.**  A login shares its key with no other accepted login, and with no
passphrase, exactly if it is plain. -/
theorem key_unambiguous_iff (l : Login) (hl : l.Accepted) :
    ((∀ l', l'.Accepted → l.key = l'.key → l = l') ∧
      ∀ l' : Login, l.key ≠ AppController.keyPassKey l'.key) ↔ l.Plain := by
  constructor
  · rintro ⟨hunique, -⟩
    exact Login.plain_of_unique hl hunique
  · intro hplain
    exact ⟨fun l' hl' => hplain.eq_of_key_eq hl', key_ne_keyPassKey l⟩

/-- The login with the key `u@h:22`. -/
def plainLogin : Login := { host := lit "h", port := 22, username := lit "u" }

theorem key_unambiguous_plain_login :
    plainLogin.Plain ∧ (∀ l', l'.Accepted → plainLogin.key = l'.key → plainLogin = l')
      ∧ ∀ l' : Login, plainLogin.key ≠ AppController.keyPassKey l'.key := by
  have hshort : ∀ (s : QString) (a b : QString), s.length = 1 →
      s = a ++ number (22 : UInt16).toNat ++ b → ∃ n ∈ markers a, n ≤ 3 := by
    intro s a b hs hab
    have hlength := congrArg List.length hab
    rw [hs, List.length_append, List.length_append,
      show (number (22 : UInt16).toNat).length = 2 by decide] at hlength
    omega
  have haccepted : plainLogin.Accepted := ⟨by decide, by decide, by decide⟩
  have hplain : plainLogin.Plain :=
    ⟨by decide, fun a b => hshort _ a b rfl, fun a b => hshort _ a b rfl, by decide, by decide⟩
  exact ⟨hplain, (key_unambiguous_iff plainLogin haccepted).mpr hplain⟩

/-- User `a@b` at host `c` and user `a` at host `b@c` have one key. -/
theorem key_shared :
    ¬ ∀ l l' : Login, l.Accepted → l'.Accepted → l.key = l'.key → l = l' := by
  intro h
  have heq := h { host := lit "c", port := 22, username := lit "a@b" }
    { host := lit "b@c", port := 22, username := lit "a" } ⟨by decide, by decide, by decide⟩
    ⟨by decide, by decide, by decide⟩ (by decide)
  exact absurd heq (by decide)

end ResearchSSH.App
