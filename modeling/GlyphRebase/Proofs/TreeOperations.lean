import GlyphRebase.Proofs.TreeChanges

/-!
# What operations on files come to

For each operation of a file tree, what must have been the case when it succeeds, and what it has
then done.
-/

namespace GlyphRebase

theorem bind_eq_ok_iff {ε α β : Type} {x : Except ε α} {f : α → Except ε β} {b : β} :
    x >>= f = .ok b ↔ ∃ a, x = .ok a ∧ f a = .ok b := by
  cases x with
  | error e => exact ⟨fun h => (by cases h), fun ⟨_, h, _⟩ => (by cases h)⟩
  | ok a => exact ⟨fun h => ⟨a, rfl, h⟩, fun ⟨_, ha, h⟩ => (by cases ha; exact h)⟩

namespace FileTree

variable {t t' : FileTree} {path : String} {l : Location}

/-- What is found is there, and is a directory if the path demands one. -/
theorem look_eq_ok_iff :
    t.look path = .ok l ↔ ∃ p n, t.place .look path = .ok p ∧ p.location = l ∧
      t.node? l = some n ∧ (p.slashed = true → ∃ mode, n = .directory mode) := by
  rw [look, bind_eq_ok_iff]
  refine exists_congr fun p => ⟨fun ⟨hp, h⟩ => ?_, fun ⟨n, hp, hl, hn, hs⟩ => ⟨hp, ?_⟩⟩
  · split at h
    · cases h
    · next mode hn => cases h; exact ⟨_, hp, rfl, hn, fun _ => ⟨mode, rfl⟩⟩
    · next n _ hn =>
      split at h
      · cases h
      · next hs => cases h; exact ⟨n, hp, rfl, hn, fun h => absurd h hs⟩
  · subst hl
    rw [hn]
    cases n with
    | directory mode => rfl
    | file | link =>
      have hslashed : ¬p.slashed = true := fun h => by
        obtain ⟨mode, hmode⟩ := hs h
        cases hmode
      exact if_neg hslashed

theorem exists_of_look (h : t.look path = .ok l) : ∃ n, t.node? l = some n := by
  obtain ⟨_, n, -, -, hn, -⟩ := look_eq_ok_iff.mp h
  exact ⟨n, hn⟩

/-- What is found is not where nothing stands. -/
theorem ne_of_look {l' : Location} (h : t.look path = .ok l) (h' : t.node? l' = none) : l ≠ l' := by
  rintro rfl
  obtain ⟨n, hn⟩ := exists_of_look h
  rw [h'] at hn
  cases hn

/-- What is read are the bytes of the file that is found. -/
theorem read_eq_ok_iff {bytes : List UInt8} :
    t.read path = .ok bytes ↔
      ∃ l mode, t.look path = .ok l ∧ t.node? l = some (.file bytes mode) := by
  rw [read, bind_eq_ok_iff]
  refine exists_congr fun l => ⟨fun ⟨hl, h⟩ => ?_, fun ⟨mode, hl, hn⟩ => ⟨hl, by rw [hn]; rfl⟩⟩
  split at h
  · next mode hn => cases h; exact ⟨mode, hl, hn⟩
  · cases h
  · cases h

/-- A file that is made stands at the end of the path, is empty, and keeps the permission bits of
the file that it replaces. -/
theorem create_eq_ok (h : t.create path = .ok (l, t')) :
    ∃ dir name mode, t.place .create path = .ok (.named dir name false) ∧ l = dir ++ [name] ∧
      t' = t.put l (.file [] mode) ∧
      ((∃ bytes, t.node? l = some (.file bytes mode)) ∨ t.node? l = none ∧ mode = t.newMode) := by
  obtain ⟨p, hp, h⟩ := bind_eq_ok_iff.mp h
  cases p with
  | directory => cases h
  | named dir name slashed =>
    cases slashed with
    | true => cases h
    | false =>
      simp only [Bool.false_eq_true, if_false] at h
      split at h
      · next bytes mode hn => cases h; exact ⟨dir, name, mode, hp, rfl, rfl, .inl ⟨bytes, hn⟩⟩
      · next hn => cases h; exact ⟨dir, name, _, hp, rfl, rfl, .inr ⟨hn, rfl⟩⟩
      · cases h

/-- A temporary file is made in the directory asked for, where nothing stood. -/
theorem stage_eq_ok {dir : String} {mode : Nat} (h : t.stage dir mode = .ok (l, t')) :
    ∃ d n, t.look dir = .ok d ∧ l = d ++ [temporaryName n] ∧ t.node? l = none ∧
      t' = t.put l (.file [] mode) := by
  obtain ⟨d, hd, h⟩ := bind_eq_ok_iff.mp h
  split at h
  · simp only at h
    split at h
    · next hfind =>
      cases h
      obtain ⟨n, -, rfl⟩ := List.mem_map.mp (List.mem_of_find?_eq_some hfind)
      exact ⟨d, n, hd, rfl, by simpa using List.find?_some hfind, rfl⟩
    · cases h
  · cases h

/-- A file that is moved is taken from its place and put at the end of the path, where there was no
directory. -/
theorem rename_eq_ok (h : t.rename l path = .ok t') :
    ∃ dir name n, t.place .replace path = .ok (.named dir name false) ∧ t.node? l = some n ∧
      (∀ mode, t.node? (dir ++ [name]) ≠ some (.directory mode)) ∧
      t' = (t.erase l).put (dir ++ [name]) n := by
  unfold rename at h
  split at h
  · cases h
  obtain ⟨p, hp, h⟩ := bind_eq_ok_iff.mp h
  cases p with
  | directory => cases h
  | named dir name slashed =>
    cases slashed with
    | true => cases h
    | false =>
      simp only [Bool.false_eq_true, if_false] at h
      split at h
      · cases h
      · cases h
      · next n hn hdir =>
        cases h
        exact ⟨dir, name, n, hp, hn, fun mode hm => hdir mode hm, rfl⟩

end FileTree

end GlyphRebase
