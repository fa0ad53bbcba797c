import GlyphRebase.Text.Blank
import Mathlib.Data.List.Basic

/-!
# Patterns that are scanned without going back

A pattern is a sequence of parts: gaps, which may be empty, fixed words, and runs of at least one
character, which are taken down. `Fits` says that a text starts with a pattern, and what its runs
stand for then, wherever the text is cut. `scanParts` cuts it from left to right: it gives each gap
and each run as many characters as it can, and never takes one back.

If no text that fits the parts after a gap or a run starts with a character of its class
(`Settled`), there is one way to cut a text at most, and the scan finds it
(`scanParts_eq_some_iff`).
-/

namespace GlyphRebase.Text

/-- A part of a pattern. -/
inductive Part where
  /-- Any number of characters of a class. -/
  | gap (p : Char → Bool)
  /-- These characters. -/
  | word (w : List Char)
  /-- At least one character of a class. -/
  | run (p : Char → Bool)

/-- The text starts with the parts in order, and these are the characters of their runs. -/
inductive Fits : List Part → List (List Char) → List Char → Prop where
  | done {rest : List Char} : Fits [] [] rest
  | gap {p : Char → Bool} {front rest : List Char} {parts : List Part} {runs : List (List Char)} :
    (∀ c ∈ front, p c = true) → Fits parts runs rest → Fits (.gap p :: parts) runs (front ++ rest)
  | word {w rest : List Char} {parts : List Part} {runs : List (List Char)} :
    Fits parts runs rest → Fits (.word w :: parts) runs (w ++ rest)
  | run {p : Char → Bool} {front rest : List Char} {parts : List Part} {runs : List (List Char)} :
    front ≠ [] → (∀ c ∈ front, p c = true) → Fits parts runs rest →
      Fits (.run p :: parts) (front :: runs) (front ++ rest)

/-- Looks for the parts at the start of a text, each gap and each run as long as it can be. -/
def scanParts : List Part → List Char → Option (List (List Char))
  | [], _ => some []
  | .gap p :: parts, cs => scanParts parts (cs.dropWhile p)
  | .word w :: parts, cs => (after w cs).bind (scanParts parts)
  | .run p :: parts, cs =>
    if (cs.takeWhile p).isEmpty then none
    else (scanParts parts (cs.dropWhile p)).map (cs.takeWhile p :: ·)

variable {p q : Char → Bool} {parts : List Part} {runs : List (List Char)} {cs : List Char}

/-- What the scan finds is there. -/
theorem fits_of_scanParts (h : scanParts parts cs = some runs) : Fits parts runs cs := by
  induction parts generalizing cs runs with
  | nil =>
    obtain rfl : [] = runs := Option.some.inj h
    exact .done
  | cons part parts ih =>
    cases part with
    | gap p =>
      have hfits : Fits (.gap p :: parts) runs (cs.takeWhile p ++ cs.dropWhile p) := by
        apply Fits.gap
        · exact List.all_eq_true.mp List.all_takeWhile
        · exact ih h
      rwa [List.takeWhile_append_dropWhile] at hfits
    | word w =>
      obtain ⟨rest, hrest, hparts⟩ := Option.bind_eq_some_iff.mp h
      rw [after_eq_some_iff] at hrest
      subst hrest
      exact .word (ih hparts)
    | run p =>
      rw [scanParts] at h
      split at h
      · cases h
      · next hne =>
        obtain ⟨runs', hparts, rfl⟩ := Option.map_eq_some_iff.mp h
        have hfits : Fits (.run p :: parts) (cs.takeWhile p :: runs')
            (cs.takeWhile p ++ cs.dropWhile p) := by
          apply Fits.run
          · simpa using hne
          · exact List.all_eq_true.mp List.all_takeWhile
          · exact ih hparts
        rwa [List.takeWhile_append_dropWhile] at hfits

/-! ### Patterns that leave no choice -/

/-- Every text that fits the parts starts with a character outside of the class. -/
def StartsOutside (p : Char → Bool) (parts : List Part) : Prop :=
  ∀ runs cs, Fits parts runs cs → ∃ c rest, cs = c :: rest ∧ p c = false

theorem startsOutside_word {c : Char} (h : p c = false) (w : List Char) :
    StartsOutside p (.word (c :: w) :: parts) := by
  intro runs cs hfits
  cases hfits with
  | word => exact ⟨c, _, rfl, h⟩

theorem startsOutside_run (h : ∀ c, q c = true → p c = false) :
    StartsOutside p (.run q :: parts) := by
  intro runs cs hfits
  cases hfits with
  | @run _ front rest _ _ hne hfront _ =>
    obtain ⟨c, front, rfl⟩ := List.exists_cons_of_ne_nil hne
    exact ⟨c, front ++ rest, rfl, h c (hfront c (List.mem_cons_self ..))⟩

theorem startsOutside_gap (h : ∀ c, q c = true → p c = false) (hparts : StartsOutside p parts) :
    StartsOutside p (.gap q :: parts) := by
  intro runs cs hfits
  cases hfits with
  | @gap _ front rest _ _ hfront hrest =>
    cases front with
    | nil => exact hparts _ _ hrest
    | cons c front => exact ⟨c, front ++ rest, rfl, h c (hfront c (List.mem_cons_self ..))⟩

/-- No gap and no run can be taken for the start of what comes after it. -/
inductive Settled : List Part → Prop where
  | done : Settled []
  | gap {p : Char → Bool} {parts : List Part} :
    StartsOutside p parts → Settled parts → Settled (.gap p :: parts)
  | word {w : List Char} {parts : List Part} : Settled parts → Settled (.word w :: parts)
  | run {p : Char → Bool} {parts : List Part} :
    StartsOutside p parts → Settled parts → Settled (.run p :: parts)

/-- Characters of a class up to one outside of it are all that are taken, and all that are
dropped. -/
theorem span_eq {front rest : List Char} (hfront : ∀ c ∈ front, p c = true)
    (hrest : ∃ c cs, rest = c :: cs ∧ p c = false) :
    (front ++ rest).takeWhile p = front ∧ (front ++ rest).dropWhile p = rest := by
  obtain ⟨c, cs, rfl, hc⟩ := hrest
  constructor
  · rw [List.takeWhile_append_of_pos hfront, List.takeWhile_cons_of_neg (by simp [hc]),
      List.append_nil]
  · rw [List.dropWhile_append_of_pos hfront, List.dropWhile_cons_of_neg (by simp [hc])]

/-- A settled pattern is found where it is. -/
theorem scanParts_of_fits (hsettled : Settled parts) (h : Fits parts runs cs) :
    scanParts parts cs = some runs := by
  induction h with
  | done => rfl
  | gap hfront hrest ih =>
    cases hsettled with
    | gap houtside hsettled =>
      obtain ⟨-, hdrop⟩ := span_eq hfront (houtside _ _ hrest)
      rw [scanParts, hdrop]
      exact ih hsettled
  | word _ ih =>
    cases hsettled with
    | word hsettled =>
      rw [scanParts, after_eq_some_iff.mpr rfl]
      exact ih hsettled
  | run hne hfront hrest ih =>
    cases hsettled with
    | run houtside hsettled =>
      obtain ⟨htake, hdrop⟩ := span_eq hfront (houtside _ _ hrest)
      rw [scanParts, htake, hdrop, if_neg (by simpa using hne), ih hsettled]
      rfl

/-- **One scan decides a settled pattern.** -/
theorem scanParts_eq_some_iff (h : Settled parts) :
    scanParts parts cs = some runs ↔ Fits parts runs cs :=
  ⟨fits_of_scanParts, scanParts_of_fits h⟩

/-- The runs of a settled pattern stand for the same wherever the text is cut. -/
theorem Fits.unique {runs' : List (List Char)} (hsettled : Settled parts) (h : Fits parts runs cs)
    (h' : Fits parts runs' cs) : runs = runs' := by
  rw [← scanParts_eq_some_iff hsettled] at h h'
  rw [h] at h'
  exact Option.some.inj h'

end GlyphRebase.Text
