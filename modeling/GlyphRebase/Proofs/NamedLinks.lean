import GlyphRebase.Proofs.Walking
import Mathlib.Data.List.Basic

/-!
# Paths that name a link

Followed to make a file, a path goes on through a link at its end; followed to replace what is
there, it stops at the link. The two walks go together up to there (`Walks.replace_cases`), so what
the first one points to is found from the link that the second one names.

If the walk came through the same link earlier, with names still to come, then there was a directory
behind the link, and there is the same directory behind it at the end (`Walks.directory_of_prefix`).
So a path at whose end a file can be made does not go through the link it names
(`goesThroughItsEnd_of_create`).
-/

namespace GlyphRebase.FileTree

variable {t : FileTree} {purpose : Purpose} {links : Nat} {here : Location} {name : String}
  {names rest : List String} {slashed : Bool} {p : Place}

/-! ### Where a walk goes from a name -/

theorem Walks.stay_inv (h : Walks t purpose links here ("." :: rest) slashed p) :
    Walks t purpose links here rest slashed p := by
  generalize hnames : "." :: rest = names at h
  cases h with
  | arrived => cases hnames
  | stay h =>
    cases hnames
    exact h
  | up => simp at hnames
  | made hproper =>
    cases hnames
    exact absurd rfl hproper.1
  | ended hlooks | enter hlooks | follow hlooks =>
    cases hnames
    exact absurd rfl hlooks.proper.1

theorem Walks.up_inv (h : Walks t purpose links here (".." :: rest) slashed p) :
    Walks t purpose links here.dropLast rest slashed p := by
  generalize hnames : ".." :: rest = names at h
  cases h with
  | arrived => cases hnames
  | stay => simp at hnames
  | up h =>
    cases hnames
    exact h
  | made hproper =>
    cases hnames
    exact absurd rfl hproper.2
  | ended hlooks | enter hlooks | follow hlooks =>
    cases hnames
    exact absurd rfl hlooks.proper.2

/-- At a proper name a walk ends, or it enters the directory or follows the link that is there. -/
theorem Walks.cons_inv (hproper : name ≠ "." ∧ name ≠ "..")
    (h : Walks t purpose links here (name :: rest) slashed p) :
    (rest = [] ∧ p = .named here name slashed) ∨
      (rest ≠ [] ∧ t.passage (here ++ [name]) = .enter ∧
        Walks t purpose links (here ++ [name]) rest slashed p) ∨
      ∃ target k, t.passage (here ++ [name]) = .follow target ∧
        Walks t purpose k (if (Path.ofText target).absolute then [] else here)
          ((Path.ofText target).names ++ rest)
          (slashed || rest.isEmpty && (Path.ofText target).slashed) p := by
  generalize hnames : name :: rest = names at h
  cases h with
  | arrived => cases hnames
  | stay =>
    cases hnames
    exact absurd rfl hproper.1
  | up =>
    cases hnames
    exact absurd rfl hproper.2
  | made | ended =>
    cases hnames
    exact .inl ⟨rfl, rfl⟩
  | enter _ hne hpass h =>
    cases hnames
    exact .inr (.inl ⟨hne, hpass, h⟩)
  | follow _ _ hpass h =>
    cases hnames
    exact .inr (.inr ⟨_, _, hpass, h⟩)

/-! ### Walks that begin alike -/

/-- If a walk goes on after some names, then they lead to a directory, also when a file is to be
made at their end. -/
theorem Walks.directory_of_prefix {k : Nat} {slashed' : Bool} {q : Place}
    (h : Walks t .create k here names slashed' q) (hrest : rest ≠ [])
    (hon : Walks t purpose links here (names ++ rest) slashed p) :
    q.slashed = true ∨ t.passage q.location = .enter := by
  -- the other walk is taken apart alongside: as names are left, it can end no earlier
  induction h generalizing links slashed with
  | arrived | made => exact .inl rfl
  | stay _ ih => exact ih hon.stay_inv
  | up _ ih => exact ih hon.up_inv
  | ended hlooks hend =>
    rcases hon.cons_inv hlooks.proper with ⟨hnil, -⟩ | ⟨-, hpass, -⟩ | ⟨target, -, hpass, -⟩
    · exact absurd hnil hrest
    · exact .inr hpass
    · cases hend target hpass
  | enter hlooks hne hpass _ ih =>
    rcases hon.cons_inv hlooks.proper with ⟨hnil, -⟩ | ⟨-, -, hon⟩ | ⟨target, -, hpass', -⟩
    · exact absurd (List.append_eq_nil_iff.mp hnil).2 hrest
    · exact ih hon
    · rw [hpass] at hpass'
      cases hpass'
  | follow hlooks _ hpass _ ih =>
    rw [List.cons_append] at hon
    rcases hon.cons_inv hlooks.proper with ⟨hnil, -⟩ | ⟨-, hpass', -⟩ | ⟨target, k, hpass', hon⟩
    · exact absurd (List.append_eq_nil_iff.mp hnil).2 hrest
    · rw [hpass] at hpass'
      cases hpass'
    · rw [hpass] at hpass'
      cases hpass'
      rw [← List.append_assoc] at hon
      exact ih hon

/-- The place that a path names is where a file would be made; or there is a link, and the file
would be made where the link points to. -/
theorem Walks.replace_cases {k : Nat} {dir : Location} {ends : Bool} {q : Place}
    (h : Walks t .replace links here names slashed (.named dir name ends))
    (hcreate : Walks t .create k here names slashed q) :
    q = .named dir name ends ∨ ∃ target j slashed', t.passage (dir ++ [name]) = .follow target ∧
      Walks t .create j (if (Path.ofText target).absolute then [] else dir)
        (Path.ofText target).names slashed' q := by
  generalize hp : Place.named dir name ends = p at h
  induction h generalizing k with
  | arrived => cases hp
  | stay _ ih => exact ih hcreate.stay_inv hp
  | up _ ih => exact ih hcreate.up_inv hp
  | made _ hpurpose => cases hpurpose
  | ended hlooks =>
    cases hp
    rcases hcreate.cons_inv hlooks.proper with ⟨-, hq⟩ | ⟨hne, -⟩ | ⟨target, j, hpass, hon⟩
    · exact .inl hq
    · exact absurd rfl hne
    · rw [List.append_nil] at hon
      exact .inr ⟨target, j, _, hpass, hon⟩
  | enter hlooks hne hpass _ ih =>
    rcases hcreate.cons_inv hlooks.proper with ⟨hnil, -⟩ | ⟨-, -, hon⟩ | ⟨target, -, hpass', -⟩
    · exact absurd hnil hne
    · exact ih hon hp
    · rw [hpass] at hpass'
      cases hpass'
  | follow hlooks hne hpass _ ih =>
    rcases hcreate.cons_inv hlooks.proper with ⟨hnil, -⟩ | ⟨-, hpass', -⟩ | ⟨target, j, hpass', hon⟩
    · exact absurd ⟨hnil, rfl⟩ hne
    · rw [hpass] at hpass'
      cases hpass'
    · rw [hpass] at hpass'
      cases hpass'
      exact ih hon hp

/-! ### Walks after a link is gone -/

/-- A walk is the same without what stands at some place, if there is no directory to enter and
the walk cannot go on after a link there. -/
theorem Walks.erase {dir : Location} {last : String} (henter : t.passage (dir ++ [last]) ≠ .enter)
    (hfollow : ∀ target, t.passage (dir ++ [last]) = .follow target →
      ∀ k rest slashed q, rest ≠ [] →
        ¬Walks t .replace k (if (Path.ofText target).absolute then [] else dir)
          ((Path.ofText target).names ++ rest) slashed q)
    (h : Walks t .replace links here names slashed p) :
    Walks (t.erase (dir ++ [last])) .replace links here names slashed p := by
  induction h with
  | arrived => exact .arrived
  | stay _ ih => exact .stay ih
  | up _ ih => exact .up ih
  | made _ hpurpose => cases hpurpose
  | ended hlooks => exact .ended hlooks fun _ _ => rfl
  | @enter _ here name _ _ _ hlooks hne hpass _ ih =>
    have helsewhere : here ++ [name] ≠ dir ++ [last] := fun heq => henter (heq ▸ hpass)
    exact .enter hlooks hne ((passage_erase_of_ne helsewhere).trans hpass) ih
  | @follow _ here name rest _ target _ hlooks hne hpass hon ih =>
    by_cases hsame : here ++ [name] = dir ++ [last]
    · obtain ⟨rfl, -⟩ := List.append_inj' hsame rfl
      have hrest : rest ≠ [] := fun hnil => hne ⟨hnil, rfl⟩
      exact absurd hon (hfollow target (hsame ▸ hpass) _ rest _ _ hrest)
    · exact .follow hlooks hne ((passage_erase_of_ne hsame).trans hpass) ih

/-- **A path at whose end a file can be made does not go through the link that it names.** -/
theorem goesThroughItsEnd_of_create {path : String} {dir dir' : Location} {name' : String}
    (hcreate : t.place .create path = .ok (.named dir name false))
    (hstop : t.passage (dir ++ [name]) = .stop)
    (hreplace : t.place .replace path = .ok (.named dir' name' false)) :
    t.goesThroughItsEnd path = false := by
  obtain ⟨parts, hparts, hmade⟩ := place_eq_ok_iff.mp hcreate
  obtain ⟨parts', hparts', hnamed⟩ := place_eq_ok_iff.mp hreplace
  rw [hparts] at hparts'
  cases hparts'
  rw [goesThroughItsEnd_eq_false_iff hreplace]
  refine ⟨_, place_eq_ok_iff.mpr ⟨parts, hparts, Walks.erase ?_ ?_ hnamed⟩⟩
  · intro henter
    rcases hnamed.replace_cases hmade with heq | ⟨target, _, _, hpass, -⟩
    · cases heq
      rw [henter] at hstop
      cases hstop
    · rw [henter] at hpass
      cases hpass
  · intro target htarget k rest slashed q hrest hon
    rcases hnamed.replace_cases hmade with heq | ⟨target', _, _, hpass, hmade'⟩
    · cases heq
      rw [htarget] at hstop
      cases hstop
    · rw [htarget] at hpass
      cases hpass
      rcases hmade'.directory_of_prefix hrest hon with hslashed | henter
      · cases hslashed
      · rw [Place.location, hstop] at henter
        cases henter

end GlyphRebase.FileTree
