import GlyphRebase.FileTree

/-!
# Changing what stands at a place

What is put at a place stands there, and nothing else in the tree changes; so it is with what is
taken away. What is put where nothing stood can be taken back, and leaves no trace
(`FileTree.erase_put`): the tree is then the one it was before.
-/

namespace GlyphRebase

namespace FileTree

variable {t : FileTree} {l l' : Location} {n n' : Node}

theorem node?_of_ne_nil (h : l ≠ []) : t.node? l = (t.nodes.find? (·.1 == l)).map (·.2) := by
  rw [node?, if_neg (by simpa using h)]

theorem ne_nil_of_absent (h : t.node? l = none) : l ≠ [] := by
  rintro rfl
  cases h

/-- Nothing stands at a place that is not listed. -/
theorem node?_eq_none_iff : t.node? l = none ↔ l ≠ [] ∧ ∀ p ∈ t.nodes, p.1 ≠ l := by
  constructor
  · intro h
    have hl := ne_nil_of_absent h
    rw [node?_of_ne_nil hl, Option.map_eq_none_iff, List.find?_eq_none] at h
    exact ⟨hl, fun p hp => by simpa using h p hp⟩
  · rintro ⟨hl, h⟩
    rw [node?_of_ne_nil hl, Option.map_eq_none_iff, List.find?_eq_none]
    exact fun p hp => by simpa using h p hp

/-! ### Putting -/

theorem any_listed_iff : t.nodes.any (·.1 == l) = true ↔ ∃ p ∈ t.nodes, p.1 = l := by
  simp only [List.any_eq_true, beq_iff_eq]

theorem put_of_listed (h : ∃ p ∈ t.nodes, p.1 = l) :
    t.put l n = { t with nodes := t.nodes.map fun p => if p.1 = l then (l, n) else p } := by
  rw [put, if_pos (any_listed_iff.mpr h)]

theorem put_of_not_listed (h : ∀ p ∈ t.nodes, p.1 ≠ l) :
    t.put l n = { t with nodes := t.nodes ++ [(l, n)] } := by
  rw [put, if_neg fun hany => ?_]
  obtain ⟨p, hp, hpl⟩ := any_listed_iff.mp hany
  exact h p hp hpl

theorem put_home : (t.put l n).home = t.home := by
  unfold put
  split <;> rfl

theorem put_umask : (t.put l n).umask = t.umask := by
  unfold put
  split <;> rfl

/-- Replacing what stands at one place does not change which places are listed. -/
theorem find?_replaced (nodes : List (Location × Node)) :
    (nodes.map fun p => if p.1 = l then (l, n) else p).find? (·.1 == l') =
      (nodes.find? (·.1 == l')).map fun p => if p.1 = l then (l, n) else p := by
  rw [List.find?_map]
  congr 2
  funext p
  show ((if p.1 = l then (l, n) else p).1 == l') = (p.1 == l')
  split
  · next h => rw [h]
  · rfl

theorem node?_put_self (hl : l ≠ []) : (t.put l n).node? l = some n := by
  rw [node?_of_ne_nil hl]
  by_cases h : ∃ p ∈ t.nodes, p.1 = l
  · rw [put_of_listed h, find?_replaced]
    obtain ⟨p, hp⟩ : ∃ p, t.nodes.find? (·.1 == l) = some p := by
      rw [← Option.isSome_iff_exists, List.find?_isSome]
      simpa using h
    have hpl : p.1 = l := by simpa using List.find?_some hp
    rw [hp, Option.map_some, Option.map_some, if_pos hpl]
  · have hn : ∀ p ∈ t.nodes, p.1 ≠ l := fun p hp e => h ⟨p, hp, e⟩
    have hnone : t.nodes.find? (·.1 == l) = none :=
      List.find?_eq_none.mpr fun p hp => by simpa using hn p hp
    rw [put_of_not_listed hn, List.find?_append, hnone, Option.none_or,
      List.find?_cons_of_pos (by simp)]
    rfl

theorem node?_put_of_ne (h : l' ≠ l) : (t.put l n).node? l' = t.node? l' := by
  by_cases hl' : l' = []
  · subst hl'
    rfl
  rw [node?_of_ne_nil hl', node?_of_ne_nil hl']
  by_cases hlisted : ∃ p ∈ t.nodes, p.1 = l
  · rw [put_of_listed hlisted, find?_replaced]
    cases hf : t.nodes.find? (·.1 == l') with
    | none => rfl
    | some p =>
      have hp : p.1 = l' := by simpa using List.find?_some hf
      rw [Option.map_some, if_neg (by rw [hp]; exact h)]
  · rw [put_of_not_listed fun p hp e => hlisted ⟨p, hp, e⟩, List.find?_append,
      List.find?_cons_of_neg (by simpa using Ne.symm h), List.find?_nil, Option.or_none]

/-- What is put at a place is replaced by what is put there next. -/
theorem put_put : (t.put l n).put l n' = t.put l n' := by
  by_cases h : ∃ p ∈ t.nodes, p.1 = l
  · obtain ⟨p, hp, hpl⟩ := h
    rw [put_of_listed ⟨p, hp, hpl⟩, put_of_listed ⟨p, hp, hpl⟩, put_of_listed]
    · rw [FileTree.mk.injEq, List.map_map]
      refine ⟨List.map_congr_left fun q _ => ?_, rfl, rfl⟩
      by_cases hq : q.1 = l <;> simp [hq]
    · exact ⟨_, List.mem_map.mpr ⟨p, hp, rfl⟩, by rw [if_pos hpl]⟩
  · have hn : ∀ p ∈ t.nodes, p.1 ≠ l := fun p hp e => h ⟨p, hp, e⟩
    have hsame : t.nodes.map (fun p => if p.1 = l then (l, n') else p) = t.nodes := by
      rw [List.map_congr_left fun q hq => if_neg (hn q hq), List.map_id']
    rw [put_of_not_listed hn, put_of_not_listed hn, put_of_listed ⟨(l, n), by simp, rfl⟩,
      FileTree.mk.injEq, List.map_append, hsame, List.map_singleton, if_pos rfl]
    exact ⟨rfl, rfl, rfl⟩

theorem write_put_file {bytes new : List UInt8} {mode : Nat} (hl : l ≠ []) :
    (t.put l (.file bytes mode)).write l new = t.put l (.file new mode) := by
  rw [write, node?_put_self hl]
  exact put_put

theorem setMode_put_file {bytes : List UInt8} {mode new : Nat} (hl : l ≠ []) :
    (t.put l (.file bytes mode)).setMode l new = t.put l (.file bytes new) := by
  rw [setMode, node?_put_self hl]
  exact put_put

/-! ### Taking away -/

theorem node?_erase_self (hl : l ≠ []) : (t.erase l).node? l = none := by
  refine node?_eq_none_iff.mpr ⟨hl, fun p hp => ?_⟩
  simpa using (List.mem_filter.mp hp).2

theorem node?_erase_of_ne (h : l' ≠ l) : (t.erase l).node? l' = t.node? l' := by
  by_cases hl' : l' = []
  · subst hl'
    rfl
  rw [node?_of_ne_nil hl', node?_of_ne_nil hl', erase, List.find?_filter]
  congr 2
  funext p
  by_cases hp : p.1 = l'
  · simp [hp, h]
  · simp [hp]

/-- **What was put where nothing stood leaves no trace** when it is taken away again. -/
theorem erase_put (h : t.node? l = none) : (t.put l n).erase l = t := by
  obtain ⟨-, hn⟩ := node?_eq_none_iff.mp h
  rw [put_of_not_listed hn, erase, FileTree.mk.injEq, List.filter_append]
  refine ⟨?_, rfl, rfl⟩
  rw [List.filter_eq_self.mpr fun p hp => by simpa using hn p hp]
  simp

end FileTree

end GlyphRebase
