import GlyphRebase.Proofs.TreeOperations
import GlyphRebase.Rules.OfJson

/-!
# The shapes of rules

The JSON values that are read as rules: objects with a number for each of the three settings and
perhaps a policy, and arrays of these values in their order (`Rules.Shape`). What is read from them
are the rules with just these values (`Rules.ofJson_eq_ok_iff`), and from both shapes the same.
-/

namespace GlyphRebase

theorem mapM_some_eq_ok_iff {ε α β : Type} {f : α → Except ε β} {a : α} {b? : Option β} :
    (some a).mapM f = .ok b? ↔ ∃ b, f a = .ok b ∧ b? = some b := by
  rw [Option.mapM_some]
  cases f a with
  | error e => simp [Functor.map, Except.map]
  | ok b => simp [Functor.map, Except.map, eq_comm]

/-! ### Policies -/

namespace NegativePolicy

/-- What is read as a policy: its name, or an object that has this name as its only member, with
nothing as its value. -/
inductive Named : Json → NegativePolicy → Prop where
  | text (p : NegativePolicy) : Named (.text p.name) p
  | member (p : NegativePolicy) : Named (.object [(p.name, .null)]) p

/-- What is read where a policy may be left out. -/
inductive Given : Option Json → NegativePolicy → Prop where
  | absent : Given none .allow
  | present {j : Json} {p : NegativePolicy} (h : Named j p) : Given (some j) p

variable {p : NegativePolicy}

theorem named_eq_ok_iff {name : String} : named name = .ok p ↔ name = p.name := by
  unfold named
  constructor
  · intro h
    split at h
    · next hname =>
      cases h
      exact hname
    split at h
    · next hname =>
      cases h
      exact hname
    · cases h
  · rintro rfl
    cases p <;> rfl

theorem ofJson_eq_ok_iff {j : Json} : ofJson j = .ok p ↔ Named j p := by
  constructor
  · intro h
    unfold ofJson at h
    split at h
    · rw [named_eq_ok_iff] at h
      exact h ▸ .text p
    · next name value =>
      obtain ⟨p', hname, h⟩ := bind_eq_ok_iff.mp h
      rw [named_eq_ok_iff] at hname
      split at h
      · cases h
        exact hname ▸ .member p
      · cases h
    · cases h
    · cases h
  · rintro (_ | _) <;> cases p <;> rfl

/-- The policy is the given one, or to allow if none is given. -/
theorem given_iff {j? : Option Json} :
    Given j? p ↔ ∃ p?, j?.mapM ofJson = .ok p? ∧ p?.getD .allow = p := by
  cases j? with
  | none =>
    constructor
    · rintro ⟨⟩
      exact ⟨none, rfl, rfl⟩
    · rintro ⟨p?, h, rfl⟩
      cases h
      exact .absent
  | some j =>
    simp only [mapM_some_eq_ok_iff]
    constructor
    · rintro (_ | h)
      exact ⟨some p, ⟨p, ofJson_eq_ok_iff.mpr h, rfl⟩, rfl⟩
    · rintro ⟨_, ⟨p', h, rfl⟩, rfl⟩
      exact .present (ofJson_eq_ok_iff.mp h)

end NegativePolicy

/-! ### Numbers -/

theorem Json.toInt64_eq_ok_iff {j : Json} {k : Int64} :
    j.toInt64 = .ok k ↔ j = .integer k.toInt := by
  constructor
  · intro h
    unfold toInt64 at h
    split at h
    · split at h
      · next hfits =>
        cases h
        rw [Int64.toInt_minValue, Int64.toInt_maxValue] at hfits
        rw [Int64.toInt_ofInt_of_le (by omega) (by omega)]
      · cases h
    · cases h
  · rintro rfl
    have hfits : Int64.minValue.toInt ≤ k.toInt ∧ k.toInt ≤ Int64.maxValue.toInt :=
      ⟨k.minValue_le_toInt, k.toInt_le⟩
    rw [toInt64, if_pos hfits, Int64.ofInt_toInt]

namespace Rules

/-- A number that has to be there is there. -/
theorem required_toInt64_iff {j? : Option Json} (name : String) {k : Int64} :
    (∃ k?, j?.mapM Json.toInt64 = .ok k? ∧ required name k? = .ok k) ↔
      j? = some (.integer k.toInt) := by
  cases j? with
  | none =>
    constructor
    · rintro ⟨k?, h, hk⟩
      cases h
      cases hk
    · rintro ⟨⟩
  | some j =>
    simp only [mapM_some_eq_ok_iff, Json.toInt64_eq_ok_iff, Option.some.injEq]
    constructor
    · rintro ⟨_, ⟨k', rfl, rfl⟩, hk⟩
      cases hk
      rfl
    · rintro rfl
      exact ⟨some k, ⟨k, rfl, rfl⟩, rfl⟩

/-! ### Rules -/

/-- The values are those of the rules. -/
structure Values (special offset boundary : Json) (negative? : Option Json) (r : Rules) : Prop where
  special : special = .integer r.special.toInt
  offset : offset = .integer r.offset.toInt
  boundary : boundary = .integer r.boundary.toInt
  negative : NegativePolicy.Given negative? r.negative

/-- What is read as rules: an object that has the values as its members, whatever others it has, or
an array that has them as its elements, and no others. -/
inductive Shape : Json → Rules → Prop where
  | object {members : List (String × Json)} {special offset boundary : Json} {r : Rules}
      (hspecial : (Json.object members).member? "special_index" = some special)
      (hoffset : (Json.object members).member? "offset" = some offset)
      (hboundary : (Json.object members).member? "wrap_boundary" = some boundary)
      (hvalues : Values special offset boundary
        ((Json.object members).member? "negative_index") r) : Shape (.object members) r
  | list {special offset boundary : Json} {negative? : Option Json} {r : Rules}
      (hvalues : Values special offset boundary negative? r) :
      Shape (.list ([special, offset, boundary] ++ negative?.toList)) r

variable {j special offset boundary : Json} {r : Rules}

theorem ofMembers_eq_ok_iff :
    ofMembers j = .ok r ↔
      j.member? "special_index" = some (.integer r.special.toInt) ∧
        j.member? "offset" = some (.integer r.offset.toInt) ∧
        j.member? "wrap_boundary" = some (.integer r.boundary.toInt) ∧
        NegativePolicy.Given (j.member? "negative_index") r.negative := by
  rw [NegativePolicy.given_iff, ← required_toInt64_iff "special_index",
    ← required_toInt64_iff "offset", ← required_toInt64_iff "wrap_boundary", ofMembers]
  simp only [bind_eq_ok_iff]
  constructor
  · rintro ⟨negative?, hnegative, offset?, hoffset?, special?, hspecial?, boundary?, hboundary?,
      special, hspecial, offset, hoffset, boundary, hboundary, h⟩
    cases h
    exact ⟨⟨_, hspecial?, hspecial⟩, ⟨_, hoffset?, hoffset⟩, ⟨_, hboundary?, hboundary⟩,
      ⟨_, hnegative, rfl⟩⟩
  · rintro ⟨⟨_, hspecial?, hspecial⟩, ⟨_, hoffset?, hoffset⟩, ⟨_, hboundary?, hboundary⟩,
      ⟨_, hnegative?, hnegative⟩⟩
    refine ⟨_, hnegative?, _, hoffset?, _, hspecial?, _, hboundary?, _, hspecial, _, hoffset, _,
      hboundary, ?_⟩
    rw [hnegative]
    rfl

theorem ofElements_cons_eq_ok_iff {rest : List Json} :
    ofElements (special :: offset :: boundary :: rest) = .ok r ↔
      Values special offset boundary rest[0]? r ∧ rest.length ≤ 1 := by
  constructor
  · intro h
    obtain ⟨special', hspecial, h⟩ := bind_eq_ok_iff.mp h
    obtain ⟨offset', hoffset, h⟩ := bind_eq_ok_iff.mp h
    obtain ⟨boundary', hboundary, h⟩ := bind_eq_ok_iff.mp h
    obtain ⟨negative?, hnegative, h⟩ := bind_eq_ok_iff.mp h
    split at h
    · cases h
    · next hlength =>
      cases h
      refine ⟨⟨Json.toInt64_eq_ok_iff.mp hspecial, Json.toInt64_eq_ok_iff.mp hoffset,
        Json.toInt64_eq_ok_iff.mp hboundary, ?_⟩, by simpa using hlength⟩
      exact NegativePolicy.given_iff.mpr ⟨negative?, hnegative, rfl⟩
  · rintro ⟨⟨hspecial, hoffset, hboundary, hgiven⟩, hlength⟩
    obtain ⟨negative?, hnegative, hdefault⟩ := NegativePolicy.given_iff.mp hgiven
    refine bind_eq_ok_iff.mpr ⟨_, Json.toInt64_eq_ok_iff.mpr hspecial, ?_⟩
    refine bind_eq_ok_iff.mpr ⟨_, Json.toInt64_eq_ok_iff.mpr hoffset, ?_⟩
    refine bind_eq_ok_iff.mpr ⟨_, Json.toInt64_eq_ok_iff.mpr hboundary, ?_⟩
    refine bind_eq_ok_iff.mpr ⟨_, hnegative, ?_⟩
    rw [if_neg (by simpa using hlength), hdefault]
    rfl

/-- With fewer than three elements, the first that is missing is missed. -/
theorem ofElements_of_short {items : List Json} (h : items.length < 3) :
    ofElements items ≠ .ok r := by
  intro hread
  rcases items with _ | ⟨special, _ | ⟨offset, _ | _⟩⟩
  · cases hread
  · obtain ⟨_, -, hread⟩ := bind_eq_ok_iff.mp hread
    cases hread
  · obtain ⟨_, -, hread⟩ := bind_eq_ok_iff.mp hread
    obtain ⟨_, -, hread⟩ := bind_eq_ok_iff.mp hread
    cases hread
  · simp only [List.length_cons] at h
    omega

theorem shape_of_ofElements {items : List Json} (h : ofElements items = .ok r) :
    Shape (.list items) r := by
  rcases items with _ | ⟨special, _ | ⟨offset, _ | ⟨boundary, rest⟩⟩⟩
  iterate 3 exact absurd h (ofElements_of_short (by simp))
  obtain ⟨hvalues, hlength⟩ := ofElements_cons_eq_ok_iff.mp h
  rcases rest with _ | ⟨negative, _ | _⟩
  · exact @Shape.list _ _ _ none r hvalues
  · exact @Shape.list _ _ _ (some negative) r hvalues
  · simp at hlength

/-- **Rules are read from the values of their shapes**, and from nothing else. -/
theorem ofJson_eq_ok_iff : ofJson j = .ok r ↔ Shape j r := by
  constructor
  · intro h
    cases j with
    | object members =>
      obtain ⟨hspecial, hoffset, hboundary, hnegative⟩ := ofMembers_eq_ok_iff.mp h
      exact .object hspecial hoffset hboundary ⟨rfl, rfl, rfl, hnegative⟩
    | list items => exact shape_of_ofElements h
    | null | boolean | integer | float | text => cases h
  · intro h
    cases h with
    | object hspecial hoffset hboundary hvalues =>
      obtain ⟨rfl, rfl, rfl, hnegative⟩ := hvalues
      exact ofMembers_eq_ok_iff.mpr ⟨hspecial, hoffset, hboundary, hnegative⟩
    | @list _ _ _ negative? _ hvalues =>
      refine ofElements_cons_eq_ok_iff.mpr ?_
      cases negative? <;> exact ⟨hvalues, by simp⟩

theorem shape_object_iff {members : List (String × Json)}
    (hspecial : (Json.object members).member? "special_index" = some special)
    (hoffset : (Json.object members).member? "offset" = some offset)
    (hboundary : (Json.object members).member? "wrap_boundary" = some boundary) :
    Shape (.object members) r ↔
      Values special offset boundary ((Json.object members).member? "negative_index") r := by
  constructor
  · rintro ⟨hspecial', hoffset', hboundary', hvalues⟩
    rw [hspecial] at hspecial'
    rw [hoffset] at hoffset'
    rw [hboundary] at hboundary'
    cases hspecial'
    cases hoffset'
    cases hboundary'
    exact hvalues
  · intro hvalues
    exact .object hspecial hoffset hboundary hvalues

theorem shape_list_iff {negative? : Option Json} :
    Shape (.list ([special, offset, boundary] ++ negative?.toList)) r ↔
      Values special offset boundary negative? r := by
  constructor
  · intro h
    generalize hj : Json.list ([special, offset, boundary] ++ negative?.toList) = j at h
    cases h with
    | object => cases hj
    | @list special' offset' boundary' negative?' _ hvalues =>
      cases negative? <;> cases negative?' <;> cases hj <;> exact hvalues
  · intro hvalues
    exact .list hvalues

/-- An object is read by four of its members. -/
theorem member?_append_cons {before after : List (String × Json)} {name other : String}
    {value : Json} (h : name ≠ other) :
    (Json.object (before ++ (name, value) :: after)).member? other =
      (Json.object (before ++ after)).member? other := by
  simp [Json.member?, List.find?_append, h]

theorem ofJson_of_further_member {before after : List (String × Json)} {name : String}
    (value : Json) (h : name ∉ ["special_index", "offset", "wrap_boundary", "negative_index"]) :
    ofJson (.object (before ++ (name, value) :: after)) = ofJson (.object (before ++ after)) := by
  simp only [List.mem_cons, List.not_mem_nil, or_false, not_or] at h
  obtain ⟨hspecial, hoffset, hboundary, hnegative⟩ := h
  simp only [ofJson, ofMembers, member?_append_cons hspecial, member?_append_cons hoffset,
    member?_append_cons hboundary, member?_append_cons hnegative]

/-- **Both shapes of rules are read exactly.**

A value is read as rules just if it has one of the shapes, and then as the rules with its values;
every other value is refused. An object that has the three numbers is read as the array of its
values is, and further members change nothing. -/
theorem ofJson_exact :
    (∀ j r, ofJson j = .ok r ↔ Shape j r) ∧
    (∀ j, (∃ misfit, ofJson j = .error misfit) ↔ ∀ r, ¬Shape j r) ∧
    (∀ (members : List (String × Json)) (special offset boundary : Json) (r : Rules),
      (Json.object members).member? "special_index" = some special →
      (Json.object members).member? "offset" = some offset →
      (Json.object members).member? "wrap_boundary" = some boundary →
        (ofJson (.object members) = .ok r ↔
          ofJson (.list ([special, offset, boundary] ++
            ((Json.object members).member? "negative_index").toList)) = .ok r)) ∧
    ∀ (before after : List (String × Json)) (name : String) (value : Json),
      name ∉ ["special_index", "offset", "wrap_boundary", "negative_index"] →
        ofJson (.object (before ++ (name, value) :: after)) =
          ofJson (.object (before ++ after)) := by
  refine ⟨fun j r => ofJson_eq_ok_iff, fun j => ?_, ?_, ?_⟩
  · cases hread : ofJson j with
    | error misfit =>
      refine iff_of_true ⟨misfit, rfl⟩ fun r hr => ?_
      rw [ofJson_eq_ok_iff.mpr hr] at hread
      cases hread
    | ok r => exact iff_of_false nofun fun hno => hno r (ofJson_eq_ok_iff.mp hread)
  · intro members special offset boundary r hspecial hoffset hboundary
    rw [ofJson_eq_ok_iff, ofJson_eq_ok_iff, shape_object_iff hspecial hoffset hboundary,
      shape_list_iff]
  · intro before after name value h
    exact ofJson_of_further_member value h

/-- The ends of the 64 bits are read from both shapes, and the policy as an object; one number
beyond is refused, and nothing is no policy. -/
theorem ofJson_exact_at_ends :
    let least := Json.integer (-9223372036854775808)
    let largest := Json.integer 9223372036854775807
    let beyond := Json.integer 9223372036854775808
    let policy := Json.object [("reject", .null)]
    let front := [("special_index", least), ("offset", largest)]
    let behind := [("wrap_boundary", .integer 1), ("negative_index", policy)]
    let r : Rules := ⟨Int64.minValue, Int64.maxValue, 1, .reject⟩
    ofJson (.list [least, largest, .integer 1, policy]) = .ok r ∧
      ofJson (.object (front ++ ("note", .text "16 bits") :: behind)) = .ok r ∧
      (∃ misfit, ofJson (.list [least, beyond, .integer 1]) = .error misfit) ∧
      ∃ misfit, ofJson (.list [least, largest, .integer 1, .null]) = .error misfit := by
  intro least largest beyond policy front behind r
  obtain ⟨hread, hrefused, hboth, hfurther⟩ := ofJson_exact
  have hvalues : Values least largest (.integer 1) (some policy) r :=
    ⟨rfl, rfl, rfl, .present (.member .reject)⟩
  have hlist : ofJson (.list [least, largest, .integer 1, policy]) = .ok r :=
    (hread _ _).mpr (.list hvalues)
  have hobject := (hboth (front ++ behind) least largest (.integer 1) r rfl rfl rfl).mpr hlist
  refine ⟨hlist, (hfurther front behind "note" _ (by decide)).trans hobject, ?_, ?_⟩
  · refine (hrefused _).mpr fun r hr => ?_
    have hvalues : Values least beyond (.integer 1) none r := shape_list_iff.mp hr
    have hlarge := Json.integer.inj hvalues.offset
    have := r.offset.toInt_lt
    omega
  · refine (hrefused _).mpr fun r hr => ?_
    have hvalues : Values least largest (.integer 1) (some .null) r := shape_list_iff.mp hr
    cases hvalues.negative with
    | present h => cases h

end Rules

end GlyphRebase
