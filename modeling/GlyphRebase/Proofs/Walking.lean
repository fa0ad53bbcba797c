import GlyphRebase.Proofs.TreeOperations

/-!
# Walking along paths

`FileTree.Walks` is the relation between a path and the place it leads to, with one constructor for
each way in which a walk goes on; `walk_eq_ok_iff` says that the walk of a file tree computes it. A
walk sees of the tree only whether it may enter a place or follow a link there
(`FileTree.passage`), so it leads to the same place in any two trees that agree in this.

What a purpose changes is the end of the walk. `place_look_of_named` and `exists_place_replace` say
how the walks for two purposes compare, and `read_put_file_iff` what they come to together: a file
that was put at the end of a path is what the path leads to, unless the path goes through the very
link that the file replaced.
-/

namespace GlyphRebase

namespace FileTree

variable {t t' : FileTree} {purpose : Purpose}

/-! ### What a walk sees -/

/-- How a walk may go on from a place. -/
inductive Passage where
  /-- There is a directory to enter. -/
  | enter
  /-- There is a link to follow. -/
  | follow (target : String)
  /-- There is neither. -/
  | stop
  deriving DecidableEq, Repr

/-- How a walk may go on from a place in a tree. -/
def passage (t : FileTree) (l : Location) : Passage :=
  match t.node? l with
  | some (.directory _) => .enter
  | some (.link target) => .follow target
  | _ => .stop

theorem passage_of_absent {l : Location} (h : t.node? l = none) : t.passage l = .stop := by
  rw [passage, h]

theorem passage_of_file {l : Location} {bytes : List UInt8} {mode : Nat}
    (h : t.node? l = some (.file bytes mode)) : t.passage l = .stop := by
  rw [passage, h]

/-- The walk comes to a name, and looks at what stands there. -/
structure LooksAt (purpose : Purpose) (slashed : Bool) (name : String) (rest : List String) :
    Prop where
  proper : name ≠ "." ∧ name ≠ ".."
  unmade : ¬(rest = [] ∧ slashed = true ∧ purpose = .create)
  fits : name.utf8ByteSize ≤ Path.longestName

/-- Where a walk leads, through so many links at most. -/
inductive Walks (t : FileTree) (purpose : Purpose) :
    Nat → Location → List String → Bool → Place → Prop
  | arrived {links here slashed} : Walks t purpose links here [] slashed (.directory here)
  | stay {links here rest slashed p} :
    Walks t purpose links here rest slashed p → Walks t purpose links here ("." :: rest) slashed p
  | up {links here rest slashed p} :
    Walks t purpose links here.dropLast rest slashed p →
      Walks t purpose links here (".." :: rest) slashed p
  | made {links here name} :
    name ≠ "." ∧ name ≠ ".." → purpose = .create →
      Walks t purpose links here [name] true (.named here name true)
  | ended {links here name slashed} :
    LooksAt purpose slashed name [] →
      (∀ target, t.passage (here ++ [name]) = .follow target → purpose = .replace) →
      Walks t purpose links here [name] slashed (.named here name slashed)
  | enter {links here name rest slashed p} :
    LooksAt purpose slashed name rest → rest ≠ [] → t.passage (here ++ [name]) = .enter →
      Walks t purpose links (here ++ [name]) rest slashed p →
      Walks t purpose links here (name :: rest) slashed p
  | follow {links here name rest slashed target p} :
    LooksAt purpose slashed name rest → ¬(rest = [] ∧ purpose = .replace) →
      t.passage (here ++ [name]) = .follow target →
      Walks t purpose links (if (Path.ofText target).absolute then [] else here)
        ((Path.ofText target).names ++ rest)
        (slashed || rest.isEmpty && (Path.ofText target).slashed) p →
      Walks t purpose (links + 1) here (name :: rest) slashed p

/-- The walk that goes on after a link, if one more may be followed. -/
def walkOn (t : FileTree) (purpose : Purpose) :
    Nat → Location → List String → Bool → Except FileFault Place
  | 0, _, _, _ => .error .tooManyLinks
  | links + 1, here, names, slashed => walk t purpose links here names slashed

theorem walk_eq_walkWith (links : Nat) (here : Location) (names : List String) (slashed : Bool) :
    walk t purpose links here names slashed =
      walkWith t purpose (walkOn t purpose links) slashed here names := by
  cases links <;> rfl

/-- At a name that the walk looks at, it goes on as the passage there tells. -/
theorem walkWith_of_looksAt {follow : Location → List String → Bool → Except FileFault Place}
    {slashed : Bool} {here : Location} {name : String} {rest : List String}
    (h : LooksAt purpose slashed name rest) :
    walkWith t purpose follow slashed here (name :: rest) =
      match t.passage (here ++ [name]) with
      | .follow target =>
        if rest.isEmpty ∧ purpose = .replace then .ok (.named here name slashed)
        else follow (if (Path.ofText target).absolute then [] else here)
          ((Path.ofText target).names ++ rest)
          (slashed || rest.isEmpty && (Path.ofText target).slashed)
      | .enter =>
        if rest.isEmpty then .ok (.named here name slashed)
        else walkWith t purpose follow slashed (here ++ [name]) rest
      | .stop =>
        if rest.isEmpty then .ok (.named here name slashed)
        else .error (if (t.node? (here ++ [name])).isNone then .noEntry else .notDirectory) := by
  have hunmade : ¬(rest.isEmpty = true ∧ slashed = true ∧ purpose = .create) := by
    simpa using h.unmade
  rw [walkWith, if_neg h.proper.1, if_neg h.proper.2, if_neg hunmade,
    if_neg (Nat.not_lt.mpr h.fits), passage]
  cases hn : t.node? (here ++ [name]) with
  | none => rfl
  | some n => cases n <;> rfl

/-- The names are walked along one by one, if what lies beyond a link is. -/
theorem walks_of_walkWith {links : Nat}
    (hon : ∀ here names slashed p, walkOn t purpose links here names slashed = .ok p →
      ∃ k, links = k + 1 ∧ Walks t purpose k here names slashed p)
    {slashed : Bool} {here : Location} {names : List String} {p : Place}
    (h : walkWith t purpose (walkOn t purpose links) slashed here names = .ok p) :
    Walks t purpose links here names slashed p := by
  induction names generalizing here with
  | nil => cases h; exact .arrived
  | cons name rest ih =>
    by_cases hdot : name = "."
    · subst hdot
      exact .stay (ih h)
    by_cases hup : name = ".."
    · subst hup
      exact .up (ih h)
    by_cases hmade : rest = [] ∧ slashed = true ∧ purpose = .create
    · obtain ⟨rfl, rfl, rfl⟩ := hmade
      rw [walkWith, if_neg hdot, if_neg hup, if_pos (by simp)] at h
      cases h
      exact .made ⟨hdot, hup⟩ rfl
    by_cases hlong : Path.longestName < name.utf8ByteSize
    · rw [walkWith, if_neg hdot, if_neg hup, if_neg (by simpa using hmade), if_pos hlong] at h
      cases h
    have hlooks : LooksAt purpose slashed name rest := ⟨⟨hdot, hup⟩, hmade, Nat.not_lt.mp hlong⟩
    rw [walkWith_of_looksAt hlooks] at h
    cases hpass : t.passage (here ++ [name]) with
    | follow target =>
      simp only [hpass, List.isEmpty_iff] at h
      by_cases hend : rest = [] ∧ purpose = .replace
      · rw [if_pos hend] at h
        cases h
        obtain ⟨rfl, hreplace⟩ := hend
        exact .ended hlooks fun _ _ => hreplace
      · rw [if_neg hend] at h
        obtain ⟨k, rfl, hk⟩ := hon _ _ _ _ h
        exact .follow hlooks hend hpass hk
    | enter =>
      simp only [hpass, List.isEmpty_iff] at h
      by_cases hend : rest = []
      · rw [if_pos hend] at h
        cases h
        subst hend
        exact .ended hlooks fun target ht => by rw [hpass] at ht; cases ht
      · rw [if_neg hend] at h
        exact .enter hlooks hend hpass (ih h)
    | stop =>
      simp only [hpass, List.isEmpty_iff] at h
      by_cases hend : rest = []
      · rw [if_pos hend] at h
        cases h
        subst hend
        exact .ended hlooks fun target ht => by rw [hpass] at ht; cases ht
      · rw [if_neg hend] at h
        cases h

theorem walks_of_walk {links : Nat} {here : Location} {names : List String} {slashed : Bool}
    {p : Place} (h : walk t purpose links here names slashed = .ok p) :
    Walks t purpose links here names slashed p := by
  induction links generalizing here names slashed p with
  | zero =>
    rw [walk_eq_walkWith] at h
    exact walks_of_walkWith (fun _ _ _ _ h => by cases h) h
  | succ links ih =>
    rw [walk_eq_walkWith] at h
    exact walks_of_walkWith (fun _ _ _ _ h => ⟨links, rfl, ih h⟩) h

theorem walk_of_walks {links : Nat} {here : Location} {names : List String} {slashed : Bool}
    {p : Place} (h : Walks t purpose links here names slashed p) :
    walk t purpose links here names slashed = .ok p := by
  induction h with
  | arrived => rw [walk_eq_walkWith, walkWith]
  | stay _ ih =>
    rw [walk_eq_walkWith] at ih ⊢
    exact ih
  | up _ ih =>
    rw [walk_eq_walkWith] at ih ⊢
    exact ih
  | made hname hcreate =>
    rw [walk_eq_walkWith, walkWith, if_neg hname.1, if_neg hname.2, if_pos (by simp [hcreate])]
  | @ended links here name slashed hlooks hend =>
    rw [walk_eq_walkWith, walkWith_of_looksAt hlooks]
    cases hpass : t.passage (here ++ [name]) with
    | follow target => exact if_pos ⟨rfl, hend target hpass⟩
    | enter => rfl
    | stop => rfl
  | enter hlooks hne hpass _ ih =>
    rw [walk_eq_walkWith] at ih ⊢
    rw [walkWith_of_looksAt hlooks, hpass]
    exact (if_neg (by simpa using hne)).trans ih
  | follow hlooks hne hpass _ ih =>
    rw [walk_eq_walkWith, walkWith_of_looksAt hlooks, hpass]
    exact (if_neg (by simpa using hne)).trans ih

/-- **The walk of a file tree** leads where the relation says. -/
theorem walk_eq_ok_iff {links : Nat} {here : Location} {names : List String} {slashed : Bool}
    {p : Place} :
    walk t purpose links here names slashed = .ok p ↔ Walks t purpose links here names slashed p :=
  ⟨walks_of_walk, walk_of_walks⟩

theorem place_eq_ok_iff {path : String} {p : Place} :
    t.place purpose path = .ok p ↔ ∃ q, Path.parse path = .ok q ∧
      Walks t purpose mostLinks (if q.absolute then [] else t.home) q.names q.slashed p := by
  rw [place, bind_eq_ok_iff]
  exact exists_congr fun q => and_congr_right fun _ => walk_eq_ok_iff

/-! ### Walks in two trees -/

/-- A walk leads to the same place in a tree that differs only where the walk, if it came there,
would end. -/
theorem Walks.mono (h : ∀ l, t'.passage l = t.passage l ∨ t.passage l = .stop ∧ purpose = .replace)
    {links : Nat} {here : Location} {names : List String} {slashed : Bool} {p : Place}
    (hw : Walks t purpose links here names slashed p) :
    Walks t' purpose links here names slashed p := by
  induction hw with
  | arrived => exact .arrived
  | stay _ ih => exact .stay ih
  | up _ ih => exact .up ih
  | made hname hcreate => exact .made hname hcreate
  | @ended _ here name _ hlooks hend =>
    refine .ended hlooks fun target ht => ?_
    rcases h (here ++ [name]) with heq | ⟨-, hreplace⟩
    · exact hend target (heq ▸ ht)
    · exact hreplace
  | @enter _ here name _ _ _ hlooks hne hpass _ ih =>
    refine .enter hlooks hne ?_ ih
    rcases h (here ++ [name]) with heq | ⟨hstop, -⟩
    · exact heq.trans hpass
    · rw [hpass] at hstop
      cases hstop
  | @follow _ here name _ _ _ _ hlooks hne hpass _ ih =>
    refine .follow hlooks hne ?_ ih
    rcases h (here ++ [name]) with heq | ⟨hstop, -⟩
    · exact heq.trans hpass
    · rw [hpass] at hstop
      cases hstop

theorem place_mono {path : String} {p : Place} (hhome : t'.home = t.home)
    (h : ∀ l, t'.passage l = t.passage l ∨ t.passage l = .stop ∧ purpose = .replace)
    (hp : t.place purpose path = .ok p) : t'.place purpose path = .ok p := by
  obtain ⟨q, hq, hw⟩ := place_eq_ok_iff.mp hp
  refine place_eq_ok_iff.mpr ⟨q, hq, ?_⟩
  rw [hhome]
  exact hw.mono h

/-- A path leads to the same place in trees that a walk cannot tell apart. -/
theorem place_congr {t t' : FileTree} {path : String} {p : Place} (hhome : t'.home = t.home)
    (h : ∀ l, t'.passage l = t.passage l) :
    t'.place purpose path = .ok p ↔ t.place purpose path = .ok p :=
  ⟨place_mono hhome.symm fun l => .inl (h l).symm, place_mono hhome fun l => .inl (h l)⟩

/-- A file in the place of a file, or of nothing, is not noticed by a walk. -/
theorem passage_put_file {l l' : Location} {bytes : List UInt8} {mode : Nat} (hl : l ≠ [])
    (h : t.passage l = .stop) : (t.put l (.file bytes mode)).passage l' = t.passage l' := by
  by_cases hl' : l' = l
  · subst hl'
    rw [h, passage_of_file (node?_put_self hl)]
  · rw [passage, node?_put_of_ne hl', passage]

theorem passage_erase_of_ne {l l' : Location} (h : l' ≠ l) :
    (t.erase l).passage l' = t.passage l' := by
  rw [passage, node?_erase_of_ne h, passage]

/-! ### Walks for two purposes -/

theorem LooksAt.change {other : Purpose} {slashed : Bool} {name : String} {rest : List String}
    (h : LooksAt purpose slashed name rest) (hother : other ≠ .create) :
    LooksAt other slashed name rest :=
  ⟨h.proper, fun hmade => hother hmade.2.2, h.fits⟩

/-- A walk that ends at a name, where there is no link, ends there for whatever purpose. -/
theorem Walks.for_look {links : Nat} {here dir : Location} {names : List String} {slashed : Bool}
    {name : String} (hlink : ∀ target, t.passage (dir ++ [name]) ≠ .follow target)
    (h : Walks t purpose links here names slashed (.named dir name false)) :
    Walks t .look links here names slashed (.named dir name false) := by
  generalize hp : Place.named dir name false = p at h
  induction h with
  | arrived => cases hp
  | stay _ ih => exact .stay (ih hp)
  | up _ ih => exact .up (ih hp)
  | made => cases hp
  | ended hlooks _ =>
    cases hp
    exact .ended (hlooks.change nofun) fun target ht => absurd ht (hlink target)
  | enter hlooks hne hpass _ ih => exact .enter (hlooks.change nofun) hne hpass (ih hp)
  | follow hlooks _ hpass _ ih => exact .follow (hlooks.change nofun) (by simp) hpass (ih hp)

/-- Where there is something to find, there is something to replace. -/
theorem Walks.exists_replace {links : Nat} {here : Location} {names : List String} {slashed : Bool}
    {p : Place} (h : Walks t .look links here names slashed p) :
    ∃ q, Walks t .replace links here names slashed q := by
  induction h with
  | arrived => exact ⟨_, .arrived⟩
  | stay _ ih => exact ih.imp fun _ => .stay
  | up _ ih => exact ih.imp fun _ => .up
  | made _ hcreate => cases hcreate
  | ended hlooks _ => exact ⟨_, .ended (hlooks.change nofun) fun _ _ => rfl⟩
  | enter hlooks hne hpass _ ih => exact ih.imp fun _ => .enter (hlooks.change nofun) hne hpass
  | @follow _ here name rest _ _ _ hlooks _ hpass _ ih =>
    by_cases hend : rest = []
    · subst hend
      exact ⟨_, .ended (hlooks.change nofun) fun _ _ => rfl⟩
    · exact ih.imp fun _ => .follow (hlooks.change nofun) (fun h => hend h.1) hpass

theorem place_look_of_named {path : String} {dir : Location} {name : String}
    (hlink : ∀ target, t.passage (dir ++ [name]) ≠ .follow target)
    (h : t.place purpose path = .ok (.named dir name false)) :
    t.place .look path = .ok (.named dir name false) := by
  obtain ⟨q, hq, hw⟩ := place_eq_ok_iff.mp h
  exact place_eq_ok_iff.mpr ⟨q, hq, hw.for_look hlink⟩

theorem exists_place_replace {path : String} {p : Place} (h : t.place .look path = .ok p) :
    ∃ q, t.place .replace path = .ok q := by
  obtain ⟨q, hq, hw⟩ := place_eq_ok_iff.mp h
  exact hw.exists_replace.imp fun _ hr => place_eq_ok_iff.mpr ⟨q, hq, hr⟩

/-! ### Reading back -/

/-- A path leads to a file with these bytes and permission bits. -/
def LeadsToFile (t : FileTree) (path : String) (bytes : List UInt8) (mode : Nat) : Prop :=
  ∃ l, t.look path = .ok l ∧ t.node? l = some (.file bytes mode)

theorem LeadsToFile.read {path : String} {bytes : List UInt8} {mode : Nat}
    (h : t.LeadsToFile path bytes mode) : t.read path = .ok bytes := by
  obtain ⟨l, hlook, hn⟩ := h
  exact read_eq_ok_iff.mpr ⟨l, mode, hlook, hn⟩

theorem LeadsToFile.mode? {path : String} {bytes : List UInt8} {mode : Nat}
    (h : t.LeadsToFile path bytes mode) : t.mode? path = some mode := by
  obtain ⟨l, hlook, hn⟩ := h
  simp only [FileTree.mode?, hlook, Except.toOption, Option.bind_some, hn]

/-- A file that stands at the end of a path is what the path leads to. -/
theorem leadsToFile_of_place {path : String} {dir : Location} {name : String} {bytes : List UInt8}
    {mode : Nat} (h : t.place purpose path = .ok (.named dir name false))
    (hn : t.node? (dir ++ [name]) = some (.file bytes mode)) : t.LeadsToFile path bytes mode := by
  have hlook := place_look_of_named
    (fun target ht => by rw [passage_of_file hn] at ht; cases ht) h
  exact ⟨_, look_eq_ok_iff.mpr ⟨_, _, hlook, rfl, hn, nofun⟩, hn⟩

/-- A path at whose end a file is made leads to what is found there. -/
theorem look_eq_ok_iff_of_create {path : String} {dir l : Location} {name : String} {n : Node}
    (h : t.place .create path = .ok (.named dir name false))
    (hstop : t.passage (dir ++ [name]) = .stop) (hn : t.node? l = some n) :
    t.look path = .ok l ↔ l = dir ++ [name] := by
  have hlook := place_look_of_named (fun target ht => by rw [hstop] at ht; cases ht) h
  rw [look_eq_ok_iff]
  constructor
  · rintro ⟨p, _, hp, rfl, -⟩
    rw [hlook] at hp
    cases hp
    rfl
  · rintro rfl
    exact ⟨_, n, hlook, rfl, hn, nofun⟩

/-- A file that was made at the end of a path is what the path leads to. -/
theorem leadsToFile_put_of_create {path : String} {dir : Location} {name : String}
    {bytes : List UInt8} {mode : Nat} (h : t.place .create path = .ok (.named dir name false))
    (hstop : t.passage (dir ++ [name]) = .stop) :
    (t.put (dir ++ [name]) (.file bytes mode)).LeadsToFile path bytes mode := by
  have hl : dir ++ [name] ≠ [] := by simp
  have hplace : (t.put (dir ++ [name]) (.file bytes mode)).place .create path =
      .ok (.named dir name false) :=
    (place_congr put_home fun _ => passage_put_file hl hstop).mpr h
  exact leadsToFile_of_place hplace (node?_put_self hl)

/-- Does a path go through the very link that it names? Then it leads nowhere any more once the
link is gone. -/
def goesThroughItsEnd (t : FileTree) (path : String) : Bool :=
  match t.place .replace path with
  | .ok p => !((t.erase p.location).place .replace path).toBool
  | .error _ => false

theorem goesThroughItsEnd_eq_false_iff {path : String} {p : Place}
    (h : t.place .replace path = .ok p) :
    t.goesThroughItsEnd path = false ↔ ∃ q, (t.erase p.location).place .replace path = .ok q := by
  rw [goesThroughItsEnd, h]
  cases hq : (t.erase p.location).place .replace path with
  | error e => simp [hq, Except.toBool]
  | ok q => simp [hq, Except.toBool]

/-- A path that leads somewhere to replace what is there, with something taken away, led there
before. -/
theorem place_of_erase {l : Location} {path : String} {p : Place} (hl : l ≠ [])
    (h : (t.erase l).place .replace path = .ok p) : t.place .replace path = .ok p := by
  refine place_mono (t := t.erase l) rfl (fun l' => ?_) h
  by_cases hll : l' = l
  · subst hll
    exact .inr ⟨passage_of_absent (node?_erase_self hl), rfl⟩
  · exact .inl (passage_erase_of_ne hll).symm

/-- A walk cannot tell whether there is a file at a place, or nothing. -/
theorem place_put_file_iff_erase {l : Location} {bytes : List UInt8} {mode : Nat} {path : String}
    {p : Place} (hl : l ≠ []) :
    (t.put l (.file bytes mode)).place purpose path = .ok p ↔
      (t.erase l).place purpose path = .ok p := by
  refine place_congr (t := t.erase l) put_home fun l' => ?_
  by_cases hll : l' = l
  · subst hll
    rw [passage_of_file (node?_put_self hl), passage_of_absent (node?_erase_self hl)]
  · rw [passage_erase_of_ne hll, passage, node?_put_of_ne hll, passage]

/-- A file that was put at the end of a path is what the path leads to, if the path leads there
also without what the file replaced. -/
theorem leadsToFile_put_of_erase {path : String} {dir : Location} {name : String}
    {bytes : List UInt8} {mode : Nat} {p : Place}
    (h : t.place .replace path = .ok (.named dir name false))
    (hp : (t.erase (dir ++ [name])).place .replace path = .ok p) :
    (t.put (dir ++ [name]) (.file bytes mode)).LeadsToFile path bytes mode := by
  have hl : dir ++ [name] ≠ [] := by simp
  have hsame := place_of_erase hl hp
  rw [h] at hsame
  cases hsame
  exact leadsToFile_of_place ((place_put_file_iff_erase hl).mpr hp) (node?_put_self hl)

/-- **A file that was put at the end of a path** is what is read there, unless the path goes through
the very link that the file replaced; then nothing is read there. -/
theorem read_put_file_iff {path : String} {dir : Location} {name : String}
    {bytes read : List UInt8} {mode : Nat}
    (h : t.place .replace path = .ok (.named dir name false)) :
    (t.put (dir ++ [name]) (.file bytes mode)).read path = .ok read ↔
      read = bytes ∧ t.goesThroughItsEnd path = false := by
  have hl : dir ++ [name] ≠ [] := by simp
  have hback : (∃ q, (t.erase (dir ++ [name])).place .replace path = .ok q) →
      (t.put (dir ++ [name]) (.file bytes mode)).read path = .ok bytes :=
    fun ⟨q, hq⟩ => (leadsToFile_put_of_erase h hq).read
  rw [goesThroughItsEnd_eq_false_iff h]
  constructor
  · intro hread
    obtain ⟨l, _, hlook, -⟩ := read_eq_ok_iff.mp hread
    obtain ⟨p, _, hplace, -⟩ := look_eq_ok_iff.mp hlook
    have hq := exists_place_replace ((place_put_file_iff_erase hl).mp hplace)
    have hbytes := hback hq
    rw [hread] at hbytes
    cases hbytes
    exact ⟨rfl, hq⟩
  · rintro ⟨rfl, hq⟩
    exact hback hq

/-- The link `l` leads to a directory, and `l/../l` leads back to it. -/
example : goesThroughItsEnd ⟨[(["d"], .directory 0o755), (["l"], .link "d")], [], 0o022⟩ "l/../l" =
    true := by
  decide +kernel

end FileTree

end GlyphRebase
