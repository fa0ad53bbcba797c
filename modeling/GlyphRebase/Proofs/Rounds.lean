import GlyphRebase.Proofs.Lines

/-!
# Rounds of reading for a line

A reader reads for a line in rounds. In each of them the source shows the bytes that it has ready,
the reader looks in these for the end of the line, holds what belongs to the line, and has the
source consume so many of the bytes shown.

## The model

`look` finds the end of the line by its position, and takes bytes by their positions: a position
behind the last byte, a copy of more bytes than there are, and the consumption of more bytes than
are ready are each a `Breach`, which ends everything. `LineReader.round` is one round, and `Turn`
lists what it may come to: with the bytes shown it does what `Source.cut` tells, and there is no
breach, as long as what is held settles the end of no line (`exists_turn`).
-/

namespace GlyphRebase

/-- An access to bytes that are not there. -/
inductive Breach where
  /-- A byte is looked at behind the last one. -/
  | index (position length : Nat)
  /-- More bytes are copied than there are. -/
  | slice (count length : Nat)
  /-- More bytes are consumed than are ready. -/
  | consume (count length : Nat)
  deriving DecidableEq, Repr

/-- The byte at a position. -/
def byteAt (bytes : List UInt8) (position : Nat) : Except Breach UInt8 :=
  match bytes[position]? with
  | some b => .ok b
  | none => .error (.index position bytes.length)

/-- So many bytes from the front. -/
def firstBytes (bytes : List UInt8) (count : Nat) : Except Breach (List UInt8) :=
  if count ≤ bytes.length then .ok (bytes.take count) else .error (.slice count bytes.length)

/-- What a reader does with the bytes that it is shown. -/
structure Move where
  /-- The bytes that it holds from now on. -/
  held : List UInt8
  /-- How many bytes it has the source consume, if it asks for that at all. -/
  used? : Option Nat
  /-- Whether it holds a line, if it returns. -/
  returned? : Option Bool
  deriving DecidableEq, Repr

/-- Looks for the end of the line in the bytes shown, after the bytes held. If no bytes are shown,
the input ends. -/
def look (held shown : List UInt8) : Except Breach Move :=
  if shown.isEmpty then
    if held.getLast? = some carriageReturn then .ok ⟨held.dropLast, none, some true⟩
    else .ok ⟨held, none, some (!held.isEmpty)⟩
  else if held.getLast? = some carriageReturn then do
    -- only now it is known what follows the carriage return
    let next ← byteAt shown 0
    .ok ⟨held.dropLast, if next = lineFeed then some 1 else none, some true⟩
  else
    match shown.findIdx? endsLine with
    | none => .ok ⟨held ++ shown, some shown.length, none⟩
    | some position => do
      let b ← byteAt shown position
      if b = lineFeed then
        let text ← firstBytes shown position
        .ok ⟨held ++ text, some (position + 1), some true⟩
      else
        match shown[position + 1]? with
        | some next =>
          let text ← firstBytes shown position
          let used := if next = lineFeed then position + 2 else position + 1
          .ok ⟨held ++ text, some used, some true⟩
        | none =>
          let text ← firstBytes shown (position + 1)
          .ok ⟨held ++ text, some (position + 1), none⟩

namespace Source

/-- Shows the bytes that are ready, or else those of the next delivery, which are ready then. -/
def peek (s : Source) : Except StreamFault (List UInt8) × Source :=
  match s.deliveries with
  | [] => (.ok [], ⟨[], []⟩)
  | .chunk bytes :: script => (.ok bytes, ⟨bytes, script⟩)
  | .failure fault :: script => (.error fault, ⟨[], script⟩)

/-- Consumes so many of the bytes that are ready, if asked to. -/
def consume (s : Source) : Option Nat → Except Breach Source
  | none => .ok s
  | some count =>
    if count ≤ s.ready.length then .ok ⟨s.ready.drop count, s.script⟩
    else .error (.consume count s.ready.length)

section
variable {s : Source} {bytes : List UInt8} {script : List Delivery}

theorem peek_of_nil (h : s.deliveries = []) : s.peek = (.ok [], ⟨[], []⟩) := by
  rw [peek, h]

theorem peek_of_chunk (h : s.deliveries = .chunk bytes :: script) :
    s.peek = (.ok bytes, ⟨bytes, script⟩) := by
  rw [peek, h]

theorem peek_of_failure {fault : StreamFault} (h : s.deliveries = .failure fault :: script) :
    s.peek = (.error fault, ⟨[], script⟩) := by
  rw [peek, h]

/-- Consuming nothing is the same as not consuming. -/
theorem consume_of_le {used : Nat} (h : used ≤ bytes.length) (script : List Delivery) :
    (mk bytes script).consume (if used = 0 then none else some used) =
      .ok ⟨bytes.drop used, script⟩ := by
  by_cases hused : used = 0
  · rw [if_pos hused, hused]
    rfl
  · rw [if_neg hused]
    exact if_pos h

theorem consume_length (bytes : List UInt8) (script : List Delivery) :
    (mk bytes script).consume (some bytes.length) = .ok ⟨[], script⟩ := by
  rw [consume, if_pos (Nat.le_refl _), List.drop_length]

end

end Source

/-- A reader of lines. -/
structure LineReader where
  /-- Where the bytes come from. -/
  source : Source
  /-- The bytes held of the line that is being read. -/
  held : List UInt8
  deriving DecidableEq, Repr

/-- One round of reading for a line. -/
structure Round where
  /-- The reader as the round found it. -/
  before : LineReader
  /-- The bytes that the source showed, none if it failed. -/
  shown : List UInt8
  /-- How many bytes it was asked to consume, if it was asked. -/
  used? : Option Nat
  /-- What the reader returns, if it does: whether it holds a line, or the failure of the source. -/
  returned? : Option (Except StreamFault Bool)
  /-- The reader as the round left it. -/
  after : LineReader

namespace LineReader

/-- Reads for a line, for one round. -/
def round (r : LineReader) : Except Breach Round :=
  match r.source.peek with
  | (.error fault, source) => .ok ⟨r, [], none, some (.error fault), ⟨source, r.held⟩⟩
  | (.ok shown, source) => do
    let move ← look r.held shown
    let source ← source.consume move.used?
    .ok ⟨r, shown, move.used?, move.returned?.map .ok, ⟨source, move.held⟩⟩

end LineReader

/-! ### The end of a line by its position -/

section
variable {held text : List UInt8}

theorem byteAt_length_append (text : List UInt8) (b : UInt8) (bs : List UInt8) :
    byteAt (text ++ b :: bs) text.length = .ok b := by
  simp [byteAt]

theorem firstBytes_length_append (text bs : List UInt8) :
    firstBytes (text ++ bs) text.length = .ok text := by
  simp [firstBytes]

theorem Unbroken.findIdx?_eq_none (h : Unbroken text) : text.findIdx? endsLine = none :=
  List.findIdx?_eq_none_iff.mpr h

/-- The first terminator stands where the unbroken bytes end. -/
theorem Unbroken.findIdx?_append_cons (h : Unbroken text) {b : UInt8} (hb : endsLine b = true)
    (bs : List UInt8) : (text ++ b :: bs).findIdx? endsLine = some text.length := by
  rw [List.findIdx?_append, h.findIdx?_eq_none, List.findIdx?_cons, if_pos hb]
  simp

theorem look_nil_unbroken (h : Unbroken held) :
    look held [] = .ok ⟨held, none, some (!held.isEmpty)⟩ := by
  rw [look, if_pos List.isEmpty_nil, if_neg h.getLast?_ne]

theorem look_nil_return (held : List UInt8) :
    look (held ++ [carriageReturn]) [] = .ok ⟨held, none, some true⟩ := by
  simp [look]

/-- Where the input ends, the reader returns: the bytes held are a line if there are any, and a
carriage return is the end of one. -/
theorem exists_look_nil (h : cutLine held = none) :
    ∃ line isLine, look held [] = .ok ⟨line, none, some isLine⟩ ∧ Unbroken line ∧
      (held = line ∧ isLine = !line.isEmpty ∨
        held = line ++ [carriageReturn] ∧ isLine = true) := by
  obtain ⟨text, ht, rfl | rfl⟩ := cutLine_eq_none_iff.mp h
  · exact ⟨_, _, look_nil_unbroken ht, ht, .inl ⟨rfl, rfl⟩⟩
  · exact ⟨_, _, look_nil_return text, ht, .inr ⟨rfl, rfl⟩⟩

theorem look_held_return (held : List UInt8) (c : UInt8) (cs : List UInt8) :
    look (held ++ [carriageReturn]) (c :: cs) =
      .ok ⟨held, if c = lineFeed then some 1 else none, some true⟩ := by
  have hc : byteAt (c :: cs) 0 = .ok c := rfl
  rw [look, if_neg (by simp), if_pos (List.getLast?_concat ..), hc, List.dropLast_concat]
  rfl

theorem look_unbroken (hheld : Unbroken held) (h : Unbroken text) (hne : text ≠ []) :
    look held text = .ok ⟨held ++ text, some text.length, none⟩ := by
  rw [look, if_neg (by simpa using hne), if_neg hheld.getLast?_ne, h.findIdx?_eq_none]

theorem look_lineFeed (hheld : Unbroken held) (h : Unbroken text) (bs : List UInt8) :
    look held (text ++ lineFeed :: bs) =
      .ok ⟨held ++ text, some (text.length + 1), some true⟩ := by
  rw [look, if_neg (by simp), if_neg hheld.getLast?_ne, h.findIdx?_append_cons rfl]
  simp only [byteAt_length_append, firstBytes_length_append]
  rfl

theorem look_return (hheld : Unbroken held) (h : Unbroken text) :
    look held (text ++ [carriageReturn]) =
      .ok ⟨held ++ (text ++ [carriageReturn]), some (text.length + 1), none⟩ := by
  have hnext : (text ++ [carriageReturn])[text.length + 1]? = none := by simp
  have hall := firstBytes_length_append (text ++ [carriageReturn]) []
  rw [List.append_nil, List.length_append, List.length_singleton] at hall
  rw [look, if_neg (by simp), if_neg hheld.getLast?_ne, h.findIdx?_append_cons rfl]
  simp only [byteAt_length_append, hnext, hall]
  rfl

theorem look_return_cons (hheld : Unbroken held) (h : Unbroken text) (c : UInt8)
    (cs : List UInt8) :
    look held (text ++ carriageReturn :: c :: cs) =
      .ok ⟨held ++ text, some (text.length + if c = lineFeed then 2 else 1), some true⟩ := by
  have hnext : (text ++ carriageReturn :: c :: cs)[text.length + 1]? = some c := by simp
  rw [look, if_neg (by simp), if_neg hheld.getLast?_ne, h.findIdx?_append_cons rfl]
  simp only [byteAt_length_append, firstBytes_length_append, hnext]
  split <;> rfl

end

namespace Source

/-- The move that a cut amounts to, if so many bytes are shown. Nothing is consumed of them where
the carriage return held back ends the line by itself. -/
def Cut.move (length : Nat) : Cut → Move
  | .line bytes used => ⟨bytes, if used = 0 then none else some used, some true⟩
  | .more held => ⟨held, some length, none⟩

variable {held shown : List UInt8}

/-- **Looking by positions finds what a cut tells**, and meets with no breach. -/
theorem look_eq_cut (hheld : cutLine held = none) (hne : shown ≠ []) :
    look held shown = .ok ((cut held shown).move shown.length) := by
  obtain ⟨kept, hk, rfl | rfl⟩ := cutLine_eq_none_iff.mp hheld
  · obtain ⟨text, ht, rfl | rfl | ⟨bs, rfl⟩ | ⟨c, cs, rfl⟩⟩ := exists_unbroken shown
    · rw [look_unbroken hk ht hne, cut_unbroken hk ht]
      rfl
    · rw [look_return hk ht, cut_return hk ht, Cut.move, List.length_append]
      rfl
    · rw [look_lineFeed hk ht, cut_lineFeed hk ht]
      rfl
    · have hused : text.length + (if c = lineFeed then 2 else 1) ≠ 0 := by split <;> omega
      rw [look_return_cons hk ht, cut_return_cons hk ht, Cut.move, if_neg hused]
  · cases shown with
    | nil => exact absurd rfl hne
    | cons c cs =>
      rw [look_held_return, cut_held_return]
      by_cases hc : c = lineFeed <;> simp [Cut.move, hc]

/-- A line takes no more bytes of a portion than there are. -/
theorem used_le_of_cut {bytes : List UInt8} {used : Nat} (hne : shown ≠ [])
    (h : cut held shown = .line bytes used) : used ≤ shown.length := by
  have hpos := List.length_pos_iff.mpr hne
  have hsplit := congrArg List.length
    (List.takeWhile_append_dropWhile (p := (!endsLine ·)) (l := shown))
  rw [List.length_append] at hsplit
  unfold cut at h
  split at h
  · cases h
    split <;> omega
  · split at h
    · cases h
    · next hdrop =>
      rw [hdrop] at hsplit
      split at h
      · cases h
        rw [List.length_singleton] at hsplit
        exact Nat.le_of_eq hsplit
      · cases h
    · next hdrop =>
      rw [hdrop] at hsplit
      cases h
      simp only [List.length_cons] at hsplit
      split <;> omega

end Source

/-! ### What a round comes to -/

/-- What a round of a reader comes to. -/
inductive Turn (r : LineReader) : Round → Prop where
  /-- The source fails. -/
  | failed {fault : StreamFault} {script : List Delivery}
      (hsource : r.source.deliveries = .failure fault :: script) :
      Turn r ⟨r, [], none, some (.error fault), ⟨⟨[], script⟩, r.held⟩⟩
  /-- The input ends, and with it the line, if one is held. -/
  | ended {script : List Delivery} {line : List UInt8} {isLine : Bool}
      (hsource : r.source.deliveries = [] ∧ script = [] ∨
        r.source.deliveries = .chunk [] :: script)
      (hline : Unbroken line)
      (hheld : r.held = line ∧ isLine = !line.isEmpty ∨
        r.held = line ++ [carriageReturn] ∧ isLine = true) :
      Turn r ⟨r, [], none, some (.ok isLine), ⟨⟨[], script⟩, line⟩⟩
  /-- The line ends in the bytes shown. -/
  | settled {shown bytes : List UInt8} {used : Nat} {script : List Delivery}
      (hsource : r.source.deliveries = .chunk shown :: script) (hne : shown ≠ [])
      (hcut : Source.cut r.held shown = .line bytes used) :
      Turn r ⟨r, shown, if used = 0 then none else some used, some (.ok true),
        ⟨⟨shown.drop used, script⟩, bytes⟩⟩
  /-- The line goes on. -/
  | goesOn {shown held : List UInt8} {script : List Delivery}
      (hsource : r.source.deliveries = .chunk shown :: script) (hne : shown ≠ [])
      (hcut : Source.cut r.held shown = .more held) :
      Turn r ⟨r, shown, some shown.length, none, ⟨⟨[], script⟩, held⟩⟩

namespace LineReader

variable {r : LineReader}

theorem round_of_look {shown : List UInt8} {move : Move} {source source' : Source}
    (hpeek : r.source.peek = (.ok shown, source)) (hlook : look r.held shown = .ok move)
    (hconsume : source.consume move.used? = .ok source') :
    r.round =
      .ok ⟨r, shown, move.used?, move.returned?.map .ok, ⟨source', move.held⟩⟩ := by
  simp only [round, hpeek, hlook, bind, Except.bind, hconsume]

/-- **One round**: there is no breach in it, and it comes to one of its turns. -/
theorem exists_turn (h : cutLine r.held = none) :
    ∃ round, r.round = .ok round ∧ Turn r round := by
  obtain ⟨line, isLine, hend, hline, hheld⟩ := exists_look_nil h
  cases hsource : r.source.deliveries with
  | nil =>
    have hround := round_of_look (Source.peek_of_nil hsource) hend rfl
    exact ⟨_, hround, .ended (.inl ⟨hsource, rfl⟩) hline hheld⟩
  | cons delivery script =>
    cases delivery with
    | failure fault =>
      exact ⟨_, by rw [round, Source.peek_of_failure hsource], .failed hsource⟩
    | chunk shown =>
      have hpeek := Source.peek_of_chunk hsource
      by_cases hne : shown = []
      · subst hne
        exact ⟨_, round_of_look hpeek hend rfl, .ended (.inr hsource) hline hheld⟩
      · have hlook := Source.look_eq_cut h hne
        cases hcut : Source.cut r.held shown with
        | line bytes used =>
          rw [hcut] at hlook
          have hconsume := Source.consume_of_le (Source.used_le_of_cut hne hcut) script
          exact ⟨_, round_of_look hpeek hlook hconsume, .settled hsource hne hcut⟩
        | more held =>
          rw [hcut] at hlook
          have hconsume := Source.consume_length shown script
          exact ⟨_, round_of_look hpeek hlook hconsume, .goesOn hsource hne hcut⟩

end LineReader

end GlyphRebase
