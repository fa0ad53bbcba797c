import GlyphRebase.Proofs.Lines

/-!
# What a source reads as

The script of a source falls into segments: one ends at each failure, one at each empty chunk, and
the last at the end of the script, after which there is nothing for ever. What the attempts to read
a line give depends on the bytes of the segments alone, not on how they are cut into chunks
(`attempts_eq_readings`).

A segment that fails gives its complete lines, then the failure, and its open end is lost. One that
just ends gives the last line as well. If there is such a line, the attempt that found the end was
used up for it; otherwise that attempt gives nothing.
-/

namespace GlyphRebase

/-- A line as text, or as a fault of the stream if it is none. -/
def lineText (line : List UInt8) : Except StreamFault String :=
  (Utf8.decode line).mapError (·.toStreamFault)

theorem lineText_eq_ok_iff {line : List UInt8} {text : String} :
    lineText line = .ok text ↔ Utf8.encode text = line := by
  rw [← Utf8.decode_eq_ok_iff, lineText]
  cases Utf8.decode line <;> simp [Except.mapError]

theorem map_lineText_encode (texts : List String) :
    (texts.map Utf8.encode).map lineText = texts.map .ok := by
  rw [List.map_map]
  exact List.map_congr_left fun text _ => lineText_eq_ok_iff.mpr rfl

/-- A line that is no text is a fault of the kind for invalid data. -/
theorem lineText_error {line : List UInt8} (h : ¬Utf8.IsText line) :
    ∃ fault, lineText line = .error fault ∧ fault.kind = .invalidData := by
  obtain ⟨f, hf⟩ := Utf8.decode_error_iff.mpr h
  exact ⟨f.toStreamFault, by rw [lineText, hf]; rfl, rfl⟩

/-- What comes between two ends of the input, or failures. -/
structure Segment where
  /-- The bytes, however they were cut into chunks. -/
  bytes : List UInt8
  /-- The failure that ends the segment, if it is not an end of the input. -/
  fault? : Option StreamFault
  deriving DecidableEq, Repr

/-- The segments of a script, if some bytes of the first were delivered before. -/
def segmentsFrom (held : List UInt8) : List Delivery → List Segment
  | [] => [⟨held, none⟩]
  | .failure fault :: script => ⟨held, some fault⟩ :: segmentsFrom [] script
  | .chunk bytes :: script =>
    if bytes.isEmpty then ⟨held, none⟩ :: segmentsFrom [] script
    else segmentsFrom (held ++ bytes) script

/-- The segments of a script. -/
def segments (script : List Delivery) : List Segment := segmentsFrom [] script

namespace Segment

/-- What the open end of a segment gives: its last line if there is one, and the end of the input
otherwise. -/
def ending (rest : List UInt8) : List (Option (Except StreamFault String)) :=
  match lastLine rest with
  | [] => [none]
  | lines => lines.map fun line => some (lineText line)

/-- What the attempts to read a line give in a segment. -/
def readings (s : Segment) : List (Option (Except StreamFault String)) :=
  (completeLines s.bytes).map (fun line => some (lineText line)) ++
    match s.fault? with
    | some fault => [some (.error fault)]
    | none => ending (openEnd s.bytes)

theorem readings_of_none {s : Segment} (h : cutLine s.bytes = none) :
    s.readings = match s.fault? with
      | some fault => [some (.error fault)]
      | none => ending s.bytes := by
  rw [readings, completeLines_of_none h, openEnd_of_none h]
  rfl

theorem readings_of_some {bytes line rest : List UInt8} (h : cutLine bytes = some (line, rest))
    (fault? : Option StreamFault) :
    readings ⟨bytes, fault?⟩ = some (lineText line) :: readings ⟨rest, fault?⟩ := by
  simp only [readings, completeLines_of_some h, openEnd_of_some h, List.map_cons, List.cons_append]

end Segment

/-- What the attempts to read a line give over a script, up to its end. -/
def readings (script : List Delivery) : List (Option (Except StreamFault String)) :=
  (segments script).flatMap Segment.readings

/-! ### Segments of a source -/

/-- Bytes delivered before belong to the first segment, and change nothing else. -/
theorem segmentsFrom_eq (script : List Delivery) :
    ∃ more fault? rest, ∀ held, segmentsFrom held script = ⟨held ++ more, fault?⟩ :: rest := by
  induction script with
  | nil => exact ⟨[], none, [], fun held => by rw [segmentsFrom, List.append_nil]⟩
  | cons d script ih =>
    cases d with
    | failure fault =>
      exact ⟨[], some fault, segmentsFrom [] script,
        fun held => by rw [segmentsFrom, List.append_nil]⟩
    | chunk bytes =>
      by_cases hb : bytes.isEmpty
      · exact ⟨[], none, segmentsFrom [] script,
          fun held => by rw [segmentsFrom, if_pos hb, List.append_nil]⟩
      · obtain ⟨more, fault?, rest, h⟩ := ih
        exact ⟨bytes ++ more, fault?, rest,
          fun held => by rw [segmentsFrom, if_neg hb, h, List.append_assoc]⟩

/-- Bytes that are ready count as delivered before. -/
theorem segments_deliveries (ready : List UInt8) (script : List Delivery) :
    segments (Source.mk ready script).deliveries = segmentsFrom ready script := by
  rw [segments, Source.deliveries]
  cases ready with
  | nil => rfl
  | cons b ready => rw [if_neg (by simp), segmentsFrom, if_neg (by simp), List.nil_append]

namespace Source

/-- What an attempt to read a line gives. -/
def Pulled.item : Pulled → Option (Except StreamFault String)
  | .line bytes => some (lineText bytes)
  | .finished => none
  | .failed fault => some (.error fault)

theorem next_eq (s : Source) : s.next = (s.pull.1.item, s.pull.2) := by
  unfold next
  cases s.pull with
  | mk pulled s' => cases pulled <;> rfl

/-- What the bytes held come to at the end of the input. -/
theorem ending_eq_close {held : List UInt8} (h : cutLine held = none) :
    Segment.ending held = [(close held).item] := by
  obtain ⟨text, ht, rfl | rfl⟩ := cutLine_eq_none_iff.mp h
  · cases held with
    | nil => rfl
    | cons b bs => simp [Segment.ending, lastLine, close, ht.getLast?_ne, Pulled.item]
  · simp [Segment.ending, lastLine, close, Pulled.item]

/-- **One attempt**: what it gives comes first in what the script gives, and what the source left
behind gives comes next. At the end of the script there is nothing left. -/
theorem pullFrom_readings {held : List UInt8} (h : cutLine held = none) (script : List Delivery) :
    let r := pullFrom held script
    (segmentsFrom held script).flatMap Segment.readings = r.1.item :: readings r.2.deliveries ∨
      (segmentsFrom held script).flatMap Segment.readings = [r.1.item] ∧ r.2 = ⟨[], []⟩ := by
  fun_induction pullFrom held script with
  | case1 held =>
    refine .inr ⟨?_, rfl⟩
    rw [segmentsFrom, List.flatMap_singleton, Segment.readings_of_none h]
    exact ending_eq_close h
  | case2 held fault script =>
    refine .inl ?_
    rw [segmentsFrom, List.flatMap_cons, Segment.readings_of_none h]
    rfl
  | case3 held portion script hp =>
    refine .inl ?_
    rw [segmentsFrom, if_pos hp, List.flatMap_cons, Segment.readings_of_none h]
    exact congrArg (· ++ _) (ending_eq_close h)
  | case4 held portion script hp line used hcut =>
    refine .inl ?_
    have hline := cutLine_of_cut_line h (by simpa using hp) hcut
    obtain ⟨more, fault?, rest, hseg⟩ := segmentsFrom_eq script
    rw [segmentsFrom, if_neg hp, readings, segments_deliveries, hseg, hseg, List.flatMap_cons,
      Segment.readings_of_some (cutLine_append_of_some hline more), List.flatMap_cons]
    rfl
  | case5 held portion script hp more hcut ih =>
    obtain ⟨rfl, hmore⟩ := cutLine_of_cut_more h (by simpa using hp) hcut
    rw [segmentsFrom, if_neg hp]
    exact ih hmore

theorem next_readings (s : Source) :
    readings s.deliveries = s.next.1 :: readings s.next.2.deliveries ∨
      readings s.deliveries = [s.next.1] ∧ s.next.2 = ⟨[], []⟩ := by
  rw [next_eq]
  exact pullFrom_readings rfl s.deliveries

/-- A source that has nothing to come gives nothing, and stays so. -/
theorem next_exhausted : (Source.mk [] []).next = (none, ⟨[], []⟩) := rfl

theorem attempts_succ (n : Nat) (s : Source) :
    s.attempts (n + 1) = s.next.1 :: s.next.2.attempts n := rfl

theorem attempts_exhausted (n : Nat) : (Source.mk [] []).attempts n = List.replicate n none := by
  induction n with
  | zero => rfl
  | succ n ih => rw [attempts_succ, next_exhausted, ih, List.replicate_succ]

/-- What the attempts give, with nothing for ever after the end of the script. -/
theorem attempts_eq_take (s : Source) (n : Nat) :
    s.attempts n = (readings s.deliveries ++ List.replicate n none).take n := by
  induction n generalizing s with
  | zero => rfl
  | succ n ih =>
    rw [attempts_succ]
    rcases next_readings s with h | ⟨h, hs⟩
    · have hlen : n ≤ (readings s.next.2.deliveries ++ List.replicate n none).length := by simp
      rw [h, ih, List.cons_append, List.take_succ_cons, List.replicate_succ', ← List.append_assoc,
        List.take_append_of_le_length hlen]
    · rw [h, hs, attempts_exhausted, List.singleton_append, List.take_succ_cons,
        List.take_replicate, Nat.min_eq_left (Nat.le_succ n)]

/-- **What a source reads as.** Whatever the chunks, and wherever the source fails or seems to have
ended, the attempts to read a line give the readings of one segment after the other, and nothing
for ever after. Each line is given as the text that its bytes encode, or as invalid data if they
encode none. -/
theorem attempts_eq_readings (s : Source) (n : Nat) :
    s.attempts n =
        ((segments s.deliveries).flatMap Segment.readings ++ List.replicate n none).take n ∧
      (∀ line text, lineText line = .ok text ↔ Utf8.encode text = line) ∧
      ∀ line, ¬Utf8.IsText line →
        ∃ fault, lineText line = .error fault ∧ fault.kind = .invalidData :=
  ⟨attempts_eq_take s n, fun _ _ => lineText_eq_ok_iff, fun _ => lineText_error⟩

/-! ### The lines up to the first end -/

/-- What comes before the first end of the input. -/
def untilEnd {α : Type} : List (Option α) → List α
  | some a :: items => a :: untilEnd items
  | _ => []

theorem untilEnd_map_some_append {α : Type} (items : List α) (rest : List (Option α)) :
    untilEnd (items.map some ++ rest) = items ++ untilEnd rest := by
  induction items with
  | nil => rfl
  | cons a items ih => rw [List.map_cons, List.cons_append, untilEnd, ih, List.cons_append]

theorem lines_of_next {s rest : Source} {item : Except StreamFault String}
    (h : s.next = (some item, rest)) : s.lines = item :: rest.lines := by
  rw [lines]
  split
  · next h' => rw [h] at h'; cases h'; rfl
  · next h' => rw [h] at h'; cases h'

theorem lines_of_end {s rest : Source} (h : s.next = (none, rest)) : s.lines = [] := by
  rw [lines]
  split
  · next h' => rw [h] at h'; cases h'
  · rfl

theorem readings_exhausted : readings (Source.mk [] []).deliveries = [none] := by
  rw [readings, segments_deliveries, segmentsFrom, List.flatMap_singleton,
    Segment.readings_of_none rfl]
  rfl

/-- The lines of a source are what its script reads as, up to the first end. -/
theorem lines_eq_untilEnd (s : Source) : s.lines = untilEnd (readings s.deliveries) := by
  fun_induction lines s with
  | case1 s item rest hnext ih =>
    rcases next_readings s with h | ⟨h, hs⟩
    · rw [h, hnext, untilEnd, ih]
    · rw [hnext] at hs
      rw [h, hnext, untilEnd, ih, show rest = ⟨[], []⟩ from hs, readings_exhausted]
      rfl
  | case2 s rest hnext =>
    rcases next_readings s with h | ⟨h, -⟩ <;> rw [h, hnext] <;> rfl

/-- The source delivers the bytes: it does not fail, and does not seem to have ended before. -/
def Delivers (s : Source) (bytes : List UInt8) : Prop :=
  ∃ chunks : List (List UInt8), (∀ c ∈ chunks, c ≠ []) ∧ s.deliveries = chunks.map .chunk ∧
    chunks.flatten = bytes

theorem delivers_ofBytes (bytes : List UInt8) : (ofBytes bytes).Delivers bytes := by
  cases bytes with
  | nil => exact ⟨[], by simp, rfl, rfl⟩
  | cons b bytes => exact ⟨[b :: bytes], by simp, rfl, by simp⟩

/-- Chunks that are not empty make one segment. -/
theorem segmentsFrom_chunks (held : List UInt8) {chunks : List (List UInt8)}
    (h : ∀ c ∈ chunks, c ≠ []) :
    segmentsFrom held (chunks.map .chunk) = [⟨held ++ chunks.flatten, none⟩] := by
  induction chunks generalizing held with
  | nil => simp [segmentsFrom]
  | cons c chunks ih =>
    obtain ⟨hc, hcs⟩ := List.forall_mem_cons.mp h
    rw [List.map_cons, segmentsFrom, if_neg (by simpa using hc), ih _ hcs, List.flatten_cons,
      List.append_assoc]

theorem untilEnd_ending (rest : List UInt8) :
    untilEnd (Segment.ending rest) = (lastLine rest).map lineText := by
  unfold Segment.ending lastLine
  split_ifs <;> rfl

/-- A source that delivers bytes gives the lines of these bytes. -/
theorem lines_of_delivers {s : Source} {bytes : List UInt8} (h : s.Delivers bytes) :
    s.lines = (linesOf bytes).map lineText := by
  obtain ⟨chunks, hne, hs, rfl⟩ := h
  rw [lines_eq_untilEnd, readings, segments, hs, segmentsFrom_chunks [] hne,
    List.flatMap_singleton, List.nil_append, Segment.readings, linesOf, List.map_append,
    ← untilEnd_ending, ← untilEnd_map_some_append, List.map_map]
  rfl

/-- A source that fails in the end gives its complete lines, and then the failure. -/
theorem lines_of_failure (held : List UInt8) (fault : StreamFault) :
    (Source.mk held [.failure fault]).lines =
      (completeLines held).map lineText ++ [.error fault] := by
  have hrest : (segmentsFrom [] []).flatMap Segment.readings = [none] := readings_exhausted
  rw [lines_eq_untilEnd, readings, segments_deliveries, segmentsFrom, List.flatMap_cons,
    Segment.readings, List.append_assoc,
    show (fun line => some (lineText line)) = some ∘ lineText from rfl, ← List.map_map,
    untilEnd_map_some_append, List.singleton_append, untilEnd, hrest]
  rfl

end Source

end GlyphRebase
