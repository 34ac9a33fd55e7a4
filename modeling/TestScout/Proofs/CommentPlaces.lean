import Mathlib.Data.List.Basic
import TestScout.Proofs.LinePlaces
import TestScout.Proofs.TextWords
import TestScout.Source.Comment

/-! Where a text stops. The place behind a text is found by passing over it from where it starts, and by looking its offset up in
the starts of all lines; both are the same place, whatever stands in front of the text and behind it. -/

namespace TestScout

namespace Text

variable {mark : Char} {front text : List Char}

/-- Without the mark in it, a text goes on from the last piece in front of it. -/
theorem lastPiece_append_unmarked (absent : mark ∉ text) (front : List Char) :
    lastPiece mark (front ++ text) = lastPiece mark front ++ text := by
  have passed : ∀ c ∈ text.reverse, (c != mark) = true := fun c member =>
    bne_iff_ne.mpr fun same => absent (same ▸ List.mem_reverse.mp member)
  rw [lastPiece, List.reverse_append, List.takeWhile_append_of_pos passed, List.reverse_append, List.reverse_reverse]
  rfl

/-- With the mark in it, a text has the last piece for itself. -/
theorem lastPiece_append_marked (present : mark ∈ text) (front : List Char) : lastPiece mark (front ++ text) = lastPiece mark text := by
  obtain ⟨before, rest, rfl⟩ := List.append_of_mem present
  rw [← List.append_assoc, lastPiece_append, lastPiece_append]

end Text

namespace Source
open Text

variable {front text : List Char}

namespace Comment

/-- Passing over two texts is passing over one and then over the other. -/
theorem advance_append (start : Point) (front text : List Char) :
    advance start (front ++ text) = advance (advance start front) text := by
  -- behind a line feed the column counts from there, and without one it goes on from the front
  by_cases present : '\n' ∈ text
  · have rows : text.count '\n' ≠ 0 := List.count_eq_zero.not.mpr (not_not.mpr present)
    have reached : (advance start front).row = start.row + front.count '\n' := by
      rw [advance]
      split <;> simp_all
    rw [advance, advance, List.count_append, lastPiece_append_marked present, if_neg (by omega), if_neg rows, reached,
      Nat.add_assoc]
  · have rows : text.count '\n' = 0 := List.count_eq_zero.mpr present
    rw [advance, List.count_append, rows, Nat.add_zero, lastPiece_append_unmarked present, byteLength_append, advance,
      advance, if_pos rows, lastPiece_eq_self present]
    split <;> simp [Nat.add_assoc]

end Comment

namespace LineIndex
open Comment

theorem startsAfter_append (base : Nat) (front text : List Char) :
    startsAfter base (front ++ text) = startsAfter base front ++ startsAfter (base + byteLength front) text := by
  rw [startsAfter_eq, startsAfter_eq, startsAfter_eq, bytes_append, List.findIdxs_append, List.map_append, length_bytes]

theorem length_startsAfter (base : Nat) (text : List Char) : (startsAfter base text).length = text.count '\n' := by
  induction text generalizing base with
  | nil => rfl
  | cons c text ih =>
    rw [startsAfter, List.count_cons]
    split
    next feed => simp [ih, feed]
    next other => simp [ih, other]

/-- The last line starts where the last piece does. -/
theorem getLast?_startsAfter (base : Nat) (text : List Char) :
    ∃ start, (base :: startsAfter base text).getLast? = some start ∧
      start + byteLength (lastPiece '\n' text) = base + byteLength text := by
  -- from the back, for a last character either starts a line or makes the last one longer
  induction text using List.reverseRecOn with
  | nil => exact ⟨base, rfl, rfl⟩
  | append_singleton text c ih =>
    obtain ⟨start, last, reached⟩ := ih
    rw [startsAfter_append]
    by_cases feed : c = '\n'
    · have further : startsAfter (base + byteLength text) [c] = [base + byteLength text + c.utf8Size] := by simp [startsAfter, feed]
      refine ⟨base + byteLength text + c.utf8Size, ?_, ?_⟩
      · rw [further, ← List.cons_append, List.getLast?_append]
        rfl
      · rw [feed, lastPiece_append, byteLength_append]
        simp [byteLength, lastPiece, Nat.add_assoc]
    · have further : startsAfter (base + byteLength text) [c] = [] := by simp [startsAfter, feed]
      refine ⟨start, by rw [further, List.append_nil, last], ?_⟩
      rw [lastPiece_append_unmarked (by simpa using Ne.symm feed), byteLength_append, byteLength_append]
      omega

/-- Up to an offset start the lines that start in front of it. -/
theorem takeWhile_startsAfter (front text : List Char) :
    (0 :: startsAfter 0 (front ++ text)).takeWhile (· ≤ byteLength front) = 0 :: startsAfter 0 front := by
  have within : byteLength front ≤ (String.ofList (front ++ text)).utf8ByteSize := by
    rw [← byteLength_toList, String.toList_ofList, byteLength_append]
    exact Nat.le_add_right _ _
  have taken : (bytes (front ++ text)).take (byteLength front) = bytes front := by
    rw [bytes_append, ← length_bytes, List.take_left]
  have found := takeWhile_starts within
  rwa [ofText, String.toList_ofList, feedsBefore, taken, ← startsAfter_eq] at found

/-- The place of an offset is reached by passing over all that stands in front of it. -/
theorem point_byteLength (front text : List Char) :
    (ofText (String.ofList (front ++ text))).point (byteLength front) = advance {} front := by
  obtain ⟨start, last, reached⟩ := getLast?_startsAfter 0 front
  have column : byteLength front - start = byteLength (lastPiece '\n' front) := by omega
  simp only [point, ofText, String.toList_ofList, takeWhile_startsAfter, last, Option.getD_some, List.length_cons,
    length_startsAfter, advance, column, Nat.add_sub_cancel]
  split
  next same => rw [same, Nat.zero_add]
  next => rw [Nat.zero_add]

end LineIndex

namespace Comment
open LineIndex

/-- What is cut off at the end of a comment are all its last line breaks. -/
theorem dropEndWhile_isLineBreak (raw : List Char) : ∃ breaks, raw = dropEndWhile isLineBreak raw ++ breaks ∧
    (∀ c ∈ breaks, c = '\r' ∨ c = '\n') ∧ ∀ c ∈ (dropEndWhile isLineBreak raw).getLast?, c ≠ '\r' ∧ c ≠ '\n' := by
  refine ⟨raw.rtakeWhile isLineBreak, List.rdropWhile_append_rtakeWhile.symm, fun c member => ?_, fun c member => ?_⟩
  · simpa [isLineBreak] using List.mem_rtakeWhile_imp member
  · obtain ⟨filled, rfl⟩ := List.mem_getLast?_eq_getLast member
    have last : ¬isLineBreak ((dropEndWhile isLineBreak raw).getLast filled) = true := List.rdropWhile_last_not isLineBreak raw filled
    simpa [isLineBreak] using last

theorem value_ofText (raw : String) (extent : Extent) : (ofText raw extent).value.toList = dropEndWhile isLineBreak raw.toList := by
  rw [ofText, String.toList_ofList]

/-- The place behind the text that is left is found in two ways. -/
theorem extent_ofText_append (front raw text : String) :
    let index := LineIndex.ofText (front ++ (raw ++ text))
    let start := front.utf8ByteSize
    (ofText raw (index.extent start (start + raw.utf8ByteSize))).extent =
      index.extent start (start + byteLength (dropEndWhile isLineBreak raw.toList)) := by
  intro index start
  obtain ⟨breaks, split, -⟩ := dropEndWhile_isLineBreak raw.toList
  have characters : (front ++ (raw ++ text)).toList = front.toList ++ (raw.toList ++ text.toList) := by
    rw [String.toList_append, String.toList_append]
  have place (before behind : List Char) (whole : front.toList ++ (raw.toList ++ text.toList) = before ++ behind) :
      index.point (byteLength before) = advance {} before := by
    rw [← point_byteLength before behind, ← whole, ← characters, String.ofList_toList]
  have reached : index.point start = advance {} front.toList := by
    rw [← place _ _ rfl, byteLength_toList]
  have passed : index.point (start + byteLength (dropEndWhile isLineBreak raw.toList)) =
      advance (index.point start) (dropEndWhile isLineBreak raw.toList) := by
    rw [reached, ← advance_append, ← place _ (breaks ++ text.toList), byteLength_append, byteLength_toList]
    rw [List.append_assoc, ← List.append_assoc _ breaks, ← split]
  by_cases whole : (dropEndWhile isLineBreak raw.toList).length = raw.toList.length
  · have kept : dropEndWhile isLineBreak raw.toList = raw.toList := (List.rdropWhile_prefix _ _).eq_of_length whole
    simp only [ofText, if_true, LineIndex.extent, kept, byteLength_toList]
  · simp only [ofText, whole, if_false, LineIndex.extent, passed]

/-- **Where comments stop.** A comment has everything of its text but the line breaks at the end, and it stops at the place of the
offset behind what is left, wherever it stands in a source. -/
theorem extent_ofText (source : String) (start stop : source.Pos) (ordered : start ≤ stop) :
    let raw := (source.slice start stop ordered).copy
    let index := LineIndex.ofText source
    let comment := ofText raw (index.extent start.offset.byteIdx stop.offset.byteIdx)
    (∃ breaks, raw.toList = comment.value.toList ++ breaks ∧ (∀ c ∈ breaks, c = '\r' ∨ c = '\n') ∧
      ∀ c ∈ comment.value.toList.getLast?, c ≠ '\r' ∧ c ≠ '\n') ∧
    comment.extent = index.extent start.offset.byteIdx (start.offset.byteIdx + comment.value.utf8ByteSize) := by
  intro raw index comment
  obtain ⟨front, text, starts, stops⟩ := String.copy_slice_eq_iff_splits.mp ⟨ordered, (rfl : _ = raw)⟩
  have from_ : start.offset.byteIdx = front.utf8ByteSize := by
    rw [starts.offset_eq_rawEndPos, String.byteIdx_rawEndPos]
  have upTo : stop.offset.byteIdx = front.utf8ByteSize + raw.utf8ByteSize := by
    rw [stops.offset_eq_rawEndPos, String.byteIdx_rawEndPos, String.utf8ByteSize_append]
  have value : comment.value.toList = dropEndWhile isLineBreak raw.toList := value_ofText _ _
  have stopped : comment.extent =
      index.extent start.offset.byteIdx (start.offset.byteIdx + byteLength (dropEndWhile isLineBreak raw.toList)) := by
    have found := extent_ofText_append front raw text
    rw [← starts.eq_append] at found
    show (ofText raw (index.extent start.offset.byteIdx stop.offset.byteIdx)).extent = _
    rw [upTo, from_]
    exact found
  rw [← byteLength_toList comment.value, value]
  exact ⟨dropEndWhile_isLineBreak raw.toList, stopped⟩

private def lined : String := "<?php\n x /* é\r\n\n★ */\r\n\n\r$y;"

private def opening : lined.Pos := lined.pos ⟨9⟩ (by decide +kernel)

private def closing : lined.Pos := lined.pos ⟨27⟩ (by decide +kernel)

private theorem opening_le_closing : opening ≤ closing := by
  decide +kernel

/-- Line breaks of both kinds are cut off behind a comment of several lines, with characters of several bytes, that starts in the
middle of a line. -/
theorem several_lines_stop : opening ≤ closing ∧
    (lined.slice opening closing opening_le_closing).copy = "/* é\r\n\n★ */\r\n\n\r" ∧
    (ofText "/* é\r\n\n★ */\r\n\n\r" ((LineIndex.ofText lined).extent 9 27)).value = "/* é\r\n\n★ */" ∧
    (ofText "/* é\r\n\n★ */\r\n\n\r" ((LineIndex.ofText lined).extent 9 27)).extent = (LineIndex.ofText lined).extent 9 23 ∧
    (LineIndex.ofText lined).extent 9 23 = ⟨⟨1, 3⟩, ⟨3, 6⟩⟩ := by
  have raw : (lined.slice opening closing opening_le_closing).copy = "/* é\r\n\n★ */\r\n\n\r" := by decide +kernel
  have value : (ofText "/* é\r\n\n★ */\r\n\n\r" ((LineIndex.ofText lined).extent 9 27)).value = "/* é\r\n\n★ */" := by decide +kernel
  obtain ⟨-, placed⟩ := extent_ofText lined opening closing opening_le_closing
  rw [raw] at placed
  refine ⟨opening_le_closing, raw, value, placed.trans ?_, by decide +kernel⟩
  show (LineIndex.ofText lined).extent 9
    (9 + (ofText "/* é\r\n\n★ */\r\n\n\r" ((LineIndex.ofText lined).extent 9 27)).value.utf8ByteSize) = _
  rw [value]
  decide +kernel

end Comment

end Source

end TestScout
