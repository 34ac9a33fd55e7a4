import Mathlib.Data.List.Basic
import TestScout.Proofs.TextBytes
import TestScout.Source.Point

/-! Places of byte offsets. The lines of a text start at its beginning and behind every line feed, so that the number of the line
starts up to an offset is one more than that of the line feeds in front of it, also when the offset lies inside a character. -/

namespace TestScout.Source

/-- A place lies in front of another one in an earlier row, or in the same one with less in front of it. -/
def Point.Before (first second : Point) : Prop :=
  first.row < second.row ∨ first.row = second.row ∧ first.column < second.column

theorem Point.Before.asymm {first second : Point} (before : first.Before second) : ¬second.Before first := by
  unfold Point.Before at *
  omega

namespace LineIndex
open Text

variable {offset start found feed : Nat} {bytes : List UInt8} {source : String}

def lineFeed : UInt8 := '\n'.toUInt8

/-- The offsets of the line feeds in front of an offset. -/
def feedsBefore (bytes : List UInt8) (offset : Nat) : List Nat := (bytes.take offset).findIdxs (· == lineFeed)

/-- The line of an offset starts behind the last line feed in front of the offset, or at the beginning. -/
structure StartsLine (bytes : List UInt8) (offset start : Nat) : Prop where
  upTo : start ≤ offset
  behind : start = 0 ∨ ∃ feed, bytes[feed]? = some lineFeed ∧ start = feed + 1
  unbroken : ∀ place, start ≤ place → place < offset → bytes[place]? ≠ some lineFeed

/-- A place in a list in front of which every number is at most a bound, and from which on every number is above it. Any search
in an ordered list comes to this place, also one that halves the list in each step. -/
structure IsPartition (numbers : List Nat) (bound found : Nat) : Prop where
  within : found ≤ numbers.length
  upTo : ∀ place (inside : place < numbers.length), place < found → numbers[place] ≤ bound
  above : ∀ place (inside : place < numbers.length), found ≤ place → bound < numbers[place]

/-! ## Starts of lines -/

theorem findIdxs_utf8EncodeChar (c : Char) (offset : Nat) :
    (String.utf8EncodeChar c).findIdxs (· == lineFeed) offset = if c = '\n' then [offset] else [] := by
  split
  next feed =>
    subst feed
    rfl
  next other =>
    refine List.findIdxs_eq_nil_iff.mpr fun byte member => ?_
    refine beq_eq_false_iff_ne.mpr ?_
    rintro rfl
    have code : c.val.toNat = '\n'.val.toNat := toNat_of_mem_utf8EncodeChar member (by decide)
    exact other (Char.ext (UInt32.toNat_inj.mp code))

/-- Lines start behind the line feeds among the bytes. -/
theorem startsAfter_eq (offset : Nat) (text : List Char) :
    startsAfter offset text = ((Text.bytes text).findIdxs (· == lineFeed) offset).map (· + 1) := by
  induction text generalizing offset with
  | nil => rfl
  | cons c text ih =>
    rw [startsAfter, bytes_cons, List.findIdxs_append, findIdxs_utf8EncodeChar, String.length_utf8EncodeChar, List.map_append, ← ih]
    split
    next feed =>
      subst feed
      rfl
    next => rfl

theorem starts_ofText (source : String) :
    (ofText source).starts = 0 :: ((Text.bytes source.toList).findIdxs (· == lineFeed)).map (· + 1) :=
  congrArg (0 :: ·) (startsAfter_eq 0 source.toList)

theorem starts_ordered (source : String) : (ofText source).starts.Pairwise (· < ·) := by
  rw [starts_ofText, List.pairwise_cons, List.forall_mem_map, List.pairwise_map]
  exact ⟨fun feed _ => Nat.succ_pos feed, List.pairwise_findIdxs.imp Nat.succ_lt_succ⟩

/-- No line starts behind the end of a text. -/
theorem start_le (member : start ∈ (ofText source).starts) : start ≤ source.utf8ByteSize := by
  rw [starts_ofText] at member
  rcases List.mem_cons.mp member with rfl | later
  · exact Nat.zero_le _
  · obtain ⟨feed, found, rfl⟩ := List.mem_map.mp later
    have inside := List.lt_add_of_mem_findIdxs feed found
    rwa [length_bytes, byteLength_toList] at inside

theorem mem_feedsBefore : feed ∈ feedsBefore bytes offset ↔ feed < offset ∧ bytes[feed]? = some lineFeed := by
  have found : feed ∈ feedsBefore bytes offset ↔ (bytes.take offset)[feed]? = some lineFeed := by
    simp only [feedsBefore, List.mem_findIdxs_iff_exists_getElem_pos, beq_iff_eq, List.getElem?_eq_some_iff]
  rw [found, List.getElem?_take]
  split
  next before => exact (and_iff_right before).symm
  next behind => exact iff_of_false nofun fun fed => behind fed.1

theorem length_feedsBefore (bytes : List UInt8) (offset : Nat) :
    (feedsBefore bytes offset).length = (bytes.take offset).count lineFeed := List.length_findIdxs

/-- The lines that start up to an offset come first, and all others start behind it. -/
theorem exists_starts_eq (within : offset ≤ source.utf8ByteSize) :
    ∃ behind, (ofText source).starts = 0 :: (feedsBefore (Text.bytes source.toList) offset).map (· + 1) ++ behind ∧
      (∀ start ∈ 0 :: (feedsBefore (Text.bytes source.toList) offset).map (· + 1), start ≤ offset) ∧
      ∀ start ∈ behind, offset < start := by
  have length : (Text.bytes source.toList).length = source.utf8ByteSize := by rw [length_bytes, byteLength_toList]
  refine ⟨(((Text.bytes source.toList).drop offset).findIdxs (· == lineFeed) offset).map (· + 1), ?_, ?_, ?_⟩
  · have whole := starts_ofText source
    rwa [← List.take_append_drop offset (Text.bytes source.toList), List.findIdxs_append, List.length_take, length,
      Nat.min_eq_left within, Nat.zero_add, List.map_append] at whole
  · refine List.forall_mem_cons.mpr ⟨Nat.zero_le offset, List.forall_mem_map.mpr fun feed member => ?_⟩
    exact (mem_feedsBefore.mp member).1
  · exact List.forall_mem_map.mpr fun feed member => Nat.lt_succ_of_le (List.ge_of_mem_findIdxs feed member)

theorem isPartition_append {front back : List Nat} {bound : Nat} (upTo : ∀ number ∈ front, number ≤ bound)
    (above : ∀ number ∈ back, bound < number) : IsPartition (front ++ back) bound found ↔ found = front.length := by
  have length : (front ++ back).length = front.length + back.length := List.length_append
  constructor
  · intro partition
    rcases Nat.lt_trichotomy found front.length with early | same | late
    · have behind := partition.above found (by omega) (Nat.le_refl found)
      rw [List.getElem_append_left early] at behind
      have before := upTo _ (List.getElem_mem early)
      omega
    · exact same
    · have within := partition.within
      have before := partition.upTo front.length (by omega) late
      rw [List.getElem_append_right (Nat.le_refl _)] at before
      exact (Nat.not_lt.mpr before (above _ (List.getElem_mem _))).elim
  · rintro rfl
    refine ⟨by omega, fun place inside before => ?_, fun place inside behind => ?_⟩
    · rw [List.getElem_append_left before]
      exact upTo _ (List.getElem_mem before)
    · rw [List.getElem_append_right behind]
      exact above _ (List.getElem_mem _)

/-- Of the lines that start up to an offset the last one is the line of the offset. -/
theorem exists_getLast?_eq (bytes : List UInt8) (offset : Nat) :
    ∃ start, (0 :: (feedsBefore bytes offset).map (· + 1)).getLast? = some start ∧ StartsLine bytes offset start := by
  rcases List.eq_nil_or_concat (feedsBefore bytes offset) with none | ⟨others, feed, split⟩
  · rw [none]
    refine ⟨0, rfl, Nat.zero_le offset, .inl rfl, fun place _ before found => ?_⟩
    have member := mem_feedsBefore.mpr ⟨before, found⟩
    rw [none] at member
    cases member
  · -- a line feed behind the last one found would stand in the list, where it would have to come later
    have ordered : (feedsBefore bytes offset).Pairwise (· < ·) := List.pairwise_findIdxs
    rw [split, List.concat_eq_append] at ordered
    obtain ⟨before, found⟩ := mem_feedsBefore.mp (split ▸ by simp : feed ∈ feedsBefore bytes offset)
    refine ⟨feed + 1, ?_, before, .inr ⟨feed, found, rfl⟩, fun place behind within fed => ?_⟩
    · rw [split, List.concat_eq_append, List.map_append, ← List.cons_append, List.getLast?_append]
      rfl
    · have member := mem_feedsBefore.mpr ⟨within, fed⟩
      rw [split, List.concat_eq_append, List.mem_append, List.mem_singleton] at member
      have last := (List.pairwise_append.mp ordered).2.2
      rcases member with earlier | rfl
      · have early := last place earlier feed (List.mem_singleton_self feed)
        omega
      · omega

/-! ## Places of offsets -/

/-- What the place of an offset tells: how many line feeds stand in front of the offset, and how many bytes behind the last of
them. Its row is one less than what any search among the starts of the lines finds, and the line starts at the number in it. -/
structure Locates (source : String) (offset : Nat) (point : Point) : Prop where
  row : point.row = ((Text.bytes source.toList).take offset).count lineFeed
  search : ∀ found, IsPartition (ofText source).starts offset found ↔ found = point.row + 1
  column : ∃ start, (ofText source).starts[point.row]? = some start ∧ StartsLine (Text.bytes source.toList) offset start ∧
    start + point.column = offset

/-- Up to an offset start the lines behind the line feeds in front of it. -/
theorem takeWhile_starts (within : offset ≤ source.utf8ByteSize) :
    (ofText source).starts.takeWhile (· ≤ offset) = 0 :: (feedsBefore (Text.bytes source.toList) offset).map (· + 1) := by
  obtain ⟨behind, starts, upTo, above⟩ := exists_starts_eq within
  have stops : behind.takeWhile (· ≤ offset) = [] := by
    cases behind with
    | nil => rfl
    | cons next rest => exact List.takeWhile_cons_of_neg (by simpa using above next List.mem_cons_self)
  rw [starts, List.takeWhile_append_of_pos fun start member => decide_eq_true (upTo start member), stops, List.append_nil]

theorem locates_point (within : offset ≤ source.utf8ByteSize) : Locates source offset ((ofText source).point offset) := by
  obtain ⟨behind, starts, upTo, above⟩ := exists_starts_eq within
  obtain ⟨start, last, line⟩ := exists_getLast?_eq (Text.bytes source.toList) offset
  have length := length_feedsBefore (Text.bytes source.toList) offset
  have before := takeWhile_starts within
  generalize feedsBefore (Text.bytes source.toList) offset = feeds at starts upTo last length before
  have place : (ofText source).point offset = ⟨feeds.length, offset - start⟩ := by
    rw [point, before, last, Option.getD_some, List.length_cons, List.length_map, Nat.add_sub_cancel]
  rw [place]
  refine ⟨length, fun found => ?_, start, ?_, line, Nat.add_sub_cancel' line.upTo⟩
  · rw [starts, isPartition_append upTo above, List.length_cons, List.length_map]
  · rw [starts, List.getElem?_append_left (by simp), ← last, List.getLast?_eq_getElem?, List.length_cons, List.length_map,
      Nat.add_sub_cancel]

namespace Locates

variable {first second : Nat} {place other : Point}

theorem row_le (here : Locates source offset place) : place.row ≤ offset := by
  rw [here.row]
  exact Nat.le_trans List.count_le_length (List.length_take_le offset _)

theorem column_le (here : Locates source offset place) : place.column ≤ offset := by
  obtain ⟨start, -, -, column⟩ := here.column
  omega

/-- The places of two offsets lie as the offsets do. -/
theorem before_of_lt (here : Locates source first place) (there : Locates source second other) (earlier : first < second) :
    place.Before other := by
  have rows : place.row ≤ other.row := by
    rw [here.row, there.row]
    exact (List.take_sublist_take_left (Nat.le_of_lt earlier)).count_le lineFeed
  rcases Nat.lt_or_eq_of_le rows with below | level
  · exact .inl below
  · obtain ⟨start, found, -, column⟩ := here.column
    obtain ⟨same, met, -, further⟩ := there.column
    rw [← level, found, Option.some.injEq] at met
    exact .inr ⟨level, by omega⟩

end Locates

theorem lt_iff_before {first second : Nat} (one : first ≤ source.utf8ByteSize) (two : second ≤ source.utf8ByteSize) :
    first < second ↔ ((ofText source).point first).Before ((ofText source).point second) := by
  refine ⟨(locates_point one).before_of_lt (locates_point two), fun before => Nat.lt_of_not_le fun late => ?_⟩
  rcases Nat.lt_or_eq_of_le late with later | rfl
  · exact before.asymm ((locates_point two).before_of_lt (locates_point one) later)
  · exact before.asymm before

/-- **Offsets and places correspond one to one.** The place of each offset, also inside a character, tells the line feeds in
front of it and the bytes behind the last of them; places lie as their offsets do. In a text whose size fits in 32 bits all
numbers do. -/
theorem offsets_located (source : String) (short : source.utf8ByteSize < UInt32.size) :
    let index := ofText source
    (index.starts.Pairwise (· < ·) ∧ ∀ start ∈ index.starts, start < UInt32.size) ∧
    (∀ offset ≤ source.utf8ByteSize, Locates source offset (index.point offset) ∧
      (index.point offset).row < UInt32.size ∧ (index.point offset).column < UInt32.size) ∧
    ∀ first ≤ source.utf8ByteSize, ∀ second ≤ source.utf8ByteSize,
      first < second ↔ (index.point first).Before (index.point second) := by
  intro index
  refine ⟨⟨starts_ordered source, fun start member => Nat.lt_of_le_of_lt (start_le member) short⟩, fun offset within => ?_,
    fun first one second two => lt_iff_before one two⟩
  have here := locates_point within
  have small : offset < UInt32.size := Nat.lt_of_le_of_lt within short
  exact ⟨here, Nat.lt_of_le_of_lt here.row_le small, Nat.lt_of_le_of_lt here.column_le small⟩

private def starred : String := "é\n\n★x\r\n"

/-- Offsets on a line feed, on an empty line, at the end and inside of characters of several bytes. -/
theorem starred_offsets_located :
    starred.utf8ByteSize < UInt32.size ∧ (ofText starred).starts = [0, 3, 4, 10] ∧ (ofText starred).starts.Pairwise (· < ·) ∧
    Locates starred 1 ⟨0, 1⟩ ∧ Locates starred 2 ⟨0, 2⟩ ∧ Locates starred 3 ⟨1, 0⟩ ∧ Locates starred 6 ⟨2, 2⟩ ∧
    Locates starred 10 ⟨3, 0⟩ ∧ (⟨0, 2⟩ : Point).Before ⟨1, 0⟩ := by
  have short : starred.utf8ByteSize < UInt32.size := by decide +kernel
  obtain ⟨small, located, ordered⟩ := offsets_located starred short
  have size : starred.utf8ByteSize = 10 := by decide +kernel
  have place (offset row column : Nat) (within : offset ≤ 10) (same : (ofText starred).point offset = ⟨row, column⟩) :
      Locates starred offset ⟨row, column⟩ := same ▸ (located offset (size ▸ within)).1
  exact ⟨short, by decide +kernel, small.1, place 1 0 1 (by decide) (by decide +kernel), place 2 0 2 (by decide) (by decide +kernel),
    place 3 1 0 (by decide) (by decide +kernel), place 6 2 2 (by decide) (by decide +kernel),
    place 10 3 0 (by decide) (by decide +kernel), (ordered 2 (by omega) 3 (by omega)).mp (by decide)⟩

end LineIndex

end TestScout.Source
