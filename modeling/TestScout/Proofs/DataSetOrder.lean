import Mathlib.Data.String.Basic
import TestScout.Proofs.DataSetNames

/-! The order in which the data sets of a test are shown. The items that a run makes for them are sorted by texts. Those of
known keys have their places in the source as texts, in six digits, and come in this order. Those of other keys come behind
them in the order of the keys, which is the order in which they arrive only when the keys arrive like that. -/

namespace TestScout.Outline

/-! ## Numbers as texts -/

/-- The digits of a number, with zeros in front up to a width. -/
def padded (width number : Nat) : List Char :=
  List.replicate (width - (Nat.toDigits 10 number).length) '0' ++ Nat.toDigits 10 number

theorem toList_sixDigits (number : Nat) : (sixDigits number).toList = padded 6 number := by
  have zeros : ∀ count, ("".pushn '0' count).toList = List.replicate count '0' := by
    intro count
    induction count with
    | zero => rfl
    | succ count ih =>
      show (("".pushn '0' count).push '0').toList = _
      rw [String.toList_push, ih, List.replicate_succ']
  have digits : (toString number).toList = Nat.toDigits 10 number := Nat.toList_repr
  rw [sixDigits, String.toList_append, zeros, padded, ← digits, String.length_toList]

theorem padded_succ {width : Nat} (some : 0 < width) (number : Nat) :
    padded (width + 1) number = padded width (number / 10) ++ [(number % 10).digitChar] := by
  have one : Nat.toDigits 10 (number % 10) = [(number % 10).digitChar] := Nat.toDigits_of_lt_base (by omega)
  by_cases small : number < 10
  · have zero : number / 10 = 0 := Nat.div_eq_of_lt small
    rw [zero, padded, padded, Nat.toDigits_of_lt_base small, Nat.toDigits_of_lt_base (by omega), Nat.mod_eq_of_lt small]
    obtain ⟨less, rfl⟩ := Nat.exists_eq_succ_of_ne_zero (Nat.ne_of_gt some)
    show List.replicate (less + 1) '0' ++ _ = List.replicate less '0' ++ ['0'] ++ _
    rw [List.replicate_succ']
  · have split := Nat.toDigits_append_toDigits (b := 10) (n := number / 10) (d := number % 10) (by omega) (by omega) (by omega)
    rw [Nat.div_add_mod, one] at split
    rw [padded, padded, ← split, List.length_append, List.length_singleton, Nat.add_sub_add_right, List.append_assoc]

theorem length_padded {width number : Nat} (some : 0 < width) (fits : number < 10 ^ width) : (padded width number).length = width := by
  have short := (Nat.length_toDigits_le_iff (by omega) some).mpr fits
  rw [padded, List.length_append, List.length_replicate]
  omega

theorem append_lt_append {first second : List Char} (one two : List Char) (same : first.length = second.length)
    (less : first < second) : first ++ one < second ++ two := by
  induction less with
  | nil => cases same
  | cons _ ih => exact List.Lex.cons (ih (Nat.succ.inj same))
  | rel less => exact List.Lex.rel less

/-- Numbers that fit into a width are ordered like their digits. -/
theorem padded_lt (width : Nat) {first second : Nat} (less : first < second) (fits : second < 10 ^ (width + 1)) :
    padded (width + 1) first < padded (width + 1) second := by
  have digit : ∀ one two : Fin 10, one < two → one.val.digitChar < two.val.digitChar := by decide
  induction width generalizing first second with
  | zero =>
    rw [padded, padded, Nat.toDigits_of_lt_base (by omega), Nat.toDigits_of_lt_base (by omega)]
    exact List.Lex.rel (digit ⟨first, by omega⟩ ⟨second, by omega⟩ less)
  | succ width ih =>
    rw [padded_succ (Nat.succ_pos _), padded_succ (Nat.succ_pos _)]
    have short : second / 10 < 10 ^ (width + 1) := Nat.div_lt_of_lt_mul (Nat.pow_succ' ▸ fits)
    rcases Nat.lt_or_eq_of_le (Nat.div_le_div_right (c := 10) (Nat.le_of_lt less)) with early | same
    · refine append_lt_append _ _ ?_ (ih early short)
      rw [length_padded (Nat.succ_pos _) (Nat.lt_trans early short), length_padded (Nat.succ_pos _) short]
    · rw [same]
      exact List.append_left_lt (List.Lex.rel (digit ⟨first % 10, by omega⟩ ⟨second % 10, by omega⟩ (by
        rw [Fin.mk_lt_mk]
        omega)))

theorem sixDigits_lt {first second : Nat} (less : first < second) (fits : second < 10 ^ 6) : sixDigits first < sixDigits second := by
  rw [String.lt_iff_toList_lt, toList_sixDigits, toList_sixDigits]
  exact padded_lt 5 less fits

/-- Digits come before any text with a tilde in front. -/
theorem sixDigits_lt_tilde (number : Nat) (text : String) : sixDigits number < "~" ++ text := by
  have digits : ∀ c ∈ padded 6 number, c < '~' := by
    intro c member
    rcases List.mem_append.mp member with zero | digit
    · rw [List.eq_of_mem_replicate zero]
      decide
    · have isDigit := Nat.isDigit_of_mem_toDigits (by omega) (by omega) digit
      simp only [Char.isDigit, Bool.and_eq_true, decide_eq_true_eq] at isDigit
      exact Nat.lt_of_le_of_lt isDigit.2 (by decide)
  have tilde : ("~" ++ text).toList = '~' :: text.toList := by simp
  rw [String.lt_iff_toList_lt, toList_sixDigits, tilde]
  cases text : padded 6 number with
  | nil => exact List.Lex.nil
  | cons c rest => exact List.Lex.rel (digits c (text ▸ List.mem_cons_self))

/-- The items below another one in the order of the texts that they are sorted by. -/
def sortedBelow (outline : Outline) (parent : Ref) : List Ref :=
  (outline.childrenOf (some parent)).mergeSort fun first second =>
    (outline.item first).sortText.getD "" ≤ (outline.item second).sortText.getD ""

end TestScout.Outline

namespace TestScout.Runner
open Test Outline

namespace Replay

variable {definition : Definition} {key other : String}

/-! ## What data sets are sorted by -/

/-- The text that the item of a data set is sorted by. -/
def sortKey (definition : Definition) (key : String) : String :=
  match definition.dataSetIndex? key with
  | some index => sixDigits index
  | none => "~" ++ key

theorem sortTextOf_dataSetChild (isKey : IsKey key) (unmarked : Unmarked definition.id key) :
    sortTextOf definition (definition.dataSetChild key) = sortKey definition key := by
  have told : dataSetKey? (definition.dataSetChild key).id = some key := dataSetKey?_behind isKey unmarked
  rw [sortTextOf, told]
  rfl

theorem sortKey_known (known : key ∈ definition.dataSets) :
    sortKey definition key = sixDigits (definition.dataSets.idxOf key) := by
  rw [sortKey, Definition.dataSetIndex?_eq known]

theorem sortKey_other (unknown : key ∉ definition.dataSets) : sortKey definition key = "~" ++ key := by
  rw [sortKey, Definition.dataSetIndex?, List.idxOf?_eq_none_iff.mpr unknown]

theorem tilde_lt_iff : "~" ++ key < "~" ++ other ↔ key < other := by
  have tilde : ∀ text : String, ("~" ++ text).toList = '~' :: text.toList := fun text => by simp
  rw [String.lt_iff_toList_lt, String.lt_iff_toList_lt, tilde, tilde, List.cons_lt_cons_iff]
  simp

/-- Whether the data set of a key is shown in front of another one. -/
def Precedes (definition : Definition) (key other : String) : Prop :=
  if key ∈ definition.dataSets then
    if other ∈ definition.dataSets then definition.dataSets.idxOf key < definition.dataSets.idxOf other else True
  else if other ∈ definition.dataSets then False else key < other

variable (few : definition.dataSets.length ≤ 999999)
include few

theorem sortKey_lt_iff : sortKey definition key < sortKey definition other ↔ Precedes definition key other := by
  unfold Precedes
  have fits : ∀ {key}, key ∈ definition.dataSets → definition.dataSets.idxOf key < 10 ^ 6 := fun known =>
    Nat.lt_of_lt_of_le (List.idxOf_lt_length_iff.mpr known) (Nat.le_trans few (by decide))
  split
  next known =>
    rw [sortKey_known known]
    split
    next also =>
      rw [sortKey_known also]
      refine ⟨fun less => ?_, fun less => sixDigits_lt less (fits also)⟩
      by_contra late
      rcases Nat.lt_or_eq_of_le (Nat.le_of_not_lt late) with before | same
      · exact lt_asymm less (sixDigits_lt before (fits known))
      · exact lt_irrefl _ (same ▸ less)
    next unknown => exact iff_of_true (sortKey_other unknown ▸ sixDigits_lt_tilde _ _) trivial
  next unknown =>
    rw [sortKey_other unknown]
    split
    next known => exact iff_of_false (sortKey_known known ▸ lt_asymm (sixDigits_lt_tilde _ _)) id
    next also => rw [sortKey_other also, tilde_lt_iff]

theorem eq_of_sortKey (same : sortKey definition key = sortKey definition other) : key = other := by
  have before : ¬Precedes definition key other := fun precedes => (lt_irrefl _ (same ▸ (sortKey_lt_iff few).mpr precedes))
  have behind : ¬Precedes definition other key := fun precedes => (lt_irrefl _ (same ▸ (sortKey_lt_iff few).mpr precedes))
  unfold Precedes at before behind
  by_cases known : key ∈ definition.dataSets <;> by_cases also : other ∈ definition.dataSets <;>
    simp only [known, also, if_true, if_false, not_true_eq_false] at before behind
  · exact (List.idxOf_inj known).mp (Nat.le_antisymm (Nat.le_of_not_lt behind) (Nat.le_of_not_lt before))
  · exact le_antisymm (le_of_not_gt behind) (le_of_not_gt before)

omit few

/-- The keys among others that the source has, in the order in which it has them first. -/
def knownKeys (definition : Definition) (keys : List String) : List String :=
  (keys.filter (definition.dataSets.contains ·)).mergeSort fun first second =>
    definition.dataSets.idxOf first ≤ definition.dataSets.idxOf second

/-- The keys that the source does not have. -/
def otherKeys (definition : Definition) (keys : List String) : List String := keys.filter (!definition.dataSets.contains ·)

theorem known_of_mem_knownKeys {keys : List String} (member : key ∈ knownKeys definition keys) : key ∈ definition.dataSets :=
  List.contains_iff_mem.mp (List.of_mem_filter ((List.mergeSort_perm _ _).mem_iff.mp member) :)

theorem pairwise_mergeSort_le (order : String → String → Bool) {α : Type} [LinearOrder α] (view : String → α)
    (same : ∀ first second, order first second = decide (view first ≤ view second)) (keys : List String) :
    (keys.mergeSort order).Pairwise fun first second => view first ≤ view second := by
  have sorted : (keys.mergeSort order).Pairwise (order · ·) := List.pairwise_mergeSort
    (fun one two three => by simpa only [same, decide_eq_true_eq] using le_trans)
    (fun one two => by simpa only [same, Bool.or_eq_true, decide_eq_true_eq] using le_total _ _) keys
  exact sorted.imp fun {first second} less => by simpa only [same, decide_eq_true_eq] using less

theorem pairwise_knownKeys (keys : List String) : (knownKeys definition keys).Pairwise fun first second =>
    definition.dataSets.idxOf first ≤ definition.dataSets.idxOf second :=
  pairwise_mergeSort_le _ definition.dataSets.idxOf (fun _ _ => rfl) _

include few

/-- Sorted by their texts, known keys come in front in the order of the source, and the others behind them in their own order. -/
theorem mergeSort_sortKey (keys : List String) :
    keys.mergeSort (fun first second => sortKey definition first ≤ sortKey definition second) =
      knownKeys definition keys ++ (otherKeys definition keys).mergeSort fun first second => first ≤ second := by
  have other : ∀ key ∈ (otherKeys definition keys).mergeSort (fun first second => first ≤ second), key ∉ definition.dataSets := by
    intro key member
    have unknown := List.of_mem_filter ((List.mergeSort_perm _ _).mem_iff.mp member)
    simpa using unknown
  have least : ∀ first second, sortKey definition first ≤ sortKey definition second →
      sortKey definition second ≤ sortKey definition first → first = second :=
    fun first second one two => eq_of_sortKey few (le_antisymm one two)
  refine List.Perm.eq_of_pairwise (fun first second _ _ => least first second)
    (pairwise_mergeSort_le _ (sortKey definition) (fun _ _ => rfl) keys) (List.pairwise_append.mpr ⟨?_, ?_, ?_⟩) ?_
  · refine (pairwise_knownKeys keys).imp_of_mem fun {first second} one two less => ?_
    refine le_of_not_gt fun late => Nat.not_lt_of_le less ?_
    have precedes := (sortKey_lt_iff few).mp late
    rwa [Precedes, if_pos (known_of_mem_knownKeys two), if_pos (known_of_mem_knownKeys one)] at precedes
  · refine (pairwise_mergeSort_le _ id (fun _ _ => rfl) _).imp_of_mem fun {first second} one two less => ?_
    refine le_of_not_gt fun late => not_lt_of_ge less ?_
    have precedes := (sortKey_lt_iff few).mp late
    rwa [Precedes, if_neg (other second two), if_neg (other first one)] at precedes
  · intro first one second two
    refine le_of_lt ((sortKey_lt_iff few).mpr ?_)
    rw [Precedes, if_pos (known_of_mem_knownKeys one), if_neg (other second two)]
    trivial
  · have parts := (List.mergeSort_perm (keys.filter (definition.dataSets.contains ·)) fun first second =>
      definition.dataSets.idxOf first ≤ definition.dataSets.idxOf second).append
        (List.mergeSort_perm (otherKeys definition keys) fun first second => first ≤ second)
    exact (List.mergeSort_perm _ _).trans ((List.filter_append_perm _ keys).symm.trans parts.symm)

omit few in
/-- Where nothing is below a test yet, all keys that are named are new. -/
theorem newKeys_of_bare {outline : Outline} {parent : Ref} (bare : outline.childrenOf (some parent) = []) (events : List Event) :
    newKeys outline parent definition events = (namedKeys definition.id events).eraseDups := by
  have absent : ∀ id, (outline.child? (some parent) id).isNone = true := by
    intro id
    rw [child?, bare]
    rfl
  rw [newKeys, List.filter_eq_self.mpr fun key _ => absent _]

/-- Items that are made for keys are sorted like the keys. -/
theorem map_sortedBelow {outline : Outline} {parent : Ref} {above : Item} {keys : List String}
    (made : (outline.childrenOf (some parent)).map outline.item = keys.map fun key => itemOf above definition (definition.dataSetChild key))
    (told : ∀ key ∈ keys, IsKey key ∧ Unmarked definition.id key) : (outline.sortedBelow parent).map outline.idOf =
      (knownKeys definition keys ++ (otherKeys definition keys).mergeSort fun first second => first ≤ second).map
        fun key => (definition.dataSetChild key).id := by
  let order := fun first second : Item => decide (first.sortText.getD "" ≤ second.sortText.getD "")
  have texts : ∀ first ∈ keys, ∀ second ∈ keys, decide (sortKey definition first ≤ sortKey definition second) =
      order (itemOf above definition (definition.dataSetChild first)) (itemOf above definition (definition.dataSetChild second)) := by
    intro first one second two
    obtain ⟨first_key, first_told⟩ := told first one
    obtain ⟨second_key, second_told⟩ := told second two
    rw [← sortTextOf_dataSetChild first_key first_told, ← sortTextOf_dataSetChild second_key second_told]
    rfl
  have items : (outline.sortedBelow parent).map outline.item =
      (keys.mergeSort fun first second => sortKey definition first ≤ sortKey definition second).map
        fun key => itemOf above definition (definition.dataSetChild key) := by
    rw [sortedBelow, List.map_mergeSort (s := order) fun _ _ _ _ => rfl, made, ← List.map_mergeSort texts]
  have views := congrArg (List.map Item.id) items
  rw [List.map_map, List.map_map, mergeSort_sortKey few] at views
  exact views

end Replay

/-- **How data sets are sorted.** Below a queued test that nothing is below yet, a run leaves the data sets of the known keys
that it names in the order of the source, and those of other keys behind them in the order of the keys. That is the order in
which they were named first just when the keys come in their own order. -/
theorem data_sets_sorted {collection : Collection Editor} (reached : Reached collection) (refs : List Ref)
    (exist : ∀ ref ∈ refs, ref < collection.tracker.outline.nodes.size) (events : List Event) {id : String} {parent : Ref}
    {definition : Definition} (queued : (Replay.start collection.tracker.outline refs).queue.lookup id = some parent)
    (defined : collection.tracker.definition? id = some definition) (few : definition.dataSets.length ≤ 999999)
    (bare : collection.tracker.outline.childrenOf (some parent) = [])
    (unmarked : ∀ key ∈ Replay.namedKeys id events, Unmarked id key) :
    let final := ((Replay.start collection.tracker.outline refs).play collection.tracker events).2.1.outline
    let arrived := (Replay.namedKeys id events).eraseDups
    let others := Replay.otherKeys definition arrived
    let ids := fun keys : List String => keys.map fun key => (definition.dataSetChild key).id
    (final.sortedBelow parent).map final.idOf =
        ids (Replay.knownKeys definition arrived ++ others.mergeSort fun first second => first ≤ second) ∧
      ((final.sortedBelow parent).map final.idOf = ids (Replay.knownKeys definition arrived ++ others) ↔
        others.Pairwise (· ≤ ·)) := by
  intro final arrived others ids
  have own : definition.id = id := (reached.sound.definition?_id defined).1
  obtain ⟨new, children, items, -⟩ := (data_sets_found_or_made reached refs exist events).appends id parent queued
  rw [bare, List.nil_append] at children
  rw [Replay.newItems, defined] at items
  simp only [Replay.newKeys_of_bare bare, own] at items
  have told : ∀ key ∈ arrived, IsKey key ∧ Unmarked definition.id key := by
    intro key member
    have named := List.mem_eraseDups.mp member
    obtain ⟨event, -, found⟩ := List.mem_filterMap.mp named
    exact ⟨isKey_of_dataSetKey? found, own ▸ unmarked key named⟩
  have sorted := Replay.map_sortedBelow few (children ▸ items) told
  refine ⟨sorted, ?_⟩
  have injective : Function.Injective fun key => (definition.dataSetChild key).id := fun first second same =>
    (Replay.dataSetChild_id_inj rfl).mp same
  rw [sorted, (List.map_injective_iff.mpr injective).eq_iff, List.append_right_inj]
  constructor
  · intro same
    have sorted := Replay.pairwise_mergeSort_le _ (fun key : String => key) (fun _ _ => rfl) others
    rwa [same] at sorted
  · intro ordered
    exact List.mergeSort_of_pairwise (ordered.imp decide_eq_true)

theorem mergeSort_pair {α : Type} (order : α → α → Bool) (first second : α) :
    [first, second].mergeSort order = if order first second then [first, second] else [second, first] := by
  simp [List.mergeSort, List.merge]

/-- A reader of a test with two known data sets. -/
private def keyedReader : Surface.Reader := fun source =>
  let entry := fun key : String => { key := some (.string { value := key, raw := key }), value := .unknown none : Code.Entry }
  if source = "sum" then
    some (.program { children := [.statement {
      expression := .call {
        kind := .method
        name := "with"
        arguments := [.array { entries := [entry "one", entry "two"] }]
        chain := some { kind := .function, name := "test", arguments := [.string { value := "adds", raw := "adds" }] } } }] })
  else none

private def keyedRun : Collection Editor :=
  (Collection.fresh keyedReader { root := ⟨"/p"⟩, rules := [{ suite := "unit", tag := .file, value := "Sum.php" }] }).perform
    (.update ⟨"/p/Sum.php"⟩ "sum")

private def keyedEvents (keys : List String) : List Event :=
  keys.map fun key => ⟨.started, { id := "Sum.php::adds", name := "adds with data set " ++ key }⟩

private def keyedShown (keys : List String) : List String :=
  let final := ((Replay.start keyedRun.tracker.outline keyedRun.tracker.outline.top).play keyedRun.tracker (keyedEvents keys)).2.1.outline
  (final.sortedBelow 1).map final.idOf

/-- Known data sets are sorted as in the source, however late they come, and the others behind them as they come. -/
theorem sums_sorted : keyedShown ["#3", "\"two\"", "#7", "\"one\""] = [
    "Sum.php::adds with data set \"one\"", "Sum.php::adds with data set \"two\"",
    "Sum.php::adds with data set #3", "Sum.php::adds with data set #7"] := by
  obtain ⟨definition, defined, view⟩ : ∃ definition, keyedRun.tracker.definition? "Sum.php::adds" = some definition ∧ _ :=
    Option.map_eq_some_iff.mp (by decide +kernel : (keyedRun.tracker.definition? "Sum.php::adds").map
      (fun definition => (definition.id, definition.dataSets)) = some ("Sum.php::adds", ["\"one\"", "\"two\""]))
  obtain ⟨own, keys⟩ : definition.id = "Sum.php::adds" ∧ definition.dataSets = ["\"one\"", "\"two\""] := Prod.mk.inj view
  have reached : Reached keyedRun := .perform (.fresh _ _) _
  have plain : Plain "Sum.php::adds" := by decide +kernel
  have queued : (Replay.start keyedRun.tracker.outline keyedRun.tracker.outline.top).queue.lookup "Sum.php::adds" = some 1 := by
    decide +kernel
  obtain ⟨-, arrival⟩ := data_sets_sorted reached keyedRun.tracker.outline.top (by decide +kernel)
    (keyedEvents ["#3", "\"two\"", "#7", "\"one\""]) queued defined (by rw [keys]; decide) (by decide +kernel)
    fun key _ => plain.unmarked key
  have arrived : (Replay.namedKeys "Sum.php::adds" (keyedEvents ["#3", "\"two\"", "#7", "\"one\""])).eraseDups =
      ["#3", "\"two\"", "#7", "\"one\""] := by decide +kernel
  rw [arrived, Replay.knownKeys, Replay.otherKeys, keys] at arrival
  refine (arrival.mpr (by decide +kernel)).trans ?_
  have known : ["#3", "\"two\"", "#7", "\"one\""].filter (["\"one\"", "\"two\""].contains ·) = ["\"two\"", "\"one\""] := by
    decide +kernel
  simp only [known, Definition.dataSetChild, own]
  rw [mergeSort_pair, if_neg (by decide +kernel)]
  decide +kernel

/-- Of two numbers that the source does not have, the one that came last is sorted first. -/
theorem sums_sorted_by_text : keyedRun.tracker.outline.childrenOf (some 1) = [] ∧
    keyedShown ["#2", "#10"] = ["Sum.php::adds with data set #10", "Sum.php::adds with data set #2"] := by
  refine ⟨by decide +kernel, ?_⟩
  rw [keyedShown, sortedBelow]
  have children : (((Replay.start keyedRun.tracker.outline keyedRun.tracker.outline.top).play keyedRun.tracker
    (keyedEvents ["#2", "#10"])).2.1.outline).childrenOf (some 1) = [2, 3] := by decide +kernel
  rw [children, mergeSort_pair, if_neg (by decide +kernel)]
  decide +kernel

end TestScout.Runner
