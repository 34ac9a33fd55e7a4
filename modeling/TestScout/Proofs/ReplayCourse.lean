import Mathlib.Data.List.Find
import TestScout.Command.Discover
import TestScout.Proofs.DataSetIds
import TestScout.Proofs.EditorSound

/-! What a run says about data sets. Events of different tests may come in any order, but each data set goes through the
states that its own events lead to, and nothing is said about anything else. All data sets share one list of those that
have failed; they keep apart there because their ids do. -/

namespace TestScout
open Test Outline Editor

namespace Outline

variable {outline : Outline} {ref : Ref}

/-- Items have been added, each of them behind those that its parent had already. -/
structure Gains (first second : Outline) : Prop where
  size : first.nodes.size ≤ second.nodes.size
  ids : ∀ ref < first.nodes.size, second.idOf ref = first.idOf ref
  valid : first.Valid → second.Valid
  child : first.Valid → ∀ place id ref, first.child? place id = some ref → second.child? place id = some ref

theorem Gains.refl (outline : Outline) : Gains outline outline := ⟨Nat.le_refl _, fun _ _ => rfl, id, fun _ _ _ _ => id⟩

theorem Gains.trans {first second third : Outline} (one : Gains first second) (two : Gains second third) : Gains first third where
  size := Nat.le_trans one.size two.size
  ids ref valid := (two.ids ref (Nat.lt_of_lt_of_le valid one.size)).trans (one.ids ref valid)
  valid sound := two.valid (one.valid sound)
  child sound place id ref found := two.child (one.valid sound) place id ref (one.child sound place id ref found)

/-- A new item below another one. -/
def adopt (outline : Outline) (parent : Ref) (item : Item) : Outline :=
  (outline.create item).1.add (some parent) outline.nodes.size

/-- An id that is not in a place is not there once an item with it has been made. -/
theorem child?_create (sound : outline.Valid) {place : Place} {item : Item} (new : outline.child? place item.id = none) :
    (outline.create item).1.child? place ((outline.create item).1.idOf outline.nodes.size) = none := by
  rw [child?_eq_none_iff]
  intro ref member
  rw [childrenOf_create] at member
  rw [idOf_create, if_neg (Nat.ne_of_lt (sound.children _ ref member)), idOf_create, if_pos rfl]
  exact child?_eq_none_iff.mp new ref member

/-- An outline with a new item has all others as they were, and that one last among its siblings. -/
theorem adopt_views (sound : outline.Valid) {parent : Ref} (exist : parent < outline.nodes.size) {item : Item}
    (new : outline.child? (some parent) item.id = none) :
    outline.nodes.size ≤ (outline.adopt parent item).nodes.size ∧ (outline.adopt parent item).Valid ∧
      (∀ ref, (outline.adopt parent item).idOf ref = if ref = outline.nodes.size then item.id else outline.idOf ref) ∧
      ∀ place, (outline.adopt parent item).childrenOf place =
        outline.childrenOf place ++ if place = some parent then [outline.nodes.size] else [] := by
  have grown : Extends outline (outline.create item).1 := extends_create item
  have inside : (outline.create item).1.Inside (some parent) := inside_below (Nat.lt_of_lt_of_le exist grown.size)
  have last : outline.nodes.size < (outline.create item).1.nodes.size := size_create item ▸ Nat.lt_succ_self _
  have absent := child?_create sound new
  have moved : Moved (outline.create item).1 (outline.adopt parent item) := moved_add inside last
  refine ⟨?_, moved.valid (grown.valid sound), ?_, ?_⟩
  · rw [moved.size]
    exact grown.size
  · intro ref
    rw [moved.idOf, idOf_create]
  · intro place
    split
    next same =>
      rw [same, adopt, childrenOf_add_of_none inside absent, grown.children]
    next differs =>
      rw [adopt, childrenOf_add_ne inside differs, grown.children, List.append_nil]

/-- A new item is the child with its id from then on, and every other child stays what it is. -/
theorem gains_adopt (sound : outline.Valid) {parent : Ref} (exist : parent < outline.nodes.size) {item : Item}
    (new : outline.child? (some parent) item.id = none) : Gains outline (outline.adopt parent item) ∧
      (outline.adopt parent item).child? (some parent) item.id = some outline.nodes.size := by
  obtain ⟨size, valid, ids, children⟩ := adopt_views sound exist new
  have still : ∀ place id, (outline.childrenOf place).find? ((outline.adopt parent item).idOf · == id) =
      outline.child? place id := by
    intro place id
    refine List.find?_congr fun ref member => ?_
    rw [ids, if_neg (Nat.ne_of_lt (sound.children place ref member))]
  refine ⟨⟨size, ?_, fun _ => valid, ?_⟩, ?_⟩
  · intro ref old
    rw [ids, if_neg (Nat.ne_of_lt old)]
  · intro _ place id ref found
    rw [child?, children, List.find?_append, still, found]
    rfl
  · rw [child?, children, List.find?_append, still, new, if_pos rfl]
    simp [ids]

theorem valid_of_mem_descendantsUpTo (sound : outline.Valid) {levels : Nat} {root : Ref} (exist : root < outline.nodes.size)
    (member : ref ∈ outline.descendantsUpTo levels root) : ref < outline.nodes.size := by
  induction levels generalizing root with
  | zero => exact List.mem_singleton.mp member ▸ exist
  | succ levels ih =>
    rw [descendantsUpTo] at member
    rcases List.mem_cons.mp member with rfl | deeper
    · exact exist
    · obtain ⟨child, held, below⟩ := List.mem_flatMap.mp deeper
      exact ih (sound.children (some root) child held) below

end Outline

namespace Runner

/-- Whether an event is about a data set of a test. -/
def Event.isAbout (event : Event) (id key : String) : Bool :=
  event.result.id == id && dataSetKey? event.result.name == some key

theorem Event.isAbout_iff {event : Event} {id key : String} :
    event.isAbout id key = true ↔ event.result.id = id ∧ dataSetKey? event.result.name = some key := by
  simp [isAbout]

/-- What an event does to an item on its own, which may have failed before. Only a start clears the mark of that. -/
def advance (ref : Ref) (failed : Bool) (event : Event) : Bool × List Transition :=
  match event.kind with
  | .started => (false, [{ state := .started, ref }])
  | .failed => (true, [{
      state := .failed, ref, message := some (event.result.message.getD ""), duration := event.result.duration }])
  | .ignored => (failed, [{ state := .skipped, ref }])
  | .finished => (failed, if failed then [] else [{ state := .passed, ref, duration := event.result.duration }])

/-- The states that its own events lead an item through. -/
def course (ref : Ref) : (failed : Bool) → List Event → List Transition
  | _, [] => []
  | failed, event :: rest => (advance ref failed event).2 ++ course ref (advance ref failed event).1 rest

/-- An item makes no difference to the states that it goes through. -/
theorem states_course (ref other : Ref) (failed : Bool) (events : List Event) :
    (course ref failed events).map (·.state) = (course other failed events).map (·.state) := by
  induction events generalizing failed with
  | nil => rfl
  | cons event rest ih =>
    have step : (advance ref failed event).1 = (advance other failed event).1 ∧
        (advance ref failed event).2.map (·.state) = (advance other failed event).2.map (·.state) := by
      unfold advance
      cases event.kind <;> cases failed <;> exact ⟨rfl, rfl⟩
    rw [course, course, List.map_append, List.map_append, step.1, step.2, ih]

namespace Replay

/-- Takes in events one after the other; tells what each of them comes to. -/
def play (replay : Replay) (editor : Editor) : List Event → Replay × Editor × List (Event × List Transition)
  | [] => (replay, editor, [])
  | event :: rest =>
    let (next, changed, said) := replay.dispatch editor event
    let (last, final, recorded) := next.play changed rest
    (last, final, (event, said) :: recorded)

variable {replay : Replay} {editor : Editor} {event : Event} {parent : Ref} {definition : Definition} {key : String}

/-- An event is about a data set of a test that is queued and defined. -/
structure Hears (replay : Replay) (editor : Editor) (event : Event) (parent : Ref) (definition : Definition) (key : String) :
    Prop where
  queued : replay.queue.lookup event.result.id = some parent
  defined : editor.definition? event.result.id = some definition
  named : dataSetKey? event.result.name = some key

/-- All that is queued exists, and the editor is in order. -/
structure Ready (replay : Replay) (editor : Editor) : Prop where
  sound : editor.Sound
  queue : ∀ entry ∈ replay.queue, entry.2 < editor.outline.nodes.size

/-- The new item of a data set, which looks like the one of its test. -/
def itemOf (above : Item) (definition child : Definition) : Item where
  id := child.id
  uri := above.uri
  label := labelOf child.kind child.label
  range := some (rangeOf child)
  sortText := some (sortTextOf definition child)
  tags := above.tags

theorem target?_of_hears (ready : Ready replay editor) (hears : Hears replay editor event parent definition key) :
    ∃ next ref, replay.target? editor event.result = some (next, ref) ∧ next.index = editor.index ∧
      Gains editor.outline next.outline ∧ next.outline.child? (some parent) (definition.dataSetChild key).id = some ref := by
  have named : definition.dataSetChild? event.result.name = some (definition.dataSetChild key) := by
    rw [Definition.dataSetChild?, hears.named]
    rfl
  have exist := ready.queue _ (mem_of_lookup hears.queued)
  simp only [target?, hears.queued, hears.defined, named, Option.bind_eq_bind, Option.bind_some]
  cases found : editor.outline.child? (some parent) (definition.dataSetChild key).id with
  | some ref => exact ⟨editor, ref, rfl, rfl, Gains.refl _, found⟩
  | none =>
    let item := itemOf (editor.outline.item parent) definition (definition.dataSetChild key)
    obtain ⟨gains, child⟩ : Gains editor.outline (editor.outline.adopt parent item) ∧ _ :=
      gains_adopt ready.sound.valid exist found
    exact ⟨_, _, rfl, rfl, gains, child⟩

theorem target?_eq_none (unheard : ∀ parent definition key, ¬Hears replay editor event parent definition key) :
    replay.target? editor event.result = none := by
  cases queued : replay.queue.lookup event.result.id with
  | none => simp [target?, queued]
  | some parent =>
    cases defined : editor.definition? event.result.id with
    | none => simp [target?, queued, defined]
    | some definition =>
      cases named : dataSetKey? event.result.name with
      | none => simp [target?, queued, defined, named, Definition.dataSetChild?]
      | some key => exact absurd ⟨queued, defined, named⟩ (unheard parent definition key)

/-! ## One event -/

/-- An event is either passed over or steps the item of its own data set on. -/
theorem dispatch_cases (ready : Ready replay editor) (event : Event) :
    (∀ parent definition key, ¬Hears replay editor event parent definition key) ∧
        replay.dispatch editor event = (replay, editor, []) ∨
      ∃ parent definition key, Hears replay editor event parent definition key ∧ ∃ next ref, next.index = editor.index ∧
        Gains editor.outline next.outline ∧ next.outline.child? (some parent) (definition.dataSetChild key).id = some ref ∧
        replay.dispatch editor event = ((replay.step (definition.dataSetChild key).id ref event).1, next,
          (replay.step (definition.dataSetChild key).id ref event).2) := by
  by_cases heard : ∃ parent definition key, Hears replay editor event parent definition key
  · obtain ⟨parent, definition, key, hears⟩ := heard
    obtain ⟨next, ref, target, index, gains, child⟩ := target?_of_hears ready hears
    refine .inr ⟨parent, definition, key, hears, next, ref, index, gains, child, ?_⟩
    rw [dispatch, target]
    simp only [(mem_of_child? child).2]
  · have unheard : ∀ parent definition key, ¬Hears replay editor event parent definition key :=
      fun parent definition key hears => heard ⟨parent, definition, key, hears⟩
    refine .inl ⟨unheard, ?_⟩
    rw [dispatch, target?_eq_none unheard]

theorem queue_step (id : String) (ref : Ref) (event : Event) : (replay.step id ref event).1.queue = replay.queue := by
  unfold step
  split <;> rfl

theorem ref_of_mem_step {id : String} {ref : Ref} {transition : Transition}
    (member : transition ∈ (replay.step id ref event).2) : transition.ref = ref := by
  unfold step at member
  split at member
  case h_2 =>
    split at member
    · cases member
    · rw [List.mem_singleton.mp member]
  all_goals rw [List.mem_singleton.mp member]

/-- What other items have failed makes no difference to a step, nor does a step make one to them. -/
theorem failed_step_of_ne {id other : String} (differs : other ≠ id) (ref : Ref) (event : Event) :
    (replay.step id ref event).1.failed.contains other = replay.failed.contains other := by
  unfold step
  split
  · simp [differs]
  · rfl
  · simp [differs]
  · rfl

theorem advance_eq (id : String) (ref : Ref) (event : Event) : advance ref (replay.failed.contains id) event =
    ((replay.step id ref event).1.failed.contains id, (replay.step id ref event).2) := by
  unfold advance step
  cases event.kind with
  | started => simp
  | failed => simp
  | ignored => rfl
  | finished => rfl

theorem Ready.dispatch (ready : Ready replay editor) (event : Event) :
    Ready (replay.dispatch editor event).1 (replay.dispatch editor event).2.1 ∧
      (replay.dispatch editor event).1.queue = replay.queue ∧ (replay.dispatch editor event).2.1.index = editor.index ∧
      Gains editor.outline (replay.dispatch editor event).2.1.outline := by
  rcases dispatch_cases ready event with ⟨-, same⟩ | ⟨parent, definition, key, -, next, ref, index, gains, -, stepped⟩
  · rw [same]
    exact ⟨ready, rfl, rfl, Gains.refl _⟩
  · rw [stepped]
    refine ⟨⟨⟨gains.valid ready.sound.valid, ?_⟩, ?_⟩, queue_step .., index, gains⟩
    · intro entry member
      obtain ⟨own, valid, id⟩ := ready.sound.index entry (index ▸ member)
      exact ⟨own, Nat.lt_of_lt_of_le valid gains.size, (gains.ids _ valid).trans id⟩
    · intro entry member
      rw [queue_step] at member
      exact Nat.lt_of_lt_of_le (ready.queue entry member) gains.size

theorem definition?_dispatch (ready : Ready replay editor) (event : Event) :
    (replay.dispatch editor event).2.1.definition? = editor.definition? := by
  obtain ⟨-, -, index, -⟩ := ready.dispatch event
  funext id
  simp only [Editor.definition?, index]

/-! ## All events -/

theorem Ready.play (ready : Ready replay editor) (events : List Event) :
    Ready (replay.play editor events).1 (replay.play editor events).2.1 ∧
      Gains editor.outline (replay.play editor events).2.1.outline := by
  induction events generalizing replay editor with
  | nil => exact ⟨ready, Gains.refl _⟩
  | cons event rest ih =>
    obtain ⟨next, -, -, gains⟩ := ready.dispatch event
    obtain ⟨last, further⟩ := ih next
    exact ⟨last, gains.trans further⟩

/-- An event about a data set leads to its item and is all that counts for it then. -/
theorem dispatch_of_about (ready : Ready replay editor) {id : String} (queued : replay.queue.lookup id = some parent)
    (defined : editor.definition? id = some definition) {event : Event} (about : event.isAbout id key = true) :
    ∃ ref, (replay.dispatch editor event).2.1.outline.child? (some parent) (definition.dataSetChild key).id = some ref ∧
      advance ref (replay.failed.contains (definition.dataSetChild key).id) event =
        ((replay.dispatch editor event).1.failed.contains (definition.dataSetChild key).id,
          (replay.dispatch editor event).2.2) ∧
      ∀ transition ∈ (replay.dispatch editor event).2.2, transition.ref = ref := by
  obtain ⟨rfl, named⟩ := Event.isAbout_iff.mp about
  rcases dispatch_cases ready event with ⟨unheard, -⟩ | ⟨_, _, _, hears, next, ref, -, -, child, stepped⟩
  · exact absurd ⟨queued, defined, named⟩ (unheard parent definition key)
  · obtain rfl := Option.some_inj.mp (queued.symm.trans hears.queued)
    obtain rfl := Option.some_inj.mp (defined.symm.trans hears.defined)
    obtain rfl := Option.some_inj.mp (named.symm.trans hears.named)
    rw [stepped]
    exact ⟨ref, child, advance_eq .., fun _ => ref_of_mem_step⟩

/-- An event about anything else leaves the item of a data set alone, and its mark. -/
theorem dispatch_of_not_about (ready : Ready replay editor)
    (plain : ∀ id definition, editor.definition? id = some definition → Plain id) {id : String} (defined : editor.definition? id = some definition)
    (isKey : IsKey key) {event : Event} (other : event.isAbout id key = false) :
    (replay.dispatch editor event).1.failed.contains (definition.dataSetChild key).id =
        replay.failed.contains (definition.dataSetChild key).id ∧
      ∀ transition ∈ (replay.dispatch editor event).2.2,
        transition.ref < (replay.dispatch editor event).2.1.outline.nodes.size ∧
        (replay.dispatch editor event).2.1.outline.idOf transition.ref ≠ (definition.dataSetChild key).id := by
  obtain ⟨after, -⟩ := ready.dispatch event
  rcases dispatch_cases ready event with ⟨-, same⟩ | ⟨parent, further, name, hears, next, ref, -, -, child, stepped⟩
  · rw [same]
    exact ⟨rfl, nofun⟩
  · have differs : (definition.dataSetChild key).id ≠ (further.dataSetChild name).id := by
      intro same
      have own := (ready.sound.definition?_id defined).1
      have its := (ready.sound.definition?_id hears.defined).1
      obtain ⟨ids, rfl⟩ := eq_of_dataSetChild_id (own ▸ plain id definition defined) (its ▸ plain _ further hears.defined) isKey
        (isKey_of_dataSetKey? hears.named) same
      rw [own, its] at ids
      rw [Event.isAbout_iff.mpr ⟨ids.symm, hears.named⟩] at other
      cases other
    rw [stepped] at after ⊢
    refine ⟨failed_step_of_ne differs ref event, ?_⟩
    intro transition member
    obtain ⟨listed, id⟩ := mem_of_child? child
    rw [ref_of_mem_step member, id]
    exact ⟨after.sound.valid.children _ ref listed, differs.symm⟩

/-- Whatever comes in between, the item of a data set goes through the states of its own events. -/
theorem course_of_play (ready : Ready replay editor)
    (plain : ∀ id definition, editor.definition? id = some definition → Plain id) {id : String} (queued : replay.queue.lookup id = some parent)
    (defined : editor.definition? id = some definition) (isKey : IsKey key) (events : List Event) {child : Ref}
    (found : (replay.play editor events).2.1.outline.child? (some parent) (definition.dataSetChild key).id = some child) :
    ((replay.play editor events).2.2.flatMap (·.2)).filter (·.ref == child) =
      course child (replay.failed.contains (definition.dataSetChild key).id) (events.filter (·.isAbout id key)) := by
  induction events generalizing replay editor with
  | nil => rfl
  | cons event rest ih =>
    obtain ⟨after, queue, -⟩ := ready.dispatch event
    obtain ⟨-, gains⟩ := after.play rest
    have same := definition?_dispatch ready event
    have later := ih after (same ▸ plain) (queue ▸ queued) (same ▸ defined) found
    have split : ((replay.play editor (event :: rest)).2.2.flatMap (·.2)).filter (·.ref == child) =
        (replay.dispatch editor event).2.2.filter (·.ref == child) ++
          (((replay.dispatch editor event).1.play (replay.dispatch editor event).2.1 rest).2.2.flatMap (·.2)).filter
            (·.ref == child) := List.filter_append ..
    rw [split, later]
    cases about : event.isAbout id key with
    | true =>
      obtain ⟨ref, here, advanced, own⟩ := dispatch_of_about ready queued defined about
      obtain rfl : ref = child := Option.some_inj.mp ((gains.child after.sound.valid _ _ _ here).symm.trans found)
      rw [List.filter_cons_of_pos (by exact about), course, advanced, List.filter_eq_self.mpr]
      exact fun transition member => beq_iff_eq.mpr (own transition member)
    | false =>
      obtain ⟨mark, others⟩ := dispatch_of_not_about ready plain defined isKey about
      rw [List.filter_cons_of_neg (by simp [about]), mark, List.filter_eq_nil_iff.mpr, List.nil_append]
      -- An item that was told something has another id than this one, so it is another item.
      intro transition member same
      obtain ⟨valid, differs⟩ := others transition member
      rw [beq_iff_eq.mp same] at valid differs
      rw [← gains.ids child valid] at differs
      exact differs (mem_of_child? found).2

/-- A data set that is heard of has an item from then on. -/
theorem child_of_play (ready : Ready replay editor) {id : String} (queued : replay.queue.lookup id = some parent)
    (defined : editor.definition? id = some definition) {events : List Event} {event : Event} (member : event ∈ events)
    (about : event.isAbout id key = true) : ((replay.play editor events).2.1.outline.child? (some parent)
      (definition.dataSetChild key).id).isSome := by
  induction events generalizing replay editor with
  | nil => cases member
  | cons first rest ih =>
    obtain ⟨after, queue, -⟩ := ready.dispatch first
    rcases List.mem_cons.mp member with rfl | later
    · obtain ⟨-, gains⟩ := after.play rest
      obtain ⟨ref, here, -⟩ := dispatch_of_about ready queued defined about
      exact Option.isSome_iff_exists.mpr ⟨ref, gains.child after.sound.valid _ _ _ here⟩
    · exact ih after (queue ▸ queued) (definition?_dispatch ready first ▸ defined) later

/-- Only an event about a data set says anything, and that is about the item of the data set. -/
theorem about_of_said (ready : Ready replay editor) {events : List Event} {event : Event} {said : List Transition}
    (recorded : (event, said) ∈ (replay.play editor events).2.2) (told : said ≠ []) :
    ∃ id parent definition key, replay.queue.lookup id = some parent ∧ editor.definition? id = some definition ∧
      event.isAbout id key = true ∧ ∀ transition ∈ said, (replay.play editor events).2.1.outline.child? (some parent)
        (definition.dataSetChild key).id = some transition.ref := by
  induction events generalizing replay editor with
  | nil => cases recorded
  | cons first rest ih =>
    obtain ⟨after, queue, -⟩ := ready.dispatch first
    rcases List.mem_cons.mp recorded with now | later
    · obtain ⟨-, gains⟩ := after.play rest
      obtain ⟨rfl, rfl⟩ := Prod.mk.injEq .. ▸ now
      rcases dispatch_cases ready event with ⟨-, same⟩ | ⟨parent, definition, key, hears, -⟩
      · exact absurd (congrArg (·.2.2) same) told
      · have about : event.isAbout event.result.id key = true := Event.isAbout_iff.mpr ⟨rfl, hears.named⟩
        obtain ⟨ref, here, -, own⟩ := dispatch_of_about ready hears.queued hears.defined about
        refine ⟨event.result.id, parent, definition, key, hears.queued, hears.defined, about, ?_⟩
        intro transition member
        rw [own transition member]
        exact gains.child after.sound.valid _ _ _ here
    · rw [← queue, ← definition?_dispatch ready first]
      exact ih after later

theorem map_event_play (replay : Replay) (editor : Editor) (events : List Event) :
    (replay.play editor events).2.2.map (·.1) = events := by
  induction events generalizing replay editor with
  | nil => rfl
  | cons event rest ih => exact congrArg (event :: ·) (ih ..)

theorem Ready.start {editor : Editor} (sound : editor.Sound) {refs : List Ref}
    (exist : ∀ ref ∈ refs, ref < editor.outline.nodes.size) : Ready (Replay.start editor.outline refs) editor := by
  refine ⟨sound, ?_⟩
  intro entry member
  rw [Replay.start, List.mem_reverse] at member
  obtain ⟨ref, listed, rfl⟩ := List.mem_map.mp member
  obtain ⟨root, queued, below⟩ := List.mem_flatMap.mp listed
  exact valid_of_mem_descendantsUpTo sound.valid (exist root queued) below

end Replay

private theorem foldl_dispatch (replay : Replay) (editor : Editor) (said : List Transition) (events : List Event) :
    events.foldl (fun (replay, editor, transitions) event =>
      let (replay, editor, further) := Replay.dispatch replay editor event
      (replay, editor, transitions ++ further)) (replay, editor, said) =
        ((replay.play editor events).1, (replay.play editor events).2.1, said ++ (replay.play editor events).2.2.flatMap (·.2)) := by
  induction events generalizing replay editor said with
  | nil => simp [Replay.play]
  | cons event rest ih =>
    rw [List.foldl_cons, ih, List.append_assoc]
    rfl

/-- The lines of a run are taken in as the events that are written on them. -/
theorem replayLines_eq (editor : Editor) (text : String) : Command.replayLines editor text =
    let events := (Text.lines text.toList).filterMap fun line =>
      if Text.blank line then none else (Event.ofLine (String.ofList line)).toOption
    let played := (Replay.start editor.outline editor.outline.top).play editor events
    (played.2.1, played.2.2.flatMap (·.2)) := by
  simp only [Command.replayLines, foldl_dispatch, List.nil_append]

/-! ## Runs of an editor -/

/-- What the collection of an editor can come to: things happen to files, configurations change, and runs are followed. -/
inductive Reached : Collection Editor → Prop where
  | fresh (reader : Surface.Reader) (configuration : Configuration) : Reached (Collection.fresh reader configuration)
  | perform {collection : Collection Editor} (reached : Reached collection) (action : Action) :
      Reached (collection.perform action)
  | play {collection : Collection Editor} (reached : Reached collection) (refs : List Ref)
      (exist : ∀ ref ∈ refs, ref < collection.tracker.outline.nodes.size) (events : List Event) :
      Reached { collection with
        tracker := ((Replay.start collection.tracker.outline refs).play collection.tracker events).2.1 }

variable {collection : Collection Editor}

theorem Reached.sound (reached : Reached collection) : collection.tracker.Sound := by
  induction reached with
  | fresh reader configuration => exact Collection.sound_fresh reader configuration
  | perform _ action sound => exact Collection.sound_perform sound action
  | play _ refs exist events sound => exact ((Replay.Ready.start sound exist).play events).1.sound

/-- Whatever a run reports in whatever order, the item of a data set goes through the states that the events about this data
set lead to, and is there once there is such an event. Events about anything else say nothing. -/
theorem data_sets_follow_their_events (reached : Reached collection) (plain : ∀ entry ∈ collection.tracker.index, Plain entry.1)
    (refs : List Ref) (exist : ∀ ref ∈ refs, ref < collection.tracker.outline.nodes.size) (events : List Event) :
    let editor := collection.tracker
    let replay := Replay.start editor.outline refs
    let after := (replay.play editor events).2.1.outline
    let recorded := (replay.play editor events).2.2
    (∀ id parent definition key, replay.queue.lookup id = some parent → editor.definition? id = some definition → IsKey key →
        let child? := after.child? (some parent) (definition.dataSetChild key).id
        (events.filter (·.isAbout id key) ≠ [] → child?.isSome) ∧
          ∀ child, child? = some child → (recorded.flatMap (·.2)).filter (·.ref == child) =
            course child false (events.filter (·.isAbout id key))) ∧
      recorded.map (·.1) = events ∧
      ∀ event said, (event, said) ∈ recorded → said ≠ [] → ∃ id parent definition key,
        replay.queue.lookup id = some parent ∧ editor.definition? id = some definition ∧ event.isAbout id key = true ∧
          ∀ transition ∈ said, after.child? (some parent) (definition.dataSetChild key).id = some transition.ref := by
  intro editor replay after recorded
  have ready : Replay.Ready replay editor := Replay.Ready.start reached.sound exist
  have clear : ∀ id definition, editor.definition? id = some definition → Plain id := by
    intro id definition defined
    obtain ⟨-, entry, member, rfl⟩ := ready.sound.definition?_id defined
    exact plain entry member
  refine ⟨?_, Replay.map_event_play replay editor events, fun event said => Replay.about_of_said ready⟩
  intro id parent definition key queued defined isKey child?
  refine ⟨?_, fun child found => Replay.course_of_play ready clear queued defined isKey events found⟩
  intro heard
  obtain ⟨event, member⟩ := List.exists_mem_of_ne_nil _ heard
  obtain ⟨inside, about⟩ := List.mem_filter.mp member
  exact Replay.child_of_play ready queued defined inside about

private def sumReader : Surface.Reader := fun source =>
  let node : Code.ClassDecl := {
    name := "SumTest", body := [.method { name := "testAdd", body := some {} }, .method { name := "testMul", body := some {} }] }
  if source = "sum" then some (.program { children := [.classDecl node] }) else none

private def sumConfiguration : Configuration where
  root := ⟨"/p"⟩
  rules := [{ suite := "unit", tag := .file, value := "Sum.php" }]

private def sumRun : Collection Editor :=
  (Collection.fresh sumReader sumConfiguration).perform (.update ⟨"/p/Sum.php"⟩ "sum")

private def sumEvent (kind : EventKind) (method key : String) : Event :=
  ⟨kind, { id := "SumTest::" ++ method, name := "SumTest::" ++ method ++ " with data set " ++ key }⟩

/-- One data set of a test fails while another one, a data set of another test and the test itself go on. -/
private def sumEvents : List Event := [
  sumEvent .started "testAdd" "#0", sumEvent .started "testMul" "#0", sumEvent .failed "testAdd" "#0",
  sumEvent .started "testAdd" "\"two\"", sumEvent .finished "testMul" "#0", sumEvent .finished "testAdd" "#0",
  ⟨.finished, { id := "SumTest::testAdd", name := "testAdd" }⟩, sumEvent .finished "testAdd" "\"two\"",
  sumEvent .ignored "testSub" "#0"]

/-- What the run comes to for a data set: the states of the item below the item of its test. -/
private def sumTold (id key : String) (states : List RunState) : Prop :=
  let replay := Replay.start sumRun.tracker.outline sumRun.tracker.outline.top
  ∃ parent ∈ replay.queue.lookup id, ∃ child ∈ (replay.play sumRun.tracker sumEvents).2.1.outline.child? (some parent)
    (id ++ " " ++ (dataSetPhrase ++ key)),
    (((replay.play sumRun.tracker sumEvents).2.2.flatMap (·.2)).filter (·.ref == child)).map (·.state) = states

/-- The data set that has failed does not pass, and the others do. -/
theorem failed_data_set_does_not_pass : Reached sumRun ∧ sumTold "SumTest::testAdd" "#0" [.started, .failed] ∧
    sumTold "SumTest::testAdd" "\"two\"" [.started, .passed] ∧ sumTold "SumTest::testMul" "#0" [.started, .passed] := by
  have reached : Reached sumRun := .perform (.fresh sumReader sumConfiguration) _
  have plain : ∀ entry ∈ sumRun.tracker.index, Plain entry.1 := by decide +kernel
  have exist : ∀ ref ∈ sumRun.tracker.outline.top, ref < sumRun.tracker.outline.nodes.size := by decide +kernel
  obtain ⟨follow, -⟩ := data_sets_follow_their_events reached plain sumRun.tracker.outline.top exist sumEvents
  have tells : ∀ id key states,
      ((Replay.start sumRun.tracker.outline sumRun.tracker.outline.top).queue.lookup id).isSome →
      (sumRun.tracker.definition? id).isSome → IsKey key → sumEvents.filter (·.isAbout id key) ≠ [] →
      (course 0 false (sumEvents.filter (·.isAbout id key))).map (·.state) = states → sumTold id key states := by
    intro id key states queued defined isKey heard same
    obtain ⟨parent, queued⟩ := Option.isSome_iff_exists.mp queued
    obtain ⟨definition, defined⟩ := Option.isSome_iff_exists.mp defined
    obtain ⟨present, course⟩ := follow id parent definition key queued defined isKey
    obtain ⟨child, found⟩ := Option.isSome_iff_exists.mp (present heard)
    have own : definition.id = id := (reached.sound.definition?_id defined).1
    refine ⟨parent, queued, child, own ▸ found, ?_⟩
    rw [course child found, states_course child 0, same]
  refine ⟨reached, tells _ _ _ ?_ ?_ ?_ ?_ ?_, tells _ _ _ ?_ ?_ ?_ ?_ ?_, tells _ _ _ ?_ ?_ ?_ ?_ ?_⟩
  all_goals decide +kernel

end Runner

end TestScout
