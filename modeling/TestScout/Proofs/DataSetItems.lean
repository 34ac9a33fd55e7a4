import TestScout.Proofs.DataSetPlaces

/-! What a run leaves behind in the outline. An event about a data set of a queued test finds the item of the data set or
makes it, so that there is one item for each test and key however often they are named, in the order in which they came
first. Nothing that was there before is changed. -/

namespace TestScout.Outline

variable {outline : Outline}

/-- A new item is the child with its id below its parent, and there is no other new child. -/
theorem child?_adopt (sound : outline.Valid) {parent : Ref} (exist : parent < outline.nodes.size) {item : Item}
    (new : outline.child? (some parent) item.id = none) (place : Place) (id : String) :
    (outline.adopt parent item).child? place id =
      (outline.child? place id).or (if place = some parent ∧ item.id = id then some outline.nodes.size else none) := by
  obtain ⟨-, -, ids, children⟩ := adopt_views sound exist new
  have still : (outline.childrenOf place).find? ((outline.adopt parent item).idOf · == id) = outline.child? place id := by
    refine List.find?_congr fun ref member => ?_
    rw [ids, if_neg (Nat.ne_of_lt (sound.children place ref member))]
  rw [child?, children, List.find?_append, still]
  congr 1
  by_cases here : place = some parent
  · by_cases same : item.id = id <;> simp [here, ids, same]
  · simp [here]

/-- An outline with a new item has all others as they were. -/
theorem adopt_keeps (sound : outline.Valid) {parent : Ref} (exist : parent < outline.nodes.size) {item : Item}
    (new : outline.child? (some parent) item.id = none) : (outline.adopt parent item).nodes.size = outline.nodes.size + 1 ∧
      (∀ ref, (outline.adopt parent item).item ref = if ref = outline.nodes.size then item else outline.item ref) ∧
      ∀ ref, (outline.adopt parent item).parentOf ref = if ref = outline.nodes.size then some parent else outline.parentOf ref := by
  have last : outline.nodes.size < (outline.create item).1.nodes.size := size_create item ▸ Nat.lt_succ_self _
  have inside : (outline.create item).1.Inside (some parent) := inside_below (Nat.lt_trans exist last)
  have moved : Moved (outline.create item).1 (outline.adopt parent item) := moved_add inside last
  refine ⟨moved.size.trans (size_create item), fun ref => (moved.item ref).trans (item_create item ref), fun ref => ?_⟩
  split
  next same => rw [same, adopt, parentOf_add_self last]
  next differs =>
    have still := @parentOf_add_ne (outline.create item).1 (some parent) _ last ref differs
    rw [child?_create sound new, if_neg fun found => Option.some_ne_none _ found.1.symm] at still
    exact still.trans (parentOf_create item ref)

/-- New items with nothing below them have been put behind all that was below another item. -/
def Appends (first second : Outline) (parent : Ref) (items : List Item) : Prop :=
  ∃ new, second.childrenOf (some parent) = first.childrenOf (some parent) ++ new ∧ new.map second.item = items ∧
    new.Pairwise (· < ·) ∧
    ∀ ref ∈ new, first.nodes.size ≤ ref ∧ second.parentOf ref = some parent ∧ second.childrenOf (some ref) = []

section

variable (sound : outline.Valid) {parent : Ref} (exist : parent < outline.nodes.size) {item : Item}
  (new : outline.child? (some parent) item.id = none) {final : Outline} {items : List Item}
include sound exist new

/-- An item that is made below another one comes in front of those that are made there later. -/
theorem Appends.after_own (appends : Appends (outline.adopt parent item) final parent items)
    (looks : final.item outline.nodes.size = item) (place : final.parentOf outline.nodes.size = some parent)
    (bare : final.childrenOf (some outline.nodes.size) = []) : Appends outline final parent (item :: items) := by
  obtain ⟨-, -, -, children⟩ := adopt_views sound exist new
  obtain ⟨size, -⟩ := adopt_keeps sound exist new
  obtain ⟨added, behind, same, order, all⟩ := appends
  have last : ∀ ref ∈ added, outline.nodes.size < ref := fun ref member =>
    Nat.lt_of_lt_of_le (size ▸ Nat.lt_succ_self _) (all ref member).1
  refine ⟨outline.nodes.size :: added, ?_, ?_, List.pairwise_cons.mpr ⟨last, order⟩, ?_⟩
  · rw [behind, children, if_pos rfl, List.append_assoc, List.singleton_append]
  · rw [List.map_cons, looks, same]
  · exact List.forall_mem_cons.mpr ⟨⟨Nat.le_refl _, place, bare⟩, fun ref member => ⟨Nat.le_of_lt (last ref member), (all ref member).2⟩⟩

/-- An item that is made elsewhere makes no difference. -/
theorem Appends.after_other {other : Ref} (apart : other ≠ parent) (appends : Appends (outline.adopt parent item) final other items) :
    Appends outline final other items := by
  obtain ⟨-, -, -, children⟩ := adopt_views sound exist new
  obtain ⟨size, -⟩ := adopt_keeps sound exist new
  obtain ⟨added, behind, same, order, all⟩ := appends
  refine ⟨added, ?_, same, order, fun ref member => ⟨Nat.le_trans (size ▸ Nat.le_succ _) (all ref member).1, (all ref member).2⟩⟩
  rw [behind, children, if_neg fun one => apart (Option.some.inj one), List.append_nil]

end

end TestScout.Outline

namespace TestScout.Runner.Replay
open Test Outline Editor

/-- The items that events come to, one after the other. -/
def hits (replay : Replay) (editor : Editor) : List Event → List (Event × Option Ref)
  | [] => []
  | event :: rest =>
    let (next, changed, _) := replay.dispatch editor event
    (event, (replay.target? editor event.result).map (·.2)) :: next.hits changed rest

/-- The keys of data sets of a test that events name. -/
def namedKeys (id : String) (events : List Event) : List String :=
  (events.filter (·.result.id == id)).filterMap fun event => dataSetKey? event.result.name

/-- The keys of data sets of a test that there are no items for yet, in the order in which events name them first. -/
def newKeys (outline : Outline) (parent : Ref) (definition : Definition) (events : List Event) : List String :=
  ((namedKeys definition.id events).filter fun key =>
    (outline.child? (some parent) (definition.dataSetChild key).id).isNone).eraseDups

/-- The items that events add below one that is queued. -/
def newItems (editor : Editor) (id : String) (parent : Ref) (events : List Event) : List Item :=
  match editor.definition? id with
  | none => []
  | some definition => (newKeys editor.outline parent definition events).map fun key =>
      itemOf (editor.outline.item parent) definition (definition.dataSetChild key)

variable {replay : Replay} {editor : Editor} {event : Event} {parent : Ref} {definition : Definition} {key : String}

/-! ## One event -/

/-- An event changes nothing, or it makes the item of a data set that there was no item for. -/
theorem editor_dispatch_cases (replay : Replay) (editor : Editor) (event : Event) :
    (∀ parent definition key, ¬Hears replay editor event parent definition key) ∧ (replay.dispatch editor event).2.1 = editor ∨
      ∃ parent definition key, Hears replay editor event parent definition key ∧
        ((editor.outline.child? (some parent) (definition.dataSetChild key).id).isSome ∧
            (replay.dispatch editor event).2.1 = editor ∨
          editor.outline.child? (some parent) (definition.dataSetChild key).id = none ∧
            (replay.dispatch editor event).2.1 = grafted editor parent definition key) := by
  rw [editor_dispatch]
  by_cases heard : ∃ parent definition key, Hears replay editor event parent definition key
  · obtain ⟨parent, definition, key, hears⟩ := heard
    refine .inr ⟨parent, definition, key, hears, ?_⟩
    cases found : editor.outline.child? (some parent) (definition.dataSetChild key).id with
    | some ref => exact .inl ⟨rfl, by rw [target?_of_child hears found]; rfl⟩
    | none => exact .inr ⟨rfl, by rw [target?_of_new hears found]; rfl⟩
  · have unheard : ∀ parent definition key, ¬Hears replay editor event parent definition key :=
      fun parent definition key hears => heard ⟨parent, definition, key, hears⟩
    exact .inl ⟨unheard, by rw [target?_eq_none unheard]; rfl⟩

theorem Hears.congr {next : Replay} {changed : Editor} (hears : Hears replay editor event parent definition key)
    (queue : next.queue = replay.queue) (defined : changed.definition? = editor.definition?) :
    Hears next changed event parent definition key := ⟨queue ▸ hears.queued, defined ▸ hears.defined, hears.named⟩

/-- Everything that was there is as it was, but that queued items may have got more children. -/
structure Grafts (replay : Replay) (first second : Outline) : Prop where
  size : first.nodes.size ≤ second.nodes.size
  items : ∀ ref < first.nodes.size, second.item ref = first.item ref
  parents : ∀ ref < first.nodes.size, second.parentOf ref = first.parentOf ref
  children : ∀ place, (∀ id parent, replay.queue.lookup id = some parent → place ≠ some parent) →
    second.childrenOf place = first.childrenOf place

theorem Grafts.refl (replay : Replay) (outline : Outline) : Grafts replay outline outline :=
  ⟨Nat.le_refl _, fun _ _ => rfl, fun _ _ => rfl, fun _ _ => rfl⟩

theorem Grafts.trans {first second third : Outline} (one : Grafts replay first second) (two : Grafts replay second third) :
    Grafts replay first third where
  size := Nat.le_trans one.size two.size
  items ref valid := (two.items ref (Nat.lt_of_lt_of_le valid one.size)).trans (one.items ref valid)
  parents ref valid := (two.parents ref (Nat.lt_of_lt_of_le valid one.size)).trans (one.parents ref valid)
  children place other := (two.children place other).trans (one.children place other)

theorem grafts_dispatch (ready : Ready replay editor) (event : Event) :
    (replay.dispatch editor event).2.1 = { editor with outline := (replay.dispatch editor event).2.1.outline } ∧
      Grafts replay editor.outline (replay.dispatch editor event).2.1.outline := by
  rcases editor_dispatch_cases replay editor event with ⟨-, same⟩ | ⟨parent, definition, key, hears, ⟨-, same⟩ | ⟨new, grown⟩⟩
  · rw [same]
    exact ⟨rfl, Grafts.refl replay _⟩
  · rw [same]
    exact ⟨rfl, Grafts.refl replay _⟩
  · have exist := ready.queue _ (mem_of_lookup hears.queued)
    let item := itemOf (editor.outline.item parent) definition (definition.dataSetChild key)
    obtain ⟨-, -, -, children⟩ : _ ∧ _ ∧ _ ∧ ∀ place, (editor.outline.adopt parent item).childrenOf place = _ :=
      adopt_views ready.sound.valid exist new
    obtain ⟨size, items, parents⟩ : (editor.outline.adopt parent item).nodes.size = _ ∧ _ ∧ _ :=
      adopt_keeps ready.sound.valid exist new
    rw [grown]
    refine ⟨rfl, ?_, ?_, ?_, ?_⟩
    · exact size ▸ Nat.le_succ _
    · exact fun ref valid => (items ref).trans (if_neg (Nat.ne_of_lt valid))
    · exact fun ref valid => (parents ref).trans (if_neg (Nat.ne_of_lt valid))
    · intro place other
      refine (children place).trans ?_
      rw [if_neg (other _ parent hears.queued), List.append_nil]

theorem Grafts.congr {next : Replay} {first second : Outline} (grafts : Grafts next first second)
    (queue : next.queue = replay.queue) : Grafts replay first second :=
  ⟨grafts.size, grafts.items, grafts.parents, queue ▸ grafts.children⟩

theorem grafts_play (ready : Ready replay editor) (events : List Event) :
    (replay.play editor events).2.1 = { editor with outline := (replay.play editor events).2.1.outline } ∧
      Grafts replay editor.outline (replay.play editor events).2.1.outline := by
  induction events generalizing replay editor with
  | nil => exact ⟨rfl, Grafts.refl replay _⟩
  | cons event rest ih =>
    obtain ⟨next, queue, -⟩ := ready.dispatch event
    obtain ⟨kept, first⟩ := grafts_dispatch ready event
    obtain ⟨still, later⟩ := ih next
    refine ⟨still.trans ?_, first.trans (later.congr queue)⟩
    show _ = { editor with outline := ((replay.dispatch editor event).1.play (replay.dispatch editor event).2.1 rest).2.1.outline }
    generalize ((replay.dispatch editor event).1.play (replay.dispatch editor event).2.1 rest).2.1.outline = last
    rw [kept]

theorem dataSetChild_id_inj {other : Definition} {name : String} (same : definition.id = other.id) :
    (definition.dataSetChild key).id = (other.dataSetChild name).id ↔ key = name := by
  simp only [Definition.dataSetChild, same, ← String.toList_inj, String.toList_append, List.append_cancel_left_eq]

/-! ## What the items of events are -/

theorem map_event_hits (replay : Replay) (editor : Editor) (events : List Event) :
    (replay.hits editor events).map (·.1) = events := by
  induction events generalizing replay editor with
  | nil => rfl
  | cons event rest ih => exact congrArg (event :: ·) (ih ..)

/-- What an event comes to is the item of its data set in the end, if it is about one. -/
theorem hit_of_play (ready : Ready replay editor) {events : List Event} {hit : Event × Option Ref}
    (member : hit ∈ replay.hits editor events) :
    (∀ parent definition key, ¬Hears replay editor hit.1 parent definition key) ∧ hit.2 = none ∨
      ∃ parent definition key, Hears replay editor hit.1 parent definition key ∧ ∃ ref, hit.2 = some ref ∧
        (replay.play editor events).2.1.outline.child? (some parent) (definition.dataSetChild key).id = some ref := by
  induction events generalizing replay editor with
  | nil => cases member
  | cons event rest ih =>
    obtain ⟨next, queue, -⟩ := ready.dispatch event
    have defined := definition?_dispatch ready event
    rcases List.mem_cons.mp member with rfl | later
    · by_cases heard : ∃ parent definition key, Hears replay editor event parent definition key
      · obtain ⟨parent, definition, key, hears⟩ := heard
        obtain ⟨changed, ref, target, -, -, child⟩ := target?_of_hears ready hears
        have same : (replay.dispatch editor event).2.1 = changed := by rw [editor_dispatch, target]; rfl
        obtain ⟨-, gains⟩ := next.play rest
        refine .inr ⟨parent, definition, key, hears, ref, by rw [target]; rfl, ?_⟩
        exact gains.child next.sound.valid _ _ _ (same ▸ child)
      · have unheard : ∀ parent definition key, ¬Hears replay editor event parent definition key :=
          fun parent definition key hears => heard ⟨parent, definition, key, hears⟩
        exact .inl ⟨unheard, by rw [target?_eq_none unheard]; rfl⟩
    · rcases ih next later with ⟨unheard, none⟩ | ⟨parent, definition, key, hears, found⟩
      · exact .inl ⟨fun parent definition key hears => unheard parent definition key (hears.congr queue defined), none⟩
      · exact .inr ⟨parent, definition, key, hears.congr queue.symm defined.symm, found⟩

/-- Events come to the same item just when they are about the same data set of the same test. -/
theorem hits_eq_iff (ready : Ready replay editor) (keyed : ∀ entry ∈ replay.queue, editor.outline.idOf entry.2 = entry.1)
    (homed : editor.outline.Homed) {events : List Event} {hit other : Event × Option Ref} (here : hit ∈ replay.hits editor events)
    (there : other ∈ replay.hits editor events) (some : hit.2.isSome) (second : other.2.isSome) : hit.2 = other.2 ↔
      hit.1.result.id = other.1.result.id ∧ dataSetKey? hit.1.result.name = dataSetKey? other.1.result.name := by
  rcases hit_of_play ready here with ⟨-, none⟩ | ⟨parent, definition, key, hears, ref, same, child⟩
  · simp [none] at some
  rcases hit_of_play ready there with ⟨-, none⟩ | ⟨above, further, name, heard, item, equal, found⟩
  · simp [none] at second
  rw [same, equal, hears.named, heard.named]
  constructor
  · intro one
    obtain rfl := Option.some.inj one
    obtain ⟨listed, named⟩ := mem_of_child? child
    obtain ⟨also, known⟩ := mem_of_child? found
    obtain ⟨-, grafts⟩ := grafts_play ready events
    have ids : ∀ {id place}, replay.queue.lookup id = Option.some place →
        (replay.play editor events).2.1.outline.idOf place = id := fun {_ place} queued =>
      (congrArg Item.id (grafts.items place (ready.queue _ (mem_of_lookup queued)))).trans (keyed _ (mem_of_lookup queued))
    have own := (ready.sound.definition?_id hears.defined).1
    have its := (ready.sound.definition?_id heard.defined).1
    have place : parent = above := tidy_play ready homed events parent above ref
      ⟨listed, key, by rw [named, ids hears.queued, ← own]; rfl⟩ ⟨also, name, by rw [known, ids heard.queued, ← its]; rfl⟩
    have id : hit.1.result.id = other.1.result.id := (ids hears.queued).symm.trans (place ▸ ids heard.queued)
    refine ⟨id, ?_⟩
    have text := named.symm.trans known
    exact congrArg Option.some ((dataSetChild_id_inj (own.trans (id.trans its.symm))).mp text)
  · rintro ⟨id, name_eq⟩
    obtain rfl := Option.some.inj ((id ▸ hears.queued).symm.trans heard.queued)
    obtain rfl := Option.some.inj ((id ▸ hears.defined).symm.trans heard.defined)
    obtain rfl := Option.some.inj name_eq
    rw [← child, ← found]

/-! ## What is added below queued items -/

theorem namedKeys_cons_of_ne {id : String} (other : event.result.id ≠ id) (rest : List Event) :
    namedKeys id (event :: rest) = namedKeys id rest := by
  rw [namedKeys, List.filter_cons_of_neg (by simpa using other)]
  rfl

theorem namedKeys_cons (event : Event) (rest : List Event) : namedKeys event.result.id (event :: rest) =
    (dataSetKey? event.result.name).toList ++ namedKeys event.result.id rest := by
  rw [namedKeys, List.filter_cons_of_pos (by simp), List.filterMap_cons]
  cases dataSetKey? event.result.name <;> rfl

theorem newItems_congr {changed : Editor} {id : String} {first second : List Event}
    (defined : changed.definition? = editor.definition?)
    (item : changed.outline.item parent = editor.outline.item parent)
    (keys : ∀ definition, editor.definition? id = some definition →
      newKeys changed.outline parent definition first = newKeys editor.outline parent definition second) :
    newItems changed id parent first = newItems editor id parent second := by
  unfold newItems
  rw [defined, item]
  cases found : editor.definition? id with
  | none => rfl
  | some definition => simp only [keys definition found]

/-- An event adds nothing below an item unless it is about a data set that there is no item for. -/
theorem newItems_cons_of_known (ready : Ready replay editor) {id : String} (queued : replay.queue.lookup id = some parent)
    (known : ∀ definition key, id = event.result.id → Hears replay editor event parent definition key →
      (editor.outline.child? (some parent) (definition.dataSetChild key).id).isSome) (rest : List Event) :
    newItems editor id parent (event :: rest) = newItems editor id parent rest := by
  refine newItems_congr rfl rfl fun definition defined => ?_
  have own := (ready.sound.definition?_id defined).1
  rw [newKeys, newKeys, own]
  by_cases same : event.result.id = id
  · subst same
    rw [namedKeys_cons]
    cases named : dataSetKey? event.result.name with
    | none => rfl
    | some key =>
      have there := known definition key rfl ⟨queued, defined, named⟩
      rw [Option.toList_some, List.singleton_append, List.filter_cons_of_neg (by simpa using Option.isSome_iff_ne_none.mp there)]
  · rw [namedKeys_cons_of_ne same]

/-- The item that an event makes comes in front of those that later events make. -/
theorem newItems_cons_of_new (ready : Ready replay editor) (hears : Hears replay editor event parent definition key)
    (new : editor.outline.child? (some parent) (definition.dataSetChild key).id = none) (rest : List Event) :
    newItems editor event.result.id parent (event :: rest) =
      itemOf (editor.outline.item parent) definition (definition.dataSetChild key) ::
        newItems (grafted editor parent definition key) event.result.id parent rest := by
  have exist := ready.queue _ (mem_of_lookup hears.queued)
  let item := itemOf (editor.outline.item parent) definition (definition.dataSetChild key)
  have child : ∀ place id, (editor.outline.adopt parent item).child? place id = _ := child?_adopt ready.sound.valid exist new
  obtain ⟨-, items, -⟩ : _ ∧ (∀ ref, (editor.outline.adopt parent item).item ref = _) ∧ _ :=
    adopt_keeps ready.sound.valid exist new
  have own := (ready.sound.definition?_id hears.defined).1
  have still : (grafted editor parent definition key).definition? event.result.id = some definition := hears.defined
  have above : (grafted editor parent definition key).outline.item parent = editor.outline.item parent :=
    (items parent).trans (if_neg (Nat.ne_of_lt exist))
  have keys : newKeys editor.outline parent definition (event :: rest) =
      key :: newKeys (grafted editor parent definition key).outline parent definition rest := by
    rw [newKeys, newKeys, own, namedKeys_cons, hears.named, Option.toList_some, List.singleton_append,
      List.filter_cons_of_pos (by simp [new]), List.eraseDups_cons, List.filter_filter]
    congr 3
    funext name
    show _ = ((editor.outline.adopt parent item).child? (some parent) (definition.dataSetChild name).id).isNone
    rw [child]
    have names : item.id = (definition.dataSetChild name).id ↔ key = name := dataSetChild_id_inj rfl
    simp only [true_and, names]
    by_cases same : key = name
    · simp [same]
    · simp [same, Ne.symm same]
  unfold newItems
  rw [hears.defined, still, above]
  simp only [keys, List.map_cons]

/-- What events add below a queued item comes behind what was there: an item for each new key. -/
theorem appends_play (ready : Ready replay editor) (keyed : ∀ entry ∈ replay.queue, editor.outline.idOf entry.2 = entry.1)
    {id : String} (queued : replay.queue.lookup id = some parent) (events : List Event) :
    Appends editor.outline (replay.play editor events).2.1.outline parent (newItems editor id parent events) := by
  induction events generalizing replay editor with
  | nil =>
    refine ⟨[], (List.append_nil _).symm, ?_, .nil, nofun⟩
    unfold newItems
    cases editor.definition? id <;> rfl
  | cons event rest ih =>
    obtain ⟨next, queue, -⟩ := ready.dispatch event
    obtain ⟨-, grown⟩ := grafts_dispatch ready event
    obtain ⟨-, later⟩ := grafts_play next rest
    have exist := ready.queue _ (mem_of_lookup queued)
    have still : ∀ entry ∈ (replay.dispatch editor event).1.queue,
        (replay.dispatch editor event).2.1.outline.idOf entry.2 = entry.1 := by
      intro entry member
      rw [queue] at member
      exact (congrArg Item.id (grown.items entry.2 (ready.queue entry member))).trans (keyed entry member)
    have appends := ih next still (queue ▸ queued)
    have elsewhere : ∀ ref, editor.outline.nodes.size ≤ ref → ∀ id above,
        (replay.dispatch editor event).1.queue.lookup id = some above → some ref ≠ some above := by
      intro ref high id above listed same
      rw [queue] at listed
      exact absurd (ready.queue _ (mem_of_lookup listed)) (Nat.not_lt_of_le (Option.some.inj same ▸ high))
    show Appends editor.outline ((replay.dispatch editor event).1.play (replay.dispatch editor event).2.1 rest).2.1.outline _ _
    generalize ((replay.dispatch editor event).1.play (replay.dispatch editor event).2.1 rest).2.1.outline = final at later appends ⊢
    rcases editor_dispatch_cases replay editor event with ⟨unheard, same⟩ | ⟨above, definition, key, hears, ⟨present, same⟩ | ⟨new, made⟩⟩
    · rw [newItems_cons_of_known ready queued fun definition key _ hears => absurd hears (unheard parent definition key)]
      rwa [same] at appends
    · rw [newItems_cons_of_known ready queued fun further name _ heard => ?_]
      · rwa [same] at appends
      · obtain rfl := Option.some.inj (hears.queued.symm.trans heard.queued)
        obtain rfl := Option.some.inj (hears.defined.symm.trans heard.defined)
        obtain rfl := Option.some.inj (hears.named.symm.trans heard.named)
        exact present
    · have held := ready.queue _ (mem_of_lookup hears.queued)
      let item := itemOf (editor.outline.item above) definition (definition.dataSetChild key)
      obtain ⟨-, -, -, children⟩ : _ ∧ _ ∧ _ ∧ ∀ place, (editor.outline.adopt above item).childrenOf place = _ :=
        adopt_views ready.sound.valid held new
      obtain ⟨size, items, parents⟩ : (editor.outline.adopt above item).nodes.size = _ ∧ _ ∧ _ :=
        adopt_keeps ready.sound.valid held new
      rw [made] at appends later
      by_cases same : event.result.id = id
      · subst same
        obtain rfl := Option.some.inj (hears.queued.symm.trans queued)
        have last : editor.outline.nodes.size < (editor.outline.adopt above item).nodes.size := size ▸ Nat.lt_succ_self _
        rw [newItems_cons_of_new ready hears new]
        refine appends.after_own ready.sound.valid held new ?_ ?_ ?_
        · exact (later.items _ last).trans ((items _).trans (if_pos rfl))
        · exact (later.parents _ last).trans ((parents _).trans (if_pos rfl))
        · refine (later.children _ (elsewhere _ (Nat.le_refl _))).trans ((children _).trans ?_)
          rw [childrenOf_eq_nil (Nat.le_refl _), if_neg fun same => Nat.ne_of_lt held (Option.some.inj same).symm]
          rfl
      · have apart : parent ≠ above := fun one => same <|
          (keyed _ (mem_of_lookup hears.queued)).symm.trans
            ((congrArg editor.outline.idOf one.symm).trans (keyed _ (mem_of_lookup queued)))
        have others : newItems (grafted editor above definition key) id parent rest = newItems editor id parent (event :: rest) := by
          refine newItems_congr rfl ((items parent).trans (if_neg (Nat.ne_of_lt exist))) fun further listed => ?_
          rw [newKeys, newKeys, (ready.sound.definition?_id listed).1, namedKeys_cons_of_ne same]
          congr 2
          funext name
          show ((editor.outline.adopt above item).child? (some parent) _).isNone = _
          rw [child?_adopt ready.sound.valid held new, if_neg fun found => apart (Option.some.inj found.1), Option.or_none]
        rw [← others]
        exact appends.after_other ready.sound.valid held new apart

theorem play_append (replay : Replay) (editor : Editor) (first second : List Event) :
    (replay.play editor (first ++ second)).2.1 =
      ((replay.play editor first).1.play (replay.play editor first).2.1 second).2.1 := by
  induction first generalizing replay editor with
  | nil => rfl
  | cons event rest ih => exact ih ..

theorem queue_play (ready : Ready replay editor) (events : List Event) : (replay.play editor events).1.queue = replay.queue := by
  induction events generalizing replay editor with
  | nil => rfl
  | cons event rest ih =>
    obtain ⟨next, queue, -⟩ := ready.dispatch event
    exact (ih next).trans queue

theorem definition?_play (ready : Ready replay editor) (events : List Event) :
    (replay.play editor events).2.1.definition? = editor.definition? := by
  rw [(grafts_play ready events).1]
  rfl

/-- An event that is about no data set of a queued test leaves everything as it is, whenever it comes. -/
theorem play_of_unheard (ready : Ready replay editor) (events : List Event)
    (unheard : ∀ parent definition key, ¬Hears replay editor event parent definition key) :
    (replay.play editor (events ++ [event])).2.1 = (replay.play editor events).2.1 := by
  rw [play_append]
  have queue := queue_play ready events
  have defined := definition?_play ready events
  rcases editor_dispatch_cases (replay.play editor events).1 (replay.play editor events).2.1 event with
    ⟨-, same⟩ | ⟨parent, definition, key, hears, -⟩
  · exact same
  · exact absurd (hears.congr queue.symm defined.symm) (unheard parent definition key)

theorem keyed_start (outline : Outline) (refs : List Ref) :
    ∀ entry ∈ (Replay.start outline refs).queue, outline.idOf entry.2 = entry.1 := by
  intro entry member
  rw [start, List.mem_reverse] at member
  obtain ⟨ref, -, rfl⟩ := List.mem_map.mp member
  rfl

/-- What the events of a run do to the items of an editor. -/
structure FindsOrMakes (replay : Replay) (editor : Editor) (events : List Event) : Prop where
  recorded : (replay.hits editor events).map (·.1) = events
  /-- An event comes to an item just when it is about a data set of a test that is queued and defined. -/
  heard : ∀ hit ∈ replay.hits editor events,
    hit.2.isSome ↔ ∃ parent definition key, Hears replay editor hit.1 parent definition key
  /-- Two events come to one item just when both do to some and name the same test and the same key. -/
  same : ∀ hit ∈ replay.hits editor events, ∀ other ∈ replay.hits editor events, hit.2.isSome ∧ hit.2 = other.2 ↔
    hit.2.isSome ∧ other.2.isSome ∧ hit.1.result.id = other.1.result.id ∧
      dataSetKey? hit.1.result.name = dataSetKey? other.1.result.name
  /-- Any other event leaves everything as it is, also when it comes next. -/
  unheard : ∀ event, (∀ parent definition key, ¬Hears replay editor event parent definition key) →
    (replay.play editor (events ++ [event])).2.1 = (replay.play editor events).2.1
  /-- Below a queued item there is a new one for each key that was not there, behind those that were. -/
  appends : ∀ id parent, replay.queue.lookup id = some parent →
    Appends editor.outline (replay.play editor events).2.1.outline parent (newItems editor id parent events)
  /-- Nothing else is changed of items or places that were there, nor of anything else in the editor. -/
  grafts : Grafts replay editor.outline (replay.play editor events).2.1.outline
  rest : (replay.play editor events).2.1 = { editor with outline := (replay.play editor events).2.1.outline }

end TestScout.Runner.Replay

namespace TestScout.Runner
open Test Outline Editor

/-- However a run names data sets, each of a queued test gets one item, and nothing else of the outline changes. -/
theorem data_sets_found_or_made {collection : Collection Editor} (reached : Reached collection) (refs : List Ref)
    (exist : ∀ ref ∈ refs, ref < collection.tracker.outline.nodes.size) (events : List Event) :
    Replay.FindsOrMakes (Replay.start collection.tracker.outline refs) collection.tracker events := by
  have ready := Replay.Ready.start reached.sound exist
  have keyed := Replay.keyed_start collection.tracker.outline refs
  obtain ⟨rest, grafts⟩ := Replay.grafts_play ready events
  refine {
    recorded := Replay.map_event_hits _ _ _
    heard := fun hit member => ?_
    same := fun hit here other there => ?_
    unheard := fun event => Replay.play_of_unheard ready events
    appends := fun id parent queued => Replay.appends_play ready keyed queued events
    grafts, rest }
  · rcases Replay.hit_of_play ready member with ⟨unheard, none⟩ | ⟨parent, definition, key, hears, ref, same, -⟩
    · rw [none]
      exact iff_of_false nofun fun ⟨parent, definition, key, hears⟩ => unheard parent definition key hears
    · rw [same]
      exact iff_of_true rfl ⟨parent, definition, key, hears⟩
  · have equal := Replay.hits_eq_iff ready keyed reached.tidy.homed here there
    constructor
    · rintro ⟨first, one⟩
      exact ⟨first, one ▸ first, (equal first (one ▸ first)).mp one⟩
    · rintro ⟨first, second, about⟩
      exact ⟨first, (equal first second).mpr about⟩

private def totalReader : Surface.Reader := fun source =>
  let node : Code.ClassDecl := {
    name := "TotalTest", body := [.method { name := "testAdd", body := some {} }, .method { name := "testMul", body := some {} }] }
  if source = "total" then some (.program { children := [.classDecl node] }) else none

private def totalRun : Collection Editor :=
  (Collection.fresh totalReader { root := ⟨"/p"⟩, rules := [{ suite := "unit", tag := .file, value := "Total.php" }] }).perform
    (.update ⟨"/p/Total.php"⟩ "total")

private def totalEvent (kind : EventKind) (method suffix : String) : Event :=
  ⟨kind, { id := "TotalTest::" ++ method, name := method ++ suffix }⟩

private def totalEvents : List Event := [
  totalEvent .started "testAdd" " with data set #0", totalEvent .started "testMul" " with data set #0",
  totalEvent .failed "testAdd" " with data set #0", totalEvent .started "testAdd" "",
  totalEvent .ignored "testAdd" " with data set \"two\"", totalEvent .started "testSub" " with data set #0",
  totalEvent .finished "testMul" " with data set #0"]

/-- Events that are repeated come to the item that the first of them has made. -/
theorem total_data_sets_found_or_made :
    let replay := Replay.start totalRun.tracker.outline totalRun.tracker.outline.top
    Replay.FindsOrMakes replay totalRun.tracker totalEvents ∧
      (replay.hits totalRun.tracker totalEvents).map (·.2) = [some 3, some 4, some 3, none, some 5, none, some 4] := by
  have reached : Reached totalRun := .perform (.fresh _ _) _
  have exist : ∀ ref ∈ totalRun.tracker.outline.top, ref < totalRun.tracker.outline.nodes.size := by decide +kernel
  exact ⟨data_sets_found_or_made reached totalRun.tracker.outline.top exist totalEvents, by decide +kernel⟩

end TestScout.Runner
