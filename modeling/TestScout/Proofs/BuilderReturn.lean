import TestScout.Proofs.BuilderLineage

/-! Taking in definitions again. Each of them comes to where its id belongs, so that all steps of a builder keep what its
items have got back, and a file that has been built has the items that it had. -/

namespace TestScout.Outline
open Test

namespace Builder

variable {builder : Builder} {definition : Definition}

/-- What is in a class or a group is directly below its item. -/
theorem site_of_member (real : definition.kind ≠ .space) (other : definition.kind ≠ .classLike)
    (settles : definition.Settles builder.sites) : ∃ innermost above, builder.frames.head? = some innermost ∧
      innermost.ref = some above ∧ (innermost.kind = some .classLike ∨ innermost.kind = some .describe) ∧
      (builder.outline.idOf above).toList <+: definition.id.toList ∧
      (SpaceLike definition.id → SpaceLike (builder.outline.idOf above)) := by
  have starts : ∃ kind id, ownerOf builder.sites = some (kind, id) ∧
      (kind = .classLike ∧ (id ++ "::").toList <+: definition.id.toList ∨
        kind = .describe ∧ (id ++ Discovery.descriptionMark).toList <+: definition.id.toList) := by
    unfold Definition.Settles at settles
    cases kind : definition.kind with
    | space => exact absurd kind real
    | classLike => exact absurd kind other
    | describe =>
      rw [kind] at settles
      exact settles
    | method =>
      rw [kind] at settles
      exact settles
    | dataSet =>
      rw [kind] at settles
      exact settles.elim
  obtain ⟨kind, id, owner, starts⟩ := starts
  obtain ⟨innermost, above, first, placed, known, rfl⟩ := innermost_of_owner owner
  refine ⟨innermost, above, first, placed, ?_⟩
  rcases starts with ⟨rfl, start⟩ | ⟨rfl, start⟩
  · refine ⟨.inl known, ?_, fun like => like.of_class start⟩
    rw [String.toList_append] at start
    exact (List.prefix_append _ _).trans start
  · refine ⟨.inr known, ?_, fun like => like.of_describe start⟩
    rw [String.toList_append] at start
    exact (List.prefix_append _ _).trans start

end Builder

namespace Origin
open Builder

variable {file : Path} {definitions : List Definition} {origin : Origin file definitions} {builder after : Builder}
  {definition : Definition}

theorem sits_top (origin : Origin file definitions) (builder : Builder) : origin.Sits builder {} where
  reachable := Open.top
  space _ _ same := absurd same (Option.not_mem_none _)
  item _ _ same := absurd same (Option.not_mem_none _)
  empty kinds := by simp at kinds
  method _ := rfl
  placed _ := rfl
  pending := List.forall_mem_nil _

/-- A frame that is opened for an item has collected nothing yet. -/
theorem Alive.sits {ref : Ref} {kind : DefinitionKind} {depth : Nat} (alive : origin.Alive builder.outline ref)
    (space : kind = .space → SpaceLike (builder.outline.idOf ref)) (item : kind ≠ .space → ref ∈ builder.built.map (·.1))
    (empty : kind = .classLike ∨ kind = .describe → builder.outline.childrenOf (some ref) = []) :
    origin.Sits builder { ref := some ref, kind := some kind, depth } where
  reachable := Open.below alive
  space known _ same := Option.some.inj same ▸ space (Option.some.inj known)
  item other _ same := Option.some.inj same ▸ item fun known => other (congrArg some known)
  empty kinds := empty (kinds.imp Option.some.inj Option.some.inj)
  method _ := rfl
  placed none := absurd none (Option.some_ne_none _)
  pending := List.forall_mem_nil _

namespace Resumed

variable (resumed : origin.Resumed builder) (framed : builder.Framed)
include resumed framed

theorem segment (depth : Nat) {name : String} (segment : String) {space : Definition} (member : space ∈ definitions)
    (isSpace : space.kind = .space) (listed : spaceMark ++ name ∈ spaceIds (some space.label))
    (continues : Continues builder.sites name segment) : origin.Resumed (builder.addSegment depth name segment) := by
  obtain ⟨enters, built⟩ := framed.enters_segment depth name segment
  have like : SpaceLike (spaceMark ++ name) := origin.apart.spaces space member isSpace _ listed
  have only : ∀ definition ∈ definitions, definition.kind ≠ .space → definition.id ≠ spaceMark ++ name := by
    intro definition inside real same
    exact origin.not_space_of_spaceLike inside real (same ▸ like) space member isSpace
  have unbuilt : spaceMark ++ name ∉ builder.built.map (·.2.id) := by
    intro own
    obtain ⟨item, inside, same⟩ := List.mem_map.mp own
    have regained := resumed.regained item inside
    exact only item.2 regained.member regained.real same
  generalize builder.addSegment depth name segment = after at enters built ⊢
  have alive := resumed.alive_choice enters
  have own : SpaceLike (after.outline.idOf (builder.choice (spaceMark ++ name))) := by rwa [enters.named]
  refine resumed.enter enters unbuilt (built.trans (List.append_nil _).symm) (alive.sits (fun _ => own) (absurd rfl) (by simp))
    ?_ (List.forall_mem_nil _) (absurd rfl) fun definition inside real _ => only definition inside real
  · intro innermost first
    have sits := resumed.frames innermost (List.mem_of_head? first)
    have known : builder.choice (spaceMark ++ name) ∈ after.built.map (·.1) ∨
        SpaceLike (after.outline.idOf (builder.choice (spaceMark ++ name))) ∧ ∃ space ∈ definitions, space.kind = .space :=
      .inr ⟨own, space, member, isSpace⟩
    rcases continues with ⟨top, -⟩ | ⟨before, inside, rfl⟩
    · have nowhere := framed.top_of_owner top innermost first
      refine ⟨by simp [sits.placed nowhere], alive, known, .inl (nowhere ▸ own), ?_, fun _ _ => nowhere⟩
      rw [nowhere]
      exact fun _ _ inside => absurd inside (Option.not_mem_none _)
    · obtain ⟨frame, above, head, placed, kind, around⟩ := innermost_of_owner inside
      obtain rfl := Option.some.inj (head.symm.trans first)
      have valid := resumed.lineage.exist above (sits.reachable above placed)
      have same : after.outline.idOf above = spaceMark ++ before := (enters.retagged.ids above valid).trans around
      refine ⟨by simp [kind], alive, known, ?_, ?_, ?_⟩
      · refine .inl ?_
        rw [placed, Kin, same, enters.named]
        simp only [String.toList_append, List.append_assoc, List.prefix_append_right_inj]
        exact List.prefix_append _ _
      · intro _ other here
        rw [enters.retagged.ids other (resumed.lineage.exist other (sits.reachable other here))]
        exact sits.space kind other here
      · -- The item of a class is no segment behind another one, since there is no backslash in its id.
        rintro (foreign | ⟨definition, inside, kind, same⟩) -
        · have old := resumed.idOf_choice_of_classes enters foreign
          have plain := origin.plain _ foreign
          rw [old] at plain
          exact absurd (by simp) (plain like)
        · exact absurd (same.trans enters.named) (only definition inside (by simp [kind]))

theorem child?_eq_none (settles : definition.Settles builder.sites) (member : definition ∈ definitions)
    (real : definition.kind ≠ .space) (known : definition.id ∈ origin.former.map (·.2.id))
    (unbuilt : definition.id ∉ builder.built.map (·.2.id)) : builder.outline.child? builder.parent definition.id = none := by
  rw [child?_eq_none_iff]
  intro ref held same
  by_cases kind : definition.kind = .classLike
  · rcases resumed.lineage.kin builder.parent resumed.reachable_parent ref held with kin | ⟨placed, -⟩
    · obtain ⟨innermost, first, top | ⟨above, placed, -, around⟩⟩ := framed.site_of_class kind settles
      · have parent : builder.parent = none := by rw [parent, first, Option.bind_some, top]
        rw [parent] at held kin
        exact resumed.clear definition member kind (same ▸ kin) known unbuilt ref held same
      · have parent : builder.parent = some above := by rw [parent, first, Option.bind_some, placed]
        rw [parent] at kin
        exact origin.within definition member kind _ around (same ▸ kin)
    · rcases placed with foreign | ⟨⟨item, own, rfl, -⟩, -⟩
      · exact origin.novel definition member real ref foreign ((resumed.idOf_of_classes foreign).symm.trans same)
      · exact unbuilt (List.mem_map.mpr ⟨item, own, (resumed.regained item own).named.symm.trans same⟩)
  · obtain ⟨innermost, above, first, placed, kinds, -⟩ := site_of_member real kind settles
    have empty := (resumed.frames innermost (List.mem_of_head? first)).empty kinds
    rw [parent, first, Option.bind_some, empty] at held
    cases held

theorem pending_item (settles : definition.Settles builder.sites) (member : definition ∈ definitions)
    (real : definition.kind ≠ .space) {depth : Nat} (enters : Enters builder definition.id definition.kind depth after)
    (own : (builder.choice definition.id, definition) ∈ after.built) :
    ∃ innermost, builder.frames.head? = some innermost ∧ innermost.kind ≠ some .method ∧
      origin.Pending after innermost.ref (builder.choice definition.id) := by
  have alive := resumed.alive_choice enters
  have known : builder.choice definition.id ∈ after.built.map (·.1) := List.mem_map_of_mem own
  have ids : ∀ innermost ∈ builder.frames.head?, ∀ above ∈ innermost.ref,
      after.outline.idOf above = builder.outline.idOf above := by
    intro innermost first above placed
    have reachable := (resumed.frames innermost (List.mem_of_head? first)).reachable
    exact enters.retagged.ids above (resumed.lineage.exist above (reachable above placed))
  by_cases kind : definition.kind = .classLike
  · have isClass : ClassId definitions (after.outline.idOf (builder.choice definition.id)) :=
      ⟨definition, member, kind, enters.named.symm⟩
    obtain ⟨innermost, first, top | ⟨above, placed, isSpace, around⟩⟩ := framed.site_of_class kind settles
    · have sits := resumed.frames innermost (List.mem_of_head? first)
      refine ⟨innermost, first, by simp [sits.placed top], alive, .inl known, .inr isClass, ?_, fun _ _ => top⟩
      rw [top]
      exact fun _ _ inside => absurd inside (Option.not_mem_none _)
    · have sits := resumed.frames innermost (List.mem_of_head? first)
      refine ⟨innermost, first, by simp [isSpace], alive, .inl known, .inr isClass, ?_, fun _ like => ?_⟩
      · exact fun _ above here => ids innermost first above here ▸ sits.space isSpace above here
      · rw [enters.named] at like
        rw [origin.space_eq_none member kind like] at around
        cases around
  · obtain ⟨innermost, above, first, placed, kinds, start, around⟩ := site_of_member real kind settles
    have same := ids innermost first above placed
    have noClass : ¬ClassId definitions (after.outline.idOf (builder.choice definition.id)) := by
      rintro ⟨other, listed, isClass, equal⟩
      have plain : other.kind ≠ .space := by simp [isClass]
      have one := origin.definition_eq listed plain member real (equal.trans enters.named)
      exact kind (one ▸ isClass)
    refine ⟨innermost, first, ?_, alive, .inl known, .inl ?_, ?_, ?_⟩
    · rcases kinds with kind | kind <;> simp [kind]
    · rw [placed, Kin, same, enters.named]
      exact start
    · rintro (isClass | like) other here
      · exact absurd isClass noClass
      · obtain rfl := Option.some.inj (placed.symm.trans here)
        rw [enters.named] at like
        exact same ▸ around like
    · rintro (foreign | isClass)
      · exact absurd (resumed.idOf_choice_of_classes enters foreign) (origin.novel definition member real _ foreign)
      · exact absurd isClass noClass

theorem item (index : Nat) (real : definition.kind ≠ .space) (closed : builder.ascend definition.depth = builder)
    (settles : definition.Settles builder.sites) (member : definition ∈ definitions)
    (unbuilt : definition.id ∉ builder.built.map (·.2.id)) : origin.Resumed (builder.addItem definition index) := by
  obtain ⟨enters, built⟩ := framed.enters_item closed index
  have former : ∀ old ∈ origin.former, old.2.id = definition.id → builder.choice definition.id = old.1 := by
    intro old listed same
    have absent := resumed.child?_eq_none framed settles member real (List.mem_map.mpr ⟨old, listed, same⟩) unbuilt
    have found := origin.remembered old listed
    rw [same] at found
    rw [choice, absent, Option.none_or, resumed.left definition member real unbuilt, found, Option.getD_some]
  generalize builder.addItem definition index = after at enters built ⊢
  have alive := resumed.alive_choice enters
  have own : (builder.choice definition.id, definition) ∈ after.built := built ▸ List.mem_concat_self
  obtain ⟨innermost, first, other, pending⟩ := resumed.pending_item framed settles member real enters own
  have empty : definition.kind = .classLike ∨ definition.kind = .describe →
      after.outline.childrenOf (some (builder.choice definition.id)) = [] := by
    intro kinds
    refine enters.cleared real fun method => ?_
    rw [method] at kinds
    rcases kinds with kind | kind <;> cases kind
  refine resumed.enter enters unbuilt built
    (alive.sits (fun space => absurd space real) (fun _ => List.mem_map_of_mem own) empty) ?_ ?_ ?_ ?_
  · intro also here
    obtain rfl := Option.some.inj (first.symm.trans here)
    exact ⟨other, pending⟩
  · rw [List.forall_mem_singleton]
    exact ⟨rfl, alive, enters.named, member, real, former⟩
  · rintro - none
    rw [none] at first
    cases first
  · intro next inside _ away same
    exact away (same ▸ List.mem_map_of_mem own)

end Resumed

theorem kept_resumed (origin : Origin file definitions) : Kept definitions origin.Resumed where
  close framed resumed opened := resumed.close framed opened
  segment depth _ segment framed resumed member kind listed continues :=
    resumed.segment framed depth segment member kind listed continues
  item {builder definition} index framed resumed real closed settles order := by
    have member : definition ∈ definitions :=
      (List.mem_filter.mp (order.subset (List.mem_append_right _ (List.mem_singleton_self _)))).1
    have distinct := origin.distinct.sublist (order.sublist.map (·.id))
    rw [List.map_append, List.map_map, List.map_singleton, List.nodup_append] at distinct
    exact resumed.item framed index real closed settles member fun built =>
      distinct.2.2 definition.id built definition.id (List.mem_singleton_self _) rfl

theorem resumed_start (origin : Origin file definitions) (uri : Option String) :
    origin.Resumed { outline := origin.outline, uri, previous := origin.previous } := by
  have placed : origin.Placed { outline := origin.outline, uri, previous := origin.previous } = origin.classes := by
    funext ref
    simp [Placed]
  have alive : origin.Alive origin.outline = origin.alive := by
    funext ref
    simp [Alive]
  refine ⟨?_, Nat.le_refl _, fun _ _ => rfl, origin.spare, fun _ _ _ _ => rfl, List.forall_mem_nil _, ?_, List.Pairwise.nil,
    List.pairwise_singleton _ _, fun definition member kind like known _ => origin.cleared definition member kind like known⟩
  · rw [placed, alive]
    exact origin.lineage
  · rw [List.forall_mem_singleton]
    exact origin.sits_top _

/-- When a file has been taken in, its items are where their definitions belong, and each of them is the one that its id
had before. -/
theorem regained_build (origin : Origin file definitions) (keyed : origin.outline.Keyed origin.previous) (uri : Option String)
    (settled : Settled [{}] definitions) :
    let result := build origin.outline uri origin.previous definitions
    Lineage result.1 (fun ref => origin.classes ref ∨ ∃ item ∈ result.2, item.1 = ref ∧ item.2.kind = .classLike)
        (origin.Alive result.1) ∧
      ∀ item ∈ result.2, origin.Regained result.1 item := by
  obtain ⟨finished, resumed, -, closed, -, result⟩ :=
    build_keeps origin.lineage.valid keyed uri settled origin.kept_resumed (origin.resumed_start uri)
  have placed : origin.Placed finished = fun ref =>
      origin.classes ref ∨ ∃ item ∈ finished.built, item.1 = ref ∧ item.2.kind = .classLike := by
    funext ref
    simp [Placed, closed]
  rw [result]
  exact ⟨placed ▸ resumed.lineage, resumed.regained⟩

end Origin

end TestScout.Outline
