import Mathlib.Data.List.Nodup
import Mathlib.Data.List.TakeWhile
import TestScout.Test.Definition

/-! What is around a definition in a list of definitions that know how deep they lie. A list is read once, and the
definitions are kept that are still open; nesting the list into a forest puts each definition below the innermost
one that is open there. -/

namespace TestScout.Test

variable {α : Type}

/-- Each element of a list with the elements around it, the innermost first: the closest one before it that is less
deep, and what is around that one. -/
def trails (depth : α → Nat) (opened : List α) : List α → List (List α × α)
  | [] => []
  | first :: rest =>
    let above := opened.dropWhile (depth first ≤ depth ·)
    (above, first) :: trails depth (first :: above) rest

variable {depth : α → Nat} {opened outer : List α} {elements : List α}

theorem trails_elements (opened elements : List α) : (trails depth opened elements).map (·.2) = elements := by
  induction elements generalizing opened with
  | nil => rfl
  | cons first rest ih => rw [trails, List.map_cons, ih]

theorem exists_trail {element : α} (member : element ∈ elements) : ∃ above, (above, element) ∈ trails depth opened elements := by
  have all : (trails depth opened elements).map (·.2) = elements := trails_elements opened elements
  rw [← all] at member
  obtain ⟨⟨above, other⟩, trail, rfl⟩ := List.mem_map.mp member
  exact ⟨above, trail⟩

theorem mem_of_mem_trails {above : List α} {element : α} (member : (above, element) ∈ trails depth opened elements) :
    element ∈ elements ∧ ∀ around ∈ above, around ∈ opened ∨ around ∈ elements := by
  induction elements generalizing opened with
  | nil => cases member
  | cons first rest ih =>
    rcases List.mem_cons.mp member with same | later
    · cases same
      exact ⟨List.mem_cons_self, fun around inside => .inl ((List.dropWhile_sublist _).subset inside)⟩
    · obtain ⟨inside, around⟩ := ih later
      refine ⟨List.mem_cons_of_mem _ inside, fun other found => ?_⟩
      rcases around other found with held | listed
      · rcases List.mem_cons.mp held with rfl | outer
        · exact .inr List.mem_cons_self
        · exact .inl ((List.dropWhile_sublist _).subset outer)
      · exact .inr (List.mem_cons_of_mem _ listed)

theorem dropWhile_around {bound : Nat} (shallow : ∀ element ∈ outer.head?, depth element < bound) :
    (opened ++ outer).dropWhile (bound ≤ depth ·) = opened.dropWhile (bound ≤ depth ·) ++ outer := by
  induction opened with
  | nil =>
    cases outer with
    | nil => rfl
    | cons element outer =>
      have shallow := shallow element rfl
      exact List.dropWhile_cons_of_neg (by simpa using shallow)
  | cons first rest ih =>
    rw [List.cons_append]
    by_cases deep : bound ≤ depth first
    · rw [List.dropWhile_cons_of_pos (by simpa using deep), List.dropWhile_cons_of_pos (by simpa using deep), ih]
    · rw [List.dropWhile_cons_of_neg (by simpa using deep), List.dropWhile_cons_of_neg (by simpa using deep),
        List.cons_append]

/-- What lies less deep than all elements stays around them. -/
theorem trails_around (shallow : ∀ element ∈ elements, ∀ around ∈ outer.head?, depth around < depth element) :
    trails depth (opened ++ outer) elements = (trails depth opened elements).map fun (above, element) =>
      (above ++ outer, element) := by
  induction elements generalizing opened with
  | nil => rfl
  | cons first rest ih =>
    simp only [trails, List.map_cons]
    rw [dropWhile_around (shallow first List.mem_cons_self), ← List.cons_append,
      ih fun element member => shallow element (List.mem_cons_of_mem _ member)]

/-- Elements that are deeper than the one in front of them lie below it, and what follows lies beside it. -/
theorem trails_cons_append {first : α} {below beside : List α} (deeper : ∀ element ∈ below, depth first < depth element)
    (ends : ∀ element ∈ beside.head?, depth element ≤ depth first) {inner : List α}
    (inside : ∀ element ∈ inner, depth first < depth element) :
    trails depth (inner ++ first :: opened) (below ++ beside) =
      ((trails depth inner below).map fun (above, element) => (above ++ first :: opened, element)) ++
        trails depth opened beside := by
  induction below generalizing inner with
  | nil =>
    cases beside with
    | nil => rfl
    | cons next rest =>
      have ends := ends next rfl
      have closed : (inner ++ first :: opened).dropWhile (depth next ≤ depth ·) =
          opened.dropWhile (depth next ≤ depth ·) := by
        rw [List.dropWhile_append_of_pos, List.dropWhile_cons_of_pos (by simpa using ends)]
        exact fun element member => decide_eq_true (Nat.le_trans ends (Nat.le_of_lt (inside element member)))
      simp only [List.nil_append, trails, List.map_nil, closed]
  | cons next rest ih =>
    have deep := deeper next List.mem_cons_self
    have around : (inner ++ first :: opened).dropWhile (depth next ≤ depth ·) =
        inner.dropWhile (depth next ≤ depth ·) ++ first :: opened :=
      dropWhile_around fun element member => Option.some_inj.mp member ▸ deep
    simp only [List.cons_append, trails, List.map_cons, around]
    rw [← List.cons_append, ih (fun element member => deeper element (List.mem_cons_of_mem _ member))]
    refine List.forall_mem_cons.mpr ⟨deep, fun element member => ?_⟩
    exact inside element ((List.dropWhile_sublist _).subset member)

theorem trails_cons (first : α) (rest : List α) : trails depth [] (first :: rest) =
    ([], first) :: ((trails depth [] (rest.takeWhile (depth first < depth ·))).map fun (above, element) =>
      (above ++ [first], element)) ++ trails depth [] (rest.dropWhile (depth first < depth ·)) := by
  have ends : ∀ element ∈ (rest.dropWhile (depth first < depth ·)).head?, depth element ≤ depth first := by
    intro element member
    have dropped := List.head?_dropWhile_not (fun other => decide (depth first < depth other)) rest
    rw [Option.mem_def.mp member] at dropped
    simpa using dropped
  have split : trails depth ([] ++ [first])
      (rest.takeWhile (depth first < depth ·) ++ rest.dropWhile (depth first < depth ·)) = _ :=
    trails_cons_append (fun element member => by simpa using List.mem_takeWhile_imp member) ends nofun
  rw [List.takeWhile_append_dropWhile] at split
  rw [List.cons_append, ← split]
  rfl

theorem shallow_of_mem_trails {above : List α} {element : α} (member : (above, element) ∈ trails depth opened elements) :
    ∀ around ∈ above.head?, depth around < depth element := by
  induction elements generalizing opened with
  | nil => cases member
  | cons first rest ih =>
    rcases List.mem_cons.mp member with same | later
    · cases same
      intro around found
      have dropped := List.head?_dropWhile_not (fun other => decide (depth element ≤ depth other)) opened
      rw [Option.mem_def.mp found] at dropped
      simpa using dropped
    · exact ih later

theorem trails_map {β : Type} (f : β → α) (opened elements : List β) : trails depth (opened.map f) (elements.map f) =
    (trails (depth <| f ·) opened elements).map fun (above, element) => (above.map f, f element) := by
  induction elements generalizing opened with
  | nil => rfl
  | cons first rest ih =>
    simp only [List.map_cons, trails, List.dropWhile_map]
    rw [← List.map_cons, ih]
    rfl

theorem mem_trails_map {β : Type} {f : β → α} {elements : List β} {above : List α} {element : α} :
    (above, element) ∈ trails depth [] (elements.map f) ↔
      ∃ outer item, (outer, item) ∈ trails (depth <| f ·) [] elements ∧ outer.map f = above ∧ f item = element := by
  have mapped : trails depth [] (elements.map f) = _ := trails_map f [] elements
  simp only [mapped, List.mem_map, Prod.exists, Prod.mk.injEq]

/-- Later elements have their trails below some of what comes before. -/
theorem trails_append (opened first second : List α) :
    ∃ further, trails depth opened (first ++ second) = trails depth opened first ++ trails depth further second ∧
      ∀ element ∈ further, element ∈ opened ∨ element ∈ first := by
  induction first generalizing opened with
  | nil => exact ⟨opened, rfl, fun _ => .inl⟩
  | cons element rest ih =>
    obtain ⟨further, split, from_before⟩ := ih (element :: opened.dropWhile (depth element ≤ depth ·))
    refine ⟨further, by rw [List.cons_append, trails, split, trails, List.cons_append], ?_⟩
    intro other member
    rcases from_before other member with held | later
    · rcases List.mem_cons.mp held with rfl | outer
      · exact .inr List.mem_cons_self
      · exact .inl ((List.dropWhile_sublist _).subset outer)
    · exact .inr (List.mem_cons_of_mem _ later)

/-- An element that is not deeper than what is open closes all of it. -/
theorem trails_closing {first : α} {rest : List α} (deep : ∀ element ∈ opened, depth first ≤ depth element) :
    trails depth opened (first :: rest) = trails depth [] (first :: rest) := by
  have closed : opened.dropWhile (depth first ≤ depth ·) = [] :=
    List.dropWhile_eq_nil_iff.mpr fun element member => decide_eq_true (deep element member)
  simp only [trails, closed, List.dropWhile_nil]

/-- When no element is less deep than the first, what is open before makes no difference inside. -/
theorem trails_under {first : α} {rest : List α} (lower : ∀ element ∈ rest, depth first ≤ depth element) (opened : List α) :
    ∃ outer, trails depth opened (first :: rest) = (trails depth [] (first :: rest)).map fun (above, element) =>
      (above ++ outer, element) := by
  refine ⟨opened.dropWhile (depth first ≤ depth ·), ?_⟩
  have around := List.head?_dropWhile_not (fun other => decide (depth first ≤ depth other)) opened
  have shallow : ∀ element ∈ rest, ∀ outer ∈ (opened.dropWhile (depth first ≤ depth ·)).head?,
      depth outer < depth element := by
    intro element member outer found
    rw [Option.mem_def.mp found] at around
    exact Nat.lt_of_lt_of_le (by simpa using around) (lower element member)
  simp only [trails, List.map_cons]
  have inner : trails depth ([first] ++ opened.dropWhile (depth first ≤ depth ·)) rest = _ := trails_around shallow
  exact congrArg (_ :: ·) inner

/-- What is deeper than something that is open has something around it. -/
theorem exists_around {bound : Nat} (around : ∃ element ∈ opened, depth element ≤ bound) {above : List α} {element : α}
    (member : (above, element) ∈ trails depth opened elements) (deep : bound < depth element) :
    ∃ element ∈ above, depth element ≤ bound := by
  have kept : ∀ (opened : List α) (first : α), (∃ element ∈ opened, depth element ≤ bound) → bound < depth first →
      ∃ element ∈ opened.dropWhile (depth first ≤ depth ·), depth element ≤ bound := by
    intro opened first around deep
    induction opened with
    | nil => simp at around
    | cons next rest ih =>
      by_cases dropped : depth first ≤ depth next
      · rw [List.dropWhile_cons_of_pos (by simpa using dropped)]
        refine ih ?_
        obtain ⟨other, inside, low⟩ := around
        rcases List.mem_cons.mp inside with rfl | later
        · exact absurd (Nat.le_trans dropped low) (Nat.not_le_of_lt deep)
        · exact ⟨other, later, low⟩
      · rwa [List.dropWhile_cons_of_neg (by simpa using dropped)]
  induction elements generalizing opened with
  | nil => cases member
  | cons first rest ih =>
    rcases List.mem_cons.mp member with same | later
    · cases same
      exact kept opened element around deep
    · refine ih ?_ later
      by_cases low : depth first ≤ bound
      · exact ⟨first, List.mem_cons_self, low⟩
      · obtain ⟨other, inside, shallow⟩ := kept opened first around (Nat.lt_of_not_le low)
        exact ⟨other, List.mem_cons_of_mem _ inside, shallow⟩

namespace Definition

def bare (definition : Definition) : Definition := { definition with children := [] }

theorem bare_eq {definition : Definition} (flat : definition.children = []) : definition.bare = definition := by
  cases definition
  cases flat
  rfl

theorem flatten_eq (definition : Definition) : definition.flatten = definition :: flattenAll definition.children := by
  cases definition
  rw [flatten]

theorem flattenAll_nest {definitions : List Definition} (flat : ∀ definition ∈ definitions, definition.children = []) :
    (flattenAll (nest definitions)).map bare = definitions := by
  fun_induction nest definitions with
  | case1 => rfl
  | case2 first rest isBelow below after =>
    have first_flat := flat first List.mem_cons_self
    have inner := below fun definition member =>
      flat definition (List.mem_cons_of_mem _ ((List.takeWhile_sublist _).subset member))
    have later := after fun definition member =>
      flat definition (List.mem_cons_of_mem _ ((List.dropWhile_sublist _).subset member))
    rw [flattenAll, flatten_eq, List.map_append, List.map_cons, later, first_flat, List.nil_append, inner, bare,
      List.cons_append, List.takeWhile_append_dropWhile]
    exact congrArg (· :: rest) (bare_eq first_flat)

/-- A root of the forest has nothing around it in the list, and a child has its parent as the innermost one. -/
theorem nest_links {definitions : List Definition} (flat : ∀ definition ∈ definitions, definition.children = []) :
    (∀ root ∈ nest definitions, ([], root.bare) ∈ trails Definition.depth [] definitions) ∧
      ∀ parent ∈ flattenAll (nest definitions), ∀ child ∈ parent.children,
        ∃ above, (parent.bare :: above, child.bare) ∈ trails Definition.depth [] definitions := by
  fun_induction nest definitions with
  | case1 => exact ⟨nofun, nofun⟩
  | case2 first rest isBelow below after =>
    have first_flat := flat first List.mem_cons_self
    obtain ⟨inner_roots, inner_links⟩ := below fun definition member =>
      flat definition (List.mem_cons_of_mem _ ((List.takeWhile_sublist _).subset member))
    obtain ⟨later_roots, later_links⟩ := after fun definition member =>
      flat definition (List.mem_cons_of_mem _ ((List.dropWhile_sublist _).subset member))
    have own : ({ first with children := first.children ++ nest (rest.takeWhile isBelow) } : Definition).bare = first :=
      bare_eq first_flat
    have inner : ∀ {above : List Definition} {element : Definition},
        (above, element) ∈ trails Definition.depth [] (rest.takeWhile isBelow) →
          (above ++ [first], element) ∈ trails Definition.depth [] (first :: rest) := by
      intro above element member
      rw [trails_cons]
      exact List.mem_cons_of_mem _ (List.mem_append_left _ (List.mem_map.mpr ⟨_, member, rfl⟩))
    have later : ∀ {trail : List Definition × Definition}, trail ∈ trails Definition.depth [] (rest.dropWhile isBelow) →
        trail ∈ trails Definition.depth [] (first :: rest) := by
      intro trail member
      rw [trails_cons]
      exact List.mem_cons_of_mem _ (List.mem_append_right _ member)
    rw [flattenAll, flatten_eq]
    refine ⟨List.forall_mem_cons.mpr ⟨?_, fun root member => later (later_roots root member)⟩, ?_⟩
    · rw [own]
      exact List.mem_cons_self
    · intro parent member child placed
      rcases List.mem_append.mp member with inside | further
      · rcases List.mem_cons.mp inside with rfl | deeper
        · rw [first_flat] at placed
          exact ⟨[], own.symm ▸ inner (inner_roots child placed)⟩
        · rw [first_flat] at deeper
          obtain ⟨above, linked⟩ := inner_links parent deeper child placed
          exact ⟨above ++ [first], inner linked⟩
      · obtain ⟨above, linked⟩ := later_links parent further child placed
        exact ⟨above, later linked⟩

theorem root_or_child {definitions : List Definition} (flat : ∀ definition ∈ definitions, definition.children = [])
    {definition : Definition} (member : definition ∈ flattenAll (nest definitions)) :
    definition ∈ nest definitions ∨ ∃ parent ∈ flattenAll (nest definitions), definition ∈ parent.children := by
  fun_induction nest definitions with
  | case1 => cases member
  | case2 first rest isBelow below after =>
    have first_flat := flat first List.mem_cons_self
    have below := below fun definition member =>
      flat definition (List.mem_cons_of_mem _ ((List.takeWhile_sublist _).subset member))
    have after := after fun definition member =>
      flat definition (List.mem_cons_of_mem _ ((List.dropWhile_sublist _).subset member))
    rw [flattenAll, flatten_eq, first_flat, List.nil_append] at member ⊢
    rcases List.mem_append.mp member with inside | later
    · rcases List.mem_cons.mp inside with rfl | deeper
      · exact .inl List.mem_cons_self
      · right
        rcases below deeper with root | ⟨parent, found, child⟩
        · exact ⟨_, List.mem_append_left _ List.mem_cons_self, root⟩
        · exact ⟨parent, List.mem_append_left _ (List.mem_cons_of_mem _ found), child⟩
    · rcases after later with root | ⟨parent, found, child⟩
      · exact .inl (List.mem_cons_of_mem _ root)
      · exact .inr ⟨parent, List.mem_append_right _ found, child⟩

/-- The innermost definition around another one in the list is its parent in the forest. -/
theorem nest_link_iff {definitions : List Definition} (flat : ∀ definition ∈ definitions, definition.children = [])
    (distinct : definitions.Nodup) {closest element : Definition} :
    (∃ above, (closest :: above, element) ∈ trails Definition.depth [] definitions) ↔
      ∃ parent ∈ flattenAll (nest definitions), parent.bare = closest ∧ ∃ child ∈ parent.children, child.bare = element := by
  obtain ⟨roots, links⟩ := nest_links flat
  constructor
  · intro ⟨above, trail⟩
    have listed := (mem_of_mem_trails trail).1
    rw [← flattenAll_nest flat] at listed
    obtain ⟨definition, found, rfl⟩ := List.mem_map.mp listed
    -- What is in the list once has one trail.
    have only : ∀ other, (other, definition.bare) ∈ trails Definition.depth [] definitions → other = closest :: above := by
      intro other again
      rw [← trails_elements [] definitions] at distinct
      exact congrArg Prod.fst (List.inj_on_of_nodup_map distinct again trail rfl)
    cases root_or_child flat found with
    | inl root => cases only [] (roots definition root)
    | inr child =>
      obtain ⟨parent, around, held⟩ := child
      obtain ⟨outer, link⟩ := links parent around definition held
      exact ⟨parent, around, List.head_eq_of_cons_eq (only _ link), definition, held, rfl⟩
  · intro ⟨parent, around, same, child, held, equal⟩
    obtain ⟨above, link⟩ := links parent around child held
    exact ⟨above, same ▸ equal ▸ link⟩

/-! ## Ancestors by their positions -/

mutual

/-- For a definition and everything below it, in document order, the positions of the definitions around each,
the outermost first. -/
def ancestors (above : List Nat) (position : Nat) : Definition → List (List Nat)
  | ⟨_, _, _, _, _, _, _, _, _, _, _, _, _, _, children⟩ =>
    above :: ancestorsAll (above ++ [position]) (position + 1) children

def ancestorsAll (above : List Nat) (position : Nat) : List Definition → List (List Nat)
  | [] => []
  | definition :: rest =>
    ancestors above position definition ++ ancestorsAll above (position + definition.flatten.length) rest

end

theorem ancestors_eq (above : List Nat) (position : Nat) (definition : Definition) :
    ancestors above position definition =
      above :: ancestorsAll (above ++ [position]) (position + 1) definition.children := by
  cases definition
  rw [ancestors]

/-- The ancestors of a definition in the forest are what is open around it in the list. -/
theorem ancestorsAll_nest {definitions : List Definition} (flat : ∀ definition ∈ definitions, definition.children = [])
    (above : List Nat) (position : Nat) : ancestorsAll above position (nest definitions) =
      (trails (·.1.depth) [] (definitions.zipIdx position)).map fun (around, _) =>
        above ++ (around.map (·.2)).reverse := by
  fun_induction nest definitions generalizing above position with
  | case1 => rfl
  | case2 first rest isBelow below after =>
    have first_flat := flat first List.mem_cons_self
    have inner_flat : ∀ definition ∈ rest.takeWhile isBelow, definition.children = [] := fun definition member =>
      flat definition (List.mem_cons_of_mem _ ((List.takeWhile_sublist _).subset member))
    have below := below inner_flat
    have after := after fun definition member =>
      flat definition (List.mem_cons_of_mem _ ((List.dropWhile_sublist _).subset member))
    have size : (flattenAll (nest (rest.takeWhile isBelow))).length = (rest.takeWhile isBelow).length := by
      rw [← List.length_map bare, flattenAll_nest inner_flat]
    have ends : ∀ element ∈ ((rest.dropWhile isBelow).zipIdx (position + 1 + (rest.takeWhile isBelow).length)).head?,
        element.1.depth ≤ first.depth := by
      intro element member
      have dropped := List.head?_dropWhile_not isBelow rest
      cases found : rest.dropWhile isBelow with
      | nil => simp [found] at member
      | cons next others =>
        rw [found] at dropped member
        cases Option.some_inj.mp member
        simpa [isBelow] using dropped
    have deeper : ∀ element ∈ (rest.takeWhile isBelow).zipIdx (position + 1), first.depth < element.1.depth := by
      intro element member
      have inside := List.mem_takeWhile_imp (List.fst_mem_of_mem_zipIdx member)
      simpa [isBelow] using inside
    have split : rest.zipIdx (position + 1) = (rest.takeWhile isBelow).zipIdx (position + 1) ++
        (rest.dropWhile isBelow).zipIdx (position + 1 + (rest.takeWhile isBelow).length) := by
      rw [← List.zipIdx_append, List.takeWhile_append_dropWhile]
    have trail : trails (fun element : Definition × Nat => element.1.depth) ([] ++ [(first, position)]) _ = _ :=
      trails_cons_append deeper ends nofun
    rw [← split] at trail
    rw [ancestorsAll, ancestors_eq, flatten_eq, first_flat, List.nil_append, List.length_cons, size, below, after,
      List.zipIdx_cons, trails, List.map_cons, List.dropWhile_nil, ← List.nil_append [(first, position)], trail]
    simp [Nat.add_assoc, Nat.add_comm 1]

end Definition
end TestScout.Test
