import TestScout.Proofs.DefinitionGrove

/-! The order in which a file is told of. What listens to a scout keeps the definitions that are open on a stack, and
is right only if each definition fits what was told before it and what is told next: namespaces lead to classes, and
tests and groups are inside a class whose id their own ids continue. -/

namespace TestScout.Test

/-- Whether a definition can be told of after those of the past, the latest of them first, and before those of the
future. -/
structure Fits (past : List Definition) (event : Definition) (future : List Definition) : Prop where
  space : event.kind = .space → event.depth = 1 ∧ ∃ next ∈ future.head?, next.kind = .classLike ∧ next.depth = 2
  classLike : event.kind = .classLike → event.depth = 1 ∨
    event.depth = 2 ∧ ∃ opener ∈ past.find? (·.depth = 1), opener.kind = .space
  member : event.kind = .describe ∨ event.kind = .method →
    (∃ owner ∈ past.find? (·.kind = .classLike),
      owner.depth < event.depth ∧ (owner.id ++ "::").toList <+: event.id.toList) ∧
    ∃ previous ∈ past.head?, event.depth ≤ previous.depth + 1
  leaf : event.kind = .method → ∀ next ∈ future.head?, next.depth ≤ event.depth
  found : event.kind ≠ .dataSet

/-- Every definition of a list fits what comes before and after it. -/
def InOrder (past : List Definition) : List Definition → Prop
  | [] => True
  | event :: future => Fits past event future ∧ InOrder (event :: past) future

variable {past rest : List Definition} {owner : Definition} {depth : Nat}

theorem InOrder.fits {front back : List Definition} {event : Definition} (order : InOrder past (front ++ event :: back)) :
    Fits (front.reverse ++ past) event back := by
  induction front generalizing past with
  | nil => exact order.1
  | cons first front ih =>
    have later := ih order.2
    rwa [List.reverse_cons, List.append_assoc]

theorem head_depth {next : Definition} (start : startDepth 1 rest ≤ depth) (found : next ∈ rest.head?) :
    next.depth ≤ depth := by
  rwa [startDepth, Option.mem_def.mp found] at start

/-! ## Members of a class -/

/-- A class is open, and what was told of last is at most one level above the depth. -/
structure Inside (past : List Definition) (owner : Definition) (depth : Nat) : Prop where
  latest : past.find? (·.kind = .classLike) = some owner
  lower : owner.depth < depth
  previous : ∃ previous ∈ past.head?, depth ≤ previous.depth + 1

/-- Tests and groups that are not less deep leave their class open. -/
theorem Inside.after (inside : Inside past owner depth) {told : List Definition}
    (members : ∀ definition ∈ told, depth ≤ definition.depth ∧ definition.kind ≠ .classLike) :
    Inside (told.reverse ++ past) owner depth := by
  refine ⟨?_, inside.lower, ?_⟩
  · have none : told.reverse.find? (·.kind = .classLike) = none := by
      apply List.find?_eq_none.mpr
      intro definition member
      simpa using (members definition (List.mem_reverse.mp member)).2
    rw [List.find?_append, none, Option.none_or, inside.latest]
  · cases latest : told.reverse with
    | nil => exact inside.previous
    | cons previous others =>
      have member : previous ∈ told := List.mem_reverse.mp (latest ▸ List.mem_cons_self)
      exact ⟨previous, rfl, Nat.le_succ_of_le (members previous member).1⟩

/-- Something inside a group is one level deeper. -/
theorem Inside.enter (inside : Inside past owner depth) {group : Definition} (deep : group.depth = depth)
    (kind : group.kind ≠ .classLike) : Inside (group :: past) owner (depth + 1) := by
  refine ⟨?_, Nat.lt_succ_of_lt inside.lower, group, rfl, Nat.succ_le_succ (Nat.le_of_eq deep.symm)⟩
  rw [List.find?_cons_of_neg (by simpa using kind), inside.latest]

theorem Grove.Members.no_class {grove : Grove Definition} (members : grove.Members depth) {definition : Definition}
    (member : definition ∈ grove.labels) : depth ≤ definition.depth ∧ definition.kind ≠ .classLike := by
  obtain ⟨deep, -, kind⟩ := members.label member
  refine ⟨deep, ?_⟩
  rcases kind with kind | kind <;> simp [kind]

theorem Grove.Members.inOrder {grove : Grove Definition} (members : grove.Members depth) {start : String}
    (under : grove.Under start) (inside : Inside past owner depth)
    (continues : (owner.id ++ "::").toList <+: start.toList) (after : startDepth 1 rest ≤ depth)
    (order : InOrder (grove.labels.reverse ++ past) rest) : InOrder past (grove.labels ++ rest) := by
  induction grove generalizing past depth start rest with
  | bare => exact order
  | tree definition below beside left right =>
    have kind := (members.no_class List.mem_cons_self).2
    have behind : ∀ other ∈ definition :: below.labels, depth ≤ other.depth ∧ other.kind ≠ .classLike := by
      intro other member
      apply members.no_class
      rcases List.mem_cons.mp member with rfl | deeper
      · exact List.mem_cons_self
      · exact List.mem_cons_of_mem _ (List.mem_append_left _ deeper)
    obtain ⟨deep, -, inner, besides⟩ := members
    obtain ⟨named, deeper, beyond⟩ := under
    have start := besides.start after
    have later : InOrder (below.labels.reverse ++ definition :: past) (beside.labels ++ rest) := by
      have still := inside.after behind
      rw [List.reverse_cons, List.append_assoc, List.singleton_append] at still
      apply right besides beyond still continues after
      simpa [labels] using order
    rw [labels, List.cons_append, List.append_assoc]
    refine ⟨⟨?_, fun found => absurd found kind, ?_, ?_, ?_⟩, ?_⟩
    · intro space
      rcases inner with ⟨kind, -⟩ | ⟨kind, -⟩ <;> cases kind.symm.trans space
    · intro _
      exact ⟨⟨owner, inside.latest, deep ▸ inside.lower, continues.trans named⟩, deep ▸ inside.previous⟩
    · intro method next found
      rcases inner with ⟨kind, -⟩ | ⟨-, rfl⟩
      · cases kind.symm.trans method
      · exact deep ▸ head_depth start found
    · rcases inner with ⟨kind, -⟩ | ⟨kind, -⟩ <;> simp [kind]
    · rcases inner with ⟨-, further⟩ | ⟨-, rfl⟩
      · have onward : (owner.id ++ "::").toList <+: (definition.id ++ Discovery.descriptionMark).toList := by
          rw [String.toList_append (s := definition.id)]
          exact (continues.trans named).trans (List.prefix_append _ _)
        exact left further deeper (inside.enter deep kind) onward (Nat.le_succ_of_le start) later
      · exact later

/-! ## Classes -/

/-- Classes can be told of here, so deep: at the top, or below a namespace that is open. -/
def Opened (past : List Definition) (depth : Nat) : Prop :=
  depth = 1 ∨ depth = 2 ∧ ∃ opener ∈ past.find? (·.depth = 1), opener.kind = .space

theorem Opened.after (opened : Opened past depth) {told : List Definition}
    (deep : ∀ definition ∈ told, depth ≤ definition.depth) : Opened (told.reverse ++ past) depth := by
  refine opened.imp_right fun ⟨two, opener⟩ => ⟨two, ?_⟩
  have none : told.reverse.find? (·.depth = 1) = none := by
    apply List.find?_eq_none.mpr
    intro definition member
    have := deep definition (List.mem_reverse.mp member)
    simp only [decide_eq_true_eq]
    omega
  rwa [List.find?_append, none, Option.none_or]

theorem Grove.Classes.inOrder {grove : Grove Definition} {space : Option String} (classes : grove.Classes space depth)
    (owned : grove.Owned) (opened : Opened past depth) (after : startDepth 1 rest ≤ depth)
    (order : InOrder (grove.labels.reverse ++ past) rest) : InOrder past (grove.labels ++ rest) := by
  induction grove generalizing past with
  | bare => exact order
  | tree definition below beside _ right =>
    have behind : ∀ other ∈ definition :: below.labels, depth ≤ other.depth := by
      intro other member
      have listed : other ∈ (tree definition below beside).labels := by
        rcases List.mem_cons.mp member with rfl | deeper
        · exact List.mem_cons_self
        · exact List.mem_cons_of_mem _ (List.mem_append_left _ deeper)
      exact (classes.label listed).2.elim (fun found => Nat.le_of_eq found.2.1.symm) fun found => Nat.le_of_lt found.2
    obtain ⟨same, -, kind, -, members, besides⟩ := classes
    have later : InOrder (below.labels.reverse ++ definition :: past) (beside.labels ++ rest) := by
      have still := opened.after behind
      rw [List.reverse_cons, List.append_assoc, List.singleton_append] at still
      apply right besides owned.2 still
      simpa [labels] using order
    have inside : Inside (definition :: past) definition (depth + 1) :=
      { latest := List.find?_cons_of_pos (by simpa using kind)
        lower := Nat.lt_succ_of_le (Nat.le_of_eq same)
        previous := ⟨definition, rfl, Nat.succ_le_succ (Nat.le_of_eq same.symm)⟩ }
    rw [labels, List.cons_append, List.append_assoc]
    refine ⟨⟨by simp [kind], fun _ => same ▸ opened, by simp [kind], by simp [kind], by simp [kind]⟩, ?_⟩
    exact members.inOrder owned.1 inside (List.prefix_refl _) (Nat.le_succ_of_le (besides.start after)) later

/-! ## Blocks -/

theorem SpaceBlock.Shaped.inOrder {block : SpaceBlock} (shaped : block.Shaped) (after : startDepth 1 rest ≤ 1)
    (order : InOrder (block.events.reverse ++ past) rest) : InOrder past (block.events ++ rest) := by
  have low := Nat.le_trans after block.depth_pos
  obtain ⟨first, others, labels, kind, depth⟩ := shaped.first
  rw [events] at order ⊢
  cases space : block.space with
  | none =>
    have top : block.depth = 1 := by simp [SpaceBlock.depth, space]
    rw [space] at order
    exact shaped.classes.inOrder shaped.owned (.inl top) low order
  | some opener =>
    obtain ⟨isSpace, one⟩ := shaped.space opener space
    have two : block.depth = 2 := by simp [SpaceBlock.depth, space]
    have opened : Opened (opener :: past) block.depth :=
      .inr ⟨two, opener, List.find?_cons_of_pos (by simpa using one), isSpace⟩
    have fits : Fits past opener (block.classes.labels ++ rest) := by
      refine ⟨fun _ => ⟨one, first, by simp [labels], kind, depth.trans two⟩, ?_, ?_, ?_, ?_⟩
      all_goals simp [isSpace]
    refine ⟨fits, shaped.classes.inOrder shaped.owned opened low ?_⟩
    simpa [space] using order

theorem inOrder_blocks {blocks : List SpaceBlock} (shaped : ∀ block ∈ blocks, block.Shaped) (past : List Definition) :
    InOrder past (blocks.flatMap SpaceBlock.events) := by
  induction blocks generalizing past with
  | nil => trivial
  | cons block rest ih =>
    have further := fun other member => shaped other (List.mem_cons_of_mem _ member)
    have start : startDepth 1 (rest.flatMap SpaceBlock.events) ≤ 1 := by
      cases rest with
      | nil => exact Nat.le_refl _
      | cons next others => exact Nat.le_of_eq ((further next List.mem_cons_self).start _)
    exact (shaped block List.mem_cons_self).inOrder start (ih further _)

end TestScout.Test

namespace TestScout.Discovery
open Test

theorem Scout.look_placed (scout : Scout) (source : String) (file : Path) (suite : Option String) :
    ∀ definition ∈ (scout.look source file suite).2, definition.file = file ∧ definition.suite = suite := by
  unfold look
  split
  · exact nofun
  · intro definition member
    obtain ⟨_, -, rfl⟩ := List.mem_map.mp member
    exact ⟨rfl, rfl⟩

theorem Scout.look_inOrder (scout : Scout) (source : String) (file : Path) (suite : Option String) :
    InOrder [] (scout.look source file suite).2 := by
  obtain ⟨blocks, shaped, same⟩ := scout.look_blocks source file suite
  exact same ▸ inOrder_blocks shaped []

/-- Whatever a scout knows and whatever a file has in it, the file is told of in order. The definitions are counted
from zero on, each one fits those before and after it, and each one belongs to the file and its suite. -/
theorem Scout.look_in_order (scout : Scout) (source : String) (file : Path) (suite : Option String)
    (front back : List (Definition × Nat)) (event : Definition) (index : Nat)
    (told : (scout.look source file suite).2.zipIdx = front ++ (event, index) :: back) :
    index = front.length ∧ Fits (front.map (·.1)).reverse event (back.map (·.1)) ∧
      event.file = file ∧ event.suite = suite := by
  have listed : (scout.look source file suite).2 = front.map (·.1) ++ event :: back.map (·.1) := by
    rw [← List.zipIdx_map_fst 0 (scout.look source file suite).2, told, List.map_append, List.map_cons]
  refine ⟨?_, ?_, scout.look_placed source file suite event ?_⟩
  · have placed := congrArg (·[front.length]?) told
    simp only [List.getElem?_append_right (Nat.le_refl _), Nat.sub_self, List.getElem?_cons_zero, List.getElem?_zipIdx,
      Nat.zero_add] at placed
    obtain ⟨_, -, pair⟩ := Option.map_eq_some_iff.mp placed
    exact (congrArg Prod.snd pair).symm
  · have order := scout.look_inOrder source file suite
    rw [listed] at order
    simpa using order.fits
  · exact listed ▸ List.mem_append_right _ List.mem_cons_self

private def shopScout : Scout where
  reader _ :=
    let test := fun name => Code.Node.method { name, body := some {} }
    let cart : Code.ClassDecl := { name := "CartTest", body := [test "testAdd", test "testDrop"] }
    some (.program { children := [
      .space { name := "Shop", children := [.classDecl cart] }, .classDecl { name := "OpenTest", body := [test "testOpens"] }] })
  root := ⟨"/p"⟩

private def shopTold : List (Definition × Nat) := (shopScout.look "" ⟨"/p/Shop.php"⟩ (some "unit")).2.zipIdx

/-- The class outside of the namespace comes first, and then the namespace with its class and the tests in it. -/
theorem shop_told_in_order : ∃ front event back, shopTold = front ++ (event, 4) :: back ∧
    front.map (fun told => (told.1.kind, told.1.id)) = [(.classLike, "OpenTest"), (.method, "OpenTest::testOpens"),
      (.space, "namespace:Shop"), (.classLike, "Shop\\CartTest")] ∧
    event.id = "Shop\\CartTest::testAdd" ∧ back.map (·.1.id) = ["Shop\\CartTest::testDrop"] ∧
    4 = front.length ∧ Fits (front.map (·.1)).reverse event (back.map (·.1)) ∧ event.file = ⟨"/p/Shop.php"⟩ ∧
    event.suite = some "unit" := by
  have inside : 4 < shopTold.length := by decide +kernel
  have split : shopTold = shopTold.take 4 ++ (shopTold[4].1, 4) :: shopTold.drop 5 := by
    have counted : shopTold[4] = (shopTold[4].1, 4) := by simp [shopTold, List.getElem_zipIdx]
    rw [← counted, ← List.drop_eq_getElem_cons inside, List.take_append_drop]
  have named : shopTold[4]?.map (·.1.id) = some "Shop\\CartTest::testAdd" := by decide +kernel
  rw [List.getElem?_eq_getElem inside] at named
  refine ⟨_, _, _, split, by decide +kernel, Option.some_inj.mp named, by decide +kernel, ?_⟩
  exact shopScout.look_in_order "" ⟨"/p/Shop.php"⟩ (some "unit") _ _ _ _ split

end TestScout.Discovery
