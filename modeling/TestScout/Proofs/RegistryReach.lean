import Mathlib.Data.List.Nodup
import Mathlib.Logic.Relation
import TestScout.Proofs.VisibleMethods

/-! Which files depend on a file. The search for them follows references backwards, one step
at a time. As long as names are full and differ by more than case, it finds exactly the files
with an entry from which references lead to the file, and the methods of all other classes stay
as they are whatever the file declares. -/

namespace TestScout.Registry
open Relation

/-- Names have no backslash in front, and no two of them are the same in small letters. -/
structure WellNamed (registry : Registry) : Prop where
  full : ∀ info ∈ registry.classes, relativeName info.name = info.name
  once : (registry.classes.map (·.name.toLower)).Nodup

/-- An entry extends or uses an entry of the registry, in whatever case its name is written. -/
def RefersTo (registry : Registry) (info target : ClassInfo) : Prop :=
  target ∈ registry.classes ∧ ∃ reference ∈ info.references, plainName reference = plainName target.name

/-- References lead from an entry to one that a file declares. -/
def LeadsTo (registry : Registry) (file : Path) (info : ClassInfo) : Prop :=
  ∃ target ∈ registry.classes, target.file.same file = true ∧ TransGen registry.RefersTo info target

variable {registry : Registry} {file : Path} {info : ClassInfo}

theorem WellNamed.plainName_eq (named : registry.WellNamed) (member : info ∈ registry.classes) :
    plainName info.name = info.name.toLower := by
  rw [plainName, named.full info member]

theorem WellNamed.eq_of_toLower_eq (named : registry.WellNamed) {other : ClassInfo} (member : info ∈ registry.classes)
    (listed : other ∈ registry.classes) (same : info.name.toLower = other.name.toLower) : info = other :=
  List.inj_on_of_nodup_map named.once member listed same

theorem WellNamed.apart (named : registry.WellNamed) : registry.Apart := by
  intro info member other listed foreign same
  rw [named.plainName_eq member, named.plainName_eq listed] at same
  rw [named.eq_of_toLower_eq member listed same, Path.same_refl] at foreign
  cases foreign

/-! ## The search is exact -/

/-- What is found refers to one of the names, directly or through other entries. -/
theorem exists_chain_of_mem_referring (named : registry.WellNamed) {names : List String} {classes : List ClassInfo}
    (inside : ∀ info ∈ classes, info ∈ registry.classes) (found : info ∈ referring names classes) :
    ∃ last, ReflTransGen registry.RefersTo info last ∧ ∃ reference ∈ last.references, plainName reference ∈ names := by
  fun_induction referring names classes with
  | case1 => cases found
  | case2 names classes _ ih =>
    have refers_of_direct : ∀ direct ∈ referrers names classes,
        direct ∈ registry.classes ∧ ∃ reference ∈ direct.references, plainName reference ∈ names := by
      intro direct member
      simp only [referrers, List.mem_filter, Bool.and_eq_true] at member
      obtain ⟨reference, written, known⟩ := List.any_eq_true.mp member.2.2
      exact ⟨inside direct member.1, reference, written, List.contains_iff_mem.mp known⟩
    rcases List.mem_append.mp found with direct | further
    · exact ⟨info, .refl, (refers_of_direct info direct).2⟩
    obtain ⟨last, chain, reference, written, known⟩ := ih (fun other stranger =>
      inside other (List.mem_filter.mp stranger).1) further
    rcases List.mem_append.mp known with known | next
    · exact ⟨last, chain, reference, written, known⟩
    -- The chain goes on with an entry that has been found one step before.
    obtain ⟨direct, member, same⟩ := List.mem_map.mp next
    obtain ⟨listed, refers⟩ := refers_of_direct direct member
    refine ⟨direct, chain.tail ⟨listed, reference, written, ?_⟩, refers⟩
    rw [named.plainName_eq listed, same]

theorem leadsTo_of_mem_referring (named : registry.WellNamed)
    (found : info ∈ referring ((registry.declaredIn file).map (·.name.toLower)) registry.classes) :
    registry.LeadsTo file info := by
  obtain ⟨last, chain, reference, written, known⟩ := exists_chain_of_mem_referring named (fun _ => id) found
  obtain ⟨target, declared, same⟩ := List.mem_map.mp known
  obtain ⟨listed, own⟩ := List.mem_filter.mp declared
  refine ⟨target, listed, own, TransGen.tail' chain ⟨listed, reference, written, ?_⟩⟩
  rw [named.plainName_eq listed, same]

/-- References are followed backwards from what is reached. -/
theorem reached_of_leadsTo (named : registry.WellNamed) (member : info ∈ registry.classes)
    (leads : registry.LeadsTo file info) : info.name.toLower ∈ registry.reached file := by
  obtain ⟨target, listed, own, chain⟩ := leads
  have arrived := reached_own listed own
  induction chain using TransGen.head_induction_on with
  | single refers =>
    obtain ⟨-, reference, written, same⟩ := refers
    refine reached_of_reference member written ?_
    rwa [same, named.plainName_eq listed]
  | head refers _ ih =>
    obtain ⟨between, reference, written, same⟩ := refers
    refine reached_of_reference member written ?_
    rw [same, named.plainName_eq between]
    exact ih between

/-- A file depends on another one exactly when references lead there from one of its entries. -/
theorem exists_dependent_iff (named : registry.WellNamed) (path : Path) :
    (∃ dependent ∈ registry.dependentFiles file, dependent.same path = true) ↔
      path.same file = false ∧ ∃ info ∈ registry.classes, info.file.same path = true ∧ registry.LeadsTo file info := by
  constructor
  · intro listed
    obtain ⟨info, found, foreign, spelled⟩ := exists_same_dependentFiles.mp listed
    refine ⟨?_, info, (mem_of_mem_referring found).1, spelled, leadsTo_of_mem_referring named found⟩
    rwa [← Path.same_congr_left spelled]
  · intro ⟨foreign, info, member, spelled, leads⟩
    obtain ⟨other, listed, same, origin⟩ := declared_of_mem_reached (reached_of_leadsTo named member leads)
    obtain rfl := named.eq_of_toLower_eq listed member same
    rcases origin with own | ⟨dependent, present, same⟩
    · rw [← Path.same_congr_left spelled, own] at foreign
      cases foreign
    · exact ⟨dependent, present, Path.same_trans same spelled⟩

/-! ## The methods of other classes -/

/-- What a file declares makes no difference to a class of a file that does not depend on it. -/
theorem methodsOf_of_change {changed : Registry} (named : registry.WellNamed) (renamed : changed.WellNamed)
    (elsewhere : ∀ other, other.file.same file = false → (other ∈ registry.classes ↔ other ∈ changed.classes))
    (member : info ∈ registry.classes) (foreign : info.file.same file = false)
    (independent : ∀ dependent ∈ registry.dependentFiles file, dependent.same info.file = false)
    (free : ∀ dependent ∈ changed.dependentFiles file, dependent.same info.file = false) :
    changed.methodsOf info.name = registry.methodsOf info.name := by
  have kept := (elsewhere info foreign).mp member
  have unreached : plainName info.name ∉ registry.reached file ∧ plainName info.name ∉ changed.reached file :=
    ⟨not_mem_reached named.apart member foreign independent, not_mem_reached renamed.apart kept foreign free⟩
  exact ((agree_of_change elsewhere).methodsOf unreached).1.symm

theorem WellNamed.removeFile (named : registry.WellNamed) (file : Path) : (registry.removeFile file).WellNamed where
  full info member := named.full info (List.mem_filter.mp member).1
  once := named.once.sublist (List.filter_sublist.map _)

theorem mem_removeFile : info ∈ (registry.removeFile file).classes ↔ info ∈ registry.classes ∧ info.file.same file = false := by
  simp [removeFile, filter]

/-- The files that depend on a file are listed in order, each of them once: exactly the others with an entry from which
references lead to the file. A class of any other file keeps its methods when the file is forgotten, and when it declares
something else instead on which that class does not depend. -/
theorem dependentFiles_exact (registry : Registry) (named : registry.WellNamed) (file : Path) :
    (registry.dependentFiles file).Pairwise (·.compare · = .lt) ∧
      (∀ path, (∃ dependent ∈ registry.dependentFiles file, dependent.same path = true) ↔
        path.same file = false ∧ ∃ info ∈ registry.classes, info.file.same path = true ∧ registry.LeadsTo file info) ∧
      ∀ info ∈ registry.classes, info.file.same file = false →
        (∀ dependent ∈ registry.dependentFiles file, dependent.same info.file = false) →
        (registry.removeFile file).methodsOf info.name = registry.methodsOf info.name ∧
          ∀ changed : Registry, changed.WellNamed →
            (∀ other, other.file.same file = false → (other ∈ registry.classes ↔ other ∈ changed.classes)) →
            (∀ dependent ∈ changed.dependentFiles file, dependent.same info.file = false) →
            changed.methodsOf info.name = registry.methodsOf info.name := by
  refine ⟨dependentFiles_ordered registry file, exists_dependent_iff named, ?_⟩
  intro info member foreign independent
  constructor
  · have none : (registry.removeFile file).dependentFiles file = [] :=
      dependentFiles_eq_nil fun other left => (mem_removeFile.mp left).2
    refine methodsOf_of_change named (named.removeFile file) ?_ member foreign independent (by simp [none])
    intro other outside
    rw [mem_removeFile, outside, eq_self, and_true]
  · intro changed renamed elsewhere free
    exact methodsOf_of_change named renamed elsewhere member foreign independent free

private def money : ClassInfo :=
  { name := "App\\Money", kind := .traitDecl, methods := [{ name := "round" }], file := ⟨"/p/Money.php"⟩ }

private def purse : ClassInfo :=
  { name := "App\\Money", kind := .traitDecl, methods := [{ name := "count" }], file := ⟨"/p/Money.php"⟩ }

private def cart : ClassInfo := { name := "App\\Cart", traits := ["\\app\\MONEY"], file := ⟨"/p/Cart.php"⟩ }

private def cartTest : ClassInfo := { name := "CartTest", parent := "App\\Cart", file := ⟨"/p//CartTest.php"⟩ }

private def log : ClassInfo := { name := "App\\Log", methods := [{ name := "write" }], file := ⟨"/p/Log.php"⟩ }

private def shop : Registry := ⟨[money, cart, cartTest, log], by decide⟩

private def laterShop : Registry := ⟨[purse, cart, cartTest, log], by decide⟩

private theorem log_independent {registry : Registry}
    (alone : ∀ info ∈ registry.classes, info.references = [] ∨ info.file.same log.file = false) :
    ∀ dependent ∈ registry.dependentFiles ⟨"/p/Money.php"⟩, dependent.same log.file = false := by
  intro dependent listed
  obtain ⟨info, member, rfl, refers, -⟩ := declared_of_mem_dependentFiles listed
  exact (alone info member).resolve_left refers

/-- The test of the cart depends on the trait for money, which the cart uses in another spelling. The log keeps its methods
whatever happens to money. -/
theorem cart_test_depends_on_money :
    (∃ dependent ∈ shop.dependentFiles ⟨"/p/Money.php"⟩, dependent.same ⟨"/p/CartTest.php"⟩ = true) ∧
      (∀ dependent ∈ shop.dependentFiles ⟨"/p/Money.php"⟩, dependent.same log.file = false) ∧
      (shop.removeFile ⟨"/p/Money.php"⟩).methodsOf "App\\Log" = shop.methodsOf "App\\Log" ∧
      laterShop.methodsOf "App\\Log" = shop.methodsOf "App\\Log" := by
  have named : shop.WellNamed := ⟨by decide +kernel, by decide +kernel⟩
  have renamed : laterShop.WellNamed := ⟨by decide +kernel, by decide +kernel⟩
  have elsewhere : ∀ other, other.file.same ⟨"/p/Money.php"⟩ = false → (other ∈ shop.classes ↔ other ∈ laterShop.classes) := by
    intro other foreign
    have differs : ∀ info : ClassInfo, info.file.same ⟨"/p/Money.php"⟩ = true → other ≠ info := by
      rintro info own rfl
      rw [own] at foreign
      cases foreign
    have neither : other ≠ money ∧ other ≠ purse := ⟨differs money (by decide +kernel), differs purse (by decide +kernel)⟩
    simp [shop, laterShop, neither]
  have uses : shop.RefersTo cart money := ⟨by simp [shop], "\\app\\MONEY", by decide, String.toList_injective (by decide +kernel)⟩
  have inherits : shop.RefersTo cartTest cart := ⟨by simp [shop], "App\\Cart", by decide, by decide +kernel⟩
  have leads : shop.LeadsTo ⟨"/p/Money.php"⟩ cartTest := ⟨money, by simp [shop], by decide +kernel, .head inherits (.single uses)⟩
  have independent : ∀ dependent ∈ shop.dependentFiles ⟨"/p/Money.php"⟩, dependent.same log.file = false :=
    log_independent (by decide +kernel)
  obtain ⟨-, exact, others⟩ := dependentFiles_exact shop named ⟨"/p/Money.php"⟩
  obtain ⟨forgotten, changed⟩ := others log (by simp [shop]) (by decide +kernel) independent
  refine ⟨(exact _).mpr ⟨by decide +kernel, cartTest, by simp [shop], by decide +kernel, leads⟩, independent, forgotten, ?_⟩
  exact changed laterShop renamed elsewhere (log_independent (by decide +kernel))

end TestScout.Registry
