import TestScout.Proofs.EditorBooks
import TestScout.Proofs.EditorLineage

/-! Items that stay the same. When a file is taken in again, or one that depends on it, all that has an id from before
keeps its item: the classes that were taken out of their namespaces come back, whatever has become of the namespaces, and
so does all that was below them. -/

namespace TestScout.Surface

/-- The names that a reader reads are written like names. -/
def Reader.Lexical (reader : Reader) : Prop :=
  ∀ source program, reader source = some (.program program) → ∀ scope ∈ Discovery.Scope.ofProgram program, scope.Lexical

end TestScout.Surface

namespace TestScout
open Test Outline

namespace Editor

/-- The ledger has the files that have not been visited as they were before, and no file has another item for an id. -/
structure Continued (before : Ledger) (visited : Path → Prop) (ledger : Ledger) : Prop where
  untouched : ∀ entry ∈ before, ¬visited entry.1 → entry ∈ ledger
  same : ∀ entry ∈ ledger, ∀ old ∈ before, entry.1.same old.1 = true → ∀ item ∈ entry.2, ∀ former ∈ old.2,
    former.2.id = item.2.id → item.1 = former.1

variable {editor : Editor} {before ledger : Ledger} {visited : Path → Prop} {file : Path}

theorem Register.continued (register : Register editor ledger) (visited : Path → Prop) : Continued ledger visited ledger where
  untouched _ member _ := member
  same entry member old listed _ item inside former within same := by
    have one := Ledger.mem_items.mpr ⟨entry, member, inside⟩
    have other := Ledger.mem_items.mpr ⟨old, listed, within⟩
    rw [register.item_eq other one same]

theorem Continued.weaken (continued : Continued before visited ledger) {wider : Path → Prop}
    (more : ∀ path, visited path → wider path) : Continued before wider ledger where
  untouched entry member away := continued.untouched entry member fun old => away (more _ old)
  same := continued.same

/-- A file that is taken in for the first time continues what it was before. -/
theorem Continued.takeIn (continued : Continued before visited ledger) (unvisited : ∀ path, path.same file = true → ¬visited path)
    {items : List (Ref × Definition)} (regained : ∀ entry ∈ ledger, entry.1.same file = true → ∀ old ∈ entry.2, ∀ item ∈ items,
      old.2.id = item.2.id → item.1 = old.1) :
    Continued before (fun path => visited path ∨ path.same file = true) ((ledger.without file).add file items) where
  untouched entry member away := by
    obtain ⟨unseen, foreign⟩ := not_or.mp away
    have here := continued.untouched entry member unseen
    exact Ledger.mem_add.mpr (.inl (Ledger.mem_without.mpr ⟨here, Bool.not_eq_true _ ▸ foreign⟩))
  same entry member old listed own item inside former within same := by
    rcases Ledger.mem_add.mp member with left | ⟨-, rfl⟩
    · exact continued.same entry (Ledger.mem_without.mp left).1 old listed own item inside former within same
    · rw [Path.same_comm] at own
      exact regained old (continued.untouched old listed (unvisited old.1 own)) own former within item inside same

theorem lasting_descended {reader : Surface.Reader} (lexical : reader.Lexical) :
    Lasting fun editor ledger => editor.Descended ledger ∧ editor.scout.reader = reader where
  grouped holds := holds.1.toGrouped
  takeIn := by
    intro editor ledger file source suite ⟨descended, same⟩ novel distinct
    refine ⟨(descended.takeIn novel distinct (same ▸ lexical source)).1, ?_⟩
    have looked : (editor.takeIn source file suite).1.scout = _ := Scouting.scout_parse editor source file suite
    rw [looked]
    exact (Collection.look_setting _ source file (some suite)).1.trans same
  drop := by
    intro editor ledger entry ⟨descended, same⟩
    exact ⟨descended.drop entry, (congrArg _ (editor.scout_takeOut entry.file)).trans same⟩
  settle := fun ⟨descended, same⟩ => ⟨descended.settle, same⟩
  congr := fun ⟨descended, same⟩ outline index groups files kept =>
    ⟨descended.congr outline index groups files, kept.trans same⟩

end Editor

namespace Collection
open Editor

variable {collection : Collection Editor} {reader : Surface.Reader} {before : Ledger} {visited : Path → Prop}

/-- The only workspace continues what a ledger had. -/
structure Persists (reader : Surface.Reader) (before : Ledger) (visited : Path → Prop) (collection : Collection Editor) : Prop where
  solitary : collection.Solitary
  ledger : ∃ ledger, Accounts ledger collection.entries ∧
    (collection.tracker.Descended ledger ∧ collection.tracker.scout.reader = reader) ∧ Continued before visited ledger

namespace Persists

theorem taken (lexical : reader.Lexical) {intake : Intake} (persists : intake.before.Persists reader before visited)
    (unvisited : ∀ path, path.same intake.file = true → ¬visited path) (distinct : intake.after.DistinctIds) :
    intake.after.Persists reader before fun path => visited path ∨ path.same intake.file = true := by
  obtain ⟨ledger, accounts, holds, continued⟩ := persists.ledger
  have changes := persists.solitary.changes
  have regained := (holds.1.takeIn (changes.novel distinct accounts) (changes.distinct distinct)
    (holds.2 ▸ lexical intake.source)).2
  obtain ⟨listed, stays⟩ := persists.solitary.taken (lasting_descended lexical) accounts holds distinct
  exact ⟨persists.solitary.store intake.file intake.source intake.suite, _, listed, stays, continued.takeIn unvisited regained⟩

theorem weaken (persists : collection.Persists reader before visited) {wider : Path → Prop}
    (more : ∀ path, visited path → wider path) : collection.Persists reader before wider := by
  obtain ⟨ledger, accounts, holds, continued⟩ := persists.ledger
  exact ⟨persists.solitary, ledger, accounts, holds, continued.weaken more⟩

/-- Each file that depends on another one is taken in once at most when that one has changed. -/
theorem refresh (lexical : reader.Lexical) {origin : Path} {dependents : List (Path × String)} {seen : List Path}
    (persists : collection.Persists reader before fun path => path.same origin = true ∨ seen.any (·.same path) = true)
    (distinct : ∀ intake ∈ refreshIntakes origin dependents seen collection, intake.after.DistinctIds) :
    ∃ visited, (collection.refresh origin dependents seen).Persists reader before visited := by
  induction dependents generalizing seen collection with
  | nil => exact ⟨_, persists⟩
  | cons dependent rest ih =>
    obtain ⟨file, source⟩ := dependent
    rw [refreshIntakes] at distinct
    rw [Collection.refresh]
    have more : ∀ path, path.same origin = true ∨ seen.any (·.same path) = true →
        path.same origin = true ∨ (file :: seen).any (·.same path) = true := fun path => Or.imp_right fun old => by simp [old]
    split at distinct
    next skipped =>
      rw [if_pos skipped]
      exact ih persists distinct
    next fresh =>
      rw [if_neg fresh]
      cases home : collection.suiteOf? file with
      | none =>
        rw [home] at distinct
        exact ih (persists.weaken more) distinct
      | some suite =>
        rw [home] at distinct
        obtain ⟨first, later⟩ := List.forall_mem_cons.mp distinct
        have unvisited : ∀ path, path.same file = true → ¬(path.same origin = true ∨ seen.any (·.same path) = true) := by
          intro path own old
          rw [Path.same_congr_left own, ← Bool.or_eq_true] at old
          simp only [Path.same_congr_right own] at old
          exact fresh old
        have before : (Intake.mk collection file source suite).before.Persists reader before _ := persists
        refine ih ((before.taken lexical unvisited first).weaken fun path => ?_) later
        rintro (old | own)
        · exact more path old
        · right
          rw [List.any_cons, Path.same_comm, own, Bool.true_or]

end Persists

end Collection

end TestScout
