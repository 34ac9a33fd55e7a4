import TestScout.Proofs.CollectionHistory
import TestScout.Proofs.WorkspaceEntries

/-! What can happen to the collection of an editor, and every single file that is taken in along the way. A property
that survives the taking in of single files, and what else happens between them, survives whole runs. -/

namespace TestScout
open Test Outline

namespace Editor

inductive Action where
  | update (file : Path) (source : String)
  | delete (file : Path)
  | reset
  | configure (configuration : Configuration)
  /-- Others hold on to other items from now on. -/
  | hold (refs : List Ref)

/-- A file that is taken in for a suite. -/
structure Intake where
  before : Collection Editor
  file : Path
  source : String
  suite : String

namespace Intake

def after (intake : Intake) : Collection Editor := intake.before.store intake.file intake.source intake.suite

def found (intake : Intake) : List Definition :=
  (intake.before.tracker.scout.look intake.source intake.file (some intake.suite)).2

end Intake

end Editor

namespace Collection
open Editor

def perform (collection : Collection Editor) : Action → Collection Editor
  | .update file source => (collection.update file source).1
  | .delete file => (collection.delete file).1
  | .reset => collection.reset
  | .configure configuration => collection.configure configuration
  | .hold refs => { collection with tracker := { collection.tracker with held := refs }.settle }

def performAll (collection : Collection Editor) (actions : List Action) : Collection Editor := actions.foldl perform collection

def refreshIntakes (origin : Path) :
    (dependents : List (Path × String)) → (seen : List Path) → Collection Editor → List Intake
  | [], _, _ => []
  | (file, source) :: rest, seen, collection =>
    if file.same origin || seen.any (·.same file) then refreshIntakes origin rest seen collection
    else match collection.suiteOf? file with
      | some suite =>
        let intake : Intake := ⟨collection, file, source, suite⟩
        intake :: refreshIntakes origin rest (file :: seen) intake.after
      | none => refreshIntakes origin rest (file :: seen) collection

/-- The files that are taken in for an action, one after the other. -/
def intakes (collection : Collection Editor) : Action → List Intake
  | .update file source =>
    match collection.suiteOf? file with
    | none => []
    | some suite =>
      let intake : Intake := ⟨collection, file, source, suite⟩
      let dependents := Tracker.dependents collection.tracker file ++ Tracker.dependents intake.after.tracker file
      intake :: refreshIntakes file dependents [] intake.after
  | .delete file => refreshIntakes file (Tracker.dependents collection.tracker file) [] (collection.released file)
  | .reset | .configure _ | .hold _ => []

def allIntakes (collection : Collection Editor) : List Action → List Intake
  | [] => []
  | action :: rest => collection.intakes action ++ (collection.perform action).allIntakes rest

/-! ## Properties that survive -/

section

variable {motive : Collection Editor → Prop} {collection : Collection Editor}

theorem refresh_keeps {origin : Path} {dependents : List (Path × String)} {seen : List Path} (start : motive collection)
    (step : ∀ intake ∈ refreshIntakes origin dependents seen collection, motive intake.before → motive intake.after) :
    motive (refresh origin dependents seen collection) := by
  induction dependents generalizing seen collection with
  | nil => exact start
  | cons dependent rest ih =>
    obtain ⟨file, source⟩ := dependent
    rw [refreshIntakes] at step
    rw [refresh]
    split at step
    next skipped =>
      rw [if_pos skipped]
      exact ih start step
    next fresh =>
      rw [if_neg fresh]
      cases home : collection.suiteOf? file with
      | none =>
        rw [home] at step
        exact ih start step
      | some suite =>
        rw [home] at step
        have first := step ⟨collection, file, source, suite⟩ List.mem_cons_self start
        exact ih first fun intake later => step intake (List.mem_cons_of_mem _ later)

theorem update_keeps {file : Path} {source : String} (start : motive collection)
    (step : ∀ intake ∈ collection.intakes (.update file source), motive intake.before → motive intake.after) :
    motive (collection.update file source).1 := by
  rw [intakes] at step
  rw [update]
  cases home : collection.suiteOf? file with
  | none => exact start
  | some suite =>
    rw [home] at step
    have first := step ⟨collection, file, source, suite⟩ List.mem_cons_self start
    exact refresh_keeps first fun intake later => step intake (List.mem_cons_of_mem _ later)

theorem delete_keeps {file : Path} (released : motive (collection.released file))
    (step : ∀ intake ∈ collection.intakes (.delete file), motive intake.before → motive intake.after) :
    motive (collection.delete file).1 :=
  refresh_keeps released step

/-- What the taking in and the forgetting of files keep holds whenever a file is taken in. -/
theorem refreshIntakes_before {origin : Path} {dependents : List (Path × String)} {seen : List Path} (start : motive collection)
    (store : ∀ collection file source suite, motive collection → motive (collection.store file source suite)) :
    ∀ intake ∈ refreshIntakes origin dependents seen collection, motive intake.before := by
  induction dependents generalizing seen collection with
  | nil => exact nofun
  | cons dependent rest ih =>
    obtain ⟨file, source⟩ := dependent
    rw [refreshIntakes]
    split
    · exact ih start
    · split
      next suite home => exact List.forall_mem_cons.mpr ⟨start, ih (store collection file source suite start)⟩
      next => exact ih start

theorem intakes_before (start : motive collection)
    (store : ∀ collection file source suite, motive collection → motive (collection.store file source suite))
    (release : ∀ collection file, motive collection → motive (released collection file)) (action : Action) :
    ∀ intake ∈ collection.intakes action, motive intake.before := by
  cases action with
  | update file source =>
    rw [intakes]
    split
    · exact List.forall_mem_nil _
    next suite home =>
      exact List.forall_mem_cons.mpr ⟨start, refreshIntakes_before (store collection file source suite start) store⟩
  | delete file => exact refreshIntakes_before (release collection file start) store
  | reset | configure | hold => exact List.forall_mem_nil _

theorem allIntakes_before {actions : List Action} (start : motive collection)
    (store : ∀ collection file source suite, motive collection → motive (collection.store file source suite))
    (release : ∀ collection file, motive collection → motive (released collection file))
    (step : ∀ collection, ∀ action ∈ actions, motive collection → motive (collection.perform action)) :
    ∀ intake ∈ collection.allIntakes actions, motive intake.before := by
  induction actions generalizing collection with
  | nil => exact nofun
  | cons action rest ih =>
    have later := ih (step collection action List.mem_cons_self start) fun collection action member =>
      step collection action (List.mem_cons_of_mem _ member)
    intro intake member
    rcases List.mem_append.mp member with now | after
    · exact intakes_before start store release action intake now
    · exact later intake after

/-- A workspace that is given up, before it goes away itself. -/
def emptied (collection : Collection Editor) : Collection Editor :=
  (collection.entries.map (·.file)).foldl released collection

theorem released_all_keeps (start : motive collection) (files : List Path)
    (step : ∀ collection, ∀ file ∈ files, motive collection → motive (released collection file)) :
    motive (files.foldl released collection) := by
  induction files generalizing collection with
  | nil => exact start
  | cons file rest ih =>
    refine ih (step collection file List.mem_cons_self start) ?_
    exact fun collection file later => step collection file (List.mem_cons_of_mem _ later)

/-- What one action keeps is kept by all of them. -/
theorem performAll_keeps {good : Intake → Prop} {actions : List Action} (start : motive collection)
    (all : ∀ intake ∈ collection.allIntakes actions, good intake)
    (step : ∀ collection, ∀ action ∈ actions, motive collection → (∀ intake ∈ collection.intakes action, good intake) →
      motive (collection.perform action)) : motive (collection.performAll actions) := by
  induction actions generalizing collection with
  | nil => exact start
  | cons action rest ih =>
    have first := step collection action List.mem_cons_self start fun intake member => all intake (List.mem_append_left _ member)
    refine ih first (fun intake later => all intake (List.mem_append_right _ later)) ?_
    intro collection action later
    exact step collection action (List.mem_cons_of_mem _ later)

theorem allIntakes_append (actions further : List Action) : collection.allIntakes (actions ++ further) =
    collection.allIntakes actions ++ (collection.performAll actions).allIntakes further := by
  induction actions generalizing collection with
  | nil => rfl
  | cons action rest ih =>
    rw [List.cons_append, allIntakes, ih, ← List.append_assoc]
    rfl

end

end Collection

end TestScout
