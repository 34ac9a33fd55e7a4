import TestScout.Proofs.EditorGroups

/-! Keeping books over a run. What an editor shows of single files is told by a ledger, which has the items of the
definitions that are tracked. Whatever is kept of an editor and its ledger when files are taken in and out is kept over
whole runs, as long as no two definitions have one id and no file is tracked in two workspaces. In one workspace the
second is always so. -/

namespace TestScout
open Test Outline

namespace Editor

/-- What is kept when single files are taken in and out. -/
structure Lasting (good : Editor → Ledger → Prop) : Prop where
  grouped : ∀ {editor : Editor} {ledger : Ledger}, good editor ledger → Grouped editor ledger
  takeIn : ∀ {editor : Editor} {ledger : Ledger} {file : Path} {source suite : String}, good editor ledger →
    (∀ definition ∈ (editor.scout.look source file (some suite)).2.filter (·.kind != .space),
      ∀ old ∈ (ledger.without file).items, old.2.id ≠ definition.id) →
    (((editor.scout.look source file (some suite)).2.filter (·.kind != .space)).map (·.id)).Nodup →
      good (editor.takeIn source file suite).1 ((ledger.without file).add file (editor.builtItems source file suite))
  drop : ∀ {editor : Editor} {ledger : Ledger} (entry : FileEntry), good editor ledger →
    good (Tracker.drop editor entry) (ledger.without entry.file)
  settle : ∀ {editor : Editor} {ledger : Ledger}, good editor ledger → good editor.settle ledger
  /-- What a scout knows and what others hold make no difference. -/
  congr : ∀ {editor second : Editor} {ledger : Ledger}, good editor ledger → second.outline = editor.outline →
    second.index = editor.index → second.groups = editor.groups → second.files = editor.files →
      second.scout.reader = editor.scout.reader → good second ledger

theorem lasting_grouped : Lasting Grouped where
  grouped := id
  takeIn grouped novel distinct := (grouped.takeIn _ _ novel distinct).2
  drop entry grouped := grouped.drop entry
  settle grouped := grouped.settle
  congr grouped outline index groups files _ := grouped.congr outline index groups files

/-- An editor that has seen nothing yet shows nothing. -/
theorem grouped_start (scout : Discovery.Scout) : Grouped { scout } [] := by
  have valid : ({ scout } : Editor).outline.Valid := by
    refine ⟨?_, nofun⟩
    intro place ref member
    cases place <;> cases member
  exact {
    Register.start scout with
    valid
    exist := nofun
    proper := ⟨List.nodup_nil, nofun, nofun⟩
    members := fun group ref => ⟨nofun, fun ⟨_, member, _⟩ => nomatch member⟩ }

end Editor

namespace Collection
open Editor

variable {collection : Collection Editor} {good : Editor → Ledger → Prop}

def DistinctIds (collection : Collection Editor) : Prop :=
  ((collection.entries.flatMap fun entry => Definition.flattenAll entry.tests).map (·.id)).Nodup

instance (collection : Collection Editor) : Decidable collection.DistinctIds := inferInstanceAs (Decidable (List.Nodup _))

/-- A file that is taken in is tracked in no other workspace, and no two definitions of all workspaces have one id then. -/
def Accepted (intake : Intake) : Prop :=
  ((intake.after.tracked.flatMap fun entry => Definition.flattenAll entry.tests).map (·.id)).Nodup ∧
    intake.before.Unshared intake.file

instance (intake : Intake) : Decidable (Accepted intake) := inferInstanceAs (Decidable (_ ∧ ∀ _ ∈ _, ∀ _ ∈ _, _ = false))

/-- The workspaces have a ledger for their entries. -/
structure Recorded (good : Editor → Ledger → Prop) (collection : Collection Editor) : Prop where
  tidy : collection.Tidy
  separate : collection.Separate
  ledger : ∃ ledger, Accounts ledger collection.tracked ∧ good collection.tracker ledger

/-- The only workspace has a ledger for its entries. -/
structure Booked (good : Editor → Ledger → Prop) (collection : Collection Editor) : Prop where
  solitary : collection.Solitary
  ledger : ∃ ledger, Accounts ledger collection.entries ∧ good collection.tracker ledger

theorem Solitary.changes {intake : Intake} (solitary : intake.before.Solitary) :
    intake.Changes intake.before.entries intake.after.entries := by
  intro entry
  obtain ⟨-, stored⟩ := store_entries solitary.tidy.ordered intake.file intake.source intake.suite
  have here := stored entry
  rw [intake.parse_eq, Definition.forest, ne_eq, Definition.nest_eq_nil] at here
  exact here

/-- In one workspace a file that is taken in is tracked nowhere else. -/
theorem Solitary.accepted {intake : Intake} (solitary : intake.before.Solitary) (distinct : intake.after.DistinctIds) :
    Accepted intake := by
  have after : intake.after.Solitary := solitary.store intake.file intake.source intake.suite
  refine ⟨after.tracked_eq ▸ distinct, ?_⟩
  intro workspace other
  rw [solitary.alone] at other
  cases other

theorem Recorded.booked (recorded : collection.Recorded good) (solitary : collection.Solitary) : collection.Booked good := by
  obtain ⟨ledger, accounts, holds⟩ := recorded.ledger
  exact ⟨solitary, ledger, solitary.tracked_eq ▸ accounts, holds⟩

variable (lasting : Lasting good)

section
include lasting

/-- A file that is taken in gets its own entry in the ledger. -/
theorem taken_changes {intake : Intake} {entries next : List FileEntry} (changes : intake.Changes entries next) {ledger : Ledger}
    (accounts : Accounts ledger entries) (holds : good intake.before.tracker ledger)
    (ids : ((next.flatMap fun entry => Definition.flattenAll entry.tests).map (·.id)).Nodup) :
    Accounts ((ledger.without intake.file).add intake.file intake.items) next ∧
      good intake.after.tracker ((ledger.without intake.file).add intake.file intake.items) := by
  have novel := changes.novel ids accounts
  obtain ⟨labels, -⟩ := (lasting.grouped holds).takeIn intake.source intake.suite novel (changes.distinct ids)
  have looked := lasting.takeIn holds novel (changes.distinct ids)
  refine ⟨changes.accounts accounts labels, ?_⟩
  refine store_tracker_keeps (motive := fun tracker : Editor =>
    good tracker ((ledger.without intake.file).add intake.file intake.items)) looked ?_
  -- A file without definitions has no items left to drop.
  intro empty entry own
  rw [intake.parse_eq, Definition.forest, Definition.nest_eq_nil] at empty
  have none : intake.items = [] := List.map_eq_nil_iff.mp (labels.trans empty)
  have dropped : good _ (((ledger.without intake.file).add intake.file intake.items).without entry.file) :=
    lasting.drop entry looked
  rw [none, Ledger.add_nil] at dropped ⊢
  rwa [Ledger.without_congr own, Ledger.without_without] at dropped

theorem Solitary.taken {intake : Intake} (solitary : intake.before.Solitary) {ledger : Ledger}
    (accounts : Accounts ledger intake.before.entries) (holds : good intake.before.tracker ledger)
    (distinct : intake.after.DistinctIds) :
    Accounts ((ledger.without intake.file).add intake.file intake.items) intake.after.entries ∧
      good intake.after.tracker ((ledger.without intake.file).add intake.file intake.items) :=
  taken_changes lasting solitary.changes accounts holds distinct

namespace Recorded

theorem taken {intake : Intake} (recorded : intake.before.Recorded good) (accepted : Accepted intake) :
    intake.after.Recorded good := by
  obtain ⟨tidy, separate, ledger, accounts, holds⟩ := recorded
  obtain ⟨distinct, unshared⟩ := accepted
  exact ⟨(tidy.store intake.file intake.source intake.suite).1, separate.store tidy unshared, _,
    taken_changes lasting (tidy.changes unshared) accounts holds distinct⟩

theorem released (recorded : collection.Recorded good) (file : Path) : (collection.released file).Recorded good := by
  obtain ⟨tidy, separate, ledger, accounts, holds⟩ := recorded
  refine ⟨tidy.released file, separate.remove tidy file, ?_⟩
  rcases collection.remove_cases file with ⟨-, same⟩ | ⟨entry, member, own, dropped⟩
  · rw [Collection.released, same]
    exact ⟨ledger, accounts, lasting.congr holds rfl rfl rfl rfl rfl⟩
  · have tracked := (tidy.remove file).2 (separate.unshared_of_same member own)
    have removed : good (collection.remove file).1.tracker (ledger.without file) := by
      rw [dropped, ← Ledger.without_congr own]
      exact lasting.drop entry holds
    exact ⟨ledger.without file, accounts.without tracked, lasting.congr removed rfl rfl rfl rfl rfl⟩

theorem reset (recorded : collection.Recorded good) : collection.reset.Recorded good := by
  have emptied : collection.emptied.Recorded good := by
    apply released_all_keeps recorded
    intro current file _ before
    exact before.released lasting file
  obtain ⟨ledger, accounts, holds⟩ := emptied.ledger
  exact ⟨recorded.tidy.reset, recorded.separate.reset, ledger, accounts.congr recorded.tidy.tracked_reset,
    lasting.congr holds rfl rfl rfl rfl rfl⟩

omit lasting in
theorem seed (recorded : collection.Recorded good) : collection.seed.Recorded good := by
  obtain ⟨seeded, tracked⟩ := recorded.tidy.seed
  obtain ⟨ledger, accounts, holds⟩ := recorded.ledger
  have tracker : collection.seed.tracker = collection.tracker := (seed_setting collection).2
  exact ⟨seeded, recorded.separate.seed recorded.tidy, ledger, accounts.congr tracked, tracker ▸ holds⟩

theorem configure (recorded : collection.Recorded good) (configuration : Configuration) :
    (collection.configure configuration).Recorded good := by
  obtain ⟨tidy, separate, ledger, accounts, holds⟩ := recorded
  let switched : Collection Editor := { collection with
    configuration
    matcher := .ofConfiguration configuration
    tracker := Tracker.setRoot collection.tracker configuration.root }
  have same : switched.Recorded good :=
    ⟨⟨tidy.roots, tidy.suites⟩, separate, ledger, accounts, lasting.congr holds rfl rfl rfl rfl rfl⟩
  exact same.seed

theorem perform (recorded : collection.Recorded good) {action : Action}
    (accepted : ∀ intake ∈ collection.intakes action, Accepted intake) : (collection.perform action).Recorded good := by
  have taken : ∀ intake ∈ collection.intakes action, intake.before.Recorded good → intake.after.Recorded good := by
    intro intake member before
    exact before.taken lasting (accepted intake member)
  cases action with
  | update file source => exact update_keeps recorded taken
  | delete file => exact delete_keeps (recorded.released lasting file) taken
  | reset => exact recorded.reset lasting
  | configure configuration => exact recorded.configure lasting configuration
  | hold refs =>
    obtain ⟨tidy, separate, ledger, accounts, holds⟩ := recorded
    have held : good { collection.tracker with held := refs } ledger := lasting.congr holds rfl rfl rfl rfl rfl
    exact ⟨⟨tidy.roots, tidy.suites⟩, separate, ledger, accounts, lasting.settle held⟩

end Recorded

end

variable {reader : Surface.Reader} {configuration : Configuration}
  (start : good { scout := { reader, root := configuration.root } } [])
include start

theorem recorded_fresh : (fresh reader configuration).Recorded good := by
  let bare : Collection Editor :=
    { configuration, matcher := .ofConfiguration configuration, tracker := { scout := { reader, root := configuration.root } } }
  have recorded : bare.Recorded good := ⟨⟨List.Pairwise.nil, nofun⟩, nofun, [], ⟨nofun, nofun, nofun⟩, start⟩
  exact recorded.seed

include lasting

theorem recorded_run {actions : List Action} (accepted : ∀ intake ∈ (fresh reader configuration).allIntakes actions, Accepted intake) :
    ((fresh reader configuration).performAll actions).Recorded good := by
  refine performAll_keeps (recorded_fresh start) accepted ?_
  intro current action _ recorded accepted
  exact recorded.perform lasting accepted

theorem booked_run {actions : List Action} (steady : ∀ action ∈ actions, ∀ configuration, action ≠ .configure configuration)
    (distinct : ∀ intake ∈ (fresh reader configuration).allIntakes actions, intake.after.DistinctIds) :
    ((fresh reader configuration).performAll actions).Booked good := by
  have before := allIntakes_before (solitary_fresh reader configuration)
    (fun _ file source suite solitary => solitary.store file source suite) (fun _ file solitary => solitary.released file)
    fun _ action member solitary => solitary.perform (steady action member)
  have accepted : ∀ intake ∈ (fresh reader configuration).allIntakes actions, Accepted intake := fun intake member =>
    (before intake member).accepted (distinct intake member)
  exact (recorded_run lasting start accepted).booked (solitary_run reader configuration steady)

end Collection

end TestScout
