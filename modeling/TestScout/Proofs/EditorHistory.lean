import TestScout.Proofs.CollectionContainer
import TestScout.Proofs.EditorAccount

/-! The account over whole runs. Every action keeps it, as long as each file that is taken in leaves it clear and is
not tracked in another workspace, and says which items stay where they are. -/

namespace TestScout
open Test Outline

namespace Collection
open Editor

variable {collection : Collection Editor} {ledger : Ledger} {spaces : Ref → Prop}

def Welcome (intake : Intake) : Prop := intake.Clear intake.after.tracked ∧ intake.before.Unshared intake.file

instance (intake : Intake) : Decidable (Welcome intake) := inferInstanceAs (Decidable (_ ∧ ∀ _ ∈ _, ∀ _ ∈ _, _ = false))

/-- The account is right after what has happened since the start, which left the items of untouched files alone. -/
def Since (touched : Path → Prop) (start : Editor) (ledger : Ledger) (collection : Collection Editor) : Prop :=
  ∃ next left, collection.Mirrored next left ∧ Kept touched start collection.tracker ledger next

section

variable {touched : Path → Prop} {start : Editor}

theorem Mirrored.since (mirrored : collection.Mirrored ledger spaces) (touched : Path → Prop) :
    Since touched collection.tracker ledger collection :=
  ⟨ledger, spaces, mirrored, Kept.refl touched collection.tracker ledger⟩

theorem Since.taken {intake : Intake} (since : Since touched start ledger intake.before) (welcome : Welcome intake)
    (own : ∀ path, path.same intake.file = true → touched path) : Since touched start ledger intake.after := by
  obtain ⟨next, left, mirrored, kept⟩ := since
  obtain ⟨last, after, further⟩ := mirrored.taken welcome.1 welcome.2
  exact ⟨_, last, after, kept.trans (further.weaken own)⟩

/-- Nothing that is shown changes along with what a scout knows or what others hold. -/
theorem Mirrored.withTracker (mirrored : collection.Mirrored ledger spaces) {tracker : Editor}
    (outline : tracker.outline = collection.tracker.outline) (index : tracker.index = collection.tracker.index)
    (files : tracker.files = collection.tracker.files) :
    ({ collection with tracker } : Collection Editor).Mirrored ledger spaces where
  tidy := ⟨mirrored.tidy.roots, mirrored.tidy.suites⟩
  separate := mirrored.separate
  mirror := mirrored.mirror.congr outline index files
  accounts := mirrored.accounts

theorem Since.released (since : Since touched start ledger collection) {file : Path}
    (own : ∀ path, path.same file = true → touched path) : Since touched start ledger (collection.released file) := by
  obtain ⟨next, left, mirrored, kept⟩ := since
  obtain ⟨last, gone, removed, further⟩ := mirrored.remove file
  have moved := kept.trans (further.weaken own)
  exact ⟨last, gone, removed.withTracker rfl rfl rfl, moved.listed, moved.parents⟩

end

/-! ## Giving up a workspace -/

theorem mem_released_all (ordered : SuiteFiles.Ordered collection.suites) (files : List Path) :
    SuiteFiles.Ordered (files.foldl released collection).suites ∧
      ∀ entry, entry ∈ (files.foldl released collection).entries ↔
        entry ∈ collection.entries ∧ ∀ file ∈ files, entry.file.same file = false := by
  induction files generalizing collection with
  | nil => exact ⟨ordered, by simp⟩
  | cons file rest ih =>
    obtain ⟨kept, left⟩ := remove_entries ordered file
    obtain ⟨last, entries⟩ := ih (show SuiteFiles.Ordered (collection.released file).suites from kept)
    refine ⟨last, ?_⟩
    intro entry
    have here : entry ∈ (collection.released file).entries ↔ _ := left entry
    rw [List.foldl_cons, entries, here, List.forall_mem_cons, and_assoc]

theorem entries_emptied (ordered : SuiteFiles.Ordered collection.suites) : collection.emptied.entries = [] := by
  refine List.eq_nil_iff_forall_not_mem.mpr ?_
  intro entry member
  obtain ⟨old, apart⟩ := ((mem_released_all ordered _).2 entry).mp member
  have differs := apart entry.file (List.mem_map_of_mem old)
  rw [Path.same_refl] at differs
  cases differs

theorem Tidy.released (tidy : collection.Tidy) (file : Path) : (collection.released file).Tidy :=
  have removed := (tidy.remove file).1
  ⟨removed.roots, removed.suites⟩

theorem Tidy.reset (tidy : collection.Tidy) : collection.reset.Tidy := by
  have fewer : ∀ workspace ∈ collection.reset.workspaces, workspace ∈ collection.workspaces := by
    intro workspace member
    rw [workspaces_reset] at member
    exact (mem_others.mp member).1
  refine ⟨?_, fun workspace member => tidy.suites workspace (fewer workspace member)⟩
  rw [workspaces_reset]
  exact tidy.roots.sublist List.filter_sublist

theorem Separate.reset (separate : collection.Separate) : collection.reset.Separate := by
  have fewer : ∀ workspace ∈ collection.reset.workspaces, workspace ∈ collection.workspaces := by
    intro workspace member
    rw [workspaces_reset] at member
    exact (mem_others.mp member).1
  exact fun workspace member other found => separate workspace (fewer workspace member) other (fewer other found)

/-- The workspace goes away only when none of its files is tracked, so nothing tracked goes with it. -/
theorem Tidy.tracked_reset (tidy : collection.Tidy) (entry : FileEntry) :
    entry ∈ collection.reset.tracked ↔ entry ∈ collection.emptied.tracked := by
  have emptied : collection.emptied.Tidy := released_all_keeps (motive := Tidy) tidy _ fun _ file _ before => before.released file
  have beside : Beside collection collection.emptied := beside_released_all collection _
  rw [mem_tracked emptied.roots, entries_emptied tidy.ordered, beside.others, tracked, workspaces_reset]
  simp

theorem Mirrored.reset (mirrored : collection.Mirrored ledger spaces) :
    Since (fun path => ∃ entry ∈ collection.entries, path.same entry.file = true) collection.tracker ledger
      collection.reset := by
  let touched := fun path : Path => ∃ entry ∈ collection.entries, path.same entry.file = true
  have emptied : Since touched collection.tracker ledger collection.emptied := by
    refine released_all_keeps (mirrored.since touched) (collection.entries.map (·.file)) ?_
    intro current file member since
    obtain ⟨entry, listed, rfl⟩ := List.mem_map.mp member
    exact since.released fun path same => ⟨entry, listed, same⟩
  obtain ⟨next, left, emptied, kept⟩ := emptied
  exact ⟨next, left, ⟨mirrored.tidy.reset, mirrored.separate.reset, emptied.mirror.congr rfl rfl rfl,
    emptied.accounts.congr mirrored.tidy.tracked_reset⟩, kept.listed, kept.parents⟩

/-! ## Other actions -/

theorem Separate.seed (separate : collection.Separate) (tidy : collection.Tidy) : collection.seed.Separate := by
  obtain ⟨-, entries⟩ := seed_ordered fun _ => tidy.ordered
  refine separate.beside (beside_seed collection) tidy.seed.1.roots ?_
  intro entry member
  exact separate.unshared (entries ▸ member)

theorem Mirrored.seed (mirrored : collection.Mirrored ledger spaces) :
    Since (fun _ => False) collection.tracker ledger collection.seed := by
  obtain ⟨seeded, tracked⟩ := mirrored.tidy.seed
  have tracker : collection.seed.tracker = collection.tracker := (seed_setting collection).2
  refine ⟨ledger, spaces, ⟨seeded, mirrored.separate.seed mirrored.tidy, tracker ▸ mirrored.mirror,
    mirrored.accounts.congr tracked⟩, fun _ member _ => member, ?_⟩
  intro entry member _ item inside
  rw [tracker]

theorem Mirrored.configure (mirrored : collection.Mirrored ledger spaces) (configuration : Configuration) :
    Since (fun _ => False) collection.tracker ledger (collection.configure configuration) := by
  let switched : Collection Editor := { collection with
    configuration
    matcher := .ofConfiguration configuration
    tracker := Tracker.setRoot collection.tracker configuration.root }
  have same : switched.Mirrored ledger spaces :=
    ⟨⟨mirrored.tidy.roots, mirrored.tidy.suites⟩, mirrored.separate, mirrored.mirror.congr rfl rfl rfl, mirrored.accounts⟩
  obtain ⟨next, left, seeded, kept⟩ := same.seed
  exact ⟨next, left, seeded, kept.listed, kept.parents⟩

theorem Mirrored.hold (mirrored : collection.Mirrored ledger spaces) (refs : List Ref) :
    Since (fun _ => False) collection.tracker ledger (collection.perform (.hold refs)) := by
  have held : ({ collection.tracker with held := refs } : Editor).Mirror ledger spaces := mirrored.mirror.congr rfl rfl rfl
  refine ⟨ledger, spaces, ⟨⟨mirrored.tidy.roots, mirrored.tidy.suites⟩, mirrored.separate, held.settle, mirrored.accounts⟩,
    fun _ member _ => member, ?_⟩
  intro entry member _ item inside
  exact held.parentOf_settle (.inl ⟨item, Ledger.mem_items.mpr ⟨entry, member, inside⟩, rfl⟩)

/-- The files that an action takes in or takes out. -/
def Touched (collection : Collection Editor) (action : Action) (path : Path) : Prop :=
  (∃ intake ∈ collection.intakes action, path.same intake.file = true) ∨
    match action with
    | .update file _ | .delete file => path.same file = true
    | .reset => ∃ entry ∈ collection.entries, path.same entry.file = true
    | .configure _ | .hold _ => False

/-- An action leaves the account right, and the items of the files alone that it does not touch. -/
theorem Mirrored.perform (mirrored : collection.Mirrored ledger spaces) (action : Action)
    (welcome : ∀ intake ∈ collection.intakes action, Welcome intake) :
    Since (collection.Touched action) collection.tracker ledger (collection.perform action) := by
  have taken : ∀ intake ∈ collection.intakes action,
      Since (collection.Touched action) collection.tracker ledger intake.before →
        Since (collection.Touched action) collection.tracker ledger intake.after := by
    intro intake member since
    exact since.taken (welcome intake member) fun path same => .inl ⟨intake, member, same⟩
  have start := mirrored.since (collection.Touched action)
  cases action with
  | update file source => exact update_keeps start taken
  | delete file => exact delete_keeps (start.released fun path same => .inr same) taken
  | reset =>
    obtain ⟨next, left, reset, kept⟩ := mirrored.reset
    exact ⟨next, left, reset, kept.weaken fun path => .inr⟩
  | configure configuration =>
    obtain ⟨next, left, configured, kept⟩ := mirrored.configure configuration
    exact ⟨next, left, configured, kept.weaken nofun⟩
  | hold refs =>
    obtain ⟨next, left, held, kept⟩ := mirrored.hold refs
    exact ⟨next, left, held, kept.weaken nofun⟩

/-! ## Runs -/

def fresh (reader : Surface.Reader) (configuration : Configuration) : Collection Editor :=
  ofConfiguration configuration { scout := { reader, root := configuration.root } }

theorem mirrored_fresh (reader : Surface.Reader) (configuration : Configuration) :
    ∃ ledger spaces, (fresh reader configuration).Mirrored ledger spaces := by
  let bare : Collection Editor := {
    configuration
    matcher := .ofConfiguration configuration
    tracker := { scout := { reader, root := configuration.root } } }
  have dead : ∀ ref, ¬Ledger.Alive [] (fun _ => False) ref := by
    rintro ref (⟨item, member, -⟩ | none)
    · cases member
    · exact none
  have start : bare.Mirrored [] fun _ => False := {
    tidy := ⟨List.Pairwise.nil, nofun⟩
    separate := nofun
    accounts := ⟨nofun, nofun, nofun⟩
    mirror := {
      Register.start _ with
      plain := nofun
      marked := nofun
      forested := .nothing rfl dead
      rooted := fun ref living => absurd living (dead ref)
      upper := nofun
      filled := nofun
      classes := nofun
      members := nofun } }
  obtain ⟨next, left, seeded, -⟩ := start.seed
  exact ⟨next, left, seeded⟩

theorem mirrored_run {actions : List Action} (start : ∃ ledger spaces, collection.Mirrored ledger spaces)
    (welcome : ∀ intake ∈ collection.allIntakes actions, Welcome intake) :
    ∃ ledger spaces, (collection.performAll actions).Mirrored ledger spaces := by
  refine performAll_keeps (motive := fun current => ∃ ledger spaces, current.Mirrored ledger spaces) start welcome ?_
  rintro current action - ⟨ledger, spaces, mirrored⟩ good
  obtain ⟨next, left, performed, -⟩ := mirrored.perform action good
  exact ⟨next, left, performed⟩

/-! ## One workspace -/

/-- There is no workspace but the one that is configured. -/
structure Solitary (collection : Collection Editor) : Prop where
  tidy : collection.Tidy
  alone : collection.others = []

theorem Solitary.tracked_eq (solitary : collection.Solitary) : collection.tracked = collection.entries := by
  have own : ∀ workspace ∈ collection.workspaces, workspace.root.same collection.root = true := by
    intro workspace listed
    rw [← Bool.not_eq_false]
    intro foreign
    have other := mem_others.mpr ⟨listed, foreign⟩
    rw [solitary.alone] at other
    cases other
  have roots := solitary.tidy.roots
  rw [tracked, entries, suites, workspace?]
  generalize collection.workspaces = workspaces at own roots
  cases workspaces with
  | nil => rfl
  | cons first rest =>
    have here := own first List.mem_cons_self
    cases rest with
    | nil => simp [here, Workspace.entries]
    | cons second rest =>
      have apart := (List.pairwise_cons.mp roots).1 second List.mem_cons_self
      have there := own second (by simp)
      rw [Path.same_trans here (Path.same_symm there)] at apart
      cases apart

theorem Solitary.store (solitary : collection.Solitary) (file : Path) (source suite : String) :
    (collection.store file source suite).Solitary :=
  ⟨(solitary.tidy.store file source suite).1, (beside_store collection file source suite).others.trans solitary.alone⟩

theorem Solitary.released (solitary : collection.Solitary) (file : Path) : (collection.released file).Solitary :=
  ⟨solitary.tidy.released file, (beside_remove collection file).others.trans solitary.alone⟩

theorem Solitary.perform (solitary : collection.Solitary) {action : Action}
    (steady : ∀ configuration, action ≠ .configure configuration) : (collection.perform action).Solitary := by
  have taken : ∀ intake ∈ collection.intakes action, intake.before.Solitary → intake.after.Solitary :=
    fun intake _ before => before.store intake.file intake.source intake.suite
  cases action with
  | update file source => exact update_keeps solitary taken
  | delete file => exact delete_keeps (solitary.released file) taken
  | reset =>
    have none : collection.reset.workspaces = [] := (workspaces_reset collection).trans solitary.alone
    refine ⟨⟨?_, ?_⟩, ?_⟩
    · exact none ▸ List.Pairwise.nil
    · exact none ▸ nofun
    · show collection.reset.workspaces.filter _ = []
      rw [none]
      rfl
  | configure configuration => exact absurd rfl (steady configuration)
  | hold refs => exact ⟨⟨solitary.tidy.roots, solitary.tidy.suites⟩, solitary.alone⟩

theorem solitary_fresh (reader : Surface.Reader) (configuration : Configuration) :
    (fresh reader configuration).Solitary := by
  obtain ⟨ledger, spaces, mirrored⟩ := mirrored_fresh reader configuration
  exact ⟨mirrored.tidy, (beside_seed _).others⟩

/-- In one workspace a file is welcome when it leaves the account of the entries clear. -/
theorem Solitary.welcome {intake : Intake} (solitary : intake.before.Solitary) (clear : intake.Clear intake.after.entries) :
    Welcome intake := by
  have after : intake.after.Solitary := solitary.store intake.file intake.source intake.suite
  refine ⟨?_, ?_⟩
  · rwa [← after.tracked_eq] at clear
  · intro workspace other
    rw [solitary.alone] at other
    cases other

theorem solitary_run (reader : Surface.Reader) (configuration : Configuration) {actions : List Action}
    (steady : ∀ action ∈ actions, ∀ configuration, action ≠ .configure configuration) :
    ((fresh reader configuration).performAll actions).Solitary := by
  refine performAll_keeps (motive := Solitary) (solitary_fresh reader configuration)
    (show ∀ intake ∈ (fresh reader configuration).allIntakes actions, True from fun _ _ => trivial) ?_
  intro current action member solitary _
  exact solitary.perform (steady action member)

theorem mirrored_steady_run (reader : Surface.Reader) (configuration : Configuration) {actions : List Action}
    (steady : ∀ action ∈ actions, ∀ configuration, action ≠ .configure configuration)
    (clear : ∀ intake ∈ (fresh reader configuration).allIntakes actions, intake.Clear intake.after.entries) :
    ∃ ledger spaces, ((fresh reader configuration).performAll actions).Mirrored ledger spaces := by
  have before := allIntakes_before (solitary_fresh reader configuration)
    (fun _ file source suite solitary => solitary.store file source suite) (fun _ file solitary => solitary.released file)
    fun _ action member solitary => solitary.perform (steady action member)
  exact mirrored_run (mirrored_fresh reader configuration) fun intake member =>
    (before intake member).welcome (clear intake member)

theorem Solitary.entries_reset (solitary : collection.Solitary) : collection.reset.entries = [] := by
  have none : collection.reset.workspaces = [] := (workspaces_reset collection).trans solitary.alone
  rw [entries, suites, workspace?, none]
  rfl

end Collection

end TestScout
