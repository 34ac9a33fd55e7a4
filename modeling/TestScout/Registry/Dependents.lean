import TestScout.Registry.Basic

/-! The files whose classes build on those of another file. -/

namespace TestScout.Registry

/-- The form of a full name in which names are compared. -/
def plainName (name : String) : String := (relativeName name).toLower

def refersToAny (names : List String) (info : ClassInfo) : Bool :=
  info.references.any fun reference => names.contains (plainName reference)

/-- The entries that go by none of the names but refer to one of them. -/
def referrers (names : List String) (classes : List ClassInfo) : List ClassInfo :=
  classes.filter fun info => !names.contains info.name.toLower && refersToAny names info

/-- The entries that neither go by one of the names nor refer to one. -/
def strangers (names : List String) (classes : List ClassInfo) : List ClassInfo :=
  classes.filter fun info => !names.contains info.name.toLower && !refersToAny names info

theorem length_strangers_lt {names : List String} {classes : List ClassInfo} (some : referrers names classes ≠ []) :
    (strangers names classes).length < classes.length := by
  obtain ⟨info, found⟩ := List.exists_mem_of_ne_nil _ some
  simp only [referrers, List.mem_filter, Bool.and_eq_true] at found
  exact List.length_filter_lt_length_iff_exists.mpr ⟨info, found.1, by simp [found.2.2]⟩

/-- The entries that refer to one of the names, those that refer to these, and so on. What
goes by one of the names itself is left out. -/
def referring (names : List String) (classes : List ClassInfo) : List ClassInfo :=
  if _ : referrers names classes = [] then []
  else
    referrers names classes ++
      referring (names ++ (referrers names classes).map (·.name.toLower)) (strangers names classes)
termination_by classes.length
decreasing_by exact length_strangers_lt ‹_›

/-- The files that depend on a file, in order and without it. -/
def dependentFiles (registry : Registry) (file : Path) : List Path :=
  let names := (registry.declaredIn file).map (·.name.toLower)
  (referring names registry.classes).foldl (fun files info =>
    if info.file.same file then files else info.file.insertInto files) []

end TestScout.Registry
