import Mathlib.Logic.Relation
import SchemaUnfolding.Files.Disk

/-!
# Steps along a path

A path is followed by moves: one for each step that stays, goes up, goes down into a directory or
is replaced by the steps of a link. What is led to does not change along the moves, so it is found
where no move is left. Moves need nothing of a disk but its directories and its links.
-/

namespace SchemaUnfolding

/-- A name that is looked for in a directory. -/
structure Path.IsEntry (name : String) : Prop where
  moves : ¬ (name = "." ∨ name = "")
  below : name ≠ ".."
  short : ¬ Disk.nameLimit < name.utf8ByteSize

instance (name : String) : Decidable (Path.IsEntry name) :=
  decidable_of_iff (¬ (name = "." ∨ name = "") ∧ name ≠ ".." ∧
      ¬ Disk.nameLimit < name.utf8ByteSize)
    ⟨fun ⟨moves, below, short⟩ => ⟨moves, below, short⟩,
      fun ⟨moves, below, short⟩ => ⟨moves, below, short⟩⟩

namespace Disk

/-- How far a path was followed: the links that may still be followed, the place that was come to,
and the steps that are left. -/
structure Course where
  links : Nat
  place : Place
  steps : List String

/-- Take more steps at the end. -/
def Course.append (course : Course) (tail : List String) : Course :=
  { course with steps := course.steps ++ tail }

variable {disk other : Disk} {reach reach' : Reach} {links left : Nat} {place target : Place}
  {name text : String} {steps rest tail : List String} {course next last : Course}
  {destiny : Destiny}

/-- One step of a path is taken that does not end the path. -/
inductive Moves (disk : Disk) (reach : Reach) : Course → Course → Prop
  | still (links : Nat) (place : Place) (rest : List String) {name : String}
      (stays : name = "." ∨ name = "") :
      Moves disk reach ⟨links, place, name :: rest⟩ ⟨links, place, rest⟩
  | above (links : Nat) (place : Place) (rest : List String) :
      Moves disk reach ⟨links, place, ".." :: rest⟩ ⟨links, place.dropLast, rest⟩
  | below (links : Nat) {place : Place} {rest : List String} {name : String}
      (named : Path.IsEntry name) (ends : ¬ (reach = .toWrite ∧ rest = [""]))
      (stands : disk.get? (place ++ [name]) = some .directory) :
      Moves disk reach ⟨links, place, name :: rest⟩ ⟨links, place ++ [name], rest⟩
  | through (links : Nat) {place : Place} {rest : List String} {name text : String}
      (named : Path.IsEntry name) (ends : ¬ (reach = .toWrite ∧ rest = [""]))
      (passes : ¬ (rest.isEmpty ∧ reach = .toLink))
      (stands : disk.get? (place ++ [name]) = some (.link text)) :
      Moves disk reach ⟨links + 1, place, name :: rest⟩
        ⟨links, start text place, Path.steps text ++ rest⟩

/-- Steps are taken that do not end the path. -/
abbrev Leads (disk : Disk) (reach : Reach) : Course → Course → Prop :=
  Relation.ReflTransGen (disk.Moves reach)

/-- The last step is taken, or none is left. -/
inductive Arrives (disk : Disk) (reach : Reach) : Place → List String → Destiny → Prop
  | directory {place : Place} : Arrives disk reach place [] (.entry place .directory)
  | vacancy {place : Place} {name : String} (named : Path.IsEntry name)
      (stands : disk.get? (place ++ [name]) = none) :
      Arrives disk reach place [name] (.vacancy (place ++ [name]))
  | entry {place : Place} {name : String} {entry : Entry} (named : Path.IsEntry name)
      (other : entry ≠ .directory) (stands : disk.get? (place ++ [name]) = some entry) :
      Arrives disk reach place [name] (.entry (place ++ [name]) entry)

/-! ## Following -/

/-- A name leads to what stands there in the directory. -/
theorem follow_name (named : Path.IsEntry name) (ends : ¬ (reach = .toWrite ∧ rest = [""])) :
    disk.follow reach links place (name :: rest) =
      match disk.get? (place ++ [name]) with
      | none => if rest.isEmpty then .ok (.vacancy (place ++ [name])) else .error .notFound
      | some .directory => disk.follow reach links (place ++ [name]) rest
      | some (.link target) =>
        if rest.isEmpty ∧ reach = .toLink then .ok (.entry (place ++ [name]) (.link target))
        else
          match links with
          | 0 => .error .tooManyLinks
          | links + 1 =>
            disk.follow reach links (start target place) (Path.steps target ++ rest)
      | some entry =>
        if rest.isEmpty then .ok (.entry (place ++ [name]) entry) else .error .notDirectory := by
  rewrite [follow, if_neg named.moves, if_neg named.below, if_neg ends, if_neg named.short]
  rcases disk.get? (place ++ [name]) with _ | _ | _ | _ | _ <;> rfl

/-- What a path leads to does not change with a move. -/
theorem Moves.follow_eq (moves : disk.Moves reach course next) :
    disk.follow reach course.links course.place course.steps =
      disk.follow reach next.links next.place next.steps := by
  cases moves with
  | still links place rest stays => rw [follow, if_pos stays]
  | above links place rest => rw [follow, if_neg (by decide), if_pos rfl]
  | below links named ends stands => rw [follow_name named ends, stands]
  | through links named ends passes stands =>
    rw [follow_name named ends, stands]
    exact if_neg passes

theorem Leads.follow_eq (leads : disk.Leads reach course next) :
    disk.follow reach course.links course.place course.steps =
      disk.follow reach next.links next.place next.steps := by
  induction leads with
  | refl => rfl
  | tail _ moves ih => exact ih.trans moves.follow_eq

/-- What a path leads to is found by moves and the last step. -/
theorem arrives_of_follow (followed : disk.follow reach links place steps = .ok destiny) :
    ∃ left at' rest, disk.Leads reach ⟨links, place, steps⟩ ⟨left, at', rest⟩ ∧
      disk.Arrives reach at' rest destiny := by
  have onward : ∀ {course next : Course}, disk.Moves reach course next →
      (∃ left at' rest, disk.Leads reach next ⟨left, at', rest⟩ ∧
        disk.Arrives reach at' rest destiny) →
      ∃ left at' rest, disk.Leads reach course ⟨left, at', rest⟩ ∧
        disk.Arrives reach at' rest destiny := by
    rintro course next moves ⟨left, at', rest, leads, arrives⟩
    exact ⟨left, at', rest, .head moves leads, arrives⟩
  induction links, place, steps using follow.induct disk reach with
  | case1 links place =>
    rw [follow] at followed
    cases followed
    exact ⟨links, place, [], .refl, .directory⟩
  | case2 links place name rest stays ih =>
    have moves : disk.Moves reach ⟨links, place, name :: rest⟩ _ := .still links place rest stays
    exact onward moves (ih (moves.follow_eq.symm.trans followed))
  | case3 links place rest _ ih =>
    have moves : disk.Moves reach ⟨links, place, ".." :: rest⟩ _ := .above links place rest
    exact onward moves (ih (moves.follow_eq.symm.trans followed))
  | case4 links place name rest moves below ends =>
    rw [follow, if_neg moves, if_neg below, if_pos ends] at followed
    cases followed
  | case5 links place name rest moves below ends long =>
    rw [follow, if_neg moves, if_neg below, if_neg ends, if_pos long] at followed
    cases followed
  | case6 links place name rest moves below ends short stands last =>
    have named : Path.IsEntry name := ⟨moves, below, short⟩
    rw [follow_name named ends, stands] at followed
    cases List.isEmpty_iff.mp last
    cases followed
    exact ⟨links, place, [name], .refl, .vacancy named stands⟩
  | case7 links place name rest moves below ends short stands last =>
    rw [follow_name ⟨moves, below, short⟩ ends, stands] at followed
    simp [last] at followed
  | case8 links place name rest moves below ends short stands ih =>
    have moves : disk.Moves reach ⟨links, place, name :: rest⟩ _ :=
      .below links ⟨moves, below, short⟩ ends stands
    exact onward moves (ih (moves.follow_eq.symm.trans followed))
  | case9 links place name rest moves below ends short target stands last =>
    have named : Path.IsEntry name := ⟨moves, below, short⟩
    rw [follow_name named ends, stands] at followed
    cases List.isEmpty_iff.mp last.1
    cases (if_pos last).symm.trans followed
    exact ⟨links, place, [name], .refl, .entry named Entry.noConfusion stands⟩
  | case10 place name rest moves below ends short target stands passes =>
    rw [follow_name ⟨moves, below, short⟩ ends, stands] at followed
    cases (if_neg passes).symm.trans followed
  | case11 place name rest moves below ends short target stands passes links ih =>
    have moves : disk.Moves reach ⟨links + 1, place, name :: rest⟩ _ :=
      .through links ⟨moves, below, short⟩ ends passes stands
    exact onward moves (ih (moves.follow_eq.symm.trans followed))
  | case12 links place name rest moves below ends short entry noDirectory noLink stands last =>
    have named : Path.IsEntry name := ⟨moves, below, short⟩
    rw [follow_name named ends, stands] at followed
    cases List.isEmpty_iff.mp last
    refine ⟨links, place, [name], .refl, ?_⟩
    cases entry with
    | directory => exact (noDirectory rfl).elim
    | link target => exact (noLink target rfl).elim
    | file content =>
      cases followed
      exact .entry named Entry.noConfusion stands
    | device device =>
      cases followed
      exact .entry named Entry.noConfusion stands
  | case13 links place name rest moves below ends short entry noDirectory noLink stands last =>
    rw [follow_name ⟨moves, below, short⟩ ends, stands] at followed
    cases entry with
    | directory => exact (noDirectory rfl).elim
    | link target => exact (noLink target rfl).elim
    | file content => simp [last] at followed
    | device device => simp [last] at followed

/-- What a path leads to stands there, and nothing stands at a vacancy. -/
theorem stands_of_follow (followed : disk.follow reach links place steps = .ok destiny) :
    match destiny with
    | .vacancy place => place ≠ [] ∧ disk.get? place = none
    | .entry place entry => entry = .directory ∨ place ≠ [] ∧ disk.get? place = some entry := by
  rcases arrives_of_follow followed with ⟨_, _, _, _, arrives⟩
  cases arrives with
  | directory => exact .inl rfl
  | vacancy _ stands => exact ⟨by simp, stands⟩
  | entry _ _ stands => exact .inr ⟨by simp, stands⟩

/-- A name that was followed with success can be looked for. -/
theorem isEntry_of_follow (followed : disk.follow reach links place (name :: rest) = .ok destiny)
    (moves : ¬ (name = "." ∨ name = "")) (below : name ≠ "..") : Path.IsEntry name := by
  rw [follow, if_neg moves, if_neg below] at followed
  split at followed
  · cases followed
  · split at followed
    · cases followed
    · exact ⟨moves, below, ‹_›⟩

/-! ## Longer paths -/

/-- Some steps can follow others that led to a directory, whatever the way is followed for. -/
def Onward (reach : Reach) (tail : List String) : Prop :=
  reach = .throughLink ∨ tail ≠ [] ∧ tail ≠ [""]

theorem Onward.ends (onward : Onward reach tail) (rest : List String) :
    ¬ (reach = .toWrite ∧ rest ++ tail = [""]) ∧ ¬ ((rest ++ tail).isEmpty ∧ reach = .toLink) := by
  rcases onward with rfl | ⟨filled, more⟩
  · simp
  · cases rest with
    | nil => simp [filled, more]
    | cons name rest => simp [filled]

/-- A move can be made with more steps ahead, and on a disk with the same directories and links. -/
theorem Moves.append (moves : disk.Moves reach course next) (onward : Onward reach' tail)
    (directories : ∀ {place}, disk.get? place = some .directory →
      other.get? place = some .directory)
    (linked : ∀ {place text}, disk.get? place = some (.link text) →
      other.get? place = some (.link text)) :
    other.Moves reach' (course.append tail) (next.append tail) := by
  cases moves with
  | still links place rest stays => exact .still links place (rest ++ tail) stays
  | above links place rest => exact .above links place (rest ++ tail)
  | @below links place rest name named _ stands =>
    exact .below links named (onward.ends rest).1 (directories stands)
  | @through links place rest name text named _ _ stands =>
    have moves : other.Moves reach' _ _ :=
      .through links named (onward.ends rest).1 (onward.ends rest).2 (linked stands)
    simpa only [Course.append, List.cons_append, ← List.append_assoc] using moves

/-- What leads to a directory also leads there when more steps follow, and on a disk with the same
directories and links. -/
theorem Leads.append (leads : disk.Leads reach course next) (tail : List String)
    (onward : Onward reach' tail)
    (directories : ∀ {place}, disk.get? place = some .directory →
      other.get? place = some .directory)
    (linked : ∀ {place text}, disk.get? place = some (.link text) →
      other.get? place = some (.link text)) :
    other.Leads reach' (course.append tail) (next.append tail) :=
  leads.lift (·.append tail) fun _ _ moves => moves.append onward directories linked

/-- What leads somewhere leads there on a disk with the same directories and links, and through a
link at the end. -/
theorem Leads.mono (leads : disk.Leads reach course next)
    (directories : ∀ {place}, disk.get? place = some .directory →
      other.get? place = some .directory)
    (linked : ∀ {place text}, disk.get? place = some (.link text) →
      other.get? place = some (.link text)) : other.Leads .throughLink course next := by
  have longer : other.Leads .throughLink (course.append []) (next.append []) :=
    Leads.append leads [] (.inl rfl) directories linked
  simpa only [Course.append, List.append_nil] using longer

/-- A path to a directory leads to something also when a link at its end is not followed. -/
theorem Leads.follow_toLink (leads : disk.Leads .throughLink course ⟨left, target, []⟩) :
    ∃ place entry,
      disk.follow .toLink course.links course.place course.steps = .ok (.entry place entry) := by
  induction leads using Relation.ReflTransGen.head_induction_on with
  | refl => exact ⟨target, .directory, by rw [follow]⟩
  | head moves _ ih =>
    rcases ih with ⟨place, entry, followed⟩
    cases moves with
    | still links at' rest stays =>
      exact ⟨place, entry, (Moves.still links at' rest stays).follow_eq.trans followed⟩
    | above links at' rest =>
      exact ⟨place, entry, (Moves.above links at' rest).follow_eq.trans followed⟩
    | below links named _ stands =>
      exact ⟨place, entry, (Moves.below links named (by simp) stands).follow_eq.trans followed⟩
    | @through links at' rest name text named _ _ stands =>
      by_cases last : rest.isEmpty
      · refine ⟨at' ++ [name], .link text, ?_⟩
        rw [follow_name named (by simp), stands]
        exact if_pos ⟨last, rfl⟩
      · exact ⟨place, entry,
          (Moves.through links named (by simp) (by simp [last]) stands).follow_eq.trans followed⟩

/-- A move of a path with more steps behind is a move of the path, if it has a step. -/
theorem Moves.of_append {step : String}
    (moves : disk.Moves reach ⟨links, place, step :: (rest ++ tail)⟩ next) :
    ∃ first, disk.Moves .throughLink ⟨links, place, step :: rest⟩ first ∧
      next = first.append tail := by
  cases moves with
  | still links place _ stays => exact ⟨_, .still links place rest stays, rfl⟩
  | above links place _ => exact ⟨_, .above links place rest, rfl⟩
  | below links named _ stands => exact ⟨_, .below links named (by simp) stands, rfl⟩
  | through links named _ _ stands =>
    exact ⟨_, .through links named (by simp) (by simp) stands,
      by simp only [Course.append, List.append_assoc]⟩

/-- What leads to a directory with some more steps has led to one before. -/
theorem Leads.of_append
    (leads : disk.Leads reach ⟨links, place, steps ++ tail⟩ ⟨left, target, []⟩) :
    ∃ middle at', disk.Leads .throughLink ⟨links, place, steps⟩ ⟨middle, at', []⟩ ∧
      disk.Leads reach ⟨middle, at', tail⟩ ⟨left, target, []⟩ := by
  generalize begun : (⟨links, place, steps ++ tail⟩ : Course) = course at leads
  induction leads using Relation.ReflTransGen.head_induction_on generalizing links place steps with
  | refl =>
    rcases Course.mk.inj begun with ⟨rfl, rfl, nothing⟩
    rcases List.append_eq_nil_iff.mp nothing with ⟨rfl, rfl⟩
    exact ⟨links, place, .refl, .refl⟩
  | @head course next moves leads ih =>
    subst begun
    cases steps with
    | nil => exact ⟨links, place, .refl, .head moves leads⟩
    | cons step rest =>
      rcases moves.of_append with ⟨⟨links', place', steps'⟩, first, rfl⟩
      rcases ih rfl with ⟨middle, at', early, late⟩
      exact ⟨middle, at', .head first early, late⟩

end Disk

end SchemaUnfolding
