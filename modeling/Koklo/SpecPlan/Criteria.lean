import Koklo.Foundations.NumberText
import Koklo.Schema.Feature

/-!
# Numbering of acceptance criteria

The criteria of a feature are submitted without identifier and replaced as a
whole. A submitted criterion keeps the identifier of the first criterion that
has its title and that no earlier one has taken; otherwise it receives the
number after the highest of the existing criteria and of those given so far.

Every identifier of the result is kept with its title or counted on from the
highest existing number, one for each title submitted in excess
(`mem_numberCriteria`).
-/

set_option autoImplicit false

namespace Koklo.SpecPlan

open Foundations Schema

/-- A step as it is submitted. -/
structure SubmittedStep where
  type : StepType
  text : Text

/-- A criterion as it is submitted, without identifier. -/
structure SubmittedCriterion where
  title : Text
  steps : List SubmittedStep

/-- The title under which a submitted criterion is looked for. -/
def SubmittedCriterion.titre (submitted : SubmittedCriterion) : Text := Text.trim submitted.title

/-- The steps as they are stored. -/
def SubmittedCriterion.etapes (submitted : SubmittedCriterion) : List Step :=
  submitted.steps.map fun step => ⟨step.type, Text.trim step.text⟩

/-- The number of an identifier, read as a number of the language. -/
def numberOf (id : Text) : Number := Number.ofDecimal (id.drop 3)

/-- The identifier of a number. -/
def criterionId (n : Number) : Text := Text.lit "AC-" ++ n.toText

/-- The number after the highest one, as a double. -/
def nextNumber (highest : Number) : Number := highest.add (.finite 1)

/-- The highest number of the existing criteria, zero when there is none. -/
def highestNumber (existing : List Criterion) : Number :=
  existing.foldl (fun highest criterion => highest.max (numberOf criterion.id)) (.finite 0)

/-- Numbers the submitted criteria in turn, from the existing ones that are not
yet taken and the highest number so far. -/
def numberFrom : List Criterion → Number → List SubmittedCriterion → List Criterion
  | _, _, [] => []
  | unused, highest, submitted :: rest =>
    match unused.find? (·.titre == submitted.titre) with
    | some found =>
        ⟨found.id, submitted.titre, submitted.etapes⟩ ::
          numberFrom (unused.eraseP (·.titre == submitted.titre)) highest rest
    | none =>
        ⟨criterionId (nextNumber highest), submitted.titre, submitted.etapes⟩ ::
          numberFrom unused (nextNumber highest) rest

/-- The criteria as they are stored, each under its number. -/
def numberCriteria (existing : List Criterion) (submitted : List SubmittedCriterion) :
    List Criterion :=
  numberFrom existing (highestNumber existing) submitted

/-! ## What is numbered -/

/-- The titles submitted in excess of the existing ones. -/
def addedTitles (existing : List Criterion) (submitted : List SubmittedCriterion) : List Text :=
  (submitted.map SubmittedCriterion.titre).diff (existing.map Criterion.titre)

/-- The numbers counted on from a number. -/
def countingFrom : Number → ℕ → List Number
  | _, 0 => []
  | highest, n + 1 => nextNumber highest :: countingFrom (nextNumber highest) n

/-- A title that is taken is no longer in excess. -/
theorem addedTitles_found {unused : List Criterion} {submitted : SubmittedCriterion}
    {rest : List SubmittedCriterion} {found : Criterion}
    (taken : unused.find? (·.titre == submitted.titre) = some found) :
    addedTitles unused (submitted :: rest) =
      addedTitles (unused.eraseP (·.titre == submitted.titre)) rest := by
  have titled : found.titre = submitted.titre := by simpa using List.find?_some taken
  have member : submitted.titre ∈ unused.map Criterion.titre :=
    List.mem_map.mpr ⟨found, List.mem_of_find?_eq_some taken, titled⟩
  have erased : (unused.map Criterion.titre).erase submitted.titre =
      (unused.eraseP (·.titre == submitted.titre)).map Criterion.titre := by
    rw [List.erase_eq_eraseP', List.eraseP_map]
    rfl
  rw [addedTitles, List.map_cons, List.cons_diff_of_mem member, erased, ← addedTitles]

/-- A title that no criterion has is in excess. -/
theorem addedTitles_not_found {unused : List Criterion} {submitted : SubmittedCriterion}
    {rest : List SubmittedCriterion}
    (absent : unused.find? (·.titre == submitted.titre) = none) :
    addedTitles unused (submitted :: rest) = submitted.titre :: addedTitles unused rest := by
  have missing : submitted.titre ∉ unused.map Criterion.titre := by
    intro member
    obtain ⟨criterion, inside, titled⟩ := List.mem_map.mp member
    have differs := List.find?_eq_none.mp absent criterion inside
    simp [titled] at differs
  rw [addedTitles, List.map_cons, List.cons_diff_of_not_mem missing, ← addedTitles]

theorem mem_numberFrom {unused : List Criterion} {highest : Number}
    {submitted : List SubmittedCriterion} {criterion : Criterion}
    (member : criterion ∈ numberFrom unused highest submitted) :
    (∃ old ∈ unused, old.id = criterion.id ∧ old.titre = criterion.titre) ∨
      ∃ n ∈ countingFrom highest (addedTitles unused submitted).length,
        criterion.id = criterionId n := by
  induction submitted generalizing unused highest with
  | nil => cases member
  | cons first rest ih =>
    rw [numberFrom] at member
    split at member
    · rename_i found taken
      rw [addedTitles_found taken]
      rcases List.mem_cons.mp member with rfl | later
      · refine .inl ⟨found, List.mem_of_find?_eq_some taken, rfl, ?_⟩
        simpa using List.find?_some taken
      · rcases ih later with ⟨old, inside, same⟩ | counted
        · exact .inl ⟨old, List.mem_of_mem_eraseP inside, same⟩
        · exact .inr counted
    · rename_i absent
      rw [addedTitles_not_found absent, List.length_cons, countingFrom]
      rcases List.mem_cons.mp member with rfl | later
      · exact .inr ⟨_, List.mem_cons_self, rfl⟩
      · rcases ih later with kept | ⟨n, counted, same⟩
        · exact .inl kept
        · exact .inr ⟨n, List.mem_cons_of_mem _ counted, same⟩

/-- **A criterion is kept with its title, or its number is counted on** from
the highest of the existing ones. -/
theorem mem_numberCriteria {existing : List Criterion} {submitted : List SubmittedCriterion}
    {criterion : Criterion} (member : criterion ∈ numberCriteria existing submitted) :
    (∃ old ∈ existing, old.id = criterion.id ∧ old.titre = criterion.titre) ∨
      ∃ n ∈ countingFrom (highestNumber existing) (addedTitles existing submitted).length,
        criterion.id = criterionId n :=
  mem_numberFrom member

end Koklo.SpecPlan
