import Koklo.Schema.References

/-!
# Validation is sound and complete

What rule 5 asks of a feature is stated on its own: steps that are complete and in order, a screen or
an endpoint for what is specified, a test for each criterion of what is implemented (`MeetsStatus`).
The report on a specification that was read from files has no error of the rules 4 and 5 exactly when
all that is cited exists and every feature meets its status (`validateSpec_errors_iff`). The
non-functional requirements that a feature cites are not among the links of rule 4
(`nfr_is_not_checked`).
-/

set_option autoImplicit false

namespace Koklo.Schema

open Koklo.Foundations

/-! ## Steps -/

/-- The parts of steps that have one of their own. -/
def ownRoles (steps : List Step) : List StepRole := steps.filterMap fun step => step.type.role?

/-- Steps that begin with a part of their own, in the order given, when, then, each at least once. -/
structure Complete (steps : List Step) : Prop where
  first : ∀ step ∈ steps.head?, step.type ≠ .et
  ordered : (ownRoles steps).Pairwise fun r r' => r.order ≤ r'.order
  whole : ∀ role, role ∈ ownRoles steps

theorem ownRoles_cons_et {step : Step} (rest : List Step) (et : step.type = .et) :
    ownRoles (step :: rest) = ownRoles rest := by
  rw [ownRoles, List.filterMap_cons_none]
  · rfl
  · rw [et]
    rfl

theorem ownRoles_cons {step : Step} {role : StepRole} (rest : List Step)
    (own : step.type.role? = some role) : ownRoles (step :: rest) = role :: ownRoles rest :=
  List.filterMap_cons_some own

theorem role?_eq_none {type : StepType} : type.role? = none ↔ type = .et := by
  cases type <;> simp [StepType.role?]

theorem missing_eq_nil {seen : List StepRole} :
    (StepRole.all.filter fun r => r ∉ seen) = [] ↔ ∀ role, role ∈ seen := by
  rw [List.filter_eq_nil_iff]
  constructor
  · intro none role
    have listed : role ∈ StepRole.all := by cases role <;> decide
    simpa using none role listed
  · intro all role _
    simpa using all role

/-- **No fault is found** after some steps exactly when the steps that are left go on in order and
bring what is missing. -/
theorem faultFrom_eq_none {base : Text} {steps : List Step} {seen : List StepRole}
    {role : Option StepRole} {j : ℕ} (known : ∀ r ∈ role, r ∈ seen) :
    faultFrom base seen role j steps = none ↔
      (role = none → ∀ step ∈ steps.head?, step.type ≠ .et) ∧
      (role.toList ++ ownRoles steps).Pairwise (fun r r' => r.order ≤ r'.order) ∧
      ∀ r, r ∈ seen ∨ r ∈ ownRoles steps := by
  induction steps generalizing seen role j with
  | nil =>
    rw [faultFrom]
    have alone : (role.toList ++ ownRoles []).Pairwise fun r r' => r.order ≤ r'.order := by
      cases role with
      | none => exact List.Pairwise.nil
      | some r => exact List.pairwise_singleton _ _
    rw [ite_eq_left_iff, imp_iff_not (Option.some_ne_none _), not_not, missing_eq_nil]
    constructor
    · exact fun all => ⟨fun _ _ member => absurd member nofun, alone, fun r => .inl (all r)⟩
    · rintro ⟨-, -, all⟩ r
      exact (all r).resolve_right List.not_mem_nil
  | cons step rest ih =>
    rw [faultFrom]
    by_cases et : step.type = .et
    · rw [if_pos et, ownRoles_cons_et rest et]
      cases role with
      | none =>
        refine iff_of_false (Option.some_ne_none _) ?_
        rintro ⟨first, -⟩
        exact first rfl step rfl et
      | some r =>
        have again : r ∈ seen := known r rfl
        have same : (some r).filter (fun r' => decide (r.order < r'.order)) = none := by
          simp
        dsimp only
        rw [same]
        dsimp only
        rw [ih fun r' member => by cases member; exact List.mem_cons_self]
        refine and_congr (iff_of_true nofun nofun) (and_congr Iff.rfl (forall_congr' fun r' => ?_))
        rw [List.mem_cons]
        constructor
        · rintro ((rfl | old) | new)
          · exact .inl again
          · exact .inl old
          · exact .inr new
        · exact Or.imp .inr id
    · rw [if_neg et]
      cases own : step.type.role? with
      | none => exact absurd (role?_eq_none.mp own) et
      | some effective =>
        rw [ownRoles_cons rest own]
        dsimp only
        have begins : (role = none → ∀ s ∈ (step :: rest).head?, s.type ≠ .et) :=
          fun _ s member => by cases member; exact et
        have brings : (∀ r, r ∈ effective :: seen ∨ r ∈ ownRoles rest) ↔
            ∀ r, r ∈ seen ∨ r ∈ effective :: ownRoles rest := by
          refine forall_congr' fun r => ?_
          rw [List.mem_cons, List.mem_cons]
          tauto
        have after : faultFrom base (effective :: seen) (some effective) (j + 1) rest = none ↔ _ :=
          ih fun r member => by cases member; exact List.mem_cons_self
        have goes : (some effective = none → ∀ s ∈ rest.head?, s.type ≠ .et) ↔
            (role = none → ∀ s ∈ (step :: rest).head?, s.type ≠ .et) := iff_of_true nofun begins
        cases role with
        | none =>
          dsimp only [Option.filter_none]
          rw [after, goes, brings]
          rfl
        | some r =>
          by_cases less : effective.order < r.order
          · rw [Option.filter_some, decide_eq_true less, if_pos rfl]
            refine iff_of_false (Option.some_ne_none _) ?_
            rintro ⟨-, ordered, -⟩
            have above := (List.pairwise_cons.mp ordered).1 effective List.mem_cons_self
            exact absurd less (not_lt.mpr above)
          · have chain : (r :: effective :: ownRoles rest).Pairwise (fun r r' => r.order ≤ r'.order) ↔
                (effective :: ownRoles rest).Pairwise fun r r' => r.order ≤ r'.order := by
              refine ⟨fun ordered => (List.pairwise_cons.mp ordered).2, fun ordered => ?_⟩
              refine List.pairwise_cons.mpr ⟨fun r' member => ?_, ordered⟩
              rcases List.mem_cons.mp member with rfl | later
              · exact not_lt.mp less
              · exact (not_lt.mp less).trans ((List.pairwise_cons.mp ordered).1 r' later)
            rw [Option.filter_some, decide_eq_false less, if_neg Bool.false_ne_true]
            dsimp only
            rw [after, goes, brings]
            exact and_congr Iff.rfl (and_congr chain.symm Iff.rfl)

theorem firstFault_eq_none {c : Criterion} {base : Text} :
    firstFault c base = none ↔ Complete c.etapes := by
  have unseen : ∀ r ∈ (none : Option StepRole), r ∈ ([] : List StepRole) := nofun
  rw [firstFault, faultFrom_eq_none unseen]
  constructor
  · rintro ⟨first, ordered, whole⟩
    exact ⟨first rfl, ordered, fun r => (whole r).resolve_left List.not_mem_nil⟩
  · rintro ⟨first, ordered, whole⟩
    exact ⟨fun _ => first, ordered, fun r => .inr (whole r)⟩

/-! ## Statuses -/

/-- What the status of a feature asks for. -/
structure MeetsStatus (spec : ParsedSpec) (f : Feature) : Prop where
  complete : f.statut ≠ .brouillon → ∀ c ∈ f.criteres, Complete c.etapes
  covered : f.statut = .specifiee → (∃ id ∈ f.ecrans, Designates spec (.screen id)) ∨
    (∃ id ∈ f.endpoints, Designates spec (.endpoint id)) ∨ ∃ s ∈ spec.screens, f.id ∈ s.value.features
  tested : f.statut = .implementee → f.criteres ≠ [] ∧ ∀ c ∈ f.criteres,
    ∃ t ∈ spec.tests, t.value.feature = f.id ∧ c.id ∈ t.value.criteres

theorem checkCriteriaSteps_eq_nil {path : Text} {f : Feature} : checkCriteriaSteps path f = [] ↔
    (f.statut ≠ .brouillon → ∀ c ∈ f.criteres, Complete c.etapes) := by
  rw [checkCriteriaSteps]
  by_cases draft : f.statut = .brouillon
  · rw [if_pos draft]
    exact iff_of_true rfl fun other => absurd draft other
  · rw [if_neg draft, forall_prop_of_true draft]
    apply forEach_eq_nil
    intro c i
    rw [← firstFault_eq_none]
    split
    · rename_i none
      exact iff_of_true rfl none
    · rename_i fault found
      exact iff_of_false (List.cons_ne_nil _ _) (found ▸ Option.some_ne_none _)

theorem mem_testedCriteria {spec : ParsedSpec} {id c : Text} :
    c ∈ ((testedCriteria spec).get id).getD [] ↔
      ∃ t ∈ spec.tests, t.value.feature = id ∧ c ∈ t.value.criteres := by
  rw [testedCriteria]
  induction spec.tests using List.reverseRecOn with
  | nil => simp
  | append_singleton tests t ih =>
    rw [List.foldl_append, List.foldl_cons, List.foldl_nil, OrderedMap.get_set]
    by_cases mine : t.value.feature = id
    · subst mine
      rw [if_pos rfl, Option.getD_some, List.mem_append, ih]
      constructor
      · rintro (⟨t', member, same⟩ | own)
        · exact ⟨t', List.mem_append_left _ member, same⟩
        · exact ⟨t, List.mem_append_right _ (List.mem_singleton_self _), rfl, own⟩
      · rintro ⟨t', member, same, own⟩
        rcases List.mem_append.mp member with old | new
        · exact .inl ⟨t', old, same, own⟩
        · rw [List.mem_singleton.mp new] at own
          exact .inr own
    · rw [if_neg mine, ih]
      constructor
      · rintro ⟨t', member, same⟩
        exact ⟨t', List.mem_append_left _ member, same⟩
      · rintro ⟨t', member, same, own⟩
        rcases List.mem_append.mp member with old | new
        · exact ⟨t', old, same, own⟩
        · rw [List.mem_singleton.mp new] at same
          exact absurd same mine

theorem checkImplemented_eq_nil {spec : ParsedSpec} {path : Text} {f : Feature} :
    checkImplemented path f (testedCriteria spec) = [] ↔ f.criteres ≠ [] ∧ ∀ c ∈ f.criteres,
      ∃ t ∈ spec.tests, t.value.feature = f.id ∧ c.id ∈ t.value.criteres := by
  rw [checkImplemented, List.append_eq_nil_iff]
  refine and_congr ?_ (forEach_eq_nil fun c i => ?_)
  · rw [ite_eq_right_iff, imp_iff_not (List.cons_ne_nil _ _)]
  · rw [ite_eq_left_iff, imp_iff_not (List.cons_ne_nil _ _), not_not, mem_testedCriteria]

section

variable {spec : ParsedSpec} (sound : spec.Sound)

include sound

/-- A feature that is covered: the one that its identifier finds is itself. -/
theorem specifiedIsCovered_iff {f : Parsed Feature} (holds : f ∈ spec.features) :
    specifiedIsCovered spec (buildIndex spec) f.value.id = true ↔
      (∃ id ∈ f.value.ecrans, Designates spec (.screen id)) ∨
      (∃ id ∈ f.value.endpoints, Designates spec (.endpoint id)) ∨
      ∃ s ∈ spec.screens, f.value.id ∈ s.value.features := by
  rw [specifiedIsCovered]
  cases found : spec.features.find? fun f' => f'.value.id = f.value.id with
  | none => exact absurd rfl (of_decide_eq_false
      (Bool.eq_false_iff.mpr (List.find?_eq_none.mp found f holds)))
  | some f' =>
    have same : f' = f := by
      refine List.inj_on_of_nodup_map sound.features (List.mem_of_find?_eq_some found) holds ?_
      have named := List.find?_some found
      exact of_decide_eq_true named
    subst same
    simp only [Bool.or_eq_true, List.any_eq_true, decide_eq_true_eq, mem_screens, mem_endpoints,
      or_assoc]

theorem checkRule5_eq_nil : checkRule5 spec (buildIndex spec) = [] ↔
    ∀ f ∈ spec.features, MeetsStatus spec f.value := by
  rw [checkRule5, List.flatMap_eq_nil_iff]
  refine forall₂_congr fun f holds => ?_
  rw [List.append_eq_nil_iff, checkCriteriaSteps_eq_nil]
  have status : checkStatus spec (buildIndex spec) (testedCriteria spec) f.path f.value = [] ↔
      (f.value.statut = .specifiee →
        specifiedIsCovered spec (buildIndex spec) f.value.id = true) ∧
      (f.value.statut = .implementee → checkImplemented f.path f.value (testedCriteria spec) = []) := by
    rw [checkStatus]
    cases known : f.value.statut with
    | implementee => simp
    | specifiee => simp
    | brouillon => simp
    | adoptee => simp
  rw [status, specifiedIsCovered_iff sound holds, checkImplemented_eq_nil]
  exact ⟨fun ⟨complete, covered, tested⟩ => ⟨complete, covered, tested⟩,
    fun ⟨complete, covered, tested⟩ => ⟨complete, covered, tested⟩⟩

end

/-! ## The report -/

/-- No error of the rules 4 and 5. -/
def NoReferenceError (report : ValidationReport) : Prop :=
  ∀ issue ∈ report.issues, issue.severity = .error → issue.rule ≠ .rule4 ∧ issue.rule ≠ .rule5

theorem mem_forEach {α β : Type} {items : List α} {visit : α → ℕ → List β} {b : β}
    (member : b ∈ forEach items visit) : ∃ a ∈ items, ∃ i, b ∈ visit a i := by
  obtain ⟨item, among, inside⟩ := List.mem_flatMap.mp member
  exact ⟨item.1, List.fst_mem_of_mem_zipIdx among, item.2, inside⟩

/-- An issue of one of the rules that refuse. -/
def Refuses (issue : SpecIssue) : Prop :=
  issue.severity = .error ∧ (issue.rule = .rule4 ∨ issue.rule = .rule5)

theorem refuses_of_checkRule4 {spec : ParsedSpec} {index : SpecIndex} {issue : SpecIssue}
    (member : issue ∈ checkRule4 index spec) : Refuses issue := by
  obtain ⟨link, _, rfl⟩ := List.mem_map.mp member
  exact ⟨rfl, .inl rfl⟩

theorem refuses_of_checkCriteriaSteps {path : Text} {f : Feature} {issue : SpecIssue}
    (member : issue ∈ checkCriteriaSteps path f) : Refuses issue := by
  rw [checkCriteriaSteps] at member
  split at member
  · cases member
  · obtain ⟨c, _, i, inside⟩ := mem_forEach member
    split at inside
    · cases inside
    · rw [List.mem_singleton.mp inside]
      exact ⟨rfl, .inr rfl⟩

theorem refuses_of_checkStatus {spec : ParsedSpec} {index : SpecIndex}
    {tested : OrderedMap Text (List Text)} {path : Text} {f : Feature} {issue : SpecIssue}
    (member : issue ∈ checkStatus spec index tested path f) : Refuses issue := by
  rw [checkStatus] at member
  split at member
  · rw [checkImplemented] at member
    rcases List.mem_append.mp member with none | untested
    · split at none
      · rw [List.mem_singleton.mp none]
        exact ⟨rfl, .inr rfl⟩
      · cases none
    · obtain ⟨c, _, i, inside⟩ := mem_forEach untested
      split at inside
      · cases inside
      · rw [List.mem_singleton.mp inside]
        exact ⟨rfl, .inr rfl⟩
  · split at member
    · cases member
    · rw [List.mem_singleton.mp member]
      exact ⟨rfl, .inr rfl⟩

theorem refuses_of_checkRule5 {spec : ParsedSpec} {index : SpecIndex} {issue : SpecIssue}
    (member : issue ∈ checkRule5 spec index) : Refuses issue := by
  obtain ⟨f, _, inside⟩ := List.mem_flatMap.mp member
  rcases List.mem_append.mp inside with steps | status
  · exact refuses_of_checkCriteriaSteps steps
  · exact refuses_of_checkStatus status

/-- Rule 7 only warns. -/
theorem severity_of_checkRule7 {spec : ParsedSpec} {index : SpecIndex} {issue : SpecIssue}
    (member : issue ∈ checkRule7 spec index) : issue.severity = .warning := by
  simp only [checkRule7, checkDomainOrphans, List.mem_append, List.mem_map] at member
  rcases member with (((⟨_, _, rfl⟩ | ⟨_, _, rfl⟩) | ⟨_, _, rfl⟩) | ⟨_, _, rfl⟩) |
    ((roles | permissions) | ⟨_, _, rfl⟩)
  · rfl
  · rfl
  · rfl
  · rfl
  · obtain ⟨file, _, inside⟩ := List.mem_flatMap.mp roles
    obtain ⟨role, _, i, inside⟩ := mem_forEach inside
    split at inside
    · cases inside
    · rw [List.mem_singleton.mp inside]
      rfl
  · obtain ⟨file, _, inside⟩ := List.mem_flatMap.mp permissions
    obtain ⟨permission, _, i, inside⟩ := mem_forEach inside
    split at inside
    · cases inside
    · rw [List.mem_singleton.mp inside]
      rfl
  · rfl

/-- The report has no error of the rules 4 and 5 when these rules find nothing. -/
theorem noReferenceError_iff {spec : ParsedSpec} : NoReferenceError (validateSpec spec) ↔
    danglingLinks (buildIndex spec) spec = [] ∧ checkRule5 spec (buildIndex spec) = [] := by
  have reported : ∀ issue, issue ∈ (validateSpec spec).issues ↔
      (issue ∈ checkRule4 (buildIndex spec) spec ∨ issue ∈ checkRule5 spec (buildIndex spec)) ∨
        issue ∈ checkRule7 spec (buildIndex spec) := by
    intro issue
    rw [← List.mem_append, ← List.mem_append]
    exact mem_sortIssues
  have none : ∀ {issues : List SpecIssue}, (∀ issue ∈ issues, Refuses issue) →
      (∀ issue ∈ issues, issue ∈ (validateSpec spec).issues) →
        NoReferenceError (validateSpec spec) → issues = [] := by
    intro issues refuse inside fine
    refine List.eq_nil_iff_forall_not_mem.mpr fun issue member => ?_
    obtain ⟨severe, rule⟩ := refuse issue member
    obtain ⟨four, five⟩ := fine issue (inside issue member) severe
    exact rule.elim four five
  constructor
  · intro fine
    constructor
    · refine List.map_eq_nil_iff.mp (none (fun _ => refuses_of_checkRule4) ?_ fine)
      exact fun issue member => (reported issue).mpr (.inl (.inl member))
    · refine none (fun _ => refuses_of_checkRule5) ?_ fine
      exact fun issue member => (reported issue).mpr (.inl (.inr member))
  · rintro ⟨links, statuses⟩ issue member severe
    rcases (reported issue).mp member with (four | five) | seven
    · rw [checkRule4, links] at four
      cases four
    · rw [statuses] at five
      cases five
    · rw [severity_of_checkRule7 seven] at severe
      cases severe

/-- **The validation of a specification that was read is sound and complete**: it reports no error of
the rules 4 and 5 exactly when all that is cited exists, the non-functional requirements left out,
and every feature meets its status. -/
theorem validateSpec_errors_iff (readers : Readers) (files : List SpecFile) :
    let spec := (parseSpecFiles readers files).1
    NoReferenceError (validateSpec spec) ↔
      (∀ target, (∀ id, target ≠ .nfr id) → Cites spec target → Designates spec target) ∧
        ∀ f ∈ spec.features, MeetsStatus spec f.value := by
  have sound : (parseSpecFiles readers files).1.Sound := sound_parseOrdered readers (orderedFiles files)
  exact noReferenceError_iff.trans
    (and_congr (danglingLinks_eq_nil sound) (checkRule5_eq_nil sound))

/-- A draft that cites a non-functional requirement. -/
def draftFile : SpecFile :=
  let feature : Feature :=
    { loginFeature [] with
      statut := .brouillon
      tables := []
      ecrans := []
      nfr := [Text.lit "NFR-latence"]
      criteres := [] }
  { path := Text.lit "features/F-001.md"
    content := Text.joinLines
      (emittedPieces PlainYaml.package feature (Text.trim feature.description)) ++ [Text.newline] }

/-- **A non-functional requirement is cited, and is not checked.** -/
theorem nfr_is_not_checked : ¬ ∀ (readers : Readers) (files : List SpecFile),
    let spec := (parseSpecFiles readers files).1
    NoReferenceError (validateSpec spec) ↔
      (∀ target, Cites spec target → Designates spec target) ∧
        ∀ f ∈ spec.features, MeetsStatus spec f.value := by
  intro always
  have facts : ((validateSpec (parseSpecFiles ⟨fun _ => [], PlainYaml.package, id⟩
        [draftFile]).1).issues.all fun issue => issue.severity != .error) = true ∧
      ((parseSpecFiles ⟨fun _ => [], PlainYaml.package, id⟩ [draftFile]).1.features.any fun f =>
        decide (Text.lit "NFR-latence" ∈ f.value.nfr)) = true := by decide +kernel
  have fine : NoReferenceError (validateSpec (parseSpecFiles ⟨fun _ => [], PlainYaml.package, id⟩
      [draftFile]).1) := by
    intro issue member severe
    have other := List.all_eq_true.mp facts.1 issue member
    rw [severe] at other
    cases other
  obtain ⟨f, holds, cited⟩ := List.any_eq_true.mp facts.2
  exact ((always _ _).mp fine).1 _ (.featureNfr holds (of_decide_eq_true cited))

end Koklo.Schema
