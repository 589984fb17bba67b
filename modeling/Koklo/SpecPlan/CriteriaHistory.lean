import Koklo.Foundations.Runs
import Koklo.Schema.RoundTrip
import Koklo.SpecPlan.FeatureOperations

/-!
# The history of the criteria of a feature

The file of a feature goes through updates, each of which reads it, renumbers
its criteria and writes it again. An identifier is reassigned when a criterion
bears it that never bore it before, while another one did.

The numbering only sees the criteria of the file as it stands. It never
reassigns an identifier as long as the numbers that follow the highest of the
current criteria were never borne (`criteria_never_reassigned`). When the
criterion with the highest number is removed, its number is given again to the
next one that is added (`criterion_reassigned`).
-/

set_option autoImplicit false

namespace Koklo.SpecPlan

open Foundations Schema

/-- An update of a feature, by a designer or not. -/
structure FeatureUpdate where
  designer : Bool
  payload : FeaturePayload

section History

variable (message : Defect → Text) (yaml : YamlPackage) (path : Text)

/-- The criteria of a file; none when it does not parse. -/
def criteresOf (content : Text) : List Criterion :=
  match parseFeatureMarkdown message yaml path content with
  | .ok feature => feature.criteres
  | .error _ => []

/-- An update of a file with the texts it has had, the latest first. A refused
update leaves the file as it is. -/
def updateStep (history : List Text) (update : FeatureUpdate) : Option (List Text) :=
  match history with
  | [] => none
  | content :: past =>
    match updatedContent message yaml update.designer path content update.payload with
    | .ok next => some (next :: content :: past)
    | .error _ => some (content :: past)

/-- **No identifier is reassigned**: a criterion that bears an identifier that
was borne before has a title under which it was borne. -/
def NeverReassigned (history : List Text) : Prop :=
  ∀ now past, (now :: past) <:+ history → ∀ criterion ∈ criteresOf message yaml path now,
    (∃ old ∈ past, ∃ c ∈ criteresOf message yaml path old, c.id = criterion.id) →
      ∃ old ∈ past, ∃ c ∈ criteresOf message yaml path old,
        c.id = criterion.id ∧ c.titre = criterion.titre

/-- No criterion has borne the identifier of a number. -/
def Unborne (history : List Text) (n : Number) : Prop :=
  ∀ old ∈ history, ∀ c ∈ criteresOf message yaml path old, c.id ≠ criterionId n

/-- The numbers that follow the highest of the current criteria, one for each
title submitted in excess of theirs, were never borne. -/
def CountsAfresh (history : List Text) (update : FeatureUpdate) : Prop :=
  ∀ content ∈ history.head?, ∀ submitted ∈ update.payload.criteria,
    ∀ n ∈ countingFrom (highestNumber (criteresOf message yaml path content))
        (addedTitles (criteresOf message yaml path content) submitted).length,
      Unborne message yaml path history n

variable {message yaml path}

theorem criteresOf_of_parse {content : Text} {feature : Feature}
    (read : parseFeatureMarkdown message yaml path content = .ok feature) :
    criteresOf message yaml path content = feature.criteres := by
  rw [criteresOf, read]

/-- A written file has the criteria of its feature, or it does not parse. -/
theorem mem_criteresOf_written (laws : yaml.Laws) {feature : Feature} {content : Text}
    (emitted : emitFeatureMarkdown message yaml feature = .ok content) {criterion : Criterion}
    (member : criterion ∈ criteresOf message yaml path content) : criterion ∈ feature.criteres := by
  unfold criteresOf at member
  split at member
  · rename_i other read
    rwa [criteres_of_parse laws path emitted (small_of_parse read) read] at member
  · cases member

/-- The criteria of a patched feature are kept or counted on. -/
theorem mem_criteres_patched {current : Feature} {payload : FeaturePayload} {criterion : Criterion}
    (member : criterion ∈ (patchedFeature current payload).criteres) :
    (∃ old ∈ current.criteres, old.id = criterion.id ∧ old.titre = criterion.titre) ∨
      ∃ submitted ∈ payload.criteria,
        ∃ n ∈ countingFrom (highestNumber current.criteres)
          (addedTitles current.criteres submitted).length, criterion.id = criterionId n := by
  simp only [patchedFeature, overlay] at member
  cases given : payload.criteria with
  | none =>
    rw [given] at member
    exact .inl ⟨criterion, member, rfl, rfl⟩
  | some submitted =>
    rw [given] at member
    rcases mem_numberCriteria member with kept | counted
    · exact .inl kept
    · exact .inr ⟨submitted, rfl, counted⟩

/-- The history of a file that was never updated. -/
theorem neverReassigned_singleton (content : Text) : NeverReassigned message yaml path [content] := by
  rintro now past suffix criterion - ⟨old, member, -⟩
  rcases List.suffix_cons_iff.mp suffix with same | nil
  · cases same
    cases member
  · cases List.suffix_nil.mp nil

/-- **One update that counts afresh reassigns no identifier.** -/
theorem neverReassigned_step (laws : yaml.Laws) {history next : List Text} {update : FeatureUpdate}
    (never : NeverReassigned message yaml path history)
    (afresh : CountsAfresh message yaml path history update)
    (taken : updateStep message yaml path history update = some next) :
    NeverReassigned message yaml path next := by
  unfold updateStep at taken
  split at taken
  · cases taken
  · rename_i content past
    split at taken
    · rename_i written updated
      cases taken
      obtain ⟨current, read, emitted⟩ := updatedContent_eq_ok updated
      have now := criteresOf_of_parse read
      intro latest earlier suffix criterion member borne
      rcases List.suffix_cons_iff.mp suffix with same | inside
      · cases same
        rcases mem_criteres_patched (mem_criteresOf_written laws emitted member) with
          ⟨old, kept, same⟩ | ⟨submitted, given, n, counted, same⟩
        · refine ⟨content, List.mem_cons_self, old, ?_, same⟩
          rwa [now]
        · rw [← now] at counted
          obtain ⟨text, was, c, bore, equal⟩ := borne
          rw [same] at equal
          exact absurd equal (afresh content rfl submitted given n counted text was c bore)
      · exact never latest earlier inside criterion member borne
    · cases taken
      exact never

/-- **Identifiers are never reassigned in a run whose updates count afresh.** -/
theorem criteria_never_reassigned (laws : yaml.Laws) {content : Text}
    {updates : List FeatureUpdate} {history : List Text}
    (afresh : Along (updateStep message yaml path) (CountsAfresh message yaml path) [content] updates)
    (reached : run (updateStep message yaml path) [content] updates = some history) :
    NeverReassigned message yaml path history :=
  run_invariant_along (fun _ _ _ never allowed taken => neverReassigned_step laws never allowed taken)
    (neverReassigned_singleton content) afresh reached

end History

/-! ## A number that is given twice -/

/-- A criterion without steps. -/
def noted (id titre : String) : Criterion := ⟨Text.lit id, Text.lit titre, []⟩

/-- A criterion without steps that can be written. -/
structure Notable (criterion : Criterion) : Prop where
  id : Patterns.criterion.accepts criterion.id = true
  titre : criterion.titre ≠ []
  line : TrimmedLine criterion.titre
  plain : criterion.titre.all anyUnit = true
  bare : criterion.etapes = []

/-- A feature with the given criteria and nothing else. -/
def notedFeature (criteres : List Criterion) : Feature where
  id := Text.lit "F-001"
  titre := Text.lit "Connexion"
  statut := .brouillon
  priorite := .should
  tables := []
  endpoints := []
  ecrans := []
  roles := []
  regles := []
  nfr := []
  description := []
  criteres := criteres

/-- The text of the feature. -/
def notedText (criteres : List Criterion) : Text :=
  Text.joinLines (emittedPieces PlainYaml.package (notedFeature criteres) []) ++ [Text.newline]

section Noted

variable {criteres : List Criterion} (notable : ∀ c ∈ criteres, Notable c)
  (distinct : (criteres.map Criterion.id).Nodup)

include notable distinct

theorem notedFeature_emitted {message : Defect → Text} :
    emitFeatureMarkdown message PlainYaml.package (notedFeature criteres) = .ok (notedText criteres) := by
  have feature : Patterns.feature.accepts (Text.lit "F-001") = true := by decide
  have none : ∀ {pattern : Pattern CodeUnit}, ∀ id ∈ ([] : List Text), pattern.Matches id :=
    fun id member => absurd member List.not_mem_nil
  have valid : (notedFeature criteres).Valid :=
    { id := Pattern.accepts_iff.mp feature
      titre := List.cons_ne_nil _ _
      tables := none
      endpoints := none
      ecrans := none
      roles := none
      regles := none
      nfr := none
      criteres := fun c member => by
        have here := notable c member
        refine ⟨Pattern.accepts_iff.mp here.id, here.titre, ?_⟩
        rw [here.bare]
        exact List.forall_mem_nil _ }
  have titled : SingleLine (Text.lit "Connexion") := ⟨by decide, by decide, by decide⟩
  have described : Describes (Text.trim []) := ⟨by decide, by decide, by decide⟩
  refine emitFeatureMarkdown_eq_ok.mpr ⟨⟨valid, titled, described, distinct,
    fun c member => (notable c member).line, ?_⟩, rfl⟩
  intro c member
  rw [(notable c member).bare]
  exact List.forall_mem_nil _

theorem parse_notedText {message : Defect → Text} {path : Text}
    (small : (notedText criteres).length ≤ maxFileChars) :
    parseFeatureMarkdown message PlainYaml.package path (notedText criteres) =
      .ok (notedFeature criteres) := by
  have kept : Text.trimEnd (Text.lit "Connexion") = Text.lit "Connexion" := by decide
  refine parse_of_readBack PlainYaml.laws path (notedFeature_emitted notable distinct) small
    ⟨fun c member => ⟨?_, ?_⟩, fun _ => kept⟩
  · exact List.all_eq_true.mp (notable c member).plain
  · rw [(notable c member).bare]
    exact List.forall_mem_nil _

end Noted

/-- An update that submits criteria by their titles. -/
def retitled (titles : List String) : FeatureUpdate where
  designer := false
  payload := { criteria := some (titles.map fun title => ⟨Text.lit title, []⟩) }

/-- An update of noted criteria writes those it numbers. -/
theorem updateStep_noted {message : Defect → Text} {path : Text} {before after : List Criterion}
    {titles : List String} {past : List Text} (notable : ∀ c ∈ before, Notable c)
    (distinct : (before.map Criterion.id).Nodup)
    (small : (notedText before).length ≤ maxFileChars)
    (numbered : numberCriteria before (titles.map fun title => ⟨Text.lit title, []⟩) = after)
    (notable' : ∀ c ∈ after, Notable c) (distinct' : (after.map Criterion.id).Nodup) :
    updateStep message PlainYaml.package path (notedText before :: past) (retitled titles) =
      some (notedText after :: notedText before :: past) := by
  have read : parseFeatureMarkdown message PlainYaml.package path (notedText before) =
      .ok (notedFeature before) := parse_notedText notable distinct small
  have patched : patchedFeature (notedFeature before) (retitled titles).payload =
      notedFeature after := by
    rw [← numbered]
    rfl
  have wrote : emitFeatureMarkdown message PlainYaml.package (notedFeature after) =
      .ok (notedText after) := notedFeature_emitted notable' distinct'
  rw [← patched] at wrote
  have updated := updatedContent_of_read read wrote
  simp only [updateStep, retitled] at updated ⊢
  rw [updated]

theorem notable_a : Notable (noted "AC-1" "A") :=
  ⟨by decide, by decide, ⟨⟨by decide, by decide, by decide⟩, by decide⟩, by decide, rfl⟩

theorem notable_b : Notable (noted "AC-2" "B") :=
  ⟨by decide, by decide, ⟨⟨by decide, by decide, by decide⟩, by decide⟩, by decide, rfl⟩

theorem notable_c : Notable (noted "AC-2" "C") :=
  ⟨by decide, by decide, ⟨⟨by decide, by decide, by decide⟩, by decide⟩, by decide, rfl⟩

theorem notable_pair {first second : Criterion} (left : Notable first) (right : Notable second) :
    ∀ c ∈ [first, second], Notable c :=
  List.forall_mem_cons.mpr ⟨left, List.forall_mem_singleton.mpr right⟩

section Given

variable {message : Defect → Text} {path : Text} {past : List Text}

/-- The criterion `B` is added with the number 2. -/
theorem updateStep_added :
    updateStep message PlainYaml.package path (notedText [noted "AC-1" "A"] :: past)
        (retitled ["A", "B"]) =
      some (notedText [noted "AC-1" "A", noted "AC-2" "B"] ::
        notedText [noted "AC-1" "A"] :: past) :=
  updateStep_noted (List.forall_mem_singleton.mpr notable_a) (by decide) (by decide +kernel)
    (by decide +kernel) (notable_pair notable_a notable_b) (by decide)

/-- The criterion `B` is removed. -/
theorem updateStep_removed :
    updateStep message PlainYaml.package path
        (notedText [noted "AC-1" "A", noted "AC-2" "B"] :: past) (retitled ["A"]) =
      some (notedText [noted "AC-1" "A"] ::
        notedText [noted "AC-1" "A", noted "AC-2" "B"] :: past) :=
  updateStep_noted (notable_pair notable_a notable_b) (by decide) (by decide +kernel)
    (by decide +kernel) (List.forall_mem_singleton.mpr notable_a) (by decide)

/-- The criterion `C` is added with the number 2. -/
theorem updateStep_replaced :
    updateStep message PlainYaml.package path (notedText [noted "AC-1" "A"] :: past)
        (retitled ["A", "C"]) =
      some (notedText [noted "AC-1" "A", noted "AC-2" "C"] ::
        notedText [noted "AC-1" "A"] :: past) :=
  updateStep_noted (List.forall_mem_singleton.mpr notable_a) (by decide) (by decide +kernel)
    (by decide +kernel) (notable_pair notable_a notable_c) (by decide)

theorem criteresOf_notedText {criteres : List Criterion} (notable : ∀ c ∈ criteres, Notable c)
    (distinct : (criteres.map Criterion.id).Nodup)
    (small : (notedText criteres).length ≤ maxFileChars) :
    criteresOf message PlainYaml.package path (notedText criteres) = criteres :=
  criteresOf_of_parse (parse_notedText notable distinct small)

end Given

theorem criteria_never_reassigned_added :
    NeverReassigned (fun _ => []) PlainYaml.package (Text.lit "features/F-001.md")
      [notedText [noted "AC-1" "A", noted "AC-2" "B"], notedText [noted "AC-1" "A"]] := by
  have criteres : criteresOf (fun _ => []) PlainYaml.package (Text.lit "features/F-001.md")
      (notedText [noted "AC-1" "A"]) = [noted "AC-1" "A"] :=
    criteresOf_notedText (List.forall_mem_singleton.mpr notable_a) (by decide) (by decide +kernel)
  have other : (countingFrom (highestNumber [noted "AC-1" "A"])
      (addedTitles [noted "AC-1" "A"] [⟨Text.lit "A", []⟩, ⟨Text.lit "B", []⟩]).length).all
      (fun n => Text.lit "AC-1" != criterionId n) = true := by decide +kernel
  have reached : run (updateStep (fun _ => []) PlainYaml.package (Text.lit "features/F-001.md"))
      [notedText [noted "AC-1" "A"]] [retitled ["A", "B"]] =
      some [notedText [noted "AC-1" "A", noted "AC-2" "B"], notedText [noted "AC-1" "A"]] := by
    rw [run_cons, updateStep_added]
    rfl
  have afresh : CountsAfresh (fun _ => []) PlainYaml.package (Text.lit "features/F-001.md")
      [notedText [noted "AC-1" "A"]] (retitled ["A", "B"]) := by
    intro content same submitted given n counted old member c bore
    cases same
    cases given
    rw [criteres] at counted
    obtain rfl := List.mem_singleton.mp member
    rw [criteres, List.mem_singleton] at bore
    rw [bore]
    exact bne_iff_ne.mp (List.all_eq_true.mp other n counted)
  have along : Along (updateStep (fun _ => []) PlainYaml.package (Text.lit "features/F-001.md"))
      (CountsAfresh (fun _ => []) PlainYaml.package (Text.lit "features/F-001.md"))
      [notedText [noted "AC-1" "A"]] [retitled ["A", "B"]] :=
    Along.of_step updateStep_added afresh trivial
  exact criteria_never_reassigned PlainYaml.laws along reached

/-- **An identifier is given again after its criterion was removed.** -/
theorem criterion_reassigned : ¬ ∀ (message : Defect → Text) (yaml : YamlPackage), yaml.Laws →
    ∀ (path content : Text) (updates : List FeatureUpdate) (history : List Text),
      run (updateStep message yaml path) [content] updates = some history →
        NeverReassigned message yaml path history := by
  intro always
  have reached : run (updateStep (fun _ => []) PlainYaml.package (Text.lit "features/F-001.md"))
      [notedText [noted "AC-1" "A", noted "AC-2" "B"]] [retitled ["A"], retitled ["A", "C"]] =
      some [notedText [noted "AC-1" "A", noted "AC-2" "C"], notedText [noted "AC-1" "A"],
        notedText [noted "AC-1" "A", noted "AC-2" "B"]] := by
    rw [run_cons, updateStep_removed, Option.bind_some, run_cons, updateStep_replaced]
    rfl
  have never := always _ _ PlainYaml.laws _ _ _ _ reached
  have now : criteresOf (fun _ => []) PlainYaml.package (Text.lit "features/F-001.md")
      (notedText [noted "AC-1" "A", noted "AC-2" "C"]) = [noted "AC-1" "A", noted "AC-2" "C"] :=
    criteresOf_notedText (notable_pair notable_a notable_c) (by decide) (by decide +kernel)
  have between : criteresOf (fun _ => []) PlainYaml.package (Text.lit "features/F-001.md")
      (notedText [noted "AC-1" "A"]) = [noted "AC-1" "A"] :=
    criteresOf_notedText (List.forall_mem_singleton.mpr notable_a) (by decide) (by decide +kernel)
  have first : criteresOf (fun _ => []) PlainYaml.package (Text.lit "features/F-001.md")
      (notedText [noted "AC-1" "A", noted "AC-2" "B"]) = [noted "AC-1" "A", noted "AC-2" "B"] :=
    criteresOf_notedText (notable_pair notable_a notable_b) (by decide) (by decide +kernel)
  obtain ⟨old, member, c, bore, same⟩ := never _ _ (List.suffix_refl _) (noted "AC-2" "C")
    (by rw [now]; exact List.mem_cons_of_mem _ List.mem_cons_self)
    ⟨_, List.mem_cons_of_mem _ List.mem_cons_self, noted "AC-2" "B",
      by rw [first]; exact List.mem_cons_of_mem _ List.mem_cons_self, rfl⟩
  have unborne : [noted "AC-1" "A", noted "AC-2" "B"].all
      (fun c => !(c.id == Text.lit "AC-2" && c.titre == Text.lit "C")) = true := by decide
  have among : c ∈ [noted "AC-1" "A", noted "AC-2" "B"] := by
    rcases List.mem_cons.mp member with rfl | rest
    · rw [between, List.mem_singleton] at bore
      rw [bore]
      exact List.mem_cons_self
    · obtain rfl := List.mem_singleton.mp rest
      rwa [first] at bore
  have refuted := List.all_eq_true.mp unborne c among
  rw [same.1, same.2] at refuted
  revert refuted
  decide

end Koklo.SpecPlan
