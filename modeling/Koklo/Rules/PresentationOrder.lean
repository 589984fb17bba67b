import Koklo.Rules.LockedRules

/-!
# The order of presentation

The layers and the rules of a catalog may be presented in any order. The layers are
read one by one and sorted by level, of which no two are the same, so a permutation
of them is composed alike (`orderLayers_perm`). A permuted catalog only changes the
order of the entries: every operation reads and writes entries by id, and leaves
contexts that read alike (`Alike`). The result lists what the entries hold by id, and
each id has one entry. Hence the resolution is the same, and lists each effective rule
once (`resolveEffectiveRules_perm`).
-/

set_option autoImplicit false

namespace Koklo.Rules

open Koklo.Foundations

/-! ## Contexts that read alike -/

/-- The contexts read alike: they differ only in the order of their entries. -/
structure Alike (ctx ctx' : Context) : Prop where
  entries : ∀ id, ctx.entries.get id = ctx'.entries.get id
  conflicts : ctx.conflicts = ctx'.conflicts
  knownProfiles : ctx.knownProfiles = ctx'.knownProfiles
  path : ctx.path = ctx'.path
  today : ctx.today = ctx'.today

namespace Alike

variable {ctx ctx' : Context} (alike : Alike ctx ctx')

include alike

theorem addConflict (level : LayerLevel) (ruleId : Text) (attempted : Attempt)
    (reason : ConflictReason) :
    Alike (ctx.addConflict level ruleId attempted reason)
      (ctx'.addConflict level ruleId attempted reason) where
  entries := alike.entries
  conflicts := by rw [Context.addConflict, Context.addConflict, alike.conflicts]
  knownProfiles := alike.knownProfiles
  path := alike.path
  today := alike.today

theorem setEntry (id : Text) (entry : Entry) :
    Alike (ctx.setEntry id entry) (ctx'.setEntry id entry) where
  entries other := by
    rw [Context.setEntry, Context.setEntry, OrderedMap.get_set, OrderedMap.get_set, alike.entries]
  conflicts := alike.conflicts
  knownProfiles := alike.knownProfiles
  path := alike.path
  today := alike.today

theorem deleteEntry (id : Text) : Alike (ctx.deleteEntry id) (ctx'.deleteEntry id) where
  entries other := by
    rw [Context.deleteEntry, Context.deleteEntry, OrderedMap.get_erase, OrderedMap.get_erase,
      alike.entries]
  conflicts := alike.conflicts
  knownProfiles := alike.knownProfiles
  path := alike.path
  today := alike.today

theorem isExpired (expires : Option Text) : ctx.isExpired expires = ctx'.isExpired expires := by
  rw [Context.isExpired, Context.isExpired, alike.today]

theorem updateRule (id : Text) (patch : EffectiveRule → EffectiveRule) :
    Alike (ctx.updateRule id patch) (ctx'.updateRule id patch) := by
  unfold Context.updateRule
  rw [alike.entries]
  cases ctx'.entries.get id with
  | none => exact alike
  | some entry => exact alike.setEntry _ _

/-! ## Operations on contexts that read alike -/

theorem insertAdded (layer : RuleLayer) (rule : LayerRule) :
    Alike (insertAdded ctx layer rule) (insertAdded ctx' layer rule) := by
  unfold Rules.insertAdded
  cases rule.replaces with
  | none => exact alike.setEntry _ _
  | some target => exact (alike.deleteEntry target).setEntry _ _

theorem checkReplaced (level : LayerLevel) (rule : LayerRule) :
    (checkReplaced ctx level rule = .go ∧ Rules.checkReplaced ctx' level rule = .go) ∨
      ∃ refused refused', Rules.checkReplaced ctx level rule = .skip refused ∧
        Rules.checkReplaced ctx' level rule = .skip refused' ∧ Alike refused refused' := by
  unfold Rules.checkReplaced
  cases rule.replaces with
  | none => exact .inl ⟨rfl, rfl⟩
  | some target =>
    by_cases own : target = rule.id
    · simp only [if_pos own]
      exact .inl ⟨trivial, trivial⟩
    · simp only [if_neg own, alike.entries]
      cases ctx'.entries.get target with
      | none => exact .inr ⟨_, _, rfl, rfl, alike.addConflict _ _ _ _⟩
      | some entry =>
        by_cases locked : entry.rule.locked = true
        · simp only [if_pos locked]
          exact .inr ⟨_, _, rfl, rfl, alike.addConflict _ _ _ _⟩
        · simp only [if_neg locked]
          exact .inl ⟨trivial, trivial⟩

theorem addOne {layer : RuleLayer} {rule : LayerRule} {next : Context}
    (added : addOne layer ctx rule = .ok next) :
    ∃ next', Rules.addOne layer ctx' rule = .ok next' ∧ Alike next next' := by
  unfold Rules.addOne at added ⊢
  rw [alike.knownProfiles] at added
  by_cases unknown : ¬ rule.profiles.all (ctx'.knownProfiles.contains ·) = true
  · rw [if_pos unknown] at added ⊢
    cases added
    exact ⟨_, rfl, alike.addConflict _ _ _ _⟩
  · rw [if_neg unknown] at added ⊢
    rcases alike.checkReplaced layer.level rule with ⟨go, go'⟩ | ⟨refused, refused', skip, skip', same⟩
    · rw [go] at added
      rw [go']
      simp only [alike.entries] at added ⊢
      cases known : ctx'.entries.get rule.id with
      | none =>
        rw [known] at added
        cases added
        exact ⟨_, rfl, alike.insertAdded layer rule⟩
      | some existing =>
        rw [known] at added
        by_cases locked : existing.rule.locked = true
        · simp only [if_pos locked] at added ⊢
          cases added
          exact ⟨_, rfl, alike.addConflict _ _ _ _⟩
        · simp only [if_neg locked] at added ⊢
          by_cases collides : rule.replaces ≠ some rule.id
          · rw [if_pos collides] at added
            cases added
          · rw [if_neg collides] at added ⊢
            cases added
            exact ⟨_, rfl, alike.insertAdded layer rule⟩
    · rw [skip] at added
      rw [skip']
      cases added
      exact ⟨_, rfl, same⟩

theorem applyChange (level : LayerLevel) (entry : Entry) (override : Override) :
    Alike (applyChange ctx level entry override) (applyChange ctx' level entry override) := by
  unfold Rules.applyChange
  dsimp only
  split
  · exact alike.updateRule _ _
  · exact alike

theorem applyOverride (level : LayerLevel) (override : Override) :
    Alike (applyOverride level ctx override) (applyOverride level ctx' override) := by
  unfold Rules.applyOverride
  rw [alike.entries, alike.isExpired]
  cases ctx'.entries.get override.ruleId with
  | none => exact alike.addConflict _ _ _ _
  | some entry =>
    dsimp only
    split
    · exact alike.addConflict _ _ _ _
    · split
      · exact alike.addConflict _ _ _ _
      · split
        · exact alike.setEntry _ _
        · exact alike.applyChange _ _ _

theorem applyWaiver (level : LayerLevel) (waiver : Waiver) :
    Alike (applyWaiver level ctx waiver) (applyWaiver level ctx' waiver) := by
  unfold Rules.applyWaiver
  rw [alike.entries, alike.isExpired, alike.path]
  cases ctx'.entries.get waiver.ruleId with
  | none => exact alike.addConflict _ _ _ _
  | some entry =>
    dsimp only
    split
    · exact alike.addConflict _ _ _ _
    · split
      · exact alike.addConflict _ _ _ _
      · split
        · exact alike.setEntry _ _
        · exact alike

theorem lockAdded (level : LayerLevel) (rule : LayerRule) :
    Alike (lockAdded level ctx rule) (lockAdded level ctx' rule) := by
  unfold Rules.lockAdded
  rw [alike.entries]
  split
  · exact alike.updateRule _ _
  · exact alike

theorem lockListed (layer : RuleLayer) (id : Text) :
    Alike (lockListed layer ctx id) (lockListed layer ctx' id) := by
  unfold Rules.lockListed
  rw [alike.entries]
  cases ctx'.entries.get id with
  | none => exact alike.addConflict _ _ _ _
  | some entry =>
    dsimp only
    split
    · exact alike
    · exact alike.updateRule _ _

omit alike in
theorem foldl {β : Type} {operation : Context → β → Context}
    (step : ∀ {ctx ctx'} item, Alike ctx ctx' → Alike (operation ctx item) (operation ctx' item))
    (list : List β) (alike : Alike ctx ctx') :
    Alike (list.foldl operation ctx) (list.foldl operation ctx') := by
  induction list generalizing ctx ctx' with
  | nil => exact alike
  | cons item list ih => exact ih (step item alike)

omit alike in
theorem foldlM {β : Type} {operation : Context → β → Except RulesError Context}
    (step : ∀ ctx ctx' item next, Alike ctx ctx' → operation ctx item = .ok next →
      ∃ next', operation ctx' item = .ok next' ∧ Alike next next')
    {list : List β} {final : Context} (alike : Alike ctx ctx')
    (done : list.foldlM operation ctx = .ok final) :
    ∃ final', list.foldlM operation ctx' = .ok final' ∧ Alike final final' := by
  induction list generalizing ctx ctx' with
  | nil =>
    cases done
    exact ⟨ctx', rfl, alike⟩
  | cons item list ih =>
    rw [List.foldlM_cons, bind_eq_ok] at done
    obtain ⟨middle, first, rest⟩ := done
    obtain ⟨middle', first', alike'⟩ := step _ _ _ _ alike first
    obtain ⟨final', rest', alikeFinal⟩ := ih alike' rest
    exact ⟨final', by rw [List.foldlM_cons, bind_eq_ok]; exact ⟨middle', first', rest'⟩, alikeFinal⟩

theorem composeLayer {layer : RuleLayer} {final : Context}
    (composed : composeLayer ctx layer = .ok final) :
    ∃ final', Rules.composeLayer ctx' layer = .ok final' ∧ Alike final final' := by
  rw [Rules.composeLayer, map_eq_ok] at composed
  obtain ⟨added, adds, rfl⟩ := composed
  have step : ∀ ctx ctx' rule next, Alike ctx ctx' → Rules.addOne layer ctx rule = .ok next →
      ∃ next', Rules.addOne layer ctx' rule = .ok next' ∧ Alike next next' :=
    fun _ _ _ _ alike added => alike.addOne added
  obtain ⟨added', adds', first⟩ := foldlM step alike adds
  have second : Alike (applyOverrides added layer) (applyOverrides added' layer) :=
    foldl (fun override alike => alike.applyOverride _ override) _ first
  have third : Alike (applyWaivers (applyOverrides added layer) layer)
      (applyWaivers (applyOverrides added' layer) layer) :=
    foldl (fun waiver alike => alike.applyWaiver _ waiver) _ second
  have fourth := foldl (fun rule alike => alike.lockAdded layer.level rule) (layer.add.getD []) third
  have last := foldl (fun id alike => alike.lockListed layer id) (layer.lock.getD []) fourth
  exact ⟨_, by rw [Rules.composeLayer, map_eq_ok]; exact ⟨added', adds', rfl⟩, last⟩

/-- **Contexts that read alike are composed alike.** -/
theorem composeLayers {layers : List RuleLayer} {final : Context}
    (composed : composeLayers ctx layers = .ok final) :
    ∃ final', Rules.composeLayers ctx' layers = .ok final' ∧ Alike final final' := by
  have step : ∀ ctx ctx' layer next, Alike ctx ctx' → Rules.composeLayer ctx layer = .ok next →
      ∃ next', Rules.composeLayer ctx' layer = .ok next' ∧ Alike next next' :=
    fun _ _ _ _ alike composed => alike.composeLayer composed
  exact foldlM step alike composed

end Alike

/-! ## The result -/

/-- Comparing the texts of two items compares them by these texts. -/
theorem compareText_on {α : Type} (key : α → Text) (a b : α) :
    compareText (key a) (key b) ≤ 0 ↔ key a ≤ key b := compareText_le_zero_iff

section Result

variable {ctx ctx' : Context} (well : WellKeyed ctx.entries) (well' : WellKeyed ctx'.entries)

/-- The ids of the relevant entries are distinct. -/
theorem nodup_relevant (well : WellKeyed ctx.entries) (scope : Scope) :
    ((relevant ctx scope).map (·.rule.id)).Nodup := by
  have ids : (ctx.entries.map Prod.snd).map (·.rule.id) = ctx.entries.keys := by
    rw [List.map_map]
    refine List.map_congr_left fun entry member => ?_
    exact (well.keyed entry.1 entry.2 (OrderedMap.get_of_mem well.distinct member)).rule
  have all : ((ctx.entries.map Prod.snd).map (·.rule.id)).Nodup := ids ▸ well.distinct
  exact all.sublist (List.filter_sublist.map _)

theorem keyed_of_mem_relevant (well : WellKeyed ctx.entries) {scope : Scope} {entry : Entry}
    (member : entry ∈ relevant ctx scope) : entry.Keyed entry.rule.id := by
  obtain ⟨⟨id, stored⟩, inside, rfl⟩ := List.mem_map.mp (List.mem_filter.mp member).1
  have keyed := well.keyed id stored (OrderedMap.get_of_mem well.distinct inside)
  rw [keyed.rule]
  exact keyed

/-- Contexts that read alike have the same relevant entries, in some order. -/
theorem Alike.perm_relevant (alike : Alike ctx ctx') (well : WellKeyed ctx.entries)
    (well' : WellKeyed ctx'.entries) (scope : Scope) :
    (relevant ctx scope).Perm (relevant ctx' scope) :=
  ((OrderedMap.perm_of_get well.distinct well'.distinct alike.entries).map Prod.snd).filter _

/-- **Contexts that read alike give the same result.** -/
theorem Alike.buildResolution (alike : Alike ctx ctx') (well : WellKeyed ctx.entries)
    (well' : WellKeyed ctx'.entries) (catalog : Catalog) (role : AgentRole)
    (selection : ProfileSelection) (path : Text) :
    buildResolution catalog role ctx selection path =
      Rules.buildResolution catalog role ctx' selection path := by
  have same := alike.perm_relevant well well' ⟨selection.profiles, role, path⟩
  have distinct := nodup_relevant well ⟨selection.profiles, role, path⟩
  have keyed : ∀ entry ∈ relevant ctx ⟨selection.profiles, role, path⟩, entry.Keyed entry.rule.id :=
    fun entry member => keyed_of_mem_relevant well member
  have rules := sortWith_flatMap_perm (compareText_on fun rule : EffectiveRule => rule.id)
    (same.filter Entry.isActive) (distinct.sublist (List.filter_sublist.map _))
    (fun entry _ rule (member : rule ∈ [entry.rule]) =>
      congrArg (fun rule : EffectiveRule => rule.id) (List.mem_singleton.mp member))
  have disabled := sortWith_flatMap_perm (compareText_on fun rule : DisabledRule => rule.ruleId)
    same distinct (fun entry member rule inside =>
      (keyed entry member).disabled rule (Option.mem_toList.mp inside))
  have waivers := sortWith_flatMap_perm (compareText_on fun waiver : AppliedWaiver => waiver.ruleId)
    same distinct (fun entry member waiver inside => (keyed entry member).waivers waiver inside)
  rw [← List.map_eq_flatMap, ← List.map_eq_flatMap] at rules
  simp only [Rules.buildResolution, rules, disabled, waivers, alike.conflicts]

/-- The effective rules are sorted by id, and no id is there twice. -/
theorem sorted_rules_buildResolution (well : WellKeyed ctx.entries) (catalog : Catalog)
    (role : AgentRole) (selection : ProfileSelection) (path : Text) :
    (Rules.buildResolution catalog role ctx selection path).rules.Pairwise fun a b => a.id < b.id := by
  have sorted := pairwise_sortWith (compareText_on fun rule : EffectiveRule => rule.id)
    (((relevant ctx ⟨selection.profiles, role, path⟩).filter Entry.isActive).map Entry.rule)
  have ids : (((relevant ctx ⟨selection.profiles, role, path⟩).filter Entry.isActive).map
      (·.rule.id)).Nodup :=
    (nodup_relevant well ⟨selection.profiles, role, path⟩).sublist (List.filter_sublist.map _)
  have distinct : (((relevant ctx ⟨selection.profiles, role, path⟩).filter Entry.isActive).map
      Entry.rule).Pairwise fun a b => a.id ≠ b.id :=
    List.pairwise_map.mpr (List.pairwise_map.mp ids)
  have apart := (perm_sortWith (fun a b : EffectiveRule => compareText a.id b.id) _).symm.pairwise
    distinct fun ne => ne.symm
  exact (sorted.and apart).imp fun both => lt_of_le_of_ne both.1 both.2

end Result

/-! ## The order of the layers -/

/-- The layer that a raw layer is read as. -/
def readable (message : Defect → Text) (raw : RawLayer) : Option RuleLayer :=
  (parseLayer message raw).toOption

/-- **What reading the layers one by one gives**: every layer is read, and no level
is given twice. -/
theorem readLayers_eq_ok {message : Defect → Text} {raws : List RawLayer} {index : ℕ}
    {parsed layers : List RuleLayer} (distinct : (parsed.map RuleLayer.level).Nodup) :
    readLayers message index parsed raws = .ok layers ↔
      (∀ raw ∈ raws, (readable message raw).isSome) ∧
        layers = parsed ++ raws.filterMap (readable message) ∧
          (layers.map RuleLayer.level).Nodup := by
  induction raws generalizing index parsed with
  | nil =>
    simp only [readLayers, Except.ok.injEq, List.not_mem_nil, false_implies, implies_true,
      List.filterMap_nil, List.append_nil, true_and]
    constructor
    · rintro rfl
      exact ⟨rfl, distinct⟩
    · rintro ⟨rfl, -⟩
      rfl
  | cons raw raws ih =>
    rw [List.forall_mem_cons]
    cases read : parseLayer message raw with
    | error e =>
      have unread : readable message raw = none := by rw [readable, read]; rfl
      simp [readLayers, read, unread]
    | ok layer =>
      have taken : readable message raw = some layer := by rw [readable, read]; rfl
      rw [List.filterMap_cons_some taken]
      simp only [readLayers, read, taken, Option.isSome_some, true_and]
      by_cases twice : layer.level ∈ parsed.map RuleLayer.level
      · have clash : parsed.any (·.level = layer.level) = true := by
          obtain ⟨other, member, same⟩ := List.mem_map.mp twice
          exact List.any_eq_true.mpr ⟨other, member, by simpa using same⟩
        rw [if_pos clash]
        constructor
        · intro failed
          cases failed
        · rintro ⟨-, rfl, nodup⟩
          rw [List.map_append] at nodup
          exact absurd rfl ((List.nodup_append.mp nodup).2.2 _ twice _
            (List.mem_map_of_mem List.mem_cons_self))
      · have free : ¬ parsed.any (·.level = layer.level) = true := by
          intro clash
          obtain ⟨other, member, same⟩ := List.any_eq_true.mp clash
          exact twice (List.mem_map.mpr ⟨other, member, by simpa using same⟩)
        have grown : ((parsed ++ [layer]).map RuleLayer.level).Nodup := by
          rw [List.map_append, List.map_singleton]
          refine List.nodup_append.mpr ⟨distinct, List.nodup_singleton _, ?_⟩
          rintro level member other single rfl
          rw [List.mem_singleton.mp single] at member
          exact twice member
        rw [if_neg free, ih grown, List.append_assoc, List.singleton_append]

theorem rank_injective {a b : LayerLevel} (same : a.rank = b.rank) : a = b := by
  cases a <;> cases b <;> first | rfl | cases same

/-- **Layers read in another order are ordered alike.** -/
theorem orderLayers_perm {message : Defect → Text} {raws raws' : List RawLayer}
    (same : raws.Perm raws') {layers : List RuleLayer}
    (ordered : orderLayers message raws = .ok layers) : orderLayers message raws' = .ok layers := by
  rw [orderLayers, map_eq_ok] at ordered ⊢
  obtain ⟨parsed, read, sorted⟩ := ordered
  have nothing : (([] : List RuleLayer).map RuleLayer.level).Nodup := List.nodup_nil
  obtain ⟨all, list, distinct⟩ := (readLayers_eq_ok nothing).mp read
  rw [List.nil_append] at list
  have perm := same.filterMap (readable message)
  rw [← list] at perm
  refine ⟨raws'.filterMap (readable message), (readLayers_eq_ok nothing).mpr ?_, ?_⟩
  · exact ⟨fun raw member => all raw (same.mem_iff.mpr member), rfl,
      (perm.map RuleLayer.level).nodup_iff.mp distinct⟩
  · have byRank : ∀ a b : RuleLayer, byLevel a b ≤ 0 ↔ a.level.rank ≤ b.level.rank := by
      intro a b
      rw [byLevel]
      omega
    have ranks : (parsed.map fun layer => layer.level.rank).Nodup := by
      rw [← Function.comp_def LayerLevel.rank, ← List.map_map]
      exact distinct.map fun _ _ => rank_injective
    have alike := sortWith_flatMap_perm byRank perm ranks
      (fun layer _ layer' (member : layer' ∈ [layer]) => by rw [List.mem_singleton.mp member])
    rw [← List.map_eq_flatMap, ← List.map_eq_flatMap, List.map_id', List.map_id'] at alike
    rw [← sorted, alike]

/-! ## Presentation order -/

/-- The input with its layers and the rules of its catalog presented in another order. -/
def ResolveInput.presented (input : ResolveInput) (layers : List RawLayer) (rules : List Rule) :
    ResolveInput :=
  { input with layers := layers, catalog := { input.catalog with rules := rules } }

/-- The entries of a catalog whose rules are permuted read alike. -/
theorem alike_initialContext {catalog : Catalog} {rules : List Rule}
    (same : catalog.rules.Perm rules) (distinct : (catalog.rules.map Rule.id).Nodup)
    (path today : Text) :
    Alike (initialContext catalog path today)
      (initialContext { catalog with rules := rules } path today) where
  entries id := by
    have names : (catalog.rules.map fun rule => (rule.id, catalogEntry catalog rule)).map Prod.fst =
        catalog.rules.map Rule.id := by
      rw [List.map_map]
      rfl
    exact OrderedMap.get_ofEntries_perm (same.map fun rule => (rule.id, catalogEntry catalog rule))
      (names ▸ distinct) id
  conflicts := rfl
  knownProfiles := rfl
  path := rfl
  today := rfl

/-- A resolution that succeeds succeeds alike on what is presented in another order. -/
theorem resolveEffectiveRules_presented {message : Defect → Text} {input : ResolveInput}
    {layers : List RawLayer} {rules : List Rule} (sameLayers : input.layers.Perm layers)
    (sameRules : input.catalog.rules.Perm rules)
    (distinct : (input.catalog.rules.map Rule.id).Nodup) {resolution : Resolution}
    (resolved : resolveEffectiveRules message input = .ok resolution) :
    resolveEffectiveRules message (input.presented layers rules) = .ok resolution := by
  obtain ⟨checked, ordered, ctx, check, order, composed, built⟩ :=
    resolveEffectiveRules_eq_ok.mp resolved
  have alike := alike_initialContext sameRules distinct checked.path checked.today
  obtain ⟨ctx', composed', alikeFinal⟩ := alike.composeLayers composed
  have well := entriesRun_composeLayers (wellKeyed_initialContext _ _ _) composed
  have well' := entriesRun_composeLayers (wellKeyed_initialContext _ _ _) composed'
  refine resolveEffectiveRules_eq_ok.mpr ⟨checked, ordered, ctx', check,
    orderLayers_perm sameLayers order, composed', ?_⟩
  rw [← built]
  exact (alikeFinal.buildResolution well.wellKeyed well'.wellKeyed _ _ _ _).symm

/-- **Resolution does not depend on the order of presentation.** For a catalog whose
rules have distinct ids, any permutation of the layers and of the rules resolves to
the same result, whose effective rules are sorted by id, each id once. -/
theorem resolveEffectiveRules_perm {message : Defect → Text} {input : ResolveInput}
    {layers : List RawLayer} {rules : List Rule} (sameLayers : input.layers.Perm layers)
    (sameRules : input.catalog.rules.Perm rules)
    (distinct : (input.catalog.rules.map Rule.id).Nodup) (resolution : Resolution) :
    (resolveEffectiveRules message input = .ok resolution ↔
      resolveEffectiveRules message (input.presented layers rules) = .ok resolution) ∧
      (resolveEffectiveRules message input = .ok resolution →
        resolution.rules.Pairwise fun a b => a.id < b.id) := by
  refine ⟨⟨fun resolved => ?_, fun resolved => ?_⟩, fun resolved => ?_⟩
  · exact resolveEffectiveRules_presented sameLayers sameRules distinct resolved
  · have distinct' := (sameRules.map Rule.id).nodup_iff.mp distinct
    exact @resolveEffectiveRules_presented message (input.presented layers rules) input.layers
      input.catalog.rules sameLayers.symm sameRules.symm distinct' resolution resolved
  · obtain ⟨checked, ordered, ctx, -, -, composed, built⟩ := resolveEffectiveRules_eq_ok.mp resolved
    have well := entriesRun_composeLayers (wellKeyed_initialContext _ _ _) composed
    rw [← built]
    exact sorted_rules_buildResolution well.wellKeyed _ _ _ _

/-- The input of `hardeningInput` on a catalog with two rules. -/
def twoRulesInput : ResolveInput :=
  { hardeningInput with catalog :=
      { hardeningInput.catalog with rules := [
          { twiceExcluded.toRule with id := Text.lit "node.esm" },
          { twiceExcluded.toRule with id := Text.lit "global.scope" }] } }

/-- The two layers and the two rules in the other order resolve to the same result. -/
theorem resolveEffectiveRules_perm_two :
    ∃ resolution, resolveEffectiveRules (fun _ => []) twoRulesInput = .ok resolution ∧
      resolveEffectiveRules (fun _ => []) (twoRulesInput.presented twoRulesInput.layers.reverse
        twoRulesInput.catalog.rules.reverse) = .ok resolution ∧
        resolution.rules.length = 3 ∧ resolution.rules.Pairwise fun a b => a.id < b.id := by
  have counted : (resolveEffectiveRules (fun _ => []) twoRulesInput).toOption.map
      (fun resolution => resolution.rules.length) = some 3 := by decide
  have distinct : (twoRulesInput.catalog.rules.map Rule.id).Nodup := by decide
  cases resolved : resolveEffectiveRules (fun _ => []) twoRulesInput with
  | error e =>
    rw [resolved] at counted
    cases counted
  | ok resolution =>
    rw [resolved] at counted
    have same := @resolveEffectiveRules_perm (fun _ => []) twoRulesInput _ _
      (List.reverse_perm _).symm (List.reverse_perm _).symm distinct resolution
    exact ⟨resolution, rfl, same.1.mp resolved, Option.some.inj counted, same.2 resolved⟩

end Koklo.Rules
