import Koklo.Rules.Resolve
import Mathlib.Order.Basic

/-!
# Locked rules

What an operation of a layer does to the entries is said once (`EntriesStep`): it
leaves them, updates one, or adds one, possibly in place of another. An update of a
locked entry keeps it (`LockKept`), and neither an added nor a replaced entry was
locked. Keeping a locked entry is a preorder, so whole layers keep locked entries
(`EntriesRun.keeps`), and with them every sequence of lower layers
(`locked_rule_kept`).
-/

set_option autoImplicit false

namespace Koklo.Rules

open Koklo.Foundations

/-! ## Keeping an entry -/

/-- **The entry `after` is as strict as the locked entry `before`.** Its exclusions
are the same, up to repeated patterns; everything else that weakens is excluded. -/
structure LockKept (before after : Entry) : Prop where
  locked : after.rule.locked = true
  disabled : after.disabled = before.disabled
  waivers : after.waivers = before.waivers
  paths : after.rule.paths = before.rule.paths
  excludePaths : after.rule.excludePaths = before.rule.excludePaths ∨
    after.rule.excludePaths = uniqueItems before.rule.excludePaths
  agents : before.rule.agents ⊆ after.rule.agents
  severity : before.rule.severity.rank ≤ after.rule.severity.rank
  enforcement : KeepsEnforcement before.rule.enforcement after.rule.enforcement

theorem LockKept.refl {entry : Entry} (locked : entry.rule.locked = true) : LockKept entry entry :=
  ⟨locked, rfl, rfl, rfl, .inl rfl, fun _ member => member, le_rfl, .refl _⟩

theorem LockKept.trans {a b c : Entry} (first : LockKept a b) (second : LockKept b c) :
    LockKept a c where
  locked := second.locked
  disabled := second.disabled.trans first.disabled
  waivers := second.waivers.trans first.waivers
  paths := second.paths.trans first.paths
  excludePaths := by
    rcases first.excludePaths with same | once
    · rw [← same]
      exact second.excludePaths
    · rcases second.excludePaths with same | again
      · exact .inr (same.trans once)
      · rw [once, uniqueItems_uniqueItems] at again
        exact .inr again
  agents := fun _ member => second.agents (first.agents member)
  severity := first.severity.trans second.severity
  enforcement := first.enforcement.trans second.enforcement

/-! ## What an operation does to the entries -/

/-- The parts of an entry name the rule under whose id it is stored. -/
structure Entry.Keyed (id : Text) (entry : Entry) : Prop where
  rule : entry.rule.id = id
  disabled : ∀ disabled ∈ entry.disabled, disabled.ruleId = id
  waivers : ∀ waiver ∈ entry.waivers, waiver.ruleId = id

/-- The entries that an operation may leave. -/
inductive EntriesStep (entries : OrderedMap Text Entry) : OrderedMap Text Entry → Prop
  | same : EntriesStep entries entries
  | update {id : Text} {before after : Entry} (known : entries.get id = some before)
      (keyed : before.Keyed id → after.Keyed id)
      (kept : before.Keyed id → before.rule.locked = true → LockKept before after) :
      EntriesStep entries (entries.set id after)
  | insert {id : Text} {added : Entry} {replaced : Option Text} (keyed : added.Keyed id)
      (free : ∀ entry, entries.get id = some entry → entry.rule.locked = false)
      (replaceable : ∀ target ∈ replaced, target ≠ id →
        ∀ entry, entries.get target = some entry → entry.rule.locked = false) :
      EntriesStep entries ((replaced.elim entries entries.erase).set id added)

/-- The entries are stored under the ids of their rules, each once. -/
structure WellKeyed (entries : OrderedMap Text Entry) : Prop where
  distinct : entries.keys.Nodup
  keyed : ∀ id entry, entries.get id = some entry → entry.Keyed id

/-- The second entries keep the locked ones of the first. -/
def KeepsLocked (before after : OrderedMap Text Entry) : Prop :=
  ∀ id entry, before.get id = some entry → entry.rule.locked = true →
    ∃ kept, after.get id = some kept ∧ LockKept entry kept

theorem KeepsLocked.trans {a b c : OrderedMap Text Entry} (first : KeepsLocked a b)
    (second : KeepsLocked b c) : KeepsLocked a c := by
  intro id entry known locked
  obtain ⟨kept, read, keeps⟩ := first id entry known locked
  obtain ⟨kept', read', keeps'⟩ := second id kept read keeps.locked
  exact ⟨kept', read', keeps.trans keeps'⟩

namespace EntriesStep

variable {entries after : OrderedMap Text Entry}

theorem wellKeyed (step : EntriesStep entries after) (well : WellKeyed entries) :
    WellKeyed after := by
  cases step with
  | same => exact well
  | @update id before changed known keyed kept =>
    refine ⟨OrderedMap.nodup_keys_set well.distinct _ _, fun other entry read => ?_⟩
    rw [OrderedMap.get_set] at read
    by_cases mine : id = other
    · rw [if_pos mine, Option.some.injEq] at read
      subst mine read
      exact keyed (well.keyed id before known)
    · rw [if_neg mine] at read
      exact well.keyed other entry read
  | @insert id added replaced keyed free replaceable =>
    have remaining : WellKeyed (replaced.elim entries entries.erase) := by
      cases replaced with
      | none => exact well
      | some target =>
        refine ⟨OrderedMap.nodup_keys_erase well.distinct _, fun other entry read => ?_⟩
        simp only [Option.elim, OrderedMap.get_erase] at read
        split at read
        · cases read
        · exact well.keyed other entry read
    refine ⟨OrderedMap.nodup_keys_set remaining.distinct _ _, fun other entry read => ?_⟩
    rw [OrderedMap.get_set] at read
    by_cases mine : id = other
    · rw [if_pos mine, Option.some.injEq] at read
      subst mine read
      exact keyed
    · rw [if_neg mine] at read
      exact remaining.keyed other entry read

/-- **An operation keeps every locked entry.** -/
theorem keeps (step : EntriesStep entries after) (well : WellKeyed entries) :
    KeepsLocked entries after := by
  intro other entry read locked
  cases step with
  | same => exact ⟨entry, read, .refl locked⟩
  | @update id before changed known keyed kept =>
    rw [OrderedMap.get_set]
    by_cases mine : id = other
    · subst mine
      cases known.symm.trans read
      exact ⟨changed, if_pos rfl, kept (well.keyed id entry read) locked⟩
    · exact ⟨entry, by rw [if_neg mine, read], .refl locked⟩
  | @insert id added replaced keyed free replaceable =>
    have apart : id ≠ other := by
      rintro rfl
      rw [free entry read] at locked
      cases locked
    rw [OrderedMap.get_set, if_neg apart]
    refine ⟨entry, ?_, .refl locked⟩
    cases replaced with
    | none => exact read
    | some target =>
      have spared : target ≠ other := by
        rintro rfl
        rw [replaceable target rfl (Ne.symm apart) entry read] at locked
        cases locked
      rw [Option.elim, OrderedMap.get_erase, if_neg spared, read]

end EntriesStep

/-! ## What each operation does -/

section Operations

variable (layer : RuleLayer) (level : LayerLevel) (ctx : Context)

theorem entriesStep_addOne {rule : LayerRule} {ctx' : Context} (added : addOne layer ctx rule = .ok ctx') :
    EntriesStep ctx.entries ctx'.entries := by
  unfold addOne at added
  split at added
  · cases added
    exact .same
  · cases replaced : checkReplaced ctx layer.level rule with
    | skip refused =>
      rw [replaced] at added
      cases added
      unfold checkReplaced at replaced
      split at replaced
      · cases replaced
      · split at replaced
        · cases replaced
        · split at replaced
          · cases replaced
            exact .same
          · split at replaced
            · cases replaced
              exact .same
            · cases replaced
    | go =>
      rw [replaced] at added
      have replaceable : ∀ target ∈ rule.replaces, target ≠ rule.id →
          ∀ entry, ctx.entries.get target = some entry → entry.rule.locked = false := by
        intro target named other entry known
        unfold checkReplaced at replaced
        rw [Option.mem_def.mp named] at replaced
        simp only [if_neg other, known] at replaced
        split at replaced
        · cases replaced
        · rename_i unlocked
          exact Bool.eq_false_iff.mpr unlocked
      have keyed : (addedEntry rule layer.level layer.author).Keyed rule.id := by
        refine ⟨rfl, fun disabled none => ?_, fun waiver none => ?_⟩
        · cases none
        · cases none
      have inserted : (insertAdded ctx layer rule).entries =
          (rule.replaces.elim ctx.entries ctx.entries.erase).set rule.id
            (addedEntry rule layer.level layer.author) := by
        unfold insertAdded
        cases rule.replaces <;> rfl
      simp only at added
      split at added
      · rename_i fresh
        cases added
        rw [inserted]
        refine .insert keyed (fun entry known => ?_) replaceable
        rw [fresh] at known
        cases known
      · rename_i existing known
        split at added
        · cases added
          exact .same
        · rename_i unlocked
          split at added
          · cases added
          · cases added
            rw [inserted]
            refine .insert keyed (fun entry read => ?_) replaceable
            rw [known] at read
            cases read
            exact Bool.eq_false_iff.mpr unlocked

/-- What a harmless override does not do. -/
theorem weakeningOf_eq_none {rule : EffectiveRule} {override : Override} :
    weakeningOf rule override = none ↔ ∀ effect ∈ weakening, effect.2 rule override = false := by
  rw [weakeningOf, Option.map_eq_none_iff, List.find?_eq_none]
  simp only [Bool.not_eq_true]

/-- **A harmless override keeps a locked rule.** -/
theorem overridden_keeps {rule : EffectiveRule} {override : Override} (locked : rule.locked = true)
    (harmless : weakeningOf rule override = none) :
    (overridden rule override).excludePaths = uniqueItems rule.excludePaths ∧
      rule.agents ⊆ (overridden rule override).agents ∧
        rule.severity.rank ≤ (overridden rule override).severity.rank ∧
          KeepsEnforcement rule.enforcement (overridden rule override).enforcement := by
  simp only [weakeningOf_eq_none, weakening, List.forall_mem_cons, List.not_mem_nil,
    false_implies, implies_true, and_true] at harmless
  obtain ⟨-, severity, enforcement, agents, exclusions, -⟩ := harmless
  refine ⟨?_, ?_, ?_, ?_⟩
  · have none : override.excludePaths.getD [] = [] := by
      simpa using exclusions
    rw [overridden, union, none, List.append_nil]
  · intro agent member
    cases listed : override.agents with
    | none => simpa [overridden, listed] using member
    | some list =>
      rw [listed, List.any_eq_false] at agents
      simpa [overridden, listed] using agents agent member
  · cases given : override.severity with
    | none => simp [overridden, given]
    | some value =>
      rw [given] at severity
      simp only [Option.any_some, isWeaker, Bool.or_eq_false_iff, decide_eq_false_iff_not,
        not_lt] at severity
      simpa [overridden, given] using severity.1.1
  · cases given : override.enforcement with
    | none => simpa [overridden, given] using KeepsEnforcement.refl rule.enforcement
    | some value =>
      rw [given] at enforcement
      simp only [Option.any_some, locked, Bool.true_and, Bool.or_eq_false_iff,
        Bool.not_eq_false'] at enforcement
      simpa [overridden, given] using isLockedSafe_keeps enforcement.2

theorem entriesStep_updateRule {id : Text} {patch : EffectiveRule → EffectiveRule}
    (named : ∀ rule, (patch rule).id = rule.id)
    (kept : ∀ entry, ctx.entries.get id = some entry → entry.Keyed id → entry.rule.locked = true →
      LockKept entry { entry with rule := patch entry.rule }) :
    EntriesStep ctx.entries (ctx.updateRule id patch).entries := by
  unfold Context.updateRule
  split
  · exact .same
  · rename_i entry known
    exact .update known (fun keyed => ⟨(named _).trans keyed.rule, keyed.disabled, keyed.waivers⟩)
      (kept entry known)

theorem entriesStep_applyOverride (override : Override) (well : WellKeyed ctx.entries) :
    EntriesStep ctx.entries (applyOverride level ctx override).entries := by
  unfold applyOverride
  split
  · exact .same
  · rename_i entry known
    split
    · exact .same
    · split
      · exact .same
      · rename_i harmless
        split
        · rename_i disables
          have refused : entry.rule.locked = true → weakeningOf entry.rule override ≠ none := by
            intro locked none
            have all := weakeningOf_eq_none.mp none _ List.mem_cons_self
            simp [disables] at all
          refine .update known (fun keyed => ⟨keyed.rule, fun disabled member => ?_, keyed.waivers⟩)
            (fun _ locked => ?_)
          · rcases Option.or_eq_some_iff.mp member with before | ⟨-, new⟩
            · exact keyed.disabled disabled before
            · cases new
              rfl
          · obtain ⟨attempted, weakens⟩ := Option.ne_none_iff_exists'.mp (refused locked)
            exact absurd weakens (harmless attempted locked)
        · unfold applyChange
          dsimp only
          split
          · rename_i changed
            rw [(well.keyed _ _ known).rule]
            refine entriesStep_updateRule ctx (fun _ => rfl) fun entry' known' keyed locked => ?_
            cases known.symm.trans known'
            have none : weakeningOf entry.rule override = none := by
              by_contra some
              obtain ⟨attempted, weakens⟩ := Option.ne_none_iff_exists'.mp some
              exact harmless attempted locked weakens
            obtain ⟨exclusions, agents, severity, enforcement⟩ := overridden_keeps locked none
            exact ⟨locked, rfl, rfl, rfl, .inr exclusions, agents, severity, enforcement⟩
          · exact .same

theorem entriesStep_applyWaiver (waiver : Waiver) :
    EntriesStep ctx.entries (applyWaiver level ctx waiver).entries := by
  unfold applyWaiver
  split
  · exact .same
  · rename_i entry known
    split
    · exact .same
    · split
      · exact .same
      · rename_i unlocked
        split
        · refine .update known (fun keyed => ⟨keyed.rule, keyed.disabled, fun applied member => ?_⟩)
            (fun _ locked => absurd locked unlocked)
          rcases List.mem_append.mp member with before | new
          · exact keyed.waivers applied before
          · rw [List.mem_singleton.mp new]
        · exact .same

theorem entriesStep_lockAdded (rule : LayerRule) :
    EntriesStep ctx.entries (lockAdded level ctx rule).entries := by
  unfold lockAdded
  split
  · refine entriesStep_updateRule ctx (fun _ => rfl) fun entry _ _ locked => ?_
    exact ⟨rfl, rfl, rfl, rfl, .inl rfl, fun _ member => member, le_rfl, .refl _⟩
  · exact .same

theorem entriesStep_lockListed (id : Text) :
    EntriesStep ctx.entries (lockListed layer ctx id).entries := by
  unfold lockListed
  split
  · exact .same
  · rename_i entry known
    split
    · exact .same
    · refine entriesStep_updateRule ctx (fun _ => rfl) fun entry' _ _ _ => ?_
      exact ⟨rfl, rfl, rfl, rfl, .inl rfl, fun _ member => member, le_rfl, .refl _⟩

end Operations

/-! ## Whole layers -/

/-- Entries reached from others by operations: well keyed when these are, and keeping
their locked entries. -/
structure EntriesRun (entries after : OrderedMap Text Entry) : Prop where
  wellKeyed : WellKeyed after
  keeps : KeepsLocked entries after

section Runs

variable {ctx final : Context}

theorem EntriesRun.refl (well : WellKeyed ctx.entries) : EntriesRun ctx.entries ctx.entries :=
  ⟨well, fun _ entry read locked => ⟨entry, read, .refl locked⟩⟩

theorem EntriesRun.trans {a b c : OrderedMap Text Entry} (first : EntriesRun a b)
    (second : EntriesRun b c) : EntriesRun a c :=
  ⟨second.wellKeyed, first.keeps.trans second.keeps⟩

/-- Operations that each make a step make a run. -/
theorem entriesRun_foldl {β : Type} {operation : Context → β → Context}
    (step : ∀ ctx item, WellKeyed ctx.entries → EntriesStep ctx.entries (operation ctx item).entries)
    (list : List β) (well : WellKeyed ctx.entries) :
    EntriesRun ctx.entries (list.foldl operation ctx).entries := by
  induction list generalizing ctx with
  | nil => exact .refl well
  | cons item list ih =>
    have first := step ctx item well
    have run : EntriesRun ctx.entries (operation ctx item).entries :=
      ⟨first.wellKeyed well, first.keeps well⟩
    exact run.trans (ih run.wellKeyed)

theorem entriesRun_foldlM {β : Type} {operation : Context → β → Except RulesError Context}
    (step : ∀ ctx item ctx', WellKeyed ctx.entries → operation ctx item = .ok ctx' →
      EntriesRun ctx.entries ctx'.entries)
    {list : List β} (well : WellKeyed ctx.entries) (done : list.foldlM operation ctx = .ok final) :
    EntriesRun ctx.entries final.entries := by
  induction list generalizing ctx with
  | nil =>
    cases done
    exact .refl well
  | cons item list ih =>
    rw [List.foldlM_cons, bind_eq_ok] at done
    obtain ⟨middle, first, rest⟩ := done
    have run := step ctx item middle well first
    exact run.trans (ih run.wellKeyed rest)

/-- **A layer keeps every locked entry.** -/
theorem entriesRun_composeLayer {layer : RuleLayer} (well : WellKeyed ctx.entries)
    (composed : composeLayer ctx layer = .ok final) : EntriesRun ctx.entries final.entries := by
  rw [composeLayer, map_eq_ok] at composed
  obtain ⟨added, adds, rfl⟩ := composed
  have first : EntriesRun ctx.entries added.entries := by
    refine entriesRun_foldlM (fun ctx rule ctx' well added => ?_) well adds
    have step := entriesStep_addOne layer ctx added
    exact ⟨step.wellKeyed well, step.keeps well⟩
  have second : EntriesRun added.entries (applyOverrides added layer).entries :=
    entriesRun_foldl (fun ctx override well => entriesStep_applyOverride layer.level ctx override well)
      _ first.wellKeyed
  have third : EntriesRun (applyOverrides added layer).entries
      (applyWaivers (applyOverrides added layer) layer).entries :=
    entriesRun_foldl (fun ctx waiver _ => entriesStep_applyWaiver layer.level ctx waiver) _
      second.wellKeyed
  have fourth := entriesRun_foldl (fun ctx rule _ => entriesStep_lockAdded layer.level ctx rule)
    (layer.add.getD []) third.wellKeyed
  have last := entriesRun_foldl (fun ctx id _ => entriesStep_lockListed layer ctx id)
    (layer.lock.getD []) fourth.wellKeyed
  exact (((first.trans second).trans third).trans fourth).trans last

theorem entriesRun_composeLayers {layers : List RuleLayer} (well : WellKeyed ctx.entries)
    (composed : composeLayers ctx layers = .ok final) : EntriesRun ctx.entries final.entries :=
  entriesRun_foldlM (fun _ _ _ well composed => entriesRun_composeLayer well composed) well composed

end Runs

/-- The entries of the catalog are well keyed. -/
theorem wellKeyed_initialContext (catalog : Catalog) (path today : Text) :
    WellKeyed (initialContext catalog path today).entries where
  distinct := OrderedMap.nodup_keys_ofEntries _
  keyed id entry read := by
    obtain ⟨rule, -, same⟩ := List.mem_map.mp (OrderedMap.mem_of_get_ofEntries read)
    cases same
    refine ⟨rfl, fun disabled none => ?_, fun waiver none => ?_⟩
    · cases none
    · cases none

/-- **A locked rule is never weakened by a lower layer.** Whatever the catalog and the
layers that compose, an entry locked after the upper layers is kept by the lower ones:
it exists, is locked, and is at least as strict. -/
theorem locked_rule_kept {catalog : Catalog} {path today : Text} {upper lower : List RuleLayer}
    {final : Context}
    (composed : composeLayers (initialContext catalog path today) (upper ++ lower) = .ok final) :
    ∃ ctx, composeLayers (initialContext catalog path today) upper = .ok ctx ∧
      ∀ id entry, ctx.entries.get id = some entry → entry.rule.locked = true →
        ∃ kept, final.entries.get id = some kept ∧ LockKept entry kept := by
  obtain ⟨ctx, first, second⟩ := composeLayers_append.mp composed
  have before := entriesRun_composeLayers (wellKeyed_initialContext catalog path today) first
  exact ⟨ctx, first, (entriesRun_composeLayers before.wellKeyed second).keeps⟩

/-! ## A rule that excludes one path twice -/

/-- An advisory rule that excludes one path twice. -/
def twiceExcluded : LayerRule where
  id := Text.lit "x.a"
  title := Text.lit "A"
  description := Text.lit "A"
  profiles := [coreProfile]
  agents := [.developer]
  severity := .advisory
  isProtected := false
  enforcement := .instruction none
  paths := none
  excludePaths := some [Text.lit "a", Text.lit "a"]
  replaces := none

/-- The organization adds the rule and locks it. -/
def organizationLayer : RuleLayer :=
  ⟨.organization, none, none, some [twiceExcluded], none, none, some [twiceExcluded.id]⟩

/-- The project makes the rule blocking. -/
def projectLayer : RuleLayer :=
  ⟨.project, none, none, none,
    some [⟨twiceExcluded.id, Text.lit "jane", Text.lit "why", none, some .blocking, none, none, none,
      none, none⟩], none, none⟩

/-- The input with these two layers. -/
def hardeningInput : ResolveInput where
  catalog := ⟨Text.lit "1", [], [coreProfile], []⟩
  layers := [
    ⟨some (Text.lit "organization"), none, none, organizationLayer.add, none, none,
      organizationLayer.lock⟩,
    ⟨some (Text.lit "project"), none, none, none, projectLayer.override, none, none⟩]
  role := Text.lit "developer"
  path := Text.lit "src"
  now := Text.lit "2026-11-01"
  profiles := none
  packages := none

/-- The entries of its catalog. -/
def hardeningStart : Context :=
  initialContext hardeningInput.catalog (Text.lit "src") (Text.lit "2026-11-01")

/-- The rule that the organization locks is kept by the project. -/
theorem locked_rule_kept_hardening :
    ∃ ctx final entry kept, composeLayers hardeningStart [organizationLayer] = .ok ctx ∧
      composeLayers hardeningStart ([organizationLayer] ++ [projectLayer]) = .ok final ∧
        ctx.entries.get twiceExcluded.id = some entry ∧ entry.rule.locked = true ∧
          final.entries.get twiceExcluded.id = some kept ∧ LockKept entry kept := by
  have composed : composeLayers hardeningStart ([organizationLayer] ++ [projectLayer]) = .ok _ := rfl
  obtain ⟨ctx, first, keeps⟩ := locked_rule_kept composed
  have upper : composeLayers hardeningStart [organizationLayer] = .ok _ := rfl
  cases upper.symm.trans first
  obtain ⟨kept, read, lockKept⟩ := keeps twiceExcluded.id _ rfl rfl
  exact ⟨_, _, _, kept, upper, composed, rfl, rfl, read, lockKept⟩

/-- **A harmless override drops repeated exclusions** of a locked rule: the list of its
excluded paths changes, though not the paths that it excludes. -/
theorem locked_rule_exclusions_change :
    (resolveEffectiveRules (fun _ => []) hardeningInput).isOk = true ∧
      orderLayers (fun _ => []) hardeningInput.layers = .ok [organizationLayer, projectLayer] ∧
        ∃ ctx final entry kept, composeLayers hardeningStart [organizationLayer] = .ok ctx ∧
          composeLayers ctx [projectLayer] = .ok final ∧
            ctx.entries.get twiceExcluded.id = some entry ∧ entry.rule.locked = true ∧
              final.entries.get twiceExcluded.id = some kept ∧
                kept.rule.excludePaths ≠ entry.rule.excludePaths := by
  refine ⟨by decide, rfl, _, _, _, _, rfl, rfl, rfl, rfl, rfl, by decide⟩

end Koklo.Rules
