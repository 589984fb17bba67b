import Koklo.Webhook.Deliveries

/-!
# Settled deliveries and deleted installations

`begin` takes only a delivery that is not settled, but `settle` writes its result whatever the
status has become. In a run where each `settle` finds a delivery that is not settled, a settled
delivery keeps its status (`settled_deliveries_stay`); an execution that comes to its end after its
duplicate writes over a settled one (`settled_delivery_overwritten`).

In the same way `handleInstallation` reads the status first and writes it later without condition.
In a run where no installation is deleted between the two, a deleted installation stays deleted
(`deleted_installations_stay`); a late event brings one back (`deleted_installation_brought_back`).
-/

set_option autoImplicit false

namespace Koklo.Webhook

open Koklo.Foundations Koklo.Foundations.ReadCommitted

variable {retryLimit : ℕ}

/-! ## Deliveries -/

/-- A delivery stays deleted, and a settled one keeps its status. -/
def DeliveryRow.Follows (former row : DeliveryRow) : Prop :=
  (former.purged = true → row.purged = true) ∧
    (former.status.settled = true → row.status = former.status)

theorem DeliveryRow.Follows.trans (first second third : DeliveryRow)
    (before : first.Follows second) (after : second.Follows third) : first.Follows third := by
  refine ⟨fun gone => after.1 (before.1 gone), fun settled => ?_⟩
  have same := before.2 settled
  rw [← same] at settled ⊢
  exact after.2 settled

/-- A result is written on a delivery that is not settled, or that is gone. -/
def SettlesUnsettled (desk : WebhookDesk) : WebhookStep → Prop
  | .advance tx _ => ∀ execution ∈ desk.executions[tx]?, ∀ outcome,
      execution.phase = .settling outcome →
        ∀ row ∈ committedRow desk.deliveries execution.delivery,
          row.purged = true ∨ row.status.settled = false
  | _ => True

theorem follows_begin {delivery id : ℕ} {row : DeliveryRow}
    (chosen : (beginUpdate delivery).selects id row = true) :
    row.Follows ((beginUpdate delivery).change row) := by
  obtain ⟨_, _, unsettled⟩ := of_decide_eq_true chosen
  refine ⟨fun gone => gone, fun settled => ?_⟩
  rcases unsettled with status | status | status <;> rw [status] at settled <;> cases settled

theorem follows_purge {selects : ℕ → DeliveryRow → Bool} {row : DeliveryRow} :
    row.Follows ((purgeUpdate selects).change row) :=
  ⟨fun _ => rfl, fun _ => rfl⟩

/-- A delivery that is written in a transaction of its own. -/
theorem WebhookDesk.proceeds_updateDelivery {desk next : WebhookDesk} {tx : ℕ}
    {update : Update DeliveryRow} (orderly : Orderly DeliveryRow.Follows desk.deliveries)
    (leads : ∀ id former row, committedRow desk.deliveries id = some former →
      (id, row) ∈ visible desk.deliveries tx → update.selects id row = true →
      former.Follows (update.change row))
    (made : desk.updateDelivery tx update = some next) :
    Proceeds DeliveryRow.Follows desk.deliveries next.deliveries := by
  obtain ⟨deliveries, written, rfl⟩ := Option.map_eq_some_iff.mp made
  exact orderly.autocommit leads written

/-- **Each step keeps the status of a settled delivery**, when a result is written only on one
that is not settled. -/
theorem deliveries_proceed {desk next : WebhookDesk} {label : WebhookStep}
    (orderly : Orderly DeliveryRow.Follows desk.deliveries) (allowed : SettlesUnsettled desk label)
    (taken : webhookStep retryLimit desk label = some next) :
    Proceeds DeliveryRow.Follows desk.deliveries next.deliveries := by
  cases label with
  | receive row =>
    cases taken
    exact orderly.grow
  | remove delivery =>
    refine WebhookDesk.proceeds_updateDelivery orderly ?_ taken
    exact orderly.leads_of_visible DeliveryRow.Follows.trans fun _ _ _ _ => follows_purge
  | link row | execute delivery retryCount =>
    cases taken
    exact orderly.refl
  | advance tx outcome =>
    obtain ⟨execution, found, went⟩ := Option.bind_eq_some_iff.mp taken
    rw [WebhookDesk.advance] at went
    split at went
    · cases went
      exact orderly.refl
    · obtain ⟨written, made, rfl⟩ := Option.map_eq_some_iff.mp went
      suffices moved : Proceeds DeliveryRow.Follows desk.deliveries written.deliveries from moved
      refine WebhookDesk.proceeds_updateDelivery orderly ?_ made
      exact orderly.leads_of_visible DeliveryRow.Follows.trans fun _ _ _ => follows_begin
    · cases went
      exact orderly.refl
    · cases went
      exact orderly.refl
    · cases went
      exact orderly.refl
    · obtain ⟨installations, _, rfl⟩ := Option.map_eq_some_iff.mp went
      exact orderly.refl
    · cases went
      exact orderly.refl
    · obtain ⟨deliveries, applied, rfl⟩ := Option.map_eq_some_iff.mp went
      refine orderly.applyUpdate ?_ applied
      exact orderly.leads_of_visible DeliveryRow.Follows.trans fun _ _ _ _ => follows_purge
    · cases went
      exact orderly.commit tx
    · cases went
      exact orderly.refl
    · rename_i result phase
      obtain ⟨written, made, rfl⟩ := Option.map_eq_some_iff.mp went
      suffices moved : Proceeds DeliveryRow.Follows desk.deliveries written.deliveries from moved
      refine WebhookDesk.proceeds_updateDelivery orderly ?_ made
      intro id former row known seen chosen
      obtain ⟨rfl, there⟩ := of_decide_eq_true chosen
      have kept : former.purged = true → row.purged = true := by
        rcases mem_visible_iff.mp seen with written | ⟨_, same⟩
        · exact (orderly tx _ former row known written).1
        · rw [known] at same
          cases same
          exact fun gone => gone
      rcases allowed execution found result phase former known with gone | unsettled
      · -- The row that the statement sees is gone as well, so it is not selected.
        rw [kept gone] at there
        cases there
      · refine ⟨kept, fun settled => ?_⟩
        rw [unsettled] at settled
        cases settled
    · cases went
  | fail tx error =>
    obtain ⟨execution, _, failed⟩ := Option.bind_eq_some_iff.mp taken
    rw [WebhookDesk.fail] at failed
    split at failed <;> cases failed <;> first | exact orderly.refl | exact orderly.abort tx
  | stop tx =>
    cases taken
    exact orderly.abort tx

/-- **A settled delivery keeps its status**, in every run where a result is written only on a
delivery that is not settled. -/
theorem settled_deliveries_stay {start mid last : WebhookDesk} {first rest : List WebhookStep}
    (fresh : start.Fresh)
    (along : Along (webhookStep retryLimit) SettlesUnsettled start (first ++ rest))
    (reached : run (webhookStep retryLimit) start first = some mid)
    (onward : run (webhookStep retryLimit) mid rest = some last)
    {delivery : ℕ} {row : DeliveryRow} (known : committedRow mid.deliveries delivery = some row)
    (settled : row.status = .processed ∨ row.status = .ignored) :
    ∃ later, committedRow last.deliveries delivery = some later ∧ later.status = row.status := by
  obtain ⟨before, after⟩ := along.split reached
  have proceeds : ∀ s label next, True → Orderly DeliveryRow.Follows s.deliveries →
      SettlesUnsettled s label → webhookStep retryLimit s label = some next →
      Proceeds DeliveryRow.Follows s.deliveries next.deliveries :=
    fun _ _ _ _ orderly allowed taken => deliveries_proceed orderly allowed taken
  obtain ⟨_, orderly⟩ := run_orderly (fun _ _ _ _ _ => trivial) proceeds trivial
    (.of_free fresh.deliveries) before reached
  obtain ⟨later, found, led⟩ := run_succeeds DeliveryRow.Follows.trans (fun _ _ _ _ _ => trivial)
    proceeds trivial orderly after onward delivery row known
  refine ⟨later, found, ?_⟩
  rcases led with rfl | follows
  · rfl
  · apply follows.2
    rcases settled with status | status <;> rw [status] <;> rfl

/-- A new delivery. -/
def newDelivery (event : WebhookKind) (fields : List (String × String)) : DeliveryRow :=
  ⟨event, some (Text.lit "42"),
    .record ((Text.lit "event", .text event.text) ::
      (Text.lit "installationId", .text (Text.lit "42")) ::
      (Text.lit "deleted", .bool false) ::
      fields.map fun field => (Text.lit field.1, .text (Text.lit field.2))),
    .received, 0, none, false⟩

/-- The delivery of a push. -/
def pushDesk : WebhookDesk where
  deliveries := [⟨some (newDelivery .push
    [("repositoryId", "7"), ("ref", "refs/heads/main"), ("after", "c0ffee")]), none⟩]
  installations := []
  audits := []
  executions := []

theorem pushDesk_fresh : pushDesk.Fresh where
  deliveries slot member := by rw [List.mem_singleton.mp member]
  installations := nofun
  executions := rfl

/-- An execution that does not settle anything yet. -/
theorem settlesUnsettled_of_phase {desk : WebhookDesk} {tx : ℕ} {execution : DeliveryExecution}
    {outcome : DeliveryOutcome} (found : desk.executions[tx]? = some execution)
    (phase : ∀ result, execution.phase ≠ .settling result) :
    SettlesUnsettled desk (.advance tx outcome) := by
  intro other found' result settling
  rw [found] at found'
  cases found'
  exact absurd settling (phase result)

/-- A delivery that is executed to its end, and then once more. -/
theorem settled_deliveries_stay_again :
    ∃ mid last, run (webhookStep 4) pushDesk
        (.execute 0 0 :: List.replicate 5 (.advance 0 .processed)) = some mid ∧
      run (webhookStep 4) mid [.execute 0 1, .advance 1 .processed] = some last ∧
      ∃ later, committedRow last.deliveries 0 = some later ∧ later.status = .processed := by
  have along : Along (webhookStep 4) SettlesUnsettled pushDesk
      (.execute 0 0 :: List.replicate 5 (.advance 0 .processed) ++
        [.execute 0 1, .advance 1 .processed]) := by
    refine .of_step rfl trivial (.of_step rfl ?_ (.of_step rfl ?_ (.of_step rfl ?_ (.of_step rfl ?_
      (.of_step rfl ?_ (.of_step rfl trivial (.of_step rfl ?_ trivial)))))))
    · exact settlesUnsettled_of_phase rfl nofun
    · exact settlesUnsettled_of_phase rfl nofun
    · exact settlesUnsettled_of_phase rfl nofun
    · exact settlesUnsettled_of_phase rfl nofun
    · intro execution found result _ row known
      cases found
      cases known
      exact .inr rfl
    · exact settlesUnsettled_of_phase rfl nofun
  have stays := @settled_deliveries_stay 4 _ _ _ _ _ pushDesk_fresh along rfl rfl 0 _ rfl (.inl rfl)
  exact ⟨_, _, rfl, rfl, stays⟩

/-- **A settled delivery is written over**: two executions begin the same delivery, the second one
settles it as processed, and the first one, which does not find the repository, as failed. -/
theorem settled_delivery_overwritten :
    pushDesk.Fresh ∧ ∃ mid last, run (webhookStep 4) pushDesk
        [.execute 0 0, .advance 0 .processed, .advance 0 .processed, .execute 0 1,
          .advance 1 .processed, .advance 1 .processed, .advance 0 .processed,
          .advance 1 .processed, .advance 1 .processed, .advance 1 .processed] = some mid ∧
      run (webhookStep 4) mid [.fail 0 .gitNotFound, .advance 0 .processed] = some last ∧
      (committedRow mid.deliveries 0).map DeliveryRow.status = some .processed ∧
      (committedRow last.deliveries 0).map DeliveryRow.status = some .failed :=
  ⟨pushDesk_fresh, _, _, rfl, rfl, rfl, rfl⟩

/-! ## Installations -/

/-- A deleted installation stays deleted. -/
def InstallationRow.Follows (former row : InstallationRow) : Prop :=
  former.status = .deleted → row.status = .deleted

theorem InstallationRow.Follows.trans (first second third : InstallationRow)
    (before : first.Follows second) (after : second.Follows third) : first.Follows third :=
  fun deleted => after (before deleted)

/-- A status other than `deleted` is written on an installation that is not deleted. -/
def UpdatesUndeleted (desk : WebhookDesk) : WebhookStep → Prop
  | .advance tx _ => ∀ execution ∈ desk.executions[tx]?, ∀ change,
      execution.phase = .updating change → change.status ≠ .deleted →
        ∀ row ∈ committedRow desk.installations change.installation, row.status ≠ .deleted
  | _ => True

/-- **Each step keeps a deleted installation deleted**, when another status is written only on one
that is not. -/
theorem installations_proceed {desk next : WebhookDesk} {label : WebhookStep}
    (orderly : Orderly InstallationRow.Follows desk.installations)
    (allowed : UpdatesUndeleted desk label)
    (taken : webhookStep retryLimit desk label = some next) :
    Proceeds InstallationRow.Follows desk.installations next.installations := by
  cases label with
  | receive row | execute delivery retryCount =>
    cases taken
    exact orderly.refl
  | remove delivery =>
    obtain ⟨_, _, rfl⟩ := Option.map_eq_some_iff.mp taken
    exact orderly.refl
  | link row =>
    cases taken
    exact orderly.grow
  | advance tx outcome =>
    obtain ⟨execution, found, went⟩ := Option.bind_eq_some_iff.mp taken
    rw [WebhookDesk.advance] at went
    split at went
    case h_6 change phase =>
      obtain ⟨installations, applied, rfl⟩ := Option.map_eq_some_iff.mp went
      refine orderly.applyUpdate ?_ applied
      intro id former row known seen chosen deleted
      obtain ⟨rfl, _⟩ := of_decide_eq_true chosen
      by_contra other
      exact allowed execution found change phase other former known deleted
    case h_9 =>
      cases went
      exact orderly.commit tx
    case h_2 | h_11 =>
      obtain ⟨written, made, rfl⟩ := Option.map_eq_some_iff.mp went
      obtain ⟨_, _, rfl⟩ := Option.map_eq_some_iff.mp made
      exact orderly.refl
    case h_8 =>
      obtain ⟨_, _, rfl⟩ := Option.map_eq_some_iff.mp went
      exact orderly.refl
    all_goals
      cases went
      try exact orderly.refl
  | fail tx error =>
    obtain ⟨execution, _, failed⟩ := Option.bind_eq_some_iff.mp taken
    rw [WebhookDesk.fail] at failed
    split at failed <;> cases failed <;> first | exact orderly.refl | exact orderly.abort tx
  | stop tx =>
    cases taken
    exact orderly.abort tx

/-- **A deleted installation stays deleted**, and no open transaction has written another status
for it, in every run where a status is written only on an installation that is not deleted. -/
theorem deleted_installations_stay {start mid last : WebhookDesk} {first rest : List WebhookStep}
    (fresh : start.Fresh)
    (along : Along (webhookStep retryLimit) UpdatesUndeleted start (first ++ rest))
    (reached : run (webhookStep retryLimit) start first = some mid)
    (onward : run (webhookStep retryLimit) mid rest = some last)
    {installation : ℕ} {row : InstallationRow}
    (known : committedRow mid.installations installation = some row)
    (deleted : row.status = .deleted) :
    (∃ later, committedRow last.installations installation = some later ∧
        later.status = .deleted) ∧
      ∀ tx version, pendingRow last.installations tx installation = some version →
        version.status = .deleted := by
  obtain ⟨before, after⟩ := along.split reached
  have proceeds : ∀ s label next, True → Orderly InstallationRow.Follows s.installations →
      UpdatesUndeleted s label → webhookStep retryLimit s label = some next →
      Proceeds InstallationRow.Follows s.installations next.installations :=
    fun _ _ _ _ orderly allowed taken => installations_proceed orderly allowed taken
  have kept : ∀ (s : WebhookDesk) (label : WebhookStep) (next : WebhookDesk), True →
      webhookStep retryLimit s label = some next → True := fun _ _ _ _ _ => trivial
  obtain ⟨_, orderly⟩ := run_orderly kept proceeds trivial (.of_free fresh.installations) before
    reached
  obtain ⟨_, orderly'⟩ := run_orderly kept proceeds trivial orderly after onward
  obtain ⟨later, found, led⟩ := run_succeeds InstallationRow.Follows.trans kept proceeds trivial
    orderly after onward installation row known
  have stays : later.status = .deleted := by
    rcases led with rfl | follows
    · exact deleted
    · exact follows deleted
  exact ⟨⟨later, found, stays⟩, fun tx version written =>
    orderly' tx installation later version found written stays⟩

/-- An active installation, with the delivery of an event that suspends it and of one that says it
was deleted. -/
def linkedDesk : WebhookDesk where
  deliveries := [⟨some (newDelivery .installation [("action", "suspend")]), none⟩,
    ⟨some (newDelivery .installation [("action", "deleted")]), none⟩]
  installations := [⟨some ⟨Text.lit "acme", Text.lit "42", .active⟩, none⟩]
  audits := []
  executions := []

theorem linkedDesk_fresh : linkedDesk.Fresh where
  deliveries slot member := by
    rcases List.mem_pair.mp member with rfl | rfl <;> rfl
  installations slot member := by rw [List.mem_singleton.mp member]
  executions := rfl

/-- An execution that does not change a status, or changes it to `deleted`. -/
theorem updatesUndeleted_of_phase {desk : WebhookDesk} {tx : ℕ} {execution : DeliveryExecution}
    {outcome : DeliveryOutcome} (found : desk.executions[tx]? = some execution)
    (phase : ∀ change, execution.phase = .updating change → change.status = .deleted) :
    UpdatesUndeleted desk (.advance tx outcome) := by
  intro other found' change updating apart
  rw [found] at found'
  cases found'
  exact absurd (phase change updating) apart

/-- An installation that is deleted, and a new event that would suspend it. -/
theorem deleted_installations_stay_late :
    ∃ mid last, run (webhookStep 4) linkedDesk
        (.execute 1 0 :: List.replicate 8 (.advance 0 .processed)) = some mid ∧
      run (webhookStep 4) mid
        (.receive (newDelivery .installation [("action", "suspend")]) :: .execute 2 0 ::
          List.replicate 5 (.advance 1 .processed)) = some last ∧
      ∃ later, committedRow last.installations 0 = some later ∧ later.status = .deleted := by
  have along : Along (webhookStep 4) UpdatesUndeleted linkedDesk
      ((.execute 1 0 :: List.replicate 8 (.advance 0 .processed)) ++
        (.receive (newDelivery .installation [("action", "suspend")]) :: .execute 2 0 ::
          List.replicate 5 (.advance 1 .processed))) := by
    refine .of_step rfl trivial (.of_step rfl ?_ (.of_step rfl ?_ (.of_step rfl ?_ (.of_step rfl ?_
      (.of_step rfl ?_ (.of_step rfl ?_ (.of_step rfl ?_ (.of_step rfl ?_ (.of_step rfl trivial
        (.of_step rfl trivial (.of_step rfl ?_ (.of_step rfl ?_ (.of_step rfl ?_ (.of_step rfl ?_
          (.of_step rfl ?_ trivial)))))))))))))))
    case refine_5 =>
      refine updatesUndeleted_of_phase rfl fun change updating => ?_
      cases updating
      rfl
    all_goals exact updatesUndeleted_of_phase rfl nofun
  exact ⟨_, _, rfl, rfl, (deleted_installations_stay linkedDesk_fresh along rfl rfl rfl rfl).1⟩

/-- **A deleted installation is brought back**: the event that suspends it reads it active, the
deletion is committed, and the suspension is written over it. -/
theorem deleted_installation_brought_back :
    linkedDesk.Fresh ∧ ∃ mid last, run (webhookStep 4) linkedDesk
        (.execute 0 0 :: List.replicate 4 (.advance 0 .processed) ++
          .execute 1 0 :: List.replicate 8 (.advance 1 .processed)) = some mid ∧
      run (webhookStep 4) mid (List.replicate 3 (.advance 0 .processed)) = some last ∧
      (committedRow mid.installations 0).map InstallationRow.status = some .deleted ∧
      (committedRow last.installations 0).map InstallationRow.status = some .suspended :=
  ⟨linkedDesk_fresh, _, _, rfl, rfl, rfl, rfl⟩

end Koklo.Webhook
