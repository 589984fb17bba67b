import Koklo.Crypto.Rotation
import Mathlib.Data.ZMod.Defs

/-!
# A rotation loses no secret

Whatever is written or removed meanwhile, and wherever the rotation stops, a row is read by the ring
as what was last written in it. This rests on what a rotation holds about the rows it has listed
(`RotationPhase.Sound`): their columns stay, so a row that still holds the listed secret is read as
the plaintext that was encrypted again.
-/

set_option autoImplicit false

namespace Koklo.Crypto

open Koklo.Foundations

/-! ## What becomes of the rows -/

/-- The rows keep their columns and stay readable, and are written under the current key only. -/
structure Evolves (ring : KeyRing) (before after : List (Option Entry)) : Prop where
  length : before.length ≤ after.length
  entries : ∀ {id : ℕ} {entry : Entry}, id < before.length → after[id]? = some (some entry) →
    ∃ former : Entry, before[id]? = some (some former) ∧ entry.row.table = former.row.table ∧
      entry.row.owner = former.row.owner ∧
      (former.plaintext.isSome = true → entry.plaintext.isSome = true) ∧
      (entry.row.secret = former.row.secret ∨
        entry.row.secret.keyVersion = ring.current.version)

/-- A listed row keeps its columns. -/
def Known (rows : List (Option Entry)) (found : ℕ × StoredRow) : Prop :=
  found.1 < rows.length ∧ ∀ entry : Entry, rows[found.1]? = some (some entry) →
    entry.row.table = found.2.table ∧ entry.row.owner = found.2.owner

/-- A row that is left is under the current key. -/
def UnderCurrent (ring : KeyRing) (rows : List (Option Entry)) (id : ℕ) : Prop :=
  id < rows.length ∧ ∀ entry : Entry, rows[id]? = some (some entry) →
    entry.row.secret.keyVersion = ring.current.version

section

variable {aes : Aes} {ring : KeyRing} {before after : List (Option Entry)}

theorem Evolves.refl (rows : List (Option Entry)) : Evolves ring rows rows where
  length := le_rfl
  entries := fun _ found => ⟨_, found, rfl, rfl, id, .inl rfl⟩

theorem Evolves.known (evolves : Evolves ring before after) {found : ℕ × StoredRow}
    (known : Known before found) : Known after found := by
  obtain ⟨inside, columns⟩ := known
  refine ⟨inside.trans_le evolves.length, fun entry later => ?_⟩
  obtain ⟨former, earlier, table, owner, _⟩ := evolves.entries inside later
  obtain ⟨table', owner'⟩ := columns former earlier
  exact ⟨table.trans table', owner.trans owner'⟩

theorem Evolves.underCurrent (evolves : Evolves ring before after) {id : ℕ}
    (current : UnderCurrent ring before id) : UnderCurrent ring after id := by
  obtain ⟨inside, versions⟩ := current
  refine ⟨inside.trans_le evolves.length, fun entry later => ?_⟩
  obtain ⟨former, earlier, _, _, _, same | rotated⟩ := evolves.entries inside later
  · rw [same]
    exact versions former earlier
  · exact rotated

theorem StoredRow.aad_congr {row other : StoredRow} (table : row.table = other.table)
    (owner : row.owner = other.owner) : row.aad = other.aad := by
  rw [aad, aad, table, owner]

/-! ## The writes -/

theorem getElem?_remove {rows : List (Option Entry)} {id other : ℕ} {entry : Entry}
    (found : (rows.set id none)[other]? = some (some entry)) :
    rows[other]? = some (some entry) := by
  rw [List.getElem?_set] at found
  split at found
  · split at found
    · cases found
    · cases found
  · exact found

theorem evolves_remove (rows : List (Option Entry)) (id : ℕ) :
    Evolves ring rows (rows.set id none) where
  length := List.length_set.ge
  entries := fun _ found => ⟨_, getElem?_remove found, rfl, rfl, fun known => known, .inl rfl⟩

/-- The rows after a write of a listed one. -/
theorem getElem?_writeSecret {state : CryptoState} {id other : ℕ} {next : EncryptedSecret}
    {entry : Entry} (found : (state.writeSecret id next)[other]? = some (some entry)) :
    (other ≠ id ∧ state.rows[other]? = some (some entry)) ∨
      other = id ∧ ∃ former : Entry, state.rows[id]? = some (some former) ∧
        entry = { former with row := { former.row with secret := next } } := by
  rw [CryptoState.writeSecret, List.getElem?_modify] at found
  obtain ⟨known, same, written⟩ := Option.map_eq_some_iff.mp found
  by_cases mine : id = other
  · rw [if_pos mine] at written
    obtain ⟨former, former_, made⟩ := Option.map_eq_some_iff.mp written
    rw [former_, ← mine] at same
    exact .inr ⟨mine.symm, former, same, made.symm⟩
  · rw [if_neg mine] at written
    rw [written] at same
    exact .inl ⟨Ne.symm mine, same⟩

theorem evolves_writeSecret {state : CryptoState} {id : ℕ} {next : EncryptedSecret}
    (current : next.keyVersion = ring.current.version) :
    Evolves ring state.rows (state.writeSecret id next) where
  length := (List.length_modify _ _ _).ge
  entries := by
    intro other entry inside found
    rcases getElem?_writeSecret found with ⟨_, same⟩ | ⟨rfl, former, known, rfl⟩
    · exact ⟨entry, same, rfl, rfl, fun readable => readable, .inl rfl⟩
    · exact ⟨former, known, rfl, rfl, fun readable => readable, .inr current⟩

/-- The entry of a normal write. -/
def saved (aes : Aes) (ring : KeyRing) (table : RotationTableKey) (owner : Text × Text)
    (plaintext : Text) (nonce : List Byte) : Entry :=
  ⟨⟨table, owner, ring.encrypt aes nonce plaintext (StoredRow.mk table owner ⟨[], [], 0⟩).aad⟩,
    some (Text.carried plaintext)⟩

/-- The rows after a normal write: those before, and the one that is written. -/
theorem getElem?_save {state : CryptoState} {table : RotationTableKey} {owner : Text × Text}
    {plaintext : Text} {nonce : List Byte} {id : ℕ} {entry : Entry}
    (found : (state.save aes ring table owner plaintext nonce).rows[id]? = some (some entry)) :
    state.rows[id]? = some (some entry) ∨
      entry = saved aes ring table owner plaintext nonce ∧
        admits table entry.row.secret = true ∧
        ∀ former, state.rows[id]? = some former → ∃ known : Entry, former = some known ∧
          known.row.table = table ∧ known.row.owner = owner := by
  rw [CryptoState.save] at found
  split at found
  · exact .inl found
  rename_i admitted
  have admitted := Bool.eq_true_of_not_eq_false admitted
  split at found
  · rw [List.getElem?_map] at found
    obtain ⟨former, known, written⟩ := Option.map_eq_some_iff.mp found
    split at written
    · rename_i mine
      cases written
      refine .inr ⟨rfl, admitted, fun again same => ?_⟩
      rw [known] at same
      cases same
      obtain ⟨entry, rfl, columns⟩ := (Option.any_eq_true _ _).mp mine
      exact ⟨entry, rfl, of_decide_eq_true columns⟩
    · rw [written] at known
      exact .inl known
  · rcases Nat.lt_or_ge id state.rows.length with inside | outside
    · rw [List.getElem?_append_left inside] at found
      exact .inl found
    · rw [List.getElem?_append_right outside] at found
      obtain ⟨_, same⟩ := List.getElem?_eq_some_iff.mp found
      rw [List.getElem_singleton] at same
      cases same
      refine .inr ⟨rfl, admitted, fun former known => ?_⟩
      rw [List.getElem?_eq_none outside] at known
      cases known

theorem length_save (state : CryptoState) (table : RotationTableKey) (owner : Text × Text)
    (plaintext : Text) (nonce : List Byte) :
    state.rows.length ≤ (state.save aes ring table owner plaintext nonce).rows.length := by
  rw [CryptoState.save]
  split
  · exact le_rfl
  split
  · exact (List.length_map _).ge
  · rw [List.length_append]
    exact Nat.le_add_right _ _

theorem evolves_save (state : CryptoState) (table : RotationTableKey) (owner : Text × Text)
    (plaintext : Text) (nonce : List Byte) :
    Evolves ring state.rows (state.save aes ring table owner plaintext nonce).rows where
  length := length_save state table owner plaintext nonce
  entries := by
    intro id entry inside found
    rcases getElem?_save found with same | ⟨rfl, _, columns⟩
    · exact ⟨entry, same, rfl, rfl, fun readable => readable, .inl rfl⟩
    · obtain ⟨former, same, table_, owner_⟩ := columns _ (List.getElem?_eq_getElem inside)
      have known := (List.getElem?_eq_getElem inside).trans (congrArg some same)
      exact ⟨former, known, table_.symm, owner_.symm, fun _ => rfl, .inr rfl⟩

/-! ## What a rotation holds -/

/-- The counts of the rows that are done, with those that are left. -/
def TableRotationReport.Balanced (counts : TableRotationReport) (left : ℕ) : Prop :=
  counts.scanned =
    counts.rotated.length + counts.alreadyCurrent + counts.failed + counts.conflicts + left

/-- What a rotation counted and what it is about to write. -/
def RotationPhase.Sound (aes : Aes) (ring : KeyRing) (dryRun : Bool) (rows : List (Option Entry)) :
    RotationPhase → Prop
  | listed _ outdated => ∀ found ∈ outdated, Known rows found
  | looping _ left counts => (∀ found ∈ left, Known rows found) ∧
      counts.Balanced left.length ∧
      (dryRun = false → ∀ id ∈ counts.rotated, UnderCurrent ring rows id)
  | swapping _ id row next left counts =>
      dryRun = false ∧ Known rows (id, row) ∧
      (∃ plaintext nonce, ring.decrypt aes row.secret row.aad = some plaintext ∧
        nonce.length = nonceBytes ∧ next = ring.encrypt aes nonce plaintext row.aad) ∧
      (∀ found ∈ left, Known rows found) ∧ counts.Balanced (left.length + 1) ∧
      (dryRun = false → ∀ id ∈ counts.rotated, UnderCurrent ring rows id)
  | _ => True

/-- Every row that was sealed from a text is opened to it by the ring, and so will it be after the
step under way; the reports count what was rotated. -/
structure CryptoState.Safe (aes : Aes) (ring : KeyRing) (dryRun : Bool) (state : CryptoState) :
    Prop where
  readable : ∀ {id : ℕ} {entry : Entry} {plaintext : Text}, state.rows[id]? = some (some entry) →
    entry.plaintext = some plaintext →
    ring.decrypt aes entry.row.secret entry.row.aad = some plaintext
  phase : state.phase.Sound aes ring dryRun state.rows
  reports : ∀ counts ∈ state.reports, counts.Balanced 0 ∧
    (dryRun = false → ∀ id ∈ counts.rotated, UnderCurrent ring state.rows id)

variable {dryRun : Bool} {state next : CryptoState}

theorem RotationPhase.Sound.mono {phase : RotationPhase} (sound : phase.Sound aes ring dryRun before)
    (evolves : Evolves ring before after) : phase.Sound aes ring dryRun after := by
  cases phase with
  | checking tables => trivial
  | listing table => trivial
  | listed table outdated => exact fun found member => evolves.known (sound found member)
  | looping table left counts =>
    obtain ⟨known, balanced, rotated⟩ := sound
    exact ⟨fun found member => evolves.known (known found member), balanced,
      fun real id member => evolves.underCurrent (rotated real id member)⟩
  | swapping table id row next left counts =>
    obtain ⟨real, mine, written, known, balanced, rotated⟩ := sound
    exact ⟨real, evolves.known mine, written, fun found member => evolves.known (known found member),
      balanced, fun real id member => evolves.underCurrent (rotated real id member)⟩
  | finished => trivial
  | refused => trivial
  | crashed => trivial

/-- A step that leaves the rows keeps the state safe when its new phase is sound. -/
theorem CryptoState.Safe.setPhase (safe : state.Safe aes ring dryRun) {phase : RotationPhase}
    (sound : phase.Sound aes ring dryRun state.rows) :
    { state with phase := phase }.Safe aes ring dryRun where
  readable := safe.readable
  phase := sound
  reports := safe.reports

theorem mem_list {table : RotationTableKey} {test : ℤ → Bool} {found : ℕ × StoredRow}
    (member : found ∈ state.list table test) :
    ∃ entry : Entry, state.rows[found.1]? = some (some entry) ∧ entry.row = found.2 := by
  obtain ⟨⟨slot, id⟩, known, listed⟩ := List.mem_filterMap.mp member
  obtain ⟨entry, rfl, made⟩ := Option.bind_eq_some_iff.mp listed
  split at made
  · cases made
    exact ⟨entry, List.mem_zipIdx_iff_getElem?.mp known, rfl⟩
  · cases made

theorem known_of_mem_list {table : RotationTableKey} {test : ℤ → Bool} {found : ℕ × StoredRow}
    (member : found ∈ state.list table test) : Known state.rows found := by
  obtain ⟨entry, known, same⟩ := mem_list member
  obtain ⟨inside, _⟩ := List.getElem?_eq_some_iff.mp known
  refine ⟨inside, fun other again => ?_⟩
  rw [known] at again
  cases again
  rw [same]
  exact ⟨rfl, rfl⟩

theorem countP_add_countP_not {α : Type} (test : α → Bool) (l : List α) :
    l.countP test + l.countP (fun a => !test a) = l.length := by
  rw [List.length_eq_countP_add_countP test]
  congr 2
  funext a
  cases test a <;> rfl

theorem balanced_verifyCurrent (outdated current : List (ℕ × StoredRow)) :
    (verifyCurrent aes ring outdated current).Balanced outdated.length := by
  have parts := countP_add_countP_not
    (fun found : ℕ × StoredRow => (ring.decrypt aes found.2.secret found.2.aad).isSome) current
  rw [TableRotationReport.Balanced, verifyCurrent]
  dsimp only [List.length_nil] at parts ⊢
  omega

/-- **What the next row becomes**: it fails, or it is counted or about to be written. -/
theorem nextRow_sound (table : RotationTableKey) {id : ℕ} {row : StoredRow}
    {left : List (ℕ × StoredRow)} {counts : TableRotationReport} {nonce : List Byte}
    {rows : List (Option Entry)} (fits : nonce.length = nonceBytes)
    (sound : (RotationPhase.looping table ((id, row) :: left) counts).Sound aes ring dryRun rows) :
    (nextRow aes ring dryRun table id row left counts nonce).Sound aes ring dryRun rows := by
  obtain ⟨known, balanced, rotated⟩ := sound
  obtain ⟨mine, others⟩ := List.forall_mem_cons.mp known
  rw [TableRotationReport.Balanced, List.length_cons] at balanced
  rw [nextRow]
  split
  · refine ⟨others, ?_, rotated⟩
    rw [TableRotationReport.Balanced]
    dsimp only
    omega
  · rename_i plaintext decrypted
    split
    · rename_i dry
      refine ⟨others, ?_, fun real => ?_⟩
      · rw [TableRotationReport.Balanced, List.length_append, List.length_singleton]
        dsimp only
        omega
      · rw [dry] at real
        cases real
    · rename_i real
      exact ⟨Bool.eq_false_iff.mpr real, mine, ⟨plaintext, nonce, decrypted, fits, rfl⟩, others,
        balanced, rotated⟩

theorem long_of_admits {table : RotationTableKey} {secret : EncryptedSecret}
    (admitted : admits table secret = true) : tagBytes < secret.ciphertext.length := by
  rw [admits, Bool.and_eq_true, Bool.and_eq_true] at admitted
  exact of_decide_eq_true admitted.1.2

/-- **A write of a listed row keeps every row readable**: the row that it changes still held what
was listed, so its plaintext is the one that was encrypted again. -/
theorem CryptoState.Safe.writeSecret (correct : aes.Correct) (safe : state.Safe aes ring dryRun)
    {id : ℕ} {row : StoredRow} {next : EncryptedSecret} (mine : Known state.rows (id, row))
    (written : ∃ plaintext nonce, ring.decrypt aes row.secret row.aad = some plaintext ∧
      nonce.length = nonceBytes ∧ next = ring.encrypt aes nonce plaintext row.aad)
    (holds : state.holds id row = true) (long : tagBytes < next.ciphertext.length)
    {phase : RotationPhase}
    (sound : phase.Sound aes ring dryRun (state.writeSecret id next)) :
    (CryptoState.mk (state.writeSecret id next) phase state.reports).Safe aes ring dryRun := by
  obtain ⟨plaintext, nonce, decrypted, fits, rfl⟩ := written
  have evolves : Evolves ring state.rows
      (state.writeSecret id (ring.encrypt aes nonce plaintext row.aad)) := evolves_writeSecret rfl
  constructor
  · intro other entry latest found known
    rcases getElem?_writeSecret found with ⟨_, same⟩ | ⟨rfl, former, before_, rfl⟩
    · exact safe.readable same known
    · have read := safe.readable before_ known
      obtain ⟨table, owner⟩ := mine.2 former before_
      have data : former.row.aad = row.aad := StoredRow.aad_congr table owner
      have secret : former.row.secret = row.secret := by
        rw [CryptoState.holds, before_] at holds
        exact (of_decide_eq_true holds).2
      rw [secret, data, decrypted] at read
      cases read
      have again := KeyRing.decrypt_encrypt correct ring fits long
      rw [KeyRing.carried_of_decrypt decrypted] at again
      have same : StoredRow.aad { former.row with
          secret := ring.encrypt aes nonce plaintext row.aad } = row.aad := data
      rw [same]
      exact again
  · exact sound
  · intro counts member
    obtain ⟨balanced, rotated⟩ := safe.reports counts member
    exact ⟨balanced, fun real id member => evolves.underCurrent (rotated real id member)⟩

theorem CryptoState.Safe.swap (correct : aes.Correct) (safe : state.Safe aes ring dryRun)
    {table : RotationTableKey} {id : ℕ} {row : StoredRow} {next : EncryptedSecret}
    {left : List (ℕ × StoredRow)} {counts : TableRotationReport}
    (phase : state.phase = .swapping table id row next left counts) :
    (state.swap table id row next left counts).Safe aes ring dryRun := by
  have sound := safe.phase
  rw [phase] at sound
  obtain ⟨real, mine, written, others, balanced, rotated⟩ := sound
  rw [TableRotationReport.Balanced] at balanced
  rw [CryptoState.swap]
  split
  · apply safe.setPhase
    refine ⟨others, ?_, rotated⟩
    rw [TableRotationReport.Balanced]
    dsimp only
    omega
  rename_i holds
  split
  · rename_i admitted
    have current : next.keyVersion = ring.current.version := by
      obtain ⟨plaintext, nonce, _, _, rfl⟩ := written
      rfl
    have evolves : Evolves ring state.rows (state.writeSecret id next) :=
      evolves_writeSecret current
    apply safe.writeSecret correct mine written (Bool.eq_true_of_not_eq_false holds)
      (long_of_admits admitted)
    refine ⟨fun found member => evolves.known (others found member), ?_, fun real other member => ?_⟩
    · rw [TableRotationReport.Balanced, List.length_append, List.length_singleton]
      dsimp only
      omega
    · rcases List.mem_append.mp member with counted | last
      · exact evolves.underCurrent (rotated real other counted)
      · rw [List.mem_singleton.mp last]
        refine ⟨mine.1.trans_le evolves.length, fun entry found => ?_⟩
        rcases getElem?_writeSecret found with ⟨apart, _⟩ | ⟨_, _, _, rfl⟩
        · exact absurd rfl apart
        · exact current
  · apply safe.setPhase
    refine ⟨others, ?_, rotated⟩
    rw [TableRotationReport.Balanced]
    dsimp only
    omega

theorem CryptoState.Safe.swapFails (correct : aes.Correct) (safe : state.Safe aes ring dryRun)
    {made : Bool} (taken : state.swapFails made = some next) : next.Safe aes ring dryRun := by
  rw [CryptoState.swapFails] at taken
  split at taken
  · rename_i table id row written_ left counts phase
    have sound := safe.phase
    rw [phase] at sound
    obtain ⟨real, mine, written, others, balanced, rotated⟩ := sound
    rw [TableRotationReport.Balanced] at balanced
    have counted : TableRotationReport.Balanced { counts with failed := counts.failed + 1 }
        left.length := by
      rw [TableRotationReport.Balanced]
      dsimp only
      omega
    split at taken
    · rename_i done
      rw [Bool.and_eq_true, Bool.and_eq_true] at done
      cases taken
      have evolves : Evolves ring state.rows (state.writeSecret id written_) := by
        obtain ⟨plaintext, nonce, _, _, rfl⟩ := written
        exact evolves_writeSecret rfl
      apply safe.writeSecret correct mine written done.1.2 (long_of_admits done.2)
      exact ⟨fun found member => evolves.known (others found member), counted,
        fun real other member => evolves.underCurrent (rotated real other member)⟩
    · cases taken
      exact safe.setPhase ⟨others, counted, rotated⟩
  · cases taken

theorem CryptoState.Safe.endTable (safe : state.Safe aes ring dryRun) {table : RotationTableKey}
    {counts : TableRotationReport} (phase : state.phase = .looping table [] counts) :
    (state.endTable table counts).Safe aes ring dryRun := by
  have sound := safe.phase
  rw [phase] at sound
  obtain ⟨_, balanced, rotated⟩ := sound
  constructor
  · exact safe.readable
  · cases table with
    | llm => trivial
    | userTokens => trivial
  · intro other member
    rcases List.mem_append.mp member with before | last
    · exact safe.reports other before
    · rw [List.mem_singleton.mp last]
      exact ⟨balanced, rotated⟩

theorem CryptoState.Safe.advance (correct : aes.Correct) (safe : state.Safe aes ring dryRun)
    {nonce : List Byte} (taken : state.advance aes ring dryRun nonce = some next) :
    next.Safe aes ring dryRun := by
  have sound := safe.phase
  rw [CryptoState.advance] at taken
  split at taken
  · cases taken
    exact safe.setPhase trivial
  · split at taken
    · cases taken
      exact safe.setPhase trivial
    · cases taken
      exact safe.setPhase trivial
  · cases taken
    exact safe.setPhase fun found member => known_of_mem_list member
  · rename_i table outdated phase
    cases taken
    rw [phase] at sound
    exact safe.setPhase ⟨sound, balanced_verifyCurrent outdated _, fun _ _ member => nomatch member⟩
  · rename_i table counts phase
    cases taken
    exact safe.endTable phase
  · rename_i table id row left counts phase
    split at taken
    · rename_i fits
      cases taken
      rw [phase] at sound
      exact safe.setPhase (nextRow_sound table fits sound)
    · cases taken
  · rename_i table id row written left counts phase
    cases taken
    exact safe.swap correct phase
  · cases taken
  · cases taken
  · cases taken

/-- **A normal write keeps the state safe**: the row that it writes is read as its plaintext. -/
theorem CryptoState.Safe.save (correct : aes.Correct) (safe : state.Safe aes ring dryRun)
    (table : RotationTableKey) (owner : Text × Text) (plaintext : Text) {nonce : List Byte}
    (fits : nonce.length = nonceBytes) :
    (state.save aes ring table owner plaintext nonce).Safe aes ring dryRun := by
  have evolves : Evolves ring state.rows (state.save aes ring table owner plaintext nonce).rows :=
    evolves_save state table owner plaintext nonce
  have same : (state.save aes ring table owner plaintext nonce).phase = state.phase ∧
      (state.save aes ring table owner plaintext nonce).reports = state.reports := by
    rw [CryptoState.save]
    split
    · exact ⟨rfl, rfl⟩
    split
    · exact ⟨rfl, rfl⟩
    · exact ⟨rfl, rfl⟩
  constructor
  · intro id entry latest found known
    rcases getElem?_save found with before | ⟨rfl, admitted, _⟩
    · exact safe.readable before known
    · cases known
      exact KeyRing.decrypt_encrypt correct ring fits (long_of_admits admitted)
  · rw [same.1]
    exact safe.phase.mono evolves
  · intro counts member
    rw [same.2] at member
    obtain ⟨balanced, rotated⟩ := safe.reports counts member
    exact ⟨balanced, fun real id member => evolves.underCurrent (rotated real id member)⟩

/-- **Every step keeps the state safe.** -/
theorem CryptoState.Safe.step (correct : aes.Correct) (state : CryptoState) (event : CryptoEvent)
    (next : CryptoState) (safe : state.Safe aes ring dryRun)
    (taken : cryptoStep aes ring dryRun state event = some next) : next.Safe aes ring dryRun := by
  cases event with
  | advance nonce => exact safe.advance correct taken
  | swapFails made => exact safe.swapFails correct taken
  | crash =>
    cases taken
    exact safe.setPhase trivial
  | save table owner plaintext nonce =>
    rw [cryptoStep] at taken
    split at taken
    · rename_i fits
      cases taken
      exact safe.save correct table owner plaintext fits
    · cases taken
  | remove id =>
    cases taken
    have evolves : Evolves ring state.rows (state.rows.set id none) := evolves_remove state.rows id
    constructor
    · exact fun found known => safe.readable (getElem?_remove found) known
    · exact safe.phase.mono evolves
    · intro counts member
      obtain ⟨balanced, rotated⟩ := safe.reports counts member
      exact ⟨balanced, fun real id member => evolves.underCurrent (rotated real id member)⟩

/-! ## Runs -/

theorem safe_startRotation (rows : List StoredRow) :
    (startRotation aes ring rows).Safe aes ring dryRun where
  readable := by
    intro id entry plaintext found known
    rw [startRotation, List.getElem?_map] at found
    obtain ⟨row, _, same⟩ := Option.map_eq_some_iff.mp found
    cases same
    exact known
  phase := by
    rw [startRotation]
    dsimp only
    split
    · trivial
    · trivial
  reports := fun _ member => nomatch member

/-- **A step of the rotation changes no row but the one it is about to write**, which still holds
what was listed. -/
theorem rotation_rows {event : CryptoEvent} (rotates : event.ofRotation = true)
    (taken : cryptoStep aes ring dryRun state event = some next) :
    next.rows = state.rows ∨ ∃ table id row written left counts,
      state.phase = .swapping table id row written left counts ∧ state.holds id row = true ∧
        next.rows = state.writeSecret id written := by
  cases event with
  | advance nonce =>
    rw [cryptoStep, CryptoState.advance] at taken
    split at taken
    · cases taken
      exact .inl rfl
    · split at taken
      · cases taken
        exact .inl rfl
      · cases taken
        exact .inl rfl
    · cases taken
      exact .inl rfl
    · cases taken
      exact .inl rfl
    · cases taken
      exact .inl rfl
    · split at taken
      · cases taken
        exact .inl rfl
      · cases taken
    · rename_i table id row written left counts phase
      cases taken
      rw [CryptoState.swap]
      split
      · exact .inl rfl
      rename_i holds
      split
      · exact .inr ⟨table, id, row, written, left, counts, phase,
          Bool.eq_true_of_not_eq_false holds, rfl⟩
      · exact .inl rfl
    · cases taken
    · cases taken
    · cases taken
  | swapFails made =>
    rw [cryptoStep, CryptoState.swapFails] at taken
    split at taken
    · rename_i table id row written left counts phase
      split at taken
      · rename_i done
        rw [Bool.and_eq_true, Bool.and_eq_true] at done
        cases taken
        exact .inr ⟨table, id, row, written, left, counts, phase, done.1.2, rfl⟩
      · cases taken
        exact .inl rfl
    · cases taken
  | crash =>
    cases taken
    exact .inl rfl
  | save table owner plaintext nonce => cases rotates
  | remove id => cases rotates

/-- **A row that is not read is left untouched**, and so is every row of a dry run. -/
theorem CryptoState.Safe.untouched (safe : state.Safe aes ring dryRun) {event : CryptoEvent}
    (rotates : event.ofRotation = true)
    (taken : cryptoStep aes ring dryRun state event = some next) {id : ℕ} {entry : Entry}
    (found : state.rows[id]? = some (some entry))
    (kept : ring.decrypt aes entry.row.secret entry.row.aad = none ∨ dryRun = true) :
    next.rows[id]? = some (some entry) := by
  rcases rotation_rows rotates taken with same | ⟨_, other, row, written, _, _, phase, holds, rows⟩
  · rw [same]
    exact found
  have sound := safe.phase
  rw [phase] at sound
  obtain ⟨real, mine, ⟨plaintext, _, decrypted, _⟩, _⟩ := sound
  by_cases apart : other = id
  · exfalso
    rw [apart] at holds mine
    obtain ⟨table, owner⟩ := mine.2 entry found
    rw [CryptoState.holds, found] at holds
    have secret : entry.row.secret = row.secret := (of_decide_eq_true holds).2
    rcases kept with unread | dry
    · rw [secret, StoredRow.aad_congr table owner, decrypted] at unread
      cases unread
    · rw [real] at dry
      cases dry
  · rw [rows, CryptoState.writeSecret, List.getElem?_modify, found]
    exact congrArg some (if_neg apart)

theorem CryptoState.Safe.evolves (safe : state.Safe aes ring dryRun) {event : CryptoEvent}
    (taken : cryptoStep aes ring dryRun state event = some next) :
    Evolves ring state.rows next.rows := by
  have rotation : event.ofRotation = true → Evolves ring state.rows next.rows := by
    intro rotates
    rcases rotation_rows rotates taken with same | ⟨_, id, row, written, _, _, phase, _, rows⟩
    · rw [same]
      exact .refl state.rows
    · have sound := safe.phase
      rw [phase] at sound
      obtain ⟨_, _, ⟨plaintext, nonce, _, _, rfl⟩, _⟩ := sound
      rw [rows]
      exact evolves_writeSecret rfl
  cases event with
  | advance nonce => exact rotation rfl
  | swapFails made => exact rotation rfl
  | crash => exact rotation rfl
  | save table owner plaintext nonce =>
    rw [cryptoStep] at taken
    split at taken
    · cases taken
      exact evolves_save state table owner plaintext nonce
    · cases taken
  | remove id =>
    cases taken
    exact evolves_remove state.rows id

/-- A row that is there is known to hold a plaintext. -/
def Readable (rows : List (Option Entry)) (id : ℕ) : Prop :=
  id < rows.length ∧ ∀ entry : Entry, rows[id]? = some (some entry) → entry.plaintext.isSome = true

theorem Evolves.readable (evolves : Evolves ring before after) {id : ℕ}
    (readable : Readable before id) : Readable after id := by
  obtain ⟨inside, known⟩ := readable
  refine ⟨inside.trans_le evolves.length, fun entry later => ?_⟩
  obtain ⟨former, earlier, _, _, keeps, _⟩ := evolves.entries inside later
  exact keeps (known former earlier)

/-- **A rotation loses no secret.** Each row is read by the ring as what was last written in it, as
UTF-8 carries it, and a row that was readable stays so; a step of the rotation leaves the rows that
are not read untouched; the counts of each table add up; and the rows counted as rotated are under
the current key. A dry run changes no row. -/
theorem rotation_loses_no_secret (correct : aes.Correct) {rows : List StoredRow}
    {events : List CryptoEvent}
    (reached : run (cryptoStep aes ring dryRun) (startRotation aes ring rows) events = some state) :
    (∀ (id : ℕ) (entry : Entry) (plaintext : Text), state.rows[id]? = some (some entry) →
      entry.plaintext = some plaintext →
      ring.decrypt aes entry.row.secret entry.row.aad = some plaintext) ∧
    (∀ (id : ℕ) (row : StoredRow) (entry : Entry), rows[id]? = some row →
      (ring.decrypt aes row.secret row.aad).isSome = true →
      state.rows[id]? = some (some entry) →
      (ring.decrypt aes entry.row.secret entry.row.aad).isSome = true) ∧
    (∀ (event : CryptoEvent) (next : CryptoState) (id : ℕ) (entry : Entry),
      event.ofRotation = true → cryptoStep aes ring dryRun state event = some next →
      state.rows[id]? = some (some entry) →
      (ring.decrypt aes entry.row.secret entry.row.aad = none ∨ dryRun = true) →
      next.rows[id]? = some (some entry)) ∧
    ∀ counts ∈ state.reports, counts.scanned =
        counts.rotated.length + counts.alreadyCurrent + counts.failed + counts.conflicts ∧
      (dryRun = false → ∀ id ∈ counts.rotated, ∀ entry : Entry,
        state.rows[id]? = some (some entry) →
        entry.row.secret.keyVersion = ring.current.version) := by
  have safe : state.Safe aes ring dryRun :=
    run_invariant (CryptoState.Safe.step correct) (safe_startRotation rows) reached
  refine ⟨fun _ _ _ found known => safe.readable found known, ?_, ?_, ?_⟩
  · intro id row entry known readable found
    have kept : state.Safe aes ring dryRun ∧ Readable state.rows id := by
      have step : ∀ (s : CryptoState) (event : CryptoEvent) (next : CryptoState),
          s.Safe aes ring dryRun ∧ Readable s.rows id →
          cryptoStep aes ring dryRun s event = some next →
          next.Safe aes ring dryRun ∧ Readable next.rows id :=
        fun s event next both taken => ⟨CryptoState.Safe.step correct s event next both.1 taken,
          (both.1.evolves taken).readable both.2⟩
      refine run_invariant step ⟨safe_startRotation rows, ?_⟩ reached
      have start : (startRotation aes ring rows).rows[id]? =
          some (some ⟨row, ring.decrypt aes row.secret row.aad⟩) := by
        rw [startRotation, List.getElem?_map, known]
        rfl
      obtain ⟨inside, _⟩ := List.getElem?_eq_some_iff.mp start
      refine ⟨inside, fun other again => ?_⟩
      rw [start] at again
      cases again
      exact readable
    obtain ⟨plaintext, latest⟩ := Option.isSome_iff_exists.mp (kept.2.2 entry found)
    rw [safe.readable found latest]
    rfl
  · exact fun event next id entry rotates taken found unread =>
      safe.untouched rotates taken found unread
  · intro counts member
    obtain ⟨balanced, rotated⟩ := safe.reports counts member
    exact ⟨balanced, fun real id counted => (rotated real id counted).2⟩

end

/-! ## A cipher to run with -/

/-- A cipher whose tag is a sum of all the bytes. -/
def checksumTag (key nonce aad body : List Byte) : List Byte :=
  List.replicate tagBytes (key.sum + nonce.sum + aad.sum + body.sum)

def checksumAes : Aes where
  cipher key nonce aad body := body ++ checksumTag key nonce aad body
  decipher key nonce aad sealed :=
    let body := sealed.take (sealed.length - tagBytes)
    if sealed.drop (sealed.length - tagBytes) = checksumTag key nonce aad body then some body
    else none

theorem checksumAes_correct : checksumAes.Correct := by
  intro key nonce aad body _ _
  have length : (checksumTag key nonce aad body).length = tagBytes := List.length_replicate
  have before : (body ++ checksumTag key nonce aad body).length - tagBytes = body.length := by
    rw [List.length_append, length, Nat.add_sub_cancel]
  simp only [checksumAes, before, List.take_left, List.drop_left, if_true]

def firstKey : VersionedKey := ⟨1, List.replicate keyBytes 1⟩
def secondKey : VersionedKey := ⟨2, List.replicate keyBytes 2⟩

/-- A ring whose current key follows another one. -/
def twoKeys : KeyRing := ⟨secondKey, [firstKey], by decide, by decide⟩

def someNonce : List Byte := List.replicate nonceBytes 7

def llmOwner : Text × Text := (Text.lit "o", Text.lit "openai")

/-- The row of a secret under the first key. -/
def oldRow : StoredRow :=
  ⟨.llm, llmOwner, firstKey.encrypt checksumAes someNonce (Text.lit "k")
    (StoredRow.mk .llm llmOwner ⟨[], [], 0⟩).aad⟩

/-- A rotation of one row, from its start to its end. -/
def wholeRotation (steps : ℕ) : List CryptoEvent := List.replicate steps (.advance someNonce)

theorem rotation_loses_no_secret_once :
    ∃ state, run (cryptoStep checksumAes twoKeys false) (startRotation checksumAes twoKeys [oldRow])
        (wholeRotation 8) = some state ∧
      state.phase = .finished ∧
      ∀ (id : ℕ) (entry : Entry) (plaintext : Text), state.rows[id]? = some (some entry) →
        entry.plaintext = some plaintext →
        twoKeys.decrypt checksumAes entry.row.secret entry.row.aad = some plaintext := by
  have ends : (run (cryptoStep checksumAes twoKeys false)
      (startRotation checksumAes twoKeys [oldRow]) (wholeRotation 8)).map CryptoState.phase =
        some .finished := by decide +kernel
  obtain ⟨state, reached, phase⟩ := Option.map_eq_some_iff.mp ends
  exact ⟨state, reached, phase, (rotation_loses_no_secret checksumAes_correct reached).1⟩

/-- **A dry run counts rows that it leaves under an old key**, and a lone surrogate is not read back
from a row in which it was written. -/
theorem dry_run_leaves_rows :
    (∃ state, run (cryptoStep checksumAes twoKeys true)
        (startRotation checksumAes twoKeys [oldRow]) (wholeRotation 7) = some state ∧
      state.phase = .finished ∧ state.rows.map (Option.map Entry.row) = [some oldRow] ∧
      state.reports.map TableRotationReport.rotated = [[0], []] ∧
      oldRow.secret.keyVersion ≠ twoKeys.current.version) ∧
    ∃ state, run (cryptoStep checksumAes twoKeys false) (startRotation checksumAes twoKeys [])
        [.save .llm llmOwner [0xD800] someNonce] = some state ∧
      state.rows.map (Option.bind · fun entry =>
        twoKeys.decrypt checksumAes entry.row.secret entry.row.aad) = [some [0xFFFD]] := by
  have ends : ((run (cryptoStep checksumAes twoKeys true)
        (startRotation checksumAes twoKeys [oldRow]) (wholeRotation 7)).map fun state =>
          (state.phase, state.rows.map (Option.map Entry.row),
            state.reports.map TableRotationReport.rotated)) =
        some (.finished, [some oldRow], [[0], []]) ∧
      ((run (cryptoStep checksumAes twoKeys false) (startRotation checksumAes twoKeys [])
        [.save .llm llmOwner [0xD800] someNonce]).map fun state =>
          state.rows.map (Option.bind · fun entry =>
            twoKeys.decrypt checksumAes entry.row.secret entry.row.aad)) =
        some [some [0xFFFD]] := by decide +kernel
  obtain ⟨⟨dry, dryRun, left⟩, saved, save, read⟩ :=
    And.imp Option.map_eq_some_iff.mp Option.map_eq_some_iff.mp ends
  simp only [Prod.mk.injEq] at left
  exact ⟨⟨dry, dryRun, left.1, left.2.1, left.2.2, by decide⟩, saved, save, read⟩

end Koklo.Crypto
