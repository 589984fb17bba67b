import Koklo.Foundations.Base64

/-!
# Texts that UTF-8 carries

A text is well formed when its surrogates come in pairs. Such a text is read back from its bytes
(`ofUtf8_utf8_of_wellFormed`), and every text that is read from bytes is well formed
(`wellFormed_ofUtf8`), so writing and reading it again changes nothing (`carried_ofUtf8`).
-/

set_option autoImplicit false

namespace Koklo.Foundations.Text

/-- The text without surrogates outside a pair. -/
inductive WellFormed : Text → Prop where
  | nil : WellFormed []
  | unit {u : CodeUnit} {rest : Text} (high : isHighSurrogate u = false)
      (low : isLowSurrogate u = false) (others : WellFormed rest) : WellFormed (u :: rest)
  | pair {u v : CodeUnit} {rest : Text} (high : isHighSurrogate u = true)
      (low : isLowSurrogate v = true) (others : WellFormed rest) : WellFormed (u :: v :: rest)

theorem WellFormed.append {t t' : Text} (first : WellFormed t) (second : WellFormed t') :
    WellFormed (t ++ t') := by
  induction first with
  | nil => exact second
  | unit high low _ ih => exact .unit high low ih
  | pair high low _ ih => exact .pair high low ih

/-- A code point that is not a surrogate. -/
def Scalar (n : ℕ) : Prop := n < 0x110000 ∧ ¬ (0xD800 ≤ n ∧ n ≤ 0xDFFF)

theorem isHighSurrogate_iff {u : CodeUnit} :
    isHighSurrogate u = true ↔ 0xD800 ≤ u.val ∧ u.val ≤ 0xDBFF := by
  rw [isHighSurrogate, Bool.and_eq_true, decide_eq_true_iff, decide_eq_true_iff]
  rfl

theorem isLowSurrogate_iff {u : CodeUnit} :
    isLowSurrogate u = true ↔ 0xDC00 ≤ u.val ∧ u.val ≤ 0xDFFF := by
  rw [isLowSurrogate, Bool.and_eq_true, decide_eq_true_iff, decide_eq_true_iff]
  rfl

theorem val_ofNat_unit {n : ℕ} (small : n < 0x10000) : (Fin.ofNat 0x10000 n).val = n :=
  Nat.mod_eq_of_lt small

theorem val_ofNat_byte {n : ℕ} (small : n < 0x100) : (Fin.ofNat 0x100 n).val = n :=
  Nat.mod_eq_of_lt small

theorem wellFormed_singleton {u : CodeUnit} (scalar : Scalar u.val) : WellFormed [u] := by
  obtain ⟨_, plain⟩ := scalar
  refine .unit ?_ ?_ .nil
  · rw [Bool.eq_false_iff, ne_eq, isHighSurrogate_iff]
    omega
  · rw [Bool.eq_false_iff, ne_eq, isLowSurrogate_iff]
    omega

theorem wellFormed_ofScalar {n : ℕ} (scalar : Scalar n) : WellFormed (ofScalar n) := by
  rw [ofScalar]
  split
  · rename_i small
    apply wellFormed_singleton
    rw [val_ofNat_unit small]
    exact scalar
  · obtain ⟨inside, _⟩ := scalar
    refine .pair ?_ ?_ .nil
    · rw [isHighSurrogate_iff, val_ofNat_unit (by omega)]
      omega
    · rw [isLowSurrogate_iff, val_ofNat_unit (by omega)]
      omega

/-! ## What is written is read back -/

theorem ofBytes_cons (pending : Option Pending) (b : Byte) (rest : List Byte) :
    ofBytes pending (b :: rest) =
      (nextByte pending b).1 ++ ofBytes (nextByte pending b).2 rest := by
  cases pending <;> rfl

theorem val_continuation (m : ℕ) : (Fin.ofNat 0x100 (0x80 + m % 0x40)).val = 0x80 + m % 0x40 :=
  val_ofNat_byte (by omega)

/-- A byte inside an open sequence that needs more. -/
theorem ofBytes_middle {needed lower upper bits m : ℕ} (rest : List Byte)
    (inside : lower ≤ 0x80 + m % 0x40 ∧ 0x80 + m % 0x40 ≤ upper) :
    ofBytes (some ⟨needed + 2, lower, upper, bits⟩) (Fin.ofNat _ (0x80 + m % 0x40) :: rest) =
      ofBytes (some ⟨needed + 1, 0x80, 0xBF, bits * 0x40 + m % 0x40⟩) rest := by
  rw [ofBytes_cons, nextByte]
  dsimp only
  rw [val_continuation, if_pos inside, Nat.add_sub_cancel_left]
  rfl

/-- The last byte of a sequence. -/
theorem ofBytes_last {lower upper bits m : ℕ} (rest : List Byte)
    (inside : lower ≤ 0x80 + m % 0x40 ∧ 0x80 + m % 0x40 ≤ upper) :
    ofBytes (some ⟨1, lower, upper, bits⟩) (Fin.ofNat _ (0x80 + m % 0x40) :: rest) =
      ofScalar (bits * 0x40 + m % 0x40) ++ ofBytes none rest := by
  rw [ofBytes_cons, nextByte]
  dsimp only
  rw [val_continuation, if_pos inside, Nat.add_sub_cancel_left]
  rfl

theorem ofBytes_opening {b : Byte} {pending : Pending} (high : 0x80 ≤ b.val)
    (opens : opening b = some pending) (rest : List Byte) :
    ofBytes none (b :: rest) = ofBytes (some pending) rest := by
  rw [ofBytes_cons, nextByte, firstByte, if_neg (not_lt.mpr high), opens]
  rfl

theorem continuation_bounds (m : ℕ) : 0x80 ≤ 0x80 + m % 0x40 ∧ 0x80 + m % 0x40 ≤ 0xBF := by
  omega

/-- The bytes of a code point that takes two of them. -/
theorem ofBytes_two {n : ℕ} (low : 0x80 ≤ n) (high : n < 0x800) (rest : List Byte) :
    ofBytes none (Fin.ofNat _ (0xC0 + n / 0x40) :: Fin.ofNat _ (0x80 + n % 0x40) :: rest) =
      ofScalar n ++ ofBytes none rest := by
  have byte : (Fin.ofNat 0x100 (0xC0 + n / 0x40)).val = 0xC0 + n / 0x40 := val_ofNat_byte (by omega)
  have opens : opening (Fin.ofNat 0x100 (0xC0 + n / 0x40)) = some ⟨1, 0x80, 0xBF, n / 0x40⟩ := by
    rw [opening, byte, if_pos (by omega), Nat.add_sub_cancel_left]
  have value : n / 0x40 * 0x40 + n % 0x40 = n := by omega
  rw [ofBytes_opening (by omega) opens, ofBytes_last rest (continuation_bounds n), value]

/-- The bytes of a code point that takes three of them. -/
theorem ofBytes_three {n : ℕ} (low : 0x800 ≤ n) (high : n < 0x10000)
    (plain : ¬ (0xD800 ≤ n ∧ n ≤ 0xDFFF)) (rest : List Byte) :
    ofBytes none (Fin.ofNat _ (0xE0 + n / 0x1000) :: Fin.ofNat _ (0x80 + n / 0x40 % 0x40) ::
      Fin.ofNat _ (0x80 + n % 0x40) :: rest) = ofScalar n ++ ofBytes none rest := by
  have byte : (Fin.ofNat 0x100 (0xE0 + n / 0x1000)).val = 0xE0 + n / 0x1000 :=
    val_ofNat_byte (by omega)
  have opens : opening (Fin.ofNat 0x100 (0xE0 + n / 0x1000)) =
      some ⟨2, if 0xE0 + n / 0x1000 = 0xE0 then 0xA0 else 0x80,
        if 0xE0 + n / 0x1000 = 0xED then 0x9F else 0xBF, n / 0x1000⟩ := by
    rw [opening, byte, if_neg (by omega), if_pos (by omega), Nat.add_sub_cancel_left]
  have bounds : (if 0xE0 + n / 0x1000 = 0xE0 then 0xA0 else 0x80) ≤ 0x80 + n / 0x40 % 0x40 ∧
      0x80 + n / 0x40 % 0x40 ≤ (if 0xE0 + n / 0x1000 = 0xED then 0x9F else 0xBF) := by
    constructor
    · split <;> omega
    · split <;> omega
  have value : (n / 0x1000 * 0x40 + n / 0x40 % 0x40) * 0x40 + n % 0x40 = n := by omega
  rw [ofBytes_opening (by omega) opens, ofBytes_middle _ bounds,
    ofBytes_last rest (continuation_bounds n), value]

/-- The bytes of a code point that takes four of them. -/
theorem ofBytes_four {n : ℕ} (low : 0x10000 ≤ n) (high : n < 0x110000) (rest : List Byte) :
    ofBytes none (Fin.ofNat _ (0xF0 + n / 0x40000) :: Fin.ofNat _ (0x80 + n / 0x1000 % 0x40) ::
      Fin.ofNat _ (0x80 + n / 0x40 % 0x40) :: Fin.ofNat _ (0x80 + n % 0x40) :: rest) =
      ofScalar n ++ ofBytes none rest := by
  have byte : (Fin.ofNat 0x100 (0xF0 + n / 0x40000)).val = 0xF0 + n / 0x40000 :=
    val_ofNat_byte (by omega)
  have opens : opening (Fin.ofNat 0x100 (0xF0 + n / 0x40000)) =
      some ⟨3, if 0xF0 + n / 0x40000 = 0xF0 then 0x90 else 0x80,
        if 0xF0 + n / 0x40000 = 0xF4 then 0x8F else 0xBF, n / 0x40000⟩ := by
    rw [opening, byte, if_neg (by omega), if_neg (by omega), if_pos (by omega),
      Nat.add_sub_cancel_left]
  have bounds : (if 0xF0 + n / 0x40000 = 0xF0 then 0x90 else 0x80) ≤ 0x80 + n / 0x1000 % 0x40 ∧
      0x80 + n / 0x1000 % 0x40 ≤ (if 0xF0 + n / 0x40000 = 0xF4 then 0x8F else 0xBF) := by
    constructor
    · split <;> omega
    · split <;> omega
  have value : ((n / 0x40000 * 0x40 + n / 0x1000 % 0x40) * 0x40 + n / 0x40 % 0x40) * 0x40 +
      n % 0x40 = n := by omega
  rw [ofBytes_opening (by omega) opens, ofBytes_middle _ bounds,
    ofBytes_middle _ (continuation_bounds (n / 0x40)), ofBytes_last rest (continuation_bounds n),
    value]

/-- **The bytes of a code point are read back.** -/
theorem ofBytes_scalarBytes {n : ℕ} (scalar : Scalar n) (rest : List Byte) :
    ofBytes none (scalarBytes n ++ rest) = ofScalar n ++ ofBytes none rest := by
  obtain ⟨inside, plain⟩ := scalar
  rw [scalarBytes]
  split
  · rename_i one
    rw [List.singleton_append, ofBytes_cons, nextByte, firstByte, val_ofNat_byte (by omega),
      if_pos one, ofScalar, if_pos (by omega)]
  split
  · rename_i one two
    exact ofBytes_two (not_lt.mp one) two rest
  split
  · rename_i _ two three
    exact ofBytes_three (not_lt.mp two) three plain rest
  · rename_i _ _ three
    exact ofBytes_four (not_lt.mp three) inside rest

/-- A unit that is no surrogate is written alone. -/
theorem utf8_unit {u : CodeUnit} (high : isHighSurrogate u = false)
    (low : isLowSurrogate u = false) (rest : Text) :
    utf8 (u :: rest) = scalarBytes u.val ++ utf8 rest := by
  have alone : unitBytes u = scalarBytes u.val := by
    rw [unitBytes, high, low]
    rfl
  cases rest with
  | nil => rw [utf8, utf8, alone, List.append_nil]
  | cons v rest =>
    rw [utf8, high, Bool.false_and, if_neg Bool.false_ne_true, alone]

/-- **A well-formed text is read back** from its bytes. -/
theorem ofUtf8_utf8_of_wellFormed {t : Text} (formed : WellFormed t) : ofUtf8 (utf8 t) = t := by
  rw [ofUtf8]
  induction formed with
  | nil => rfl
  | @unit u rest high low _ ih =>
    have plain : Scalar u.val := by
      rw [Bool.eq_false_iff, ne_eq, isHighSurrogate_iff] at high
      rw [Bool.eq_false_iff, ne_eq, isLowSurrogate_iff] at low
      have bound := u.isLt
      exact ⟨by omega, by omega⟩
    have same : ofScalar u.val = [u] := by
      rw [ofScalar, if_pos u.isLt]
      exact congrArg (fun v => [v]) (Fin.ext (val_ofNat_unit u.isLt))
    rw [utf8_unit high low, ofBytes_scalarBytes plain, ih, same]
    rfl
  | @pair u v rest high low _ ih =>
    have both : (isHighSurrogate u && isLowSurrogate v) = true := by
      rw [high, low]
      rfl
    have step : utf8 (u :: v :: rest) =
        scalarBytes (0x10000 + (u.val - 0xD800) * 0x400 + (v.val - 0xDC00)) ++ utf8 rest := by
      simp only [utf8, both, if_true]
    rw [isHighSurrogate_iff] at high
    rw [isLowSurrogate_iff] at low
    have same : ofScalar (0x10000 + (u.val - 0xD800) * 0x400 + (v.val - 0xDC00)) = [u, v] := by
      generalize n_ : 0x10000 + (u.val - 0xD800) * 0x400 + (v.val - 0xDC00) = n
      have first : Fin.ofNat 0x10000 (0xD800 + (n - 0x10000) / 0x400) = u := by
        apply Fin.ext
        rw [val_ofNat_unit (by omega)]
        omega
      have second : Fin.ofNat 0x10000 (0xDC00 + (n - 0x10000) % 0x400) = v := by
        apply Fin.ext
        rw [val_ofNat_unit (by omega)]
        omega
      rw [ofScalar, if_neg (by omega), first, second]
    rw [step, ofBytes_scalarBytes ⟨by omega, by omega⟩, ih, same]
    rfl

/-! ## What is read is well formed -/

/-- Every end of an open sequence is a code point that is no surrogate. -/
def Pending.Valid : ℕ → Pending → Prop
  | 0, _ => False
  | 1, pending => pending.needed = 1 ∧ ∀ b : ℕ, pending.lower ≤ b → b ≤ pending.upper →
      Scalar (pending.bits * 0x40 + (b - 0x80))
  | n + 2, pending => pending.needed = n + 2 ∧ ∀ b : ℕ, pending.lower ≤ b → b ≤ pending.upper →
      Pending.Valid (n + 1) ⟨n + 1, 0x80, 0xBF, pending.bits * 0x40 + (b - 0x80)⟩

theorem valid_opening {b : Byte} {pending : Pending} (opens : opening b = some pending) :
    Pending.Valid pending.needed pending := by
  have bound := b.isLt
  rw [opening] at opens
  split at opens
  · cases opens
    exact ⟨rfl, fun first low high => ⟨by dsimp only at *; omega, by dsimp only at *; omega⟩⟩
  split at opens
  · rename_i three
    cases opens
    refine ⟨rfl, fun first low high => ⟨rfl, fun second low' high' => ?_⟩⟩
    dsimp only at low high low' high' ⊢
    split at low
    · split at high
      · exact ⟨by omega, by omega⟩
      · exact ⟨by omega, by omega⟩
    · split at high
      · exact ⟨by omega, by omega⟩
      · exact ⟨by omega, by omega⟩
  split at opens
  · cases opens
    refine ⟨rfl, fun first low high => ⟨rfl, fun second low' high' => ⟨rfl, fun third low'' high'' => ?_⟩⟩⟩
    dsimp only at low high low' high' low'' high'' ⊢
    split at low
    · split at high
      · exact ⟨by omega, by omega⟩
      · exact ⟨by omega, by omega⟩
    · split at high
      · exact ⟨by omega, by omega⟩
      · exact ⟨by omega, by omega⟩
  · cases opens

theorem wellFormed_replacement {t : Text} (formed : WellFormed t) :
    WellFormed (replacement :: t) :=
  .append (wellFormed_singleton ⟨by decide, by decide⟩ : WellFormed [replacement]) formed

theorem firstByte_wellFormed (b : Byte) :
    WellFormed (firstByte b).1 ∧ ∀ p ∈ (firstByte b).2, Pending.Valid p.needed p := by
  rw [firstByte]
  split
  · rename_i small
    refine ⟨wellFormed_singleton ?_, fun _ none_ => (by cases none_)⟩
    rw [val_ofNat_unit (by omega)]
    exact ⟨by omega, by omega⟩
  · split
    · rename_i pending opens
      refine ⟨.nil, fun p same => ?_⟩
      cases same
      exact valid_opening opens
    · exact ⟨wellFormed_replacement .nil, fun _ none_ => (by cases none_)⟩

/-- **What a byte gives is well formed**, and what stays open is valid. -/
theorem nextByte_wellFormed {pending : Option Pending}
    (valid : ∀ p ∈ pending, Pending.Valid p.needed p) (b : Byte) :
    WellFormed (nextByte pending b).1 ∧
      ∀ p ∈ (nextByte pending b).2, Pending.Valid p.needed p := by
  cases pending with
  | none => exact firstByte_wellFormed b
  | some pending =>
    have valid := valid pending rfl
    obtain ⟨needed, lower, upper, bits⟩ := pending
    by_cases inside : lower ≤ b.val ∧ b.val ≤ upper
    · rcases needed with _ | _ | n
      · exact valid.elim
      · have last : nextByte (some ⟨1, lower, upper, bits⟩) b =
            (ofScalar (bits * 0x40 + (b.val - 0x80)), none) := by
          simp only [nextByte, inside, and_self, if_true]
        have scalar : Scalar (bits * 0x40 + (b.val - 0x80)) := valid.2 b.val inside.1 inside.2
        have formed := wellFormed_ofScalar scalar
        rw [last]
        generalize ofScalar (bits * 0x40 + (b.val - 0x80)) = t at formed
        exact ⟨formed, fun _ none_ => (by cases none_)⟩
      · have middle : nextByte (some ⟨n + 2, lower, upper, bits⟩) b =
            ([], some ⟨n + 1, 0x80, 0xBF, bits * 0x40 + (b.val - 0x80)⟩) := by
          rw [nextByte]
          dsimp only
          rw [if_pos inside]
          rfl
        rw [middle]
        refine ⟨.nil, fun p same => ?_⟩
        cases same
        exact valid.2 b.val inside.1 inside.2
    · have wrong : nextByte (some ⟨needed, lower, upper, bits⟩) b =
          (replacement :: (firstByte b).1, (firstByte b).2) := by
        rw [nextByte]
        exact if_neg inside
      rw [wrong]
      obtain ⟨formed, later⟩ := firstByte_wellFormed b
      exact ⟨wellFormed_replacement formed, later⟩

theorem wellFormed_ofBytes (bytes : List Byte) (pending : Option Pending)
    (valid : ∀ p ∈ pending, Pending.Valid p.needed p) : WellFormed (ofBytes pending bytes) := by
  induction bytes generalizing pending with
  | nil =>
    cases pending with
    | none => exact .nil
    | some pending => exact wellFormed_replacement .nil
  | cons b rest ih =>
    obtain ⟨formed, later⟩ := nextByte_wellFormed valid b
    rw [ofBytes_cons]
    exact formed.append (ih _ later)

/-- **A text that is read from bytes is well formed.** -/
theorem wellFormed_ofUtf8 (bytes : List Byte) : WellFormed (ofUtf8 bytes) :=
  wellFormed_ofBytes bytes none nofun

/-- A text as UTF-8 carries it: a surrogate outside a pair is replaced. -/
def carried (t : Text) : Text := ofUtf8 (utf8 t)

theorem carried_of_wellFormed {t : Text} (formed : WellFormed t) : carried t = t :=
  ofUtf8_utf8_of_wellFormed formed

/-- **What was read from bytes is carried as it is.** -/
theorem carried_ofUtf8 (bytes : List Byte) : carried (ofUtf8 bytes) = ofUtf8 bytes :=
  carried_of_wellFormed (wellFormed_ofUtf8 bytes)

end Koklo.Foundations.Text
