import Koklo.Foundations.Fallible
import Koklo.Foundations.Utf8

/-!
# The key ring

A secret is encrypted with AES-256-GCM under a versioned key, and stored with its nonce and the
version. A ring encrypts with its current key and decrypts with the key of the stored version, with
no other key to fall back on. Its versions are distinct and its keys have their length
(`createKeyRing`), so it decrypts what it encrypts (`KeyRing.decrypt_encrypt`).
-/

set_option autoImplicit false

namespace Koklo.Crypto

open Koklo.Foundations

/-- AES-256-GCM, on a key, a nonce, associated data and a body: the ciphertext ends with its tag. -/
structure Aes where
  cipher : List Byte → List Byte → List Byte → List Byte → List Byte
  decipher : List Byte → List Byte → List Byte → List Byte → Option (List Byte)

def keyBytes : ℕ := 32
def nonceBytes : ℕ := 12
def tagBytes : ℕ := 16

/-- A body is read back with the key, the nonce and the data it was written with. -/
def Aes.Correct (aes : Aes) : Prop :=
  ∀ key nonce aad body : List Byte, key.length = keyBytes → nonce.length = nonceBytes →
    aes.decipher key nonce aad (aes.cipher key nonce aad body) = some body

/-- A secret as it is stored, with the version of the key that seals it. -/
structure EncryptedSecret where
  ciphertext : List Byte
  nonce : List Byte
  keyVersion : ℤ
deriving DecidableEq

/-- A key under its version. -/
structure VersionedKey where
  version : ℤ
  key : List Byte
deriving DecidableEq

/-! ## The cipher of one key -/

/-- A secret sealed under the key, with the version of the key. -/
def VersionedKey.encrypt (entry : VersionedKey) (aes : Aes) (nonce : List Byte)
    (plaintext aad : Text) : EncryptedSecret where
  ciphertext := aes.cipher entry.key nonce (Text.utf8 aad) (Text.utf8 plaintext)
  nonce := nonce
  keyVersion := entry.version

/-- Nothing is read where `TokenDecryptionError` is thrown. -/
def VersionedKey.decrypt (entry : VersionedKey) (aes : Aes) (secret : EncryptedSecret)
    (aad : Text) : Option Text :=
  if secret.keyVersion ≠ entry.version ∨ secret.nonce.length ≠ nonceBytes ∨
      secret.ciphertext.length ≤ tagBytes then none
  else (aes.decipher entry.key secret.nonce (Text.utf8 aad) secret.ciphertext).map Text.ofUtf8

/-! ## The ring -/

/-- What is wrong with the settings of a key ring. -/
inductive KeyRingError where
  | invalidVersion
  | duplicatedVersion
  | currentNotLast
  | invalidKey
deriving DecidableEq

/-- The settings of a key ring: the current key, and those before it. -/
structure KeyRingSettings where
  current : VersionedKey
  previous : List VersionedKey

/-- The versions are positive and none comes twice. -/
def assertDistinct (seen : List ℤ) : List ℤ → Except KeyRingError Unit
  | [] => .ok ()
  | version :: versions =>
    if version < 1 then .error .invalidVersion
    else if version ∈ seen then .error .duplicatedVersion
    else assertDistinct (version :: seen) versions

/-- The checks of the versions: all distinct, and the current one the last. -/
def assertVersions (settings : KeyRingSettings) : Except KeyRingError Unit := do
  assertDistinct [] ((settings.current :: settings.previous).map VersionedKey.version)
  if settings.previous.any fun entry => settings.current.version < entry.version then
    .error .currentNotLast
  else .ok ()

theorem nodup_of_assertDistinct {seen versions : List ℤ}
    (accepted : assertDistinct seen versions = .ok ()) :
    versions.Nodup ∧ ∀ version ∈ versions, version ∉ seen := by
  induction versions generalizing seen with
  | nil => exact ⟨List.nodup_nil, List.forall_mem_nil _⟩
  | cons version versions ih =>
    rw [assertDistinct] at accepted
    split at accepted
    · cases accepted
    split at accepted
    · cases accepted
    rename_i fresh
    obtain ⟨distinct, others⟩ := ih accepted
    refine ⟨List.nodup_cons.mpr ⟨fun again => ?_, distinct⟩, List.forall_mem_cons.mpr ⟨fresh, ?_⟩⟩
    · exact others version again List.mem_cons_self
    · exact fun other member known => others other member (List.mem_cons_of_mem version known)

theorem nodup_of_assertVersions {settings : KeyRingSettings}
    (accepted : assertVersions settings = .ok ()) :
    ((settings.current :: settings.previous).map VersionedKey.version).Nodup := by
  obtain ⟨_, distinct, _⟩ := bind_eq_ok.mp accepted
  exact (nodup_of_assertDistinct distinct).1

/-- The versions of a ring are distinct, and its keys are of 32 bytes. -/
structure KeyRing where
  current : VersionedKey
  previous : List VersionedKey
  distinct : ((current :: previous).map VersionedKey.version).Nodup
  lengths : ∀ entry ∈ current :: previous, entry.key.length = keyBytes

/-- The ring of settings that pass the checks. -/
def createKeyRing (settings : KeyRingSettings) : Except KeyRingError KeyRing :=
  match accepted : assertVersions settings with
  | .error e => .error e
  | .ok () =>
    if lengths : ∀ entry ∈ settings.current :: settings.previous, entry.key.length = keyBytes then
      .ok ⟨settings.current, settings.previous, nodup_of_assertVersions accepted, lengths⟩
    else .error .invalidKey

namespace KeyRing

/-- New secrets are sealed under the current key. -/
def encrypt (ring : KeyRing) (aes : Aes) (nonce : List Byte) (plaintext aad : Text) :
    EncryptedSecret :=
  ring.current.encrypt aes nonce plaintext aad

/-- The key of the stored version decrypts, and no other. -/
def decrypt (ring : KeyRing) (aes : Aes) (secret : EncryptedSecret) (aad : Text) : Option Text :=
  ((ring.current :: ring.previous).find? fun entry => entry.version = secret.keyVersion).bind
    fun entry => entry.decrypt aes secret aad

/-- **A ring decrypts what it encrypts**, as UTF-8 carries it, when there is something to read. -/
theorem decrypt_encrypt {aes : Aes} (correct : aes.Correct) (ring : KeyRing) {nonce : List Byte}
    {plaintext aad : Text} (fits : nonce.length = nonceBytes)
    (some_ : tagBytes < (ring.encrypt aes nonce plaintext aad).ciphertext.length) :
    ring.decrypt aes (ring.encrypt aes nonce plaintext aad) aad = some (Text.carried plaintext) := by
  have found : (ring.current :: ring.previous).find?
      (fun entry => entry.version = (ring.encrypt aes nonce plaintext aad).keyVersion) =
        some ring.current := List.find?_cons_of_pos (decide_eq_true rfl)
  have opened := correct ring.current.key nonce (Text.utf8 aad) (Text.utf8 plaintext)
    (ring.lengths ring.current List.mem_cons_self) fits
  have readable : ¬ ((ring.encrypt aes nonce plaintext aad).keyVersion ≠ ring.current.version ∨
      (ring.encrypt aes nonce plaintext aad).nonce.length ≠ nonceBytes ∨
      (ring.encrypt aes nonce plaintext aad).ciphertext.length ≤ tagBytes) := by
    rintro (other | length | short)
    · exact other rfl
    · exact length fits
    · exact absurd some_ (not_lt.mpr short)
  rw [decrypt, found, Option.bind_some, VersionedKey.decrypt, if_neg readable]
  exact congrArg (Option.map Text.ofUtf8) opened

/-- What a ring decrypts is a text that UTF-8 carries. -/
theorem carried_of_decrypt {aes : Aes} {ring : KeyRing} {secret : EncryptedSecret}
    {aad plaintext : Text} (readable : ring.decrypt aes secret aad = some plaintext) :
    Text.carried plaintext = plaintext := by
  obtain ⟨entry, _, readable⟩ := Option.bind_eq_some_iff.mp readable
  rw [VersionedKey.decrypt] at readable
  split at readable
  · cases readable
  · obtain ⟨body, _, rfl⟩ := Option.map_eq_some_iff.mp readable
    exact Text.carried_ofUtf8 body

end KeyRing

end Koklo.Crypto
