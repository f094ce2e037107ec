/-
# Ideal authenticated encryption

An ideal cipher remembers what was encrypted.  A ciphertext is decrypted if it came out of an
encryption under the same key and nonce with the same associated data, and then to the message of
that encryption (`decrypt_of_mem`).  Nothing else is decrypted, as long as no nonce is used for two
different messages or data under a key (`exists_mem_of_decrypt`); after that nothing is promised for
that key and nonce, which `forge` stands for.
-/
import Mathlib.Algebra.Order.Ring.Nat
import Mathlib.Data.List.Basic

namespace P2pVpn.Lib

/-- One encryption. -/
structure Encryption (K : Type) where
  key : K
  nonce : List UInt8
  aad : List UInt8
  message : List UInt8
deriving DecidableEq, Repr

/-- A cipher for messages shorter than `limit`, whose ciphertexts are longer by `tagLen`. -/
structure IdealAead (K : Type) (tagLen limit : ℕ) where
  ciphertext : Encryption K → List UInt8
  length_ciphertext : ∀ e, (ciphertext e).length = e.message.length + tagLen
  /-- What is encrypted can be decrypted. -/
  ciphertext_inj : ∀ e message, ciphertext { e with message := message } = ciphertext e →
    message = e.message
  /-- What a ciphertext is decrypted to once a nonce was used twice. -/
  forge : K → (nonce aad ciphertext : List UInt8) → Option (List UInt8)

namespace IdealAead

variable {K : Type} [DecidableEq K] {tagLen limit : ℕ} (aead : IdealAead K tagLen limit)

/-- The nonce was used twice under the key, for different messages or data. -/
def Misused (log : List (Encryption K)) (key : K) (nonce : List UInt8) : Prop :=
  ∃ e ∈ log, ∃ e' ∈ log, e.key = key ∧ e'.key = key ∧ e.nonce = nonce ∧ e'.nonce = nonce ∧ e ≠ e'

instance (log : List (Encryption K)) (key : K) (nonce : List UInt8) :
    Decidable (Misused log key nonce) :=
  inferInstanceAs (Decidable (∃ e ∈ log, ∃ e' ∈ log,
    e.key = key ∧ e'.key = key ∧ e.nonce = nonce ∧ e'.nonce = nonce ∧ e ≠ e'))

/-- The ciphertext, with the encryption remembered. -/
def encrypt (log : List (Encryption K)) (e : Encryption K) :
    Option (List UInt8 × List (Encryption K)) :=
  if e.message.length < limit then some (aead.ciphertext e, log ++ [e]) else none

/-- The encryption that the ciphertext came out of. -/
def source? (log : List (Encryption K)) (key : K) (nonce aad ciphertext : List UInt8) :
    Option (Encryption K) :=
  log.find? fun e =>
    e.key = key ∧ e.nonce = nonce ∧ e.aad = aad ∧ aead.ciphertext e = ciphertext

def decrypt (log : List (Encryption K)) (key : K) (nonce aad ciphertext : List UInt8) :
    Option (List UInt8) :=
  match aead.source? log key nonce aad ciphertext with
  | some e => some e.message
  | none => if Misused log key nonce then aead.forge key nonce aad ciphertext else none

variable {aead} {log : List (Encryption K)} {key : K} {nonce aad ciphertext message : List UInt8}

lemma source?_eq_some {e : Encryption K} (h : aead.source? log key nonce aad ciphertext = some e) :
    e ∈ log ∧ e.key = key ∧ e.nonce = nonce ∧ e.aad = aad ∧ aead.ciphertext e = ciphertext := by
  have hfound := List.find?_some h
  simp only [decide_eq_true_eq] at hfound
  exact ⟨List.mem_of_find?_eq_some h, hfound⟩

/-- What came out of an encryption is decrypted to its message. -/
lemma decrypt_of_mem {e : Encryption K} (he : e ∈ log) :
    aead.decrypt log e.key e.nonce e.aad (aead.ciphertext e) = some e.message := by
  cases hsource : aead.source? log e.key e.nonce e.aad (aead.ciphertext e) with
  | none =>
    have hnone := List.find?_eq_none.mp hsource e he
    simp at hnone
  | some found =>
    obtain ⟨-, hkey, hnonce, haad, hciphertext⟩ := source?_eq_some hsource
    have hmessage : found.message = e.message := by
      refine aead.ciphertext_inj e found.message ?_
      rw [← hciphertext, ← hkey, ← hnonce, ← haad]
    simp only [decrypt, hsource, hmessage]

/-- Unless a nonce was used twice, what is decrypted came out of an encryption. -/
lemma exists_mem_of_decrypt (huse : ¬ Misused log key nonce)
    (h : aead.decrypt log key nonce aad ciphertext = some message) :
    ∃ e ∈ log, e.key = key ∧ e.nonce = nonce ∧ e.aad = aad ∧ e.message = message := by
  cases hsource : aead.source? log key nonce aad ciphertext with
  | none =>
    simp only [decrypt, hsource, if_neg huse] at h
    cases h
  | some e =>
    simp only [decrypt, hsource, Option.some.injEq] at h
    obtain ⟨he, hkey, hnonce, haad, -⟩ := source?_eq_some hsource
    exact ⟨e, he, hkey, hnonce, haad, h⟩

end IdealAead

end P2pVpn.Lib
