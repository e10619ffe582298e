/-
# Padding

The buffer that `Sha256` hashes, for itself. The loop that appends zero bytes stops after
fewer than 64 of them, the buffer is no longer than it has to be, no chunk is read beyond
its end, and the message can be read off it: the last eight bytes say how long it is.
-/

import Kode.Crypto.Digest

namespace Kode.Crypto

open Kode.Library

/-- The number of zero bytes behind a message of this length. -/
def zeroBytes (length : ℕ) : ℕ := (120 - (length + 1) % 64) % 64

theorem zeroBytes_lt (length : ℕ) : zeroBytes length < 64 := Nat.mod_lt _ (by decide)

/-- The condition of the loop fails first after that many zero bytes. -/
theorem zeroBytes_iff {length count : ℕ} (within : count ≤ zeroBytes length) :
    (length + 1 + count) % 64 = 56 ↔ count = zeroBytes length := by
  unfold zeroBytes at within ⊢
  omega

/-- The four parts of the buffer. -/
theorem padded_eq {message : Bytes} (short : message.length < 2 ^ 61) :
    padded message = message ++ [0x80] ++ List.replicate (zeroBytes message.length) 0 ++
      bigEndian 8 (8 * message.length) := by
  rw [padded, appendLength_eq, padZeros_eq, bitLength_toNat short, List.length_append,
    List.length_singleton, zeroBytes]

theorem length_padded_eq {message : Bytes} (short : message.length < 2 ^ 61) :
    (padded message).length = message.length + 9 + zeroBytes message.length := by
  have eight : (bigEndian 8 (8 * message.length)).length = 8 := rfl
  rw [padded_eq short, List.length_append, List.length_append, List.length_append, eight,
    List.length_replicate, List.length_singleton]
  omega

/-- The buffer is as short as whole chunks allow. -/
theorem isLeast_length_padded {message : Bytes} (short : message.length < 2 ^ 61) :
    IsLeast {length | 64 ∣ length ∧ message.length + 9 ≤ length} (padded message).length := by
  have fewer := zeroBytes_lt message.length
  rw [length_padded_eq short]
  constructor
  · refine ⟨?_, Nat.le_add_right _ _⟩
    unfold zeroBytes
    omega
  · rintro length ⟨whole, fits⟩
    have stop := (zeroBytes_iff (Nat.le_refl (zeroBytes message.length))).mpr rfl
    omega

theorem drop_length_padded {message : Bytes} (short : message.length < 2 ^ 61) :
    (padded message).drop ((padded message).length - 8) = bigEndian 8 (8 * message.length) := by
  have front : (padded message).length - 8 =
      (message ++ [0x80] ++ List.replicate (zeroBytes message.length) 0).length := by
    rw [length_padded_eq short, List.length_append, List.length_append, List.length_replicate,
      List.length_singleton]
    omega
  rw [front, padded_eq short, List.drop_left]

/-- Eight bytes hold every number below 2^64. -/
theorem bigEndian_injective {first second : ℕ} (small : first < 2 ^ 64) (small' : second < 2 ^ 64)
    (same : bigEndian 8 first = bigEndian 8 second) : first = second := by
  have numbers := congrArg (fun bytes => ofBits (bitsOf bytes)) same
  simp only [bitsOf_bigEndian, ofBits_bits] at numbers
  rwa [Nat.mod_eq_of_lt small, Nat.mod_eq_of_lt small'] at numbers

theorem padded_injective {first second : Bytes} (short : first.length < 2 ^ 61)
    (short' : second.length < 2 ^ 61) (same : padded first = padded second) : first = second := by
  have ends : bigEndian 8 (8 * first.length) = bigEndian 8 (8 * second.length) := by
    rw [← drop_length_padded short, ← drop_length_padded short', same]
  have lengths : first.length = second.length := by
    have bits := bigEndian_injective (by omega) (by omega) ends
    omega
  rw [padded_eq short, padded_eq short', List.append_assoc, List.append_assoc, List.append_assoc,
    List.append_assoc] at same
  exact (List.append_inj same lengths).1

/-- Every byte of a chunk that is read is in the buffer. -/
theorem chunk_within {bytes : Bytes} (whole : bytes.length % 64 = 0) {chunk i : ℕ}
    (member : chunk ∈ List.range' 0 ((bytes.length + 63) / 64) 64) (word : i < 16) :
    chunk + i * 4 + 3 < bytes.length := by
  obtain ⟨index, within, rfl⟩ := List.mem_range'.mp member
  omega

/-- The padding of a message is well formed, and no other message has the same. -/
theorem padding_well_formed (message : Bytes) (short : message.length < 2 ^ 61) :
    (∃ count < 64,
      padZeros (message ++ [0x80]) = message ++ [0x80] ++ List.replicate count 0 ∧
      ∀ fewer ≤ count, (message.length + 1 + fewer) % 64 = 56 ↔ fewer = count) ∧
    IsLeast {length | 64 ∣ length ∧ message.length + 9 ≤ length} (padded message).length ∧
    message <+: padded message ∧
    (padded message).drop ((padded message).length - 8) = bigEndian 8 (8 * message.length) ∧
    (∀ chunk ∈ List.range' 0 (((padded message).length + 63) / 64) 64, ∀ i < 16,
      chunk + i * 4 + 3 < (padded message).length) ∧
    ∀ other : Bytes, other.length < 2 ^ 61 → other ≠ message → padded other ≠ padded message := by
  refine ⟨⟨zeroBytes message.length, zeroBytes_lt _, ?_, fun fewer => zeroBytes_iff⟩,
    isLeast_length_padded short, ?_, drop_length_padded short, ?_, ?_⟩
  · rw [padZeros_eq, List.length_append, List.length_singleton, zeroBytes]
  · rw [padded_eq short, List.append_assoc, List.append_assoc]
    exact List.prefix_append _ _
  · intro chunk member i word
    exact chunk_within (length_padded message) member word
  · intro other short' different same
    exact different (padded_injective short' short same)

theorem padding_well_formed_abc :
    IsLeast {length | 64 ∣ length ∧ (bytesOf "abc").length + 9 ≤ length}
      (padded (bytesOf "abc")).length :=
  (padding_well_formed (bytesOf "abc") (by decide)).2.1

end Kode.Crypto
