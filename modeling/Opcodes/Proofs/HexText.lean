import Opcodes.Proofs.ByteGrammar
import Opcodes.Text.Hex

/-!
# Bytes in hexadecimal

The two digits of a byte denote it, so the marked form is read back as the byte.
-/

namespace Opcodes.Proofs.HexText

open ByteGrammar Numerals Text.Hex

theorem digits_lt (byte : UInt8) : byte.toNat / 16 < 16 ∧ byte.toNat % 16 < 16 := by
  have bound := byte.toNat_lt
  omega

theorem denotes_pair (byte : UInt8) : Denotes 16 (pair byte).toList byte.toNat := by
  refine ⟨by simp, [byte.toNat / 16, byte.toNat % 16], ?_, ?_⟩
  · rw [toList_pair]
    exact .cons ⟨(digits_lt byte).1, .inl rfl⟩ (.cons ⟨(digits_lt byte).2, .inl rfl⟩ .nil)
  · simp [Nat.ofDigits_cons]
    omega

/-- A marked byte is read back. -/
theorem read_marked (byte : UInt8) : ByteLiteral.read (marked byte) = .ok byte := by
  have written : Literal ([] ++ (['0', 'x'] ++ (pair byte).toList) ++ []) byte.toNat :=
    .intro (by simp) (by simp [marks]) (denotes_pair byte) (by simp)
  rw [read_eq_ok_iff_literal, toList_marked]
  simpa using written

theorem marked_injective : Function.Injective marked := by
  intro first second same
  have read := read_marked first
  rw [same, read_marked] at read
  exact (Except.ok.inj read).symm

theorem length_marked (byte : UInt8) : (marked byte).length = 4 := by
  rw [← String.length_toList, toList_marked, toList_pair]
  rfl

/-- The characters with which marked bytes are written. -/
def alphabet : List Char :=
  "0123456789abcdefx".toList

theorem mem_alphabet_of_pair {byte : UInt8} {character : Char}
    (member : character ∈ (pair byte).toList) : character ∈ alphabet := by
  have digits : ∀ value < 16, Nat.digitChar value ∈ alphabet := by
    decide
  rw [toList_pair] at member
  simp only [List.mem_cons, List.not_mem_nil, or_false] at member
  rcases member with rfl | rfl
  · exact digits _ (digits_lt byte).1
  · exact digits _ (digits_lt byte).2

theorem mem_alphabet {byte : UInt8} {character : Char}
    (member : character ∈ (marked byte).toList) : character ∈ alphabet := by
  rw [toList_marked, List.mem_cons, List.mem_cons] at member
  rcases member with rfl | rfl | digit
  · decide
  · decide
  · exact mem_alphabet_of_pair digit

theorem not_mem_pair {character : Char} (foreign : character ∉ alphabet) (byte : UInt8) :
    character ∉ (pair byte).toList :=
  fun member => foreign (mem_alphabet_of_pair member)

theorem not_mem_marked {character : Char} (foreign : character ∉ alphabet) (byte : UInt8) :
    character ∉ (marked byte).toList :=
  fun member => foreign (mem_alphabet member)

theorem marked_all {holds : Char → Bool} (each : alphabet.all holds = true) (byte : UInt8) :
    ∀ character ∈ (marked byte).toList, holds character = true :=
  fun character member => List.all_eq_true.mp each character (mem_alphabet member)

end Opcodes.Proofs.HexText
