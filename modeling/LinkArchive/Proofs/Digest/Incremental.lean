import LinkArchive.Digest.Algorithm
import Mathlib.Data.List.Induction

/-!
# Digests in the making

A run has folded the whole blocks of what it has taken and keeps the rest: `BlockDigest.Holds`. With
the padding taken as well there is no rest, so `finish` gives the digest of the message.
-/

namespace LinkArchive.Digest

theorem blocks_of_short {bytes : Bytes} (short : bytes.length < blockSize) : blocks bytes = [] := by
  rw [blocks, dif_pos]
  rw [List.length_take]
  omega

theorem blocks_nil : blocks [] = [] := by
  have empty : ([] : Bytes).length < blockSize := by
    show 0 < 64
    decide
  exact blocks_of_short empty

theorem blocks_of_block {block : Bytes} (full : block.length = blockSize) (bytes : Bytes) :
    blocks (block ++ bytes) = block :: blocks bytes := by
  have first : (block ++ bytes).take blockSize = block := List.take_left' full
  have others : (block ++ bytes).drop blockSize = bytes := List.drop_left' full
  rw [blocks, first, others, dif_neg (by omega)]

/-- Whole blocks stay as they are when bytes follow. -/
theorem blocks_append {whole : Bytes} (divides : whole.length % blockSize = 0) (bytes : Bytes) :
    blocks (whole ++ bytes) = blocks whole ++ blocks bytes := by
  fun_induction blocks whole with
  | case1 whole short =>
    have empty : whole.length = 0 := by
      rw [List.length_take, blockSize] at short
      rw [blockSize] at divides
      omega
    rw [List.length_eq_zero_iff.mp empty]
    rfl
  | case2 whole full ih =>
    have size : (whole.take blockSize).length = blockSize := by
      rw [List.length_take] at full ⊢
      omega
    have rest : (whole.drop blockSize).length % blockSize = 0 := by
      rw [List.length_drop]
      rw [List.length_take, blockSize] at full
      rw [blockSize] at divides ⊢
      omega
    have cut : whole ++ bytes = whole.take blockSize ++ (whole.drop blockSize ++ bytes) := by
      rw [← List.append_assoc, List.take_append_drop]
    rw [cut, blocks_of_block size, ih rest, List.cons_append]

namespace BlockDigest

variable {χ : Type} {d : BlockDigest χ} {run : Run χ} {message : Bytes}

/-- The run has taken this message. -/
structure Holds (d : BlockDigest χ) (run : Run χ) (message : Bytes) : Prop where
  length : run.length = message.length
  short : run.pending.length < blockSize
  folded : ∃ whole, message = whole ++ run.pending ∧ whole.length % blockSize = 0 ∧
    run.chain = (blocks whole).foldl d.compress d.start

theorem holds_begin (d : BlockDigest χ) : d.Holds d.begin [] where
  length := rfl
  short := by
    show 0 < 64
    decide
  folded := by
    refine ⟨[], rfl, rfl, ?_⟩
    rw [blocks_nil]
    rfl

theorem holds_push (h : d.Holds run message) (byte : UInt8) :
    d.Holds (d.push run byte) (message ++ [byte]) := by
  obtain ⟨whole, rfl, divides, chain⟩ := h.folded
  have length := h.length
  have short := h.short
  have longer : run.length + 1 = (whole ++ run.pending ++ [byte]).length := by
    simp [length, Nat.add_assoc]
  unfold push
  dsimp only
  split
  · rename_i unfinished
    exact ⟨longer, unfinished, whole, List.append_assoc .., divides, chain⟩
  · rename_i finished
    have full : (run.pending ++ [byte]).length = blockSize := by
      rw [List.length_append, List.length_singleton] at finished ⊢
      omega
    refine ⟨longer, ?_, whole ++ (run.pending ++ [byte]), ?_, ?_, ?_⟩
    · show 0 < 64
      decide
    · rw [List.append_nil, List.append_assoc]
    · rw [List.length_append, full, Nat.add_mod_right, divides]
    · have last := blocks_of_block full []
      rw [List.append_nil, blocks_nil] at last
      rw [blocks_append divides, last, List.foldl_append, ← chain]
      rfl

theorem holds_update (d : BlockDigest χ) (message : Bytes) :
    d.Holds (d.update d.begin message) message := by
  induction message using List.reverseRecOn with
  | nil => exact holds_begin d
  | append_singleton message byte ih =>
    rw [update_append]
    exact holds_push ih byte

theorem Holds.chain_eq (h : d.Holds run message) (divides : message.length % blockSize = 0) :
    run.chain = (blocks message).foldl d.compress d.start := by
  obtain ⟨whole, rfl, whole_divides, chain⟩ := h.folded
  have short := h.short
  have empty : run.pending.length = 0 := by
    rw [List.length_append] at divides
    rw [blockSize] at divides whole_divides short
    omega
  rw [List.length_eq_zero_iff.mp empty, List.append_nil]
  exact chain

theorem length_padding (eight : ∀ bits, (d.lengthField bits).length = 8) (length : Nat) :
    (length + (d.padding length).length) % blockSize = 0 := by
  simp only [padding, List.cons_append, List.length_cons, List.length_append, List.length_replicate,
    eight, blockSize]
  omega

/-- Taking a message byte by byte gives its digest. -/
theorem finish_update (eight : ∀ bits, (d.lengthField bits).length = 8) (message : Bytes) :
    d.finish (d.update d.begin message) = d.digest message := by
  have whole : (message ++ d.padding message.length).length % blockSize = 0 := by
    rw [List.length_append]
    exact length_padding eight message.length
  rw [finish, (holds_update d message).length, ← update_append, (holds_update d _).chain_eq whole,
    digest]

end BlockDigest

end LinkArchive.Digest

namespace LinkArchive.Hasher

open Digest

/-- However a message was given to a hasher, the result is the digest of it all. -/
theorem finish_update (algorithm : Algorithm) (message : Bytes) :
    ((ofAlgorithm algorithm).update message).finish = algorithm.digest message := by
  cases algorithm with
  | md5 =>
    have eight : ∀ bits, (Digest.md5.lengthField bits).length = 8 := by
      intro bits
      simp [Digest.md5, Bytes.ofNatLittleEndian]
    exact BlockDigest.finish_update eight message
  | sha1 =>
    have eight : ∀ bits, (Digest.sha1.lengthField bits).length = 8 := by
      intro bits
      simp [Digest.sha1, Bytes.ofNatBigEndian]
    exact BlockDigest.finish_update eight message
  | crc32 => rfl

end LinkArchive.Hasher
