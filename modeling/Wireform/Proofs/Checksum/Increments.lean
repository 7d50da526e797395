import Wireform.Checksum.Algorithm

/-
  Wireform checksums: a checksum that grows chunk by chunk is the checksum of all octets at once,
  wherever the chunks are cut.
-/

namespace Wireform

/-- A cyclic check of two texts continues from the value of the first one. -/
theorem Crc.run_append (table : Array Nat) (value : Nat) (x y : Bytes) :
    run table value (x ++ y) = run table (run table value x) y := by
  unfold run
  rw [List.foldl_append, Nat.xor_assoc (x.foldl _ _) ones ones, Nat.xor_self, Nat.xor_zero]

theorem Crc.run_nil (table : Array Nat) (value : Nat) : run table value [] = value := by
  show value ^^^ ones ^^^ ones = value
  rw [Nat.xor_assoc, Nat.xor_self, Nat.xor_zero]

namespace Checksum

theorem update_append (x y : Bytes) (c : Checksum) :
    c.update (x ++ y) = (c.update x).update y := by
  cases c with
  | crc code value => exact congrArg (crc code) (Crc.run_append code.table value x y)
  | sha1 seen => exact congrArg sha1 (List.append_assoc seen x y).symm
  | sha256 seen => exact congrArg sha256 (List.append_assoc seen x y).symm

theorem update_nil (c : Checksum) : c.update [] = c := by
  cases c with
  | crc code value => exact congrArg (crc code) (Crc.run_nil code.table value)
  | sha1 seen => exact congrArg sha1 (List.append_nil seen)
  | sha256 seen => exact congrArg sha256 (List.append_nil seen)

theorem foldl_update (chunks : List Bytes) (c : Checksum) :
    chunks.foldl (fun c x => c.update x) c = c.update chunks.flatten := by
  induction chunks generalizing c with
  | nil => rw [List.foldl_nil, List.flatten_nil, update_nil]
  | cons x xs ih => rw [List.foldl_cons, List.flatten_cons, update_append, ih]

/-- The checksum of chunks one after the other is that of their octets. -/
theorem foldl_update_new (a : Algorithm) (chunks : List Bytes) :
    chunks.foldl (fun c x => c.update x) (new a) = ofBytes a chunks.flatten :=
  foldl_update chunks (new a)

end Checksum

end Wireform
