import Wireform.Bytes

/-
  Wireform cyclic checks: the two reflected 32-bit codes, an octet at a time from a table whose
  entries are eight shifts of a bit. A check can be continued from the value of what came before.
-/

namespace Wireform.Crc

/-- The codes, each with its reflected polynomial. -/
inductive Code where
  | ieee
  | castagnoli
  deriving DecidableEq, Repr

def Code.polynomial : Code → Nat
  | ieee => 0xedb88320
  | castagnoli => 0x82f63b78

/-- One bit moves out of the register. -/
def shift (poly r : Nat) : Nat := if r % 2 = 1 then (r >>> 1) ^^^ poly else r >>> 1

/-- Eight bits move out of the register. -/
def shiftOctet (poly r : Nat) : Nat := (List.range 8).foldl (fun r _ => shift poly r) r

/-- The register after eight shifts, for every octet. -/
def tableOf (poly : Nat) : Array Nat := (Array.range 256).map (shiftOctet poly)

def ieeeTable : Array Nat := tableOf Code.ieee.polynomial

def castagnoliTable : Array Nat := tableOf Code.castagnoli.polynomial

def Code.table : Code → Array Nat
  | ieee => ieeeTable
  | castagnoli => castagnoliTable

/-- All bits of a register. -/
def ones : Nat := 0xffffffff

/-- The register after one octet. -/
def step (table : Array Nat) (r : Nat) (b : UInt8) : Nat :=
  table.getD ((r ^^^ b.toNat) &&& 0xff) 0 ^^^ (r >>> 8)

/-- The register of a value after octets. -/
def run (table : Array Nat) (value : Nat) (data : Bytes) : Nat :=
  data.foldl (step table) (value ^^^ ones) ^^^ ones

/-- The check of octets, continued from the value of those before them. -/
def compute (code : Code) (value : Nat) (data : Bytes) : Nat := run code.table value data

/-- A check continued from any integer. A negative one stands for a register of ones without end,
which is kept as its complement; complements are looked up from the end of the table. -/
def continued (code : Code) (value : Int) (data : Bytes) : Int :=
  match value with
  | .ofNat n => .ofNat (compute code n data)
  | .negSucc n => .negSucc (run code.table.reverse n data)

end Wireform.Crc
