/-!
# CRC-32

The checksum of archive entries: the reflected polynomial `EDB88320`, with all bits inverted
before and after.
-/
namespace ClasspathSymbols.Crc32

def polynomial : UInt32 := 0xEDB88320

def shift (r : UInt32) : UInt32 :=
  if r &&& 1 = 1 then (r >>> 1) ^^^ polynomial else r >>> 1

def table : Array UInt32 :=
  (Array.range 256).map fun n => (List.range 8).foldl (fun r _ => shift r) n.toUInt32

def entry (n : Nat) : UInt32 := (List.range 8).foldl (fun r _ => shift r) n.toUInt32

theorem getElem?_table {n : Nat} (h : n < 256) : table[n]? = some (entry n) := by
  rw [table, Array.getElem?_map, Array.getElem?_range, if_pos h]
  rfl

def step (r : UInt32) (b : UInt8) : UInt32 :=
  (table[(r ^^^ b.toUInt32).toNat % 256]?.getD 0) ^^^ (r >>> 8)

/-- The step without its table. -/
def tablelessStep (r : UInt32) (b : UInt8) : UInt32 :=
  entry ((r ^^^ b.toUInt32).toNat % 256) ^^^ (r >>> 8)

theorem step_eq : step = tablelessStep := by
  funext r b
  rw [step, getElem?_table (Nat.mod_lt _ (by decide))]
  rfl

def checksum (content : ByteArray) : UInt32 :=
  ~~~ content.foldl step 0xFFFFFFFF

theorem checksum_eq (content : ByteArray) :
    checksum content = ~~~ content.foldl tablelessStep 0xFFFFFFFF := by
  rw [checksum, step_eq]

end ClasspathSymbols.Crc32
