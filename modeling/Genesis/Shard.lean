import Genesis.Bytes
import Genesis.Error

/-! Which shard an address falls into: its last bytes, cut to the width that the count needs. -/

namespace Genesis

structure Coordinator where
  count : Nat
  count_pos : 0 < count
  count_lt : count < UInt32.size
  deriving Repr

namespace Coordinator

def ofCount? (count : UInt32) : Except Error Coordinator :=
  if h : 0 < count.toNat then .ok ⟨count.toNat, h, count.toNat_lt⟩ else .error .noShards

/-- The number of bits in which the greatest shard can be written. -/
def width (c : Coordinator) : Nat := if c.count = 1 then 0 else Nat.log2 (c.count - 1) + 1

def highMask (c : Coordinator) : Nat := (1 <<< c.width) - 1

def lowMask (c : Coordinator) : Nat := (1 <<< (c.width - 1)) - 1

/-- The number of bytes at the end of an address that count. -/
def bytesNeeded (c : Coordinator) : Nat :=
  if c.count ≤ 256 then 1
  else if c.count ≤ 65536 then 2
  else if c.count ≤ 16777216 then 3
  else 4

/-- The shard of an address. A number beyond the last shard loses its highest bit. -/
def shardOf (c : Coordinator) (address : Bytes) : Nat :=
  let n := bigEndian (address.drop (address.length - c.bytesNeeded))
  let shard := n &&& c.highMask
  if c.count - 1 < shard then n &&& c.lowMask else shard

def summary (c : Coordinator) : String :=
  "ShardCoordinator \x7b num_shards: " ++ toString c.count ++ ", mask_high: " ++
    toString c.highMask ++ ", mask_low: " ++ toString c.lowMask ++ " \x7d"

end Coordinator

end Genesis
