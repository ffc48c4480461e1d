import WlanxVms.Wire

/-!
# The items of the cross_injector queues (`ci_queues.c`)

`QItem` is `q_item_t`. A slot of a queue keeps the bytes of older items behind `size`, so two items
are compared by `QItem.Same`; `encode` is what goes over the wire.
-/

namespace WlanxVms
namespace Injector

def bufferSize : Nat := 2500

def queueSize : Nat := 10

/-- `q_item_t`; `sec`, `nsec` and `positive` are its `bignum_timestamp`. -/
structure QItem where
  size : Nat
  sec : UInt64
  nsec : UInt64
  positive : Bool
  buffer : Mem UInt8

namespace QItem

def bytes (x : QItem) : List UInt8 := x.buffer.read 0 x.size

def header (x : QItem) : List UInt8 := beBytes 4 x.size ++ (beBytes 8 x.sec.toNat ++ beBytes 8 x.nsec.toNat)

def encode (x : QItem) : List UInt8 := x.header ++ x.bytes

/-- The three messages that an item is sent as. -/
def pieces (x : QItem) : List (List UInt8) :=
  [beBytes 4 x.size, beBytes 8 x.sec.toNat ++ beBytes 8 x.nsec.toNat, x.bytes]

/-- The received item `x` is the item `y` that was sent. -/
structure Same (x y : QItem) : Prop where
  size : x.size = y.size
  sec : x.sec = y.sec
  nsec : x.nsec = y.nsec
  positive : x.positive = true
  bytes : x.bytes = y.bytes

variable {x : QItem}

theorem length_bytes (x : QItem) : x.bytes.length = x.size := Mem.length_read ..

theorem length_header (x : QItem) : x.header.length = 20 := by
  simp [header]

theorem length_encode (x : QItem) : x.encode.length = 20 + x.size := by
  rw [encode, List.length_append, length_header, length_bytes]

theorem flatten_pieces (x : QItem) : x.pieces.flatten = x.encode := by
  simp [pieces, encode, header]

end QItem

/-- The items `xs` as one stream of bytes. -/
def wire (xs : List QItem) : List UInt8 := xs.flatMap QItem.encode

variable {x : QItem} {xs : List QItem}

theorem wire_cons (x : QItem) (xs : List QItem) : wire (x :: xs) = x.encode ++ wire xs := List.flatMap_cons ..

theorem le_length_wire (x : QItem) (xs : List QItem) : 20 + x.size ≤ (wire (x :: xs)).length := by
  rw [wire_cons, List.length_append, x.length_encode]; omega

theorem take_wire_four (x : QItem) (xs : List QItem) : (wire (x :: xs)).take 4 = beBytes 4 x.size := by
  rw [wire_cons, QItem.encode, QItem.header, List.append_assoc, List.append_assoc,
    List.take_left' (length_beBytes ..)]

theorem take_wire_header (x : QItem) (xs : List QItem) : (wire (x :: xs)).take 20 = x.header := by
  rw [wire_cons, QItem.encode, List.append_assoc, List.take_left' x.length_header]

theorem take_wire_encode (x : QItem) (xs : List QItem) : (wire (x :: xs)).take (20 + x.size) = x.encode := by
  rw [wire_cons, List.take_left' x.length_encode]

theorem take_drop_wire (x : QItem) (xs : List QItem) :
    ((wire (x :: xs)).drop 4).take 16 = beBytes 8 x.sec.toNat ++ beBytes 8 x.nsec.toNat := by
  rw [wire_cons, QItem.encode, QItem.header, List.append_assoc, List.append_assoc,
    List.drop_left' (length_beBytes ..), List.take_left' (by simp)]

theorem take_payload (x : QItem) (xs : List QItem) : ((wire (x :: xs)).drop 20).take x.size = x.bytes := by
  rw [wire_cons, QItem.encode, List.append_assoc, List.drop_left' x.length_header,
    List.take_left' x.length_bytes]

theorem wire_append (xs ys : List QItem) : wire (xs ++ ys) = wire xs ++ wire ys := List.flatMap_append ..

theorem drop_wire (x : QItem) (xs : List QItem) : (wire (x :: xs)).drop (20 + x.size) = wire xs := by
  rw [wire_cons, List.drop_left' x.length_encode]

theorem flatten_flatMap_pieces (xs : List QItem) : (xs.flatMap QItem.pieces).flatten = wire xs := by
  induction xs with
  | nil => rfl
  | cons x xs ih => rw [List.flatMap_cons, List.flatten_append, ih, QItem.flatten_pieces, wire_cons]

end Injector
end WlanxVms
