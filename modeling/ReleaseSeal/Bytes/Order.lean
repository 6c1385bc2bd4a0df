/-!
# Byte order

How a number is stored in a fixed count of bytes. `ByteOrder.decode` reads the base-256 digits of a
field, `ByteOrder.encode` writes them, and each undoes the other on its range (`decode_encode`,
`encode_decode`). Every fixed-width field of the binary formats in this library goes through these
two functions.
-/

namespace ReleaseSeal

/-- The order in which the bytes of a multi-byte field are stored. -/
inductive ByteOrder where
  | little
  | big
deriving DecidableEq, Repr, Inhabited

namespace ByteOrder

/-- The number whose base-256 digits are the given bytes, least significant first. -/
def ofDigits : List UInt8 → Nat
  | [] => 0
  | b :: rest => b.toNat + 256 * ofDigits rest

/-- The lowest `width` base-256 digits of a number, least significant first. -/
def toDigits : Nat → Nat → List UInt8
  | 0, _ => []
  | width + 1, n => UInt8.ofNat n :: toDigits width (n / 256)

/-- The number stored in a field. -/
def decode (order : ByteOrder) (field : List UInt8) : Nat :=
  match order with
  | little => ofDigits field
  | big => ofDigits field.reverse

/-- How many numbers a field of `width` bytes can hold. -/
def capacity (width : Nat) : Nat :=
  Nat.pow 256 width

/-- A field of `width` bytes that stores a number modulo the field's capacity. -/
def encode (order : ByteOrder) (width n : Nat) : List UInt8 :=
  match order with
  | little => toDigits width n
  | big => (toDigits width n).reverse

@[simp] theorem length_toDigits (width n : Nat) : (toDigits width n).length = width := by
  induction width generalizing n with
  | zero => rfl
  | succ width ih => simp [toDigits, ih]

theorem capacity_succ (width : Nat) : capacity (width + 1) = 256 * capacity width :=
  Nat.mul_comm _ _

theorem ofDigits_toDigits (width n : Nat) : ofDigits (toDigits width n) = n % capacity width := by
  induction width generalizing n with
  | zero => simp [toDigits, ofDigits, capacity, Nat.mod_one]
  | succ width ih =>
    have hb : (UInt8.ofNat n).toNat = n % 256 := UInt8.toNat_ofNat'
    rw [toDigits, ofDigits, ih, hb, capacity_succ, Nat.mod_mul]

theorem toDigits_ofDigits (field : List UInt8) : toDigits field.length (ofDigits field) = field := by
  induction field with
  | nil => rfl
  | cons b rest ih =>
    have hb : b.toNat < 256 := b.toNat_lt
    have hdiv : (b.toNat + 256 * ofDigits rest) / 256 = ofDigits rest := by omega
    have hmod : UInt8.ofNat (b.toNat + 256 * ofDigits rest) = b := by
      apply UInt8.toNat.inj
      have h : (UInt8.ofNat (b.toNat + 256 * ofDigits rest)).toNat =
          (b.toNat + 256 * ofDigits rest) % 256 := UInt8.toNat_ofNat'
      omega
    rw [List.length_cons, toDigits, ofDigits, hdiv, hmod, ih]

theorem ofDigits_lt (field : List UInt8) : ofDigits field < capacity field.length := by
  induction field with
  | nil => simp [ofDigits, capacity]
  | cons b rest ih =>
    have hb : b.toNat < 256 := b.toNat_lt
    rw [ofDigits, List.length_cons, capacity_succ]
    omega

@[simp] theorem length_encode (order : ByteOrder) (width n : Nat) :
    (order.encode width n).length = width := by
  cases order <;> simp [encode]

theorem decode_encode (order : ByteOrder) (width n : Nat) :
    order.decode (order.encode width n) = n % capacity width := by
  cases order <;> simp [encode, decode, ofDigits_toDigits]

theorem encode_decode (order : ByteOrder) (field : List UInt8) :
    order.encode field.length (order.decode field) = field := by
  cases order with
  | little => exact toDigits_ofDigits field
  | big =>
    have h := toDigits_ofDigits field.reverse
    rw [List.length_reverse] at h
    simp [encode, decode, h]

theorem decode_lt (order : ByteOrder) (field : List UInt8) :
    order.decode field < capacity field.length := by
  cases order with
  | little => exact ofDigits_lt field
  | big => simpa [decode] using ofDigits_lt field.reverse

end ByteOrder

end ReleaseSeal
