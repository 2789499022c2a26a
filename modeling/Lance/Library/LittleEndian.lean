import Lance.Library.Chunks

/-! Little-endian words of fixed width over byte buffers: the bytes of a
number and the number bytes spell, a reader that takes a word or a run of
bytes off the front of a buffer, and lists of words put end to end and cut
apart again. Each writer is undone by its reader. -/

namespace Lance.Library

/-- `to_le_bytes`: the low `width` bytes of a number, least significant first. -/
def toLeBytes : Nat → Nat → List UInt8
  | 0, _ => []
  | width + 1, value => UInt8.ofNat value :: toLeBytes width (value / 256)

/-- `from_le_bytes`: the number little-endian bytes spell. -/
def fromLeBytes : List UInt8 → Nat
  | [] => 0
  | byte :: rest => byte.toNat + 256 * fromLeBytes rest

@[simp] theorem length_toLeBytes : ∀ (width value : Nat), (toLeBytes width value).length = width
  | 0, _ => rfl
  | width + 1, value => by simp [toLeBytes, length_toLeBytes width (value / 256)]

theorem fromLeBytes_toLeBytes : ∀ (width value : Nat), value < 256 ^ width →
    fromLeBytes (toLeBytes width value) = value
  | 0, value, fits => by
    have zero : value = 0 := by simpa using fits
    subst zero
    rfl
  | width + 1, value, fits => by
    have rest : value / 256 < 256 ^ width := by
      rw [Nat.pow_succ] at fits
      omega
    simp only [toLeBytes, fromLeBytes, fromLeBytes_toLeBytes width (value / 256) rest, UInt8.toNat_ofNat']
    omega

theorem fromLeBytes_lt : ∀ bytes : List UInt8, fromLeBytes bytes < 256 ^ bytes.length
  | [] => Nat.one_pos
  | byte :: rest => by
    have restFits := fromLeBytes_lt rest
    have byteFits := byte.toNat_lt
    simp only [fromLeBytes, List.length_cons, Nat.pow_succ]
    omega

/-- `read_u32::<LittleEndian>` and its kin: one word of `width` bytes off the
front of the buffer; none when the buffer is too short. -/
def readLe (width : Nat) (input : List UInt8) : Option (Nat × List UInt8) :=
  if width ≤ input.length then some (fromLeBytes (input.take width), input.drop width) else none

theorem readLe_toLeBytes_append {width value : Nat} (fits : value < 256 ^ width) (rest : List UInt8) :
    readLe width (toLeBytes width value ++ rest) = some (value, rest) := by
  have short : width ≤ (toLeBytes width value ++ rest).length := by simp
  rw [readLe, if_pos short, List.take_left' (length_toLeBytes width value),
    List.drop_left' (length_toLeBytes width value), fromLeBytes_toLeBytes width value fits]

/-- `read_exact`: the next `count` bytes; none when the buffer is too short. -/
def readExact (count : Nat) (input : List UInt8) : Option (List UInt8 × List UInt8) :=
  if count ≤ input.length then some (input.take count, input.drop count) else none

theorem readExact_append (bytes rest : List UInt8) :
    readExact bytes.length (bytes ++ rest) = some (bytes, rest) := by
  have short : bytes.length ≤ (bytes ++ rest).length := by simp
  rw [readExact, if_pos short, List.take_left, List.drop_left]

def encodeWords (width : Nat) (values : List Nat) : List UInt8 := values.flatMap (toLeBytes width)

def decodeWords (width : Nat) (bytes : List UInt8) : List Nat := (chunksExact width bytes).map fromLeBytes

@[simp] theorem length_encodeWords (width : Nat) (values : List Nat) :
    (encodeWords width values).length = width * values.length := by
  induction values with
  | nil => rfl
  | cons value rest ih =>
    simp only [encodeWords, List.flatMap_cons, List.length_append, length_toLeBytes] at ih ⊢
    rw [ih, List.length_cons, Nat.mul_succ, Nat.add_comm]

theorem decodeWords_encodeWords {width : Nat} (positive : 0 < width) {values : List Nat}
    (fits : ∀ value ∈ values, value < 256 ^ width) : decodeWords width (encodeWords width values) = values := by
  have sized : ∀ piece ∈ values.map (toLeBytes width), piece.length = width := by
    intro piece member
    obtain ⟨value, _, rfl⟩ := List.mem_map.mp member
    exact length_toLeBytes width value
  rw [decodeWords, encodeWords, List.flatMap_def, chunksExact_flatten positive sized, List.map_map]
  conv_rhs => rw [← List.map_id values]
  exact List.map_congr_left fun value member => fromLeBytes_toLeBytes width value (fits value member)

theorem decodeWords_encodeWords_map {α : Type} {width : Nat} (positive : 0 < width) (toNat : α → Nat)
    (ofNat : Nat → α) (fits : ∀ x, toNat x < 256 ^ width) (back : ∀ x, ofNat (toNat x) = x) (xs : List α) :
    (decodeWords width (encodeWords width (xs.map toNat))).map ofNat = xs := by
  rw [decodeWords_encodeWords positive (fun value member => ?_), List.map_map]
  · conv_rhs => rw [← List.map_id xs]
    exact List.map_congr_left fun x _ => back x
  · obtain ⟨x, _, rfl⟩ := List.mem_map.mp member
    exact fits x

end Lance.Library
