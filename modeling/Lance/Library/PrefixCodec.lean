import Lance.Library.LittleEndian

/-! Prefix codecs over byte buffers: an encoder, and a decoder that takes one
value off the front of a buffer and hands back the rest, with the law that it
takes back exactly what was put there, whatever follows. Words, bytes, options,
pairs, tagged choices and lists combine into codecs of records and sums; a
codec carried along a bijection is a codec of the other side. -/

namespace Lance.Library

/-- An encoder with a decoder that undoes it on any buffer it begins. -/
structure PrefixCodec (α : Type) where
  encode : α → List UInt8
  decode : List UInt8 → Option (α × List UInt8)
  decode_encode : ∀ value rest, decode (encode value ++ rest) = some (value, rest)

namespace PrefixCodec

variable {α β : Type}

def word64 : PrefixCodec UInt64 where
  encode value := toLeBytes 8 value.toNat
  decode input := (readLe 8 input).map fun (value, rest) => (UInt64.ofNat value, rest)
  decode_encode value rest := by
    rw [readLe_toLeBytes_append (UInt64.toNat_lt value)]
    simp

/-- One byte as itself. -/
def byte : PrefixCodec UInt8 where
  encode value := [value]
  decode
    | [] => none
    | value :: rest => some (value, rest)
  decode_encode _ _ := rfl

/-- Which of two: a tag byte, then the value. -/
def sum (left : PrefixCodec α) (right : PrefixCodec β) : PrefixCodec (α ⊕ β) where
  encode
    | .inl value => 0 :: left.encode value
    | .inr value => 1 :: right.encode value
  decode
    | [] => none
    | tag :: rest =>
      if tag = 0 then (left.decode rest).map fun (value, rest) => (.inl value, rest)
      else (right.decode rest).map fun (value, rest) => (.inr value, rest)
  decode_encode value rest := by
    cases value with
    | inl value => simp [left.decode_encode]
    | inr value => simp [right.decode_encode]

def pair (first : PrefixCodec α) (second : PrefixCodec β) : PrefixCodec (α × β) where
  encode value := first.encode value.1 ++ second.encode value.2
  decode input :=
    match first.decode input with
    | none => none
    | some (a, rest) => (second.decode rest).map fun (b, rest) => ((a, b), rest)
  decode_encode value rest := by
    simp only [List.append_assoc, first.decode_encode, second.decode_encode, Option.map_some]

/-- A codec carried along a bijection. -/
def map (codec : PrefixCodec α) (f : α → β) (g : β → α) (inverse : ∀ b, f (g b) = b) : PrefixCodec β where
  encode value := codec.encode (g value)
  decode input := (codec.decode input).map fun (a, rest) => (f a, rest)
  decode_encode value rest := by simp [codec.decode_encode, inverse]

def encodeList (codec : PrefixCodec α) : List α → List UInt8
  | [] => [0]
  | value :: rest => 1 :: codec.encode value ++ encodeList codec rest

/-- The decoder of `encodeList`; every marker takes a byte, so a fuel of one
more than the buffer's length is enough. -/
def decodeList (codec : PrefixCodec α) : Nat → List UInt8 → Option (List α × List UInt8)
  | 0, _ => none
  | _ + 1, [] => none
  | fuel + 1, marker :: input =>
    if marker = 0 then some ([], input)
    else do
      let (value, rest) ← codec.decode input
      let (values, rest) ← decodeList codec fuel rest
      pure (value :: values, rest)

theorem decodeList_encodeList (codec : PrefixCodec α) :
    ∀ (values : List α) (rest : List UInt8) (fuel : Nat), values.length < fuel →
      decodeList codec fuel (encodeList codec values ++ rest) = some (values, rest) := by
  intro values
  induction values with
  | nil =>
    intro rest fuel enough
    cases fuel with
    | zero => exact absurd enough (Nat.not_lt_zero _)
    | succ fuel => rfl
  | cons value values ih =>
    intro rest fuel enough
    cases fuel with
    | zero => exact absurd enough (Nat.not_lt_zero _)
    | succ fuel =>
      have restFuel : values.length < fuel := by simp at enough; omega
      simp [encodeList, decodeList, List.append_assoc, codec.decode_encode, ih rest fuel restFuel]

theorem length_lt_encodeList (codec : PrefixCodec α) :
    ∀ values : List α, values.length < (encodeList codec values).length := by
  intro values
  induction values with
  | nil => exact Nat.zero_lt_one
  | cons value values ih =>
    simp only [encodeList, List.length_cons, List.cons_append, List.length_append]
    omega

def list (codec : PrefixCodec α) : PrefixCodec (List α) where
  encode := encodeList codec
  decode input := decodeList codec (input.length + 1) input
  decode_encode values rest := by
    apply decodeList_encodeList
    have := length_lt_encodeList codec values
    simp only [List.length_append]
    omega

def option (codec : PrefixCodec α) : PrefixCodec (Option α) :=
  (sum (map byte (fun _ => ()) (fun _ => 0) (fun _ => rfl)) codec).map
    (fun choice => choice.elim (fun _ => none) some)
    (fun value => value.elim (.inl ()) .inr)
    (fun value => by cases value <;> rfl)

end PrefixCodec

end Lance.Library
