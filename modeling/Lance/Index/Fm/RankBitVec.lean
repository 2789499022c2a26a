import Mathlib

/-! The bit vector with constant-time rank under the FM-index's wavelet tree
(`RankBitVec` in `scalar/fmindex.rs`). Bits live in 64-bit words; a
superblock of eight words stores the number of ones before it, as a `u32`, so
that `rank1` adds the popcounts of at most eight words to one stored count.

Indexing past the end of a `Vec` panics in the source; here it is `none`.
The running count of `build_rank_index` is a `u32` and wraps, as the release
build's `+=` does. -/

namespace Lance.Index.Fm

def superblockBits : Nat := 512

def wordsPerSuperblock : Nat := superblockBits / 64

def countOnes (word : UInt64) : Nat := word.toBitVec.cpopNatRec 64 0

/-- `RankBitVec`. -/
structure RankBitVec where
  words : List UInt64
  superblocks : List UInt32
  len : Nat

namespace RankBitVec

/-- `RankBitVec::new`: `len` zero bits and no rank index yet. -/
def new (len : Nat) : RankBitVec := ⟨List.replicate ((len + 63) / 64) 0, [], len⟩

/-- `set`: turn on the bit at `pos`. -/
def set (bv : RankBitVec) (pos : Nat) : Option RankBitVec := do
  let word ← bv.words[pos / 64]?
  some { bv with words := bv.words.set (pos / 64) (word ||| ((1 : UInt64) <<< (pos % 64).toUInt64)) }

/-- `get`: the bit at `pos`. -/
def get (bv : RankBitVec) (pos : Nat) : Option Bool := do
  let word ← bv.words[pos / 64]?
  some ((word >>> (pos % 64).toUInt64) &&& 1 != 0)

/-- The entries `build_rank_index` pushes: for each chunk of eight words the
count of ones before it (`0` for the first chunk, which is the count there),
then the total. -/
def superblockCounts : List (List UInt64) → UInt32 → List UInt32
  | [], cum => [cum]
  | chunk :: rest, cum =>
    cum :: superblockCounts rest (chunk.foldl (fun cum word => cum + (countOnes word).toUInt32) cum)

def buildRankIndex (bv : RankBitVec) : RankBitVec :=
  { bv with superblocks := superblockCounts (bv.words.toChunks wordsPerSuperblock) 0 }

/-- `rank1`: the number of ones in `[0, pos)`, read from the superblock count,
the whole words after it and the low bits of the word holding `pos`. -/
def rank1 (bv : RankBitVec) (pos : Nat) : Option Nat :=
  if pos = 0 then some 0
  else do
    let wordIdx := pos / 64
    let bitIdx := pos % 64
    let sbIdx := wordIdx / wordsPerSuperblock
    let stored ← bv.superblocks[sbIdx]?
    let between ← (List.range' (sbIdx * wordsPerSuperblock) (wordIdx - sbIdx * wordsPerSuperblock)).mapM
      fun i => bv.words[i]?
    let count := stored.toNat + (between.map countOnes).sum
    if 0 < bitIdx then do
      let word ← bv.words[wordIdx]?
      some (count + countOnes (word &&& (((1 : UInt64) <<< bitIdx.toUInt64) - 1)))
    else some count

def rank0 (bv : RankBitVec) (pos : Nat) : Option Nat := do
  let ones ← bv.rank1 pos
  some (pos - ones)

/-! ### Reading bits back -/

theorem bne_zero_eq_toNat (y : UInt64) : (y != 0) = (y.toNat != 0) := by
  rw [Bool.eq_iff_iff, bne_iff_ne, bne_iff_ne, ne_eq, ne_eq, ← UInt64.toNat_inj, UInt64.toNat_zero]

theorem bit_eq_testBit (x : UInt64) {m : Nat} (small : m < 64) :
    ((x >>> m.toUInt64) &&& 1 != 0) = x.toNat.testBit m := by
  have fits : m < UInt64.size := by change m < 2 ^ 64; omega
  rw [bne_zero_eq_toNat]
  simp only [UInt64.toNat_and, UInt64.toNat_shiftRight, Nat.toUInt64,
    UInt64.toNat_ofNat_of_lt' fits, show (1 : UInt64).toNat = 1 from rfl,
    Nat.mod_eq_of_lt small, Nat.and_one_is_mod, Nat.shiftRight_eq_div_pow, Nat.testBit_eq_decide_div_mod_eq]
  cases Nat.mod_two_eq_zero_or_one (x.toNat / 2 ^ m) with
  | inl zero => simp [zero]
  | inr one => simp [one]

theorem toNat_one_shiftLeft {k : Nat} (small : k < 64) : ((1 : UInt64) <<< k.toUInt64).toNat = 2 ^ k := by
  have fits : k < UInt64.size := by change k < 2 ^ 64; omega
  simp only [UInt64.toNat_shiftLeft, Nat.toUInt64, UInt64.toNat_ofNat_of_lt' fits, Nat.mod_eq_of_lt small,
    show (1 : UInt64).toNat = 1 from rfl, Nat.one_shiftLeft]
  exact Nat.mod_eq_of_lt (Nat.pow_lt_pow_right (by decide) small)

theorem get_eq_testBit (bv : RankBitVec) (pos : Nat) :
    bv.get pos = bv.words[pos / 64]?.map fun word => word.toNat.testBit (pos % 64) := by
  unfold get
  cases bv.words[pos / 64]? with
  | none => rfl
  | some word => simp [bit_eq_testBit word (Nat.mod_lt pos (by decide))]

theorem get_new_ne_true (len pos : Nat) : (new len).get pos ≠ some true := by
  rw [get_eq_testBit]
  by_cases inside : pos / 64 < (len + 63) / 64
  · simp [new, inside]
  · simp [new, inside]

/-- After `set` at `target` the bit there is on and every other bit is as it was. -/
theorem get_set {bv next : RankBitVec} {target : Nat} (set : bv.set target = some next) (pos : Nat) :
    next.get pos = if pos = target then some true else bv.get pos := by
  unfold RankBitVec.set at set
  obtain ⟨word, found, built⟩ := Option.bind_eq_some_iff.mp set
  cases built
  have inside : target / 64 < bv.words.length := (List.getElem?_eq_some_iff.mp found).1
  have offset : target % 64 < 64 := Nat.mod_lt _ (by decide)
  rw [get_eq_testBit, get_eq_testBit]
  by_cases sameWord : pos / 64 = target / 64
  · -- one word: the bit at `target`'s offset is on, the others are the word's
    have sameOffset : pos % 64 = target % 64 ↔ pos = target := by
      constructor
      · intro same
        rw [← Nat.div_add_mod pos 64, ← Nat.div_add_mod target 64, sameWord, same]
      · intro same
        rw [same]
    simp only [List.getElem?_set, sameWord, inside, ↓reduceIte, found, Option.map_some, UInt64.toNat_or,
      toNat_one_shiftLeft offset, Nat.testBit_or, Nat.testBit_two_pow]
    by_cases hit : pos = target
    · simp [hit]
    · have missed : target % 64 ≠ pos % 64 := fun same => hit (sameOffset.mp same.symm)
      simp [hit, missed]
  · have other : pos ≠ target := fun same => sameWord (by rw [same])
    simp [Ne.symm sameWord, other]

@[simp] theorem get_buildRankIndex (bv : RankBitVec) (pos : Nat) : bv.buildRankIndex.get pos = bv.get pos :=
  rfl

end RankBitVec

end Lance.Index.Fm
