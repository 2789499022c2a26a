import Mathlib
import Lance.Library.Windows

/-! The trigram tokenizer of the ngram index (`scalar/ngram.rs`). A text is
first prepared by `TEXT_PREPPER` (`RawTokenizer`, `LowerCaser` and
`AsciiFoldingFilter` of `lance-tokenizer`), then cut into every window of three
chars by `NGRAM_TOKENIZER`, keeping only the windows that are ASCII
alphanumeric; each kept trigram is numbered by `ngram_to_token`.

`RawTokenizer` emits the whole text as one token. `LowerCaser` lower-cases an
ASCII token by ASCII and any other by `char::to_lowercase`; `AsciiFoldingFilter`
rewrites each char of a token that is not ASCII by its own table, or by the
ASCII chars of its NFKD decomposition. The Unicode tables these read belong to
the standard library and to `unicode-normalization`, and are a parameter
(`UnicodeTables`). Both filters rewrite a token one char at a time, so the
proofs take a prepper to be what each filter makes of one char
(`TextPrepper`); `textPrepper` is the one the two filters make. Machine
arithmetic wraps, as in a release build; `none` stands for the one panic,
`unreachable!()`. -/

namespace Lance.Index.NGram

open Lance.Library

/-- `TEXT_PREPPER`: what `LowerCaser` and then `AsciiFoldingFilter` make of each char. -/
structure TextPrepper where
  lowerCaser : Char → List Char
  asciiFoldingFilter : Char → List Char

def TextPrepper.prepare (prepper : TextPrepper) (text : List Char) : List Char :=
  (text.flatMap prepper.lowerCaser).flatMap prepper.asciiFoldingFilter

/-! ### The filters of `lance-tokenizer` -/

/-- The Unicode tables the filters read: `char::to_lowercase`, and the NFKD
decomposition and `is_combining_mark` of `unicode-normalization`. -/
structure UnicodeTables where
  toLowercase : Char → List Char
  nfkd : Char → List Char
  isCombiningMark : Char → Bool

/-- The one fact of the tables the proofs use: `to_lowercase` of an ASCII char
is its ASCII lower case. -/
def UnicodeTables.Lawful (tables : UnicodeTables) : Prop :=
  ∀ ch, ch.isAscii = true → tables.toLowercase ch = [ch.toLower]

/-- `LowerCaser` on the text of a token: an ASCII text gets
`make_ascii_lowercase`, a text that `is_lowercase_stable` is kept, and any
other is lower-cased char by char by `to_lowercase`. -/
def lowerCaser (tables : UnicodeTables) (text : List Char) : List Char :=
  if text.all Char.isAscii then text.map Char.toLower
  else if text.all fun ch => tables.toLowercase ch == [ch] then text
  else text.flatMap tables.toLowercase

def foldChar : Char → Option String
  | 'ß' => some "ss"
  | 'ẞ' => some "SS"
  | 'Æ' => some "AE"
  | 'æ' => some "ae"
  | 'Œ' => some "OE"
  | 'œ' => some "oe"
  | 'Ø' => some "O"
  | 'ø' => some "o"
  | 'Ł' => some "L"
  | 'ł' => some "l"
  | 'Đ' | 'Ð' => some "D"
  | 'đ' | 'ð' => some "d"
  | 'Þ' => some "TH"
  | 'þ' => some "th"
  | 'Ħ' => some "H"
  | 'ħ' => some "h"
  | 'Ŧ' => some "T"
  | 'ŧ' => some "t"
  | 'Ŋ' => some "N"
  | 'ŋ' => some "n"
  | 'ı' => some "i"
  | 'ĸ' => some "k"
  | 'ſ' => some "s"
  | _ => none

/-- What `to_ascii` pushes for one char: an ASCII char, its `fold_char`, or
else the ASCII chars and folds of its NFKD decomposition without the combining
marks; the char itself when that pushes nothing. -/
def toAsciiChar (tables : UnicodeTables) (ch : Char) : List Char :=
  if ch.isAscii then [ch]
  else match foldChar ch with
    | some mapped => mapped.toList
    | none =>
      let pushed := (tables.nfkd ch).flatMap fun decomposed =>
        if decomposed.isAscii then [decomposed]
        else if tables.isCombiningMark decomposed then []
        else ((foldChar decomposed).map String.toList).getD []
      if pushed.isEmpty then [ch] else pushed

/-- `AsciiFoldingFilter` on the text of a token: a text that is not ASCII is
rewritten by `to_ascii`. -/
def asciiFoldingFilter (tables : UnicodeTables) (text : List Char) : List Char :=
  if text.all Char.isAscii then text else text.flatMap (toAsciiChar tables)

def lowerChar (tables : UnicodeTables) (ch : Char) : List Char :=
  if ch.isAscii then [ch.toLower] else tables.toLowercase ch

/-- `TEXT_PREPPER`, char by char. -/
def textPrepper (tables : UnicodeTables) : TextPrepper := ⟨lowerChar tables, toAsciiChar tables⟩

theorem asciiFoldingFilter_eq_flatMap (tables : UnicodeTables) (text : List Char) :
    asciiFoldingFilter tables text = text.flatMap (toAsciiChar tables) := by
  unfold asciiFoldingFilter
  split
  · rename_i ascii
    have kept : ∀ ch ∈ text, toAsciiChar tables ch = [ch] := fun ch member => by
      simp [toAsciiChar, List.all_eq_true.mp ascii ch member]
    rw [List.flatMap_congr kept, List.flatMap_singleton']
  · rfl

theorem lowerCaser_eq_flatMap {tables : UnicodeTables} (lawful : tables.Lawful) (text : List Char) :
    lowerCaser tables text = text.flatMap (lowerChar tables) := by
  -- on an ASCII char every branch agrees with `to_lowercase`
  have agrees : ∀ ch, lowerChar tables ch = tables.toLowercase ch := fun ch => by
    unfold lowerChar
    split
    · rename_i ascii
      exact (lawful ch ascii).symm
    · rfl
  unfold lowerCaser
  split
  · rename_i ascii
    have lowered : ∀ ch ∈ text, lowerChar tables ch = [ch.toLower] := fun ch member => by
      simp [lowerChar, List.all_eq_true.mp ascii ch member]
    rw [List.flatMap_congr lowered, List.map_eq_flatMap]
  split
  · rename_i stable
    have kept : ∀ ch ∈ text, lowerChar tables ch = [ch] := fun ch member => by
      rw [agrees]
      simpa using List.all_eq_true.mp stable ch member
    rw [List.flatMap_congr kept, List.flatMap_singleton']
  · exact List.flatMap_congr fun ch _ => (agrees ch).symm

theorem textPrepper_prepare {tables : UnicodeTables} (lawful : tables.Lawful) (text : List Char) :
    (textPrepper tables).prepare text = asciiFoldingFilter tables (lowerCaser tables text) := by
  rw [asciiFoldingFilter_eq_flatMap, lowerCaser_eq_flatMap lawful]
  rfl

def ngramN : Nat := 3

/-- `ALPHA_SPAN`: 36 alphanumerics and the null position. -/
def alphaSpan : Nat := 37

/-- `NGRAM_TOKENIZER`: `NgramTokenizer::all_ngrams(3, 3)` emits every window of
three chars, and `AlphaNumOnlyFilter` keeps those whose chars are all ASCII
alphanumeric. -/
def ngramTokenizer (text : List Char) : List (List Char) :=
  (windows ngramN text).filter fun ngram => ngram.all Char.isAlphanum

/-- `tokenize_visitor`: the token texts the visitor is called with, in order. -/
def tokenizeVisitor (prepper : TextPrepper) (tokenizer : List Char → List (List Char))
    (text : String) : List (List Char) :=
  tokenizer (prepper.prepare text.toList)

/-- The position of one byte of an ngram in the alphabet, plus one. The `u8`
arithmetic wraps, as in a release build; a byte past `'z'` reaches
`unreachable!()`. -/
def alphabetPosition (byte : UInt8) : Option UInt8 :=
  if byte ≤ '9'.toUInt8 then some (byte - '0'.toUInt8 + 1)
  else if byte ≤ 'z'.toUInt8 then some (byte - 'a'.toUInt8 + 10 + 1)
  else none

/-- The loop of `ngram_to_token` from byte index `idx` on: the exponent
`ngram_length - idx - 1` is a `u32` subtraction, `ALPHA_SPAN.pow` a `usize`
power cast to `u32`, and the token a `u32` sum, all wrapping. -/
def ngramToTokenLoop (ngramLength : Nat) : Nat → List UInt8 → UInt32 → Option UInt32
  | _, [], token => some token
  | idx, byte :: rest, token =>
    match alphabetPosition byte with
    | none => none
    | some pos =>
      let exponent := UInt32.ofNat ngramLength - UInt32.ofNat idx - 1
      let mult := (alphaSpan.toUInt64 ^ exponent.toNat).toUInt32
      ngramToTokenLoop ngramLength (idx + 1) rest (token + pos.toUInt32 * mult)

/-- `ngram_to_token`, over the UTF-8 bytes of the ngram. -/
def ngramToToken (ngram : List Char) (ngramLength : Nat) : Option UInt32 :=
  ngramToTokenLoop ngramLength 0 (ngram.flatMap String.utf8EncodeChar) 0

example : ngramToToken ['a', 'b', 'c'] ngramN = some (UInt32.ofNat (11 * 37 ^ 2 + 12 * 37 + 13)) := by decide

/-! ### Trigrams are monotone in the text

Every trigram a piece of a text yields is a trigram of the text: preparing,
cutting into windows and filtering each keep contiguous pieces. This is what
makes a posting-list intersection a sound over-approximation of `contains`. -/

theorem TextPrepper.prepare_isInfix (prepper : TextPrepper) {piece text : List Char}
    (inside : piece <:+: text) : prepper.prepare piece <:+: prepper.prepare text :=
  (inside.flatMap prepper.lowerCaser).flatMap prepper.asciiFoldingFilter

theorem mem_ngramTokenizer {text ngram : List Char} :
    ngram ∈ ngramTokenizer text ↔
      (ngram.length = ngramN ∧ ngram <:+: text) ∧ ngram.all Char.isAlphanum := by
  rw [ngramTokenizer, List.mem_filter, mem_windows_iff (by decide)]

theorem ngramTokenizer_subset_of_isInfix {piece text : List Char} (inside : piece <:+: text) :
    ∀ ngram ∈ ngramTokenizer piece, ngram ∈ ngramTokenizer text := by
  intro ngram member
  obtain ⟨⟨length, within⟩, alphanumeric⟩ := mem_ngramTokenizer.mp member
  exact mem_ngramTokenizer.mpr ⟨⟨length, within.trans inside⟩, alphanumeric⟩

theorem tokenizeVisitor_subset_of_isInfix (prepper : TextPrepper) {piece text : String}
    (inside : piece.toList <:+: text.toList) :
    ∀ ngram ∈ tokenizeVisitor prepper ngramTokenizer piece,
      ngram ∈ tokenizeVisitor prepper ngramTokenizer text :=
  ngramTokenizer_subset_of_isInfix (prepper.prepare_isInfix inside)

/-! ### A kept trigram always has a token

`AlphaNumOnlyFilter` keeps only ASCII alphanumeric chars, each one byte no
greater than `'z'`, so `ngram_to_token` never reaches `unreachable!()` on a
token the tokenizer emits. -/

theorem val_le_of_isAlphanum {c : Char} (alphanumeric : c.isAlphanum = true) :
    c.val.toNat ≤ 'z'.val.toNat := by
  simp only [Char.isAlphanum, Char.isAlpha, Char.isUpper, Char.isLower, Char.isDigit,
    Bool.or_eq_true, Bool.and_eq_true, decide_eq_true_eq, UInt32.le_iff_toNat_le] at alphanumeric
  have upperZ : 'Z'.val.toNat = 90 := rfl
  have nine : '9'.val.toNat = 57 := rfl
  have z : 'z'.val.toNat = 122 := rfl
  omega

theorem utf8EncodeChar_of_isAlphanum {c : Char} (alphanumeric : c.isAlphanum = true) :
    String.utf8EncodeChar c = [c.val.toUInt8] := by
  have small := val_le_of_isAlphanum alphanumeric
  have z : 'z'.val.toNat = 122 := rfl
  apply String.utf8EncodeChar_eq_singleton
  rw [Char.utf8Size_eq_one_iff, UInt32.le_iff_toNat_le]
  exact Nat.le_trans small (by rw [z]; decide)

theorem alphabetPosition_isSome {byte : UInt8} (small : byte ≤ 'z'.toUInt8) :
    (alphabetPosition byte).isSome := by
  unfold alphabetPosition
  split
  · rfl
  · simp

theorem ngramToTokenLoop_isSome (ngramLength : Nat) {bytes : List UInt8}
    (small : ∀ byte ∈ bytes, byte ≤ 'z'.toUInt8) :
    ∀ (idx : Nat) (token : UInt32), (ngramToTokenLoop ngramLength idx bytes token).isSome := by
  induction bytes with
  | nil => intro idx token; rfl
  | cons byte rest ih =>
    intro idx token
    obtain ⟨pos, found⟩ := Option.isSome_iff_exists.mp (alphabetPosition_isSome (small byte (by simp)))
    simp only [ngramToTokenLoop, found]
    exact ih (fun other member => small other (by simp [member])) _ _

theorem ngramToToken_isSome {ngram : List Char} (alphanumeric : ngram.all Char.isAlphanum = true)
    (ngramLength : Nat) : (ngramToToken ngram ngramLength).isSome := by
  apply ngramToTokenLoop_isSome
  intro byte member
  obtain ⟨c, inside, encoded⟩ := List.mem_flatMap.mp member
  have alphanumeric_c := List.all_eq_true.mp alphanumeric c inside
  rw [utf8EncodeChar_of_isAlphanum alphanumeric_c, List.mem_singleton] at encoded
  subst encoded
  have small := val_le_of_isAlphanum alphanumeric_c
  have z : 'z'.toUInt8.toNat = 122 := rfl
  have z' : 'z'.val.toNat = 122 := rfl
  rw [UInt8.le_iff_toNat_le, UInt32.toNat_toUInt8, z]
  omega

theorem ngramToToken_isSome_of_mem (prepper : TextPrepper) {text : String} {ngram : List Char}
    (member : ngram ∈ tokenizeVisitor prepper ngramTokenizer text) :
    (ngramToToken ngram ngramN).isSome :=
  ngramToToken_isSome (mem_ngramTokenizer.mp member).2 ngramN


end Lance.Index.NGram
