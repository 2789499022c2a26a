import Lance.Index.NGram.TrigramQuery
import Lance.Index.NGram.Train
import Mathlib.Data.Finset.Sort
import Mathlib.Data.Finset.Prod
import Mathlib.Data.String.Basic

/-! Deriving a trigram pre-filter from a regular expression
(`scalar/ngram/ngram_regex.rs`). `analyze` walks the parsed expression bottom
up and records, for the strings each part matches, the complete set when it
is small, sets of possible prefixes and suffixes, and a necessary trigram
condition; `regex_to_trigram_query` combines them into one condition.

The parser, `regex_syntax::parse`, is not part of this repository: it is a
parameter, and the expression it returns is modelled by the kinds of `Hir`
that `analyze` tells apart, with their meaning as sets of strings. -/

namespace Lance.Index.NGram

open Lance.Library TrigramQuery

/-- `regex_syntax::hir::Class`: ranges of Unicode scalar values, or of bytes. -/
inductive Class where
  | unicode (ranges : List (Char × Char))
  | bytes (ranges : List (UInt8 × UInt8))

/-- `Hir`, by `HirKind`. A look-around assertion's kind, a repetition's
greediness and a capture's name do not change what `analyze` computes. -/
inductive Hir where
  | empty
  | literal (bytes : List UInt8)
  | charClass (ranges : Class)
  | look
  | repetition (min : Nat) (max : Option Nat) (sub : Hir)
  | capture (sub : Hir)
  | concat (subs : List Hir)
  | alternation (subs : List Hir)

/-- The strings a class matches: one scalar value in a range, or one char
whose UTF-8 encoding is a single byte in a range. -/
def Class.Contains : Class → List Char → Prop
  | .unicode ranges, text => ∃ c, text = [c] ∧ ∃ range ∈ ranges, range.1 ≤ c ∧ c ≤ range.2
  | .bytes ranges, text =>
    ∃ byte, text.flatMap String.utf8EncodeChar = [byte] ∧ ∃ range ∈ ranges, range.1 ≤ byte ∧ byte ≤ range.2

/-- The strings a `Hir` matches. A look-around assertion only restricts where
the empty string may match, so it is taken to match the empty string: every
real match is among these. -/
inductive Matches : Hir → List Char → Prop
  | empty : Matches .empty []
  | look : Matches .look []
  | literal {bytes : List UInt8} {text : List Char} :
      text.flatMap String.utf8EncodeChar = bytes → Matches (.literal bytes) text
  | charClass {ranges : Class} {text : List Char} : ranges.Contains text → Matches (.charClass ranges) text
  | repetition {min : Nat} {max : Option Nat} {sub : Hir} {pieces : List (List Char)} :
      min ≤ pieces.length → (∀ bound, max = some bound → pieces.length ≤ bound) →
      (∀ piece ∈ pieces, Matches sub piece) → Matches (.repetition min max sub) pieces.flatten
  | capture {sub : Hir} {text : List Char} : Matches sub text → Matches (.capture sub) text
  | concat {subs : List Hir} {pieces : List (List Char)} : subs.length = pieces.length →
      (∀ pair ∈ subs.zip pieces, Matches pair.1 pair.2) → Matches (.concat subs) pieces.flatten
  | alternation {subs : List Hir} {sub : Hir} {text : List Char} :
      sub ∈ subs → Matches sub text → Matches (.alternation subs) text

def maxSetSize : Nat := 16

/-- `MAX_STRING_LEN`, in chars. -/
def maxStringLen : Nat := 32

/-- `RegexInfo`. The fields `prefix` and `suffix` of the source are
`prefixes` and `suffixes` here; an empty set of them means unknown. -/
structure RegexInfo where
  emptyable : Bool
  exact : Option (Finset String)
  prefixes : Finset String
  suffixes : Finset String
  matchQ : TrigramQuery

section Analysis

variable (prepper : TextPrepper)

/-- `trigrams_of_string`: the `AND` of the trigrams the index stores for `s`. -/
def trigramsOfString (s : String) : TrigramQuery :=
  mkAnd ((trigramTokens prepper s).map trigram)

/-- `trigrams_of_set`: the `OR` over the members, in `BTreeSet` order; `All` for
an empty set. -/
def trigramsOfSet (set : Finset String) : TrigramQuery :=
  let queries := set.sort.map (trigramsOfString prepper)
  if queries.isEmpty then all else mkOr queries

def crossConcat (left right : Finset String) : Finset String :=
  (left ×ˢ right).image fun pair => pair.1 ++ pair.2

/-- `leading`: the first `n` chars. -/
def leading (s : String) (n : Nat) : String := String.ofList (s.toList.take n)

/-- `trailing`: the last `n` chars. -/
def trailing (s : String) (n : Nat) : String := String.ofList (s.toList.drop (s.toList.length - n))

/-- `singleton_char`: the one char a class of a single value matches. -/
def singletonChar : Class → Option Char
  | .unicode [range] => if range.1 = range.2 then some range.1 else Option.none
  | .bytes [range] =>
    if range.1 = range.2 ∧ range.1 < 0x80 then some (Char.ofNat range.1.toNat) else Option.none
  | _ => Option.none

namespace RegexInfo

/-- `RegexInfo::empty_string`. -/
def emptyString : RegexInfo := ⟨true, some {""}, {""}, {""}, all⟩

/-- `RegexInfo::literal`. -/
def literal (s : String) : RegexInfo := ⟨s.isEmpty, some {s}, {s}, {s}, trigramsOfString prepper s⟩

/-- `RegexInfo::any_char`. -/
def anyChar : RegexInfo := ⟨false, Option.none, ∅, ∅, all⟩

/-- `fold_into_match`: AND the trigrams of a set into the condition. -/
def foldIntoMatch (info : RegexInfo) (set : Finset String) : RegexInfo :=
  { info with matchQ := mkAnd [info.matchQ, trigramsOfSet prepper set] }

/-- The first step of `bound`: an exact set too large, or with too long a
string, is folded into the condition and dropped. -/
def boundExact (info : RegexInfo) : RegexInfo :=
  match info.exact with
  | some exact =>
    if maxSetSize < exact.card ∨ ∃ s ∈ exact, maxStringLen < s.toList.length then
      { info.foldIntoMatch prepper exact with exact := Option.none }
    else info
  | Option.none => info

/-- The second step of `bound`: prefixes are trimmed, and too many are folded and dropped. -/
def boundPrefixes (info : RegexInfo) : RegexInfo :=
  let prefixes := info.prefixes.image (leading · maxStringLen)
  if maxSetSize < prefixes.card then { info.foldIntoMatch prepper prefixes with prefixes := ∅ }
  else { info with prefixes }

/-- The last step of `bound`, for suffixes. -/
def boundSuffixes (info : RegexInfo) : RegexInfo :=
  let suffixes := info.suffixes.image (trailing · maxStringLen)
  if maxSetSize < suffixes.card then { info.foldIntoMatch prepper suffixes with suffixes := ∅ }
  else { info with suffixes }

/-- `RegexInfo::bound`. -/
def bound (info : RegexInfo) : RegexInfo :=
  ((info.boundExact prepper).boundPrefixes prepper).boundSuffixes prepper

end RegexInfo

/-- The trigrams that straddle the junction of two parts: those of the first
part's suffixes followed by the second part's prefixes, when both are known. -/
def junctionTrigrams (acc next : RegexInfo) : TrigramQuery :=
  if acc.suffixes = ∅ ∨ next.prefixes = ∅ then all
  else trigramsOfSet prepper (crossConcat acc.suffixes next.prefixes)

/-- The exact set of a concatenation, kept while both parts' sets are known
and their product is small. -/
def concatExact (acc next : RegexInfo) : Option (Finset String) :=
  match acc.exact, next.exact with
  | some left, some right =>
    if left.card * right.card ≤ maxSetSize then some (crossConcat left right) else Option.none
  | _, _ => Option.none

/-- The prefixes of a concatenation: the first part's whole strings (followed
by the second part's prefixes) when they are known, else its prefixes. -/
def concatPrefixes (acc next : RegexInfo) : Finset String :=
  match acc.exact with
  | some left => if next.prefixes ≠ ∅ then crossConcat left next.prefixes else left
  | Option.none => acc.prefixes

def concatSuffixes (acc next : RegexInfo) : Finset String :=
  match next.exact with
  | some right => if acc.suffixes ≠ ∅ then crossConcat acc.suffixes right else right
  | Option.none => next.suffixes

def concatInfo (acc next : RegexInfo) : RegexInfo :=
  RegexInfo.bound prepper
    ⟨acc.emptyable && next.emptyable, concatExact acc next, concatPrefixes acc next,
      concatSuffixes acc next, mkAnd [acc.matchQ, next.matchQ, junctionTrigrams prepper acc next]⟩

/-- The combination `analyze_alternation` makes of the information of its branches. -/
def alternationInfo (infos : List RegexInfo) : RegexInfo where
  emptyable := infos.any (·.emptyable)
  exact := if infos.all (·.exact.isSome) then some (infos.foldr (fun info acc => info.exact.getD ∅ ∪ acc) ∅)
    else Option.none
  prefixes := if infos.all (fun info => decide (info.prefixes ≠ ∅)) then infos.foldr (·.prefixes ∪ ·) ∅
    else ∅
  suffixes := if infos.all (fun info => decide (info.suffixes ≠ ∅)) then infos.foldr (·.suffixes ∪ ·) ∅
    else ∅
  matchQ := mkOr (infos.map (·.matchQ))

/-- The information of a literal that `from_utf8` decodes, of a class of one
char, or of one unknown char otherwise. -/
def literalInfo (bytes : List UInt8) : RegexInfo :=
  match String.fromUTF8? bytes.toByteArray with
  | some s => RegexInfo.literal prepper s
  | Option.none => RegexInfo.anyChar

def classInfo (ranges : Class) : RegexInfo :=
  match singletonChar ranges with
  | some c => RegexInfo.literal prepper (String.singleton c)
  | Option.none => RegexInfo.anyChar

def repetitionInfo (min : Nat) (inner : RegexInfo) : RegexInfo where
  emptyable := !decide (1 ≤ min) || inner.emptyable
  exact := Option.none
  prefixes := if 1 ≤ min then inner.prefixes else ∅
  suffixes := if 1 ≤ min then inner.suffixes else ∅
  matchQ := if 1 ≤ min then inner.matchQ else all

mutual
def analyze : Hir → RegexInfo
  | .empty | .look => RegexInfo.emptyString.bound prepper
  | .literal bytes => (literalInfo prepper bytes).bound prepper
  | .charClass ranges => (classInfo prepper ranges).bound prepper
  | .repetition min _ sub => (repetitionInfo min (analyze sub)).bound prepper
  | .capture sub => (analyze sub).bound prepper
  | .concat subs => (analyzeConcat subs RegexInfo.emptyString).bound prepper
  | .alternation subs => (alternationInfo (analyzeList subs)).bound prepper

/-- The loop of `analyze_concat`, from the information of the parts so far. -/
def analyzeConcat : List Hir → RegexInfo → RegexInfo
  | [], acc => acc
  | sub :: rest, acc => analyzeConcat rest (concatInfo prepper acc (analyze sub))

def analyzeList : List Hir → List RegexInfo
  | [] => []
  | sub :: rest => analyze sub :: analyzeList rest
end

/-- `regex_to_trigram_query`, with `parse` for `regex_syntax::parse`. -/
def regexToTrigramQuery (parse : String → Option Hir) (pattern : String) : TrigramQuery :=
  match parse pattern with
  | Option.none => all
  | some hir =>
    let info := analyze prepper hir
    match info.exact with
    | some exact =>
      if exact = ∅ then none
      else mkAnd [info.matchQ, trigramsOfSet prepper exact, trigramsOfSet prepper info.prefixes,
        trigramsOfSet prepper info.suffixes]
    | Option.none =>
      mkAnd [info.matchQ, trigramsOfSet prepper info.prefixes, trigramsOfSet prepper info.suffixes]

end Analysis

end Lance.Index.NGram
