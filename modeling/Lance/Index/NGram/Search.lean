import Lance.Index.NGram.RegexSoundness
import Lance.Index.SearchResult

/-! `NGramIndex::search` (`scalar/ngram.rs`) for the two text queries the
index answers. A `contains` query of at least three bytes intersects the
posting lists of its trigrams; a regular expression is turned into a trigram
condition that is evaluated against the posting lists it mentions.

Both answers are checked against the rows the query selects. The regex
answer always agrees with them. A `contains` query long enough to reach the
posting lists that yields no alphanumeric trigram, as `a-b` does, reads no
posting list, and the intersection of none is the empty set, which `AtMost`
reports as the rows that may match. -/

namespace Lance.Index.NGram

open Lance.Library TrigramQuery

/-- `NGramPostingList::intersect`: the first list intersected with each of the
others, and the empty set (`unwrap_or_default`) when there is none. -/
def intersect : List (Finset Nat) → Finset Nat
  | [] => ∅
  | first :: rest => rest.foldl (· ∩ ·) first

/-- Fetch one token's posting list into `bitmaps`, when the index holds the token. -/
def fetchPostingList (index : NGramIndex) (bitmaps : Multimap UInt32 Nat) (token : UInt32) :
    Multimap UInt32 Nat :=
  match index.tokens.lookup token with
  | some list => bitmaps.insert token list
  | Option.none => bitmaps

/-- The posting lists of the tokens a query mentions, as `bitmaps` holds them
in the regex arm: a token absent from the index has none. -/
def postingsOf (index : NGramIndex) (tokens : List UInt32) : Multimap UInt32 Nat :=
  tokens.foldl (fetchPostingList index) ∅

namespace NGramIndex

variable (prepper : TextPrepper) (parse : String → Option Hir) (index : NGramIndex)

/-- The `StringContains` arm of `search`. A query shorter than a trigram gives
no information; a token missing from the index means no row matches; else the
rows in every posting list are the candidates. `none` where the visitor panics. -/
def searchStringContains (substr : String) : Option SearchResult :=
  if substr.utf8ByteSize < ngramN then some (.atLeast (.ofRows ∅))
  else
    match textTokens prepper substr with
    | Option.none => Option.none
    | some tokens =>
      let rowOffsets := tokens.map index.tokens.lookup
      if rowOffsets.any Option.isNone then some (.exact (.ofRows ∅))
      else some (.atMost (.ofRows (intersect (rowOffsets.filterMap id))))

/-- The `Regex` arm of `search`. -/
def searchRegex (pattern : String) : SearchResult :=
  match regexToTrigramQuery prepper parse pattern with
  | .all => .atLeast (.ofRows ∅)
  | .none => .exact (.ofRows ∅)
  | trigramQuery =>
    .atMost (.ofRows (evalTrigramQuery (postingsOf index trigramQuery.collectTokens) trigramQuery))

/-- `NGramIndex::search`. -/
def search : TextQuery → Option SearchResult
  | .stringContains substr => index.searchStringContains prepper substr
  | .regex pattern => some (index.searchRegex prepper parse pattern)

end NGramIndex

/-- The rows whose text contains `substr`. -/
def containsRows (rows : List (Option String × Nat)) (substr : String) : Set Nat :=
  {rowId | ∃ text, (some text, rowId) ∈ rows ∧ substr.toList <:+: text.toList}

def regexRows (rows : List (Option String × Nat)) (hir : Hir) : Set Nat :=
  {rowId | ∃ text, (some text, rowId) ∈ rows ∧ ∃ found, found <:+: text.toList ∧ Matches hir found}

/-! ### `contains` -/

section Contains

variable {prepper : TextPrepper} {parse : String → Option Hir} {rows : List (Option String × Nat)}
  {index : NGramIndex}

theorem searchStringContains_of_no_trigrams {substr : String} (long : ngramN ≤ substr.utf8ByteSize)
    (no_trigrams : tokenizeVisitor prepper ngramTokenizer substr = []) :
    index.searchStringContains prepper substr = some (.atMost (.ofRows ∅)) := by
  have no_tokens : textTokens prepper substr = some [] := by
    rw [textTokens_eq_some, trigramTokens, no_trigrams, List.filterMap_nil]
  simp [NGramIndex.searchStringContains, Nat.not_lt.mpr long, no_tokens, intersect]

/-- The excepted queries lose every row: a query of at least three bytes
without an alphanumeric trigram (`a-b`, or `éé` once folded to `ee`) answers
`AtMost` of the empty set, though a row containing it must be in that set. -/
theorem searchStringContains_drops_rows {substr : String} (long : ngramN ≤ substr.utf8ByteSize)
    (no_trigrams : tokenizeVisitor prepper ngramTokenizer substr = [])
    {text : String} {rowId : Nat} (row_member : (some text, rowId) ∈ rows)
    (contains : substr.toList <:+: text.toList) :
    index.search prepper parse (.stringContains substr) = some (.atMost (.ofRows ∅)) ∧
      ¬ (SearchResult.atMost (.ofRows ∅)).Agrees (containsRows rows substr) := by
  refine ⟨searchStringContains_of_no_trigrams long no_trigrams, fun agrees => ?_⟩
  have kept := SearchResult.agrees_atMost_iff.mp agrees rowId ⟨text, row_member, contains⟩
  simp at kept

/-- `TEXT_PREPPER` on ASCII text: lower case, and no folding. -/
def asciiPrepper : TextPrepper := ⟨fun c => [c.toLower], fun c => [c]⟩

theorem searchStringContains_drops_rows_at_a_dash_b :
    (ngramN ≤ "a-b".utf8ByteSize ∧ tokenizeVisitor asciiPrepper ngramTokenizer "a-b" = [] ∧
      ((some "a-b", 0) ∈ [((some "a-b" : Option String), 0)]) ∧ "a-b".toList <:+: "a-b".toList) ∧
    (NGramIndex.search asciiPrepper (fun _ => Option.none) ⟨∅⟩ (.stringContains "a-b") =
        some (.atMost (.ofRows ∅)) ∧
      ¬ (SearchResult.atMost (.ofRows ∅)).Agrees (containsRows [(some "a-b", 0)] "a-b")) :=
  ⟨⟨by decide, by decide, by simp, List.infix_refl _⟩,
    searchStringContains_drops_rows (by decide) (by decide) (List.mem_singleton_self _)
      (List.infix_refl _)⟩

end Contains


/-! ### Regular expressions -/

section Regex

variable {prepper : TextPrepper} {parse : String → Option Hir} {rows : List (Option String × Nat)}
  {index : NGramIndex}

theorem lookup_fetchPostingList (bitmaps : Multimap UInt32 Nat) (next key : UInt32) :
    (fetchPostingList index bitmaps next).lookup key =
      if key = next then (index.tokens.lookup key).or (bitmaps.lookup key) else bitmaps.lookup key := by
  unfold fetchPostingList
  by_cases same : key = next
  · subst same
    cases index.tokens.lookup key <;> simp
  · cases index.tokens.lookup next <;> simp [same, AList.lookup_insert_ne same]

/-- The fetch loop leaves every token it meets with the index's posting list:
a token still pending is absent, and once met it holds the index's list. -/
theorem lookup_foldl_fetchPostingList {token : UInt32} :
    ∀ (pending : List UInt32) (bitmaps : Multimap UInt32 Nat),
      (bitmaps.lookup token = index.tokens.lookup token ∨
        (bitmaps.lookup token = Option.none ∧ token ∈ pending)) →
      (pending.foldl (fetchPostingList index) bitmaps).lookup token = index.tokens.lookup token := by
  intro pending
  induction pending with
  | nil =>
    intro bitmaps known
    simpa using known
  | cons next rest ih =>
    intro bitmaps known
    apply ih
    rw [lookup_fetchPostingList]
    by_cases same : token = next
    · -- the pending token is met now and takes the index's list, if there is one
      left
      rcases known with held | ⟨absent, _⟩
      · rw [if_pos same, held, Option.or_self]
      · rw [if_pos same, absent, Option.or_none]
    · rw [if_neg same]
      rcases known with held | ⟨absent, pending⟩
      · exact .inl held
      · exact .inr ⟨absent, (List.mem_cons.mp pending).resolve_left same⟩

theorem values_postingsOf {tokens : List UInt32} {token : UInt32} (member : token ∈ tokens) :
    (postingsOf index tokens).values token = index.tokens.values token := by
  have fetched : (tokens.foldl (fetchPostingList index) ∅).lookup token = index.tokens.lookup token :=
    lookup_foldl_fetchPostingList tokens ∅ (.inr ⟨rfl, member⟩)
  simp only [Multimap.values, postingsOf, fetched]

/-- A row whose text has a match lies in the evaluation of the derived
condition, once the condition is below the root. -/
theorem mem_searchRegex_eval (trained : trainNgramIndex prepper rows = some index) {pattern : String}
    {hir : Hir} (parsed : parse pattern = some hir)
    (nested : (regexToTrigramQuery prepper parse pattern).Nested) {rowId : Nat}
    (matching : rowId ∈ regexRows rows hir) :
    rowId ∈ evalTrigramQuery
      (postingsOf index (regexToTrigramQuery prepper parse pattern).collectTokens)
      (regexToTrigramQuery prepper parse pattern) := by
  obtain ⟨text, row_member, found, inside, matched⟩ := matching
  apply mem_evalTrigramQuery _ nested _ (holds_regexToTrigramQuery prepper parse parsed matched inside)
  intro token collected present
  rw [values_postingsOf collected]
  exact mem_values_of_trigramTokens trained row_member present

/-- `search` for a regular expression agrees with the rows that match it:
`All` promises nothing, `None` is only derived for an expression that matches
no string, and otherwise every matching row is among the candidates. -/
theorem searchRegex_agrees (trained : trainNgramIndex prepper rows = some index) {pattern : String}
    {hir : Hir} (parsed : parse pattern = some hir) :
    (index.searchRegex prepper parse pattern).Agrees (regexRows rows hir) := by
  have candidates : (regexToTrigramQuery prepper parse pattern).Nested →
      ∀ rowId ∈ regexRows rows hir, rowId ∈ evalTrigramQuery
        (postingsOf index (regexToTrigramQuery prepper parse pattern).collectTokens)
        (regexToTrigramQuery prepper parse pattern) :=
    fun nested _ matching => mem_searchRegex_eval trained parsed nested matching
  have unmatched : regexToTrigramQuery prepper parse pattern = .none → regexRows rows hir = ∅ := by
    intro unsatisfiable
    ext rowId
    simp only [Set.mem_empty_iff_false, iff_false]
    rintro ⟨text, _, found, inside, matched⟩
    have holds := holds_regexToTrigramQuery prepper parse parsed matched inside
    rw [unsatisfiable] at holds
    exact holds
  have canonical := canonical_regexToTrigramQuery prepper parse pattern
  unfold NGramIndex.searchRegex
  generalize regexToTrigramQuery prepper parse pattern = query at candidates unmatched canonical ⊢
  -- the derived condition is `All`, `None`, or nested below the root
  cases query with
  | all => exact SearchResult.agrees_atLeast_empty _
  | none => exact SearchResult.agrees_exact_empty_iff.mpr (unmatched rfl)
  | trigram token => exact SearchResult.agrees_atMost_iff.mpr (candidates trivial)
  | and items =>
    obtain (same | same | nested) := canonical
    · cases same
    · cases same
    · exact SearchResult.agrees_atMost_iff.mpr (candidates nested)
  | or items =>
    obtain (same | same | nested) := canonical
    · cases same
    · cases same
    · exact SearchResult.agrees_atMost_iff.mpr (candidates nested)

/-- The regex pre-filter loses no row: the derived condition holds of the
tokens of every text with a match, so it is never `None` for an expression
that matches something, and the answer of `search` agrees with the rows that
have a match. -/
theorem searchRegex_keeps_matching_rows (trained : trainNgramIndex prepper rows = some index)
    {pattern : String} {hir : Hir} (parsed : parse pattern = some hir) :
    (∀ (text : String) (found : List Char), found <:+: text.toList → Matches hir found →
      (regexToTrigramQuery prepper parse pattern).Holds (· ∈ trigramTokens prepper text)) ∧
    ((∃ found, Matches hir found) → regexToTrigramQuery prepper parse pattern ≠ .none) ∧
    ∃ result, index.search prepper parse (.regex pattern) = some result ∧
      result.Agrees (regexRows rows hir) := by
  refine ⟨fun text found inside matched => holds_regexToTrigramQuery prepper parse parsed matched inside,
    ?_, _, rfl, searchRegex_agrees trained parsed⟩
  rintro ⟨found, matched⟩ unsatisfiable
  -- a match is a piece of the text made of itself alone
  have holds : (regexToTrigramQuery prepper parse pattern).Holds
      (· ∈ trigramTokens prepper (String.ofList found)) :=
    holds_regexToTrigramQuery prepper parse parsed matched (by rw [String.toList_ofList])
  rw [unsatisfiable] at holds
  exact holds

theorem searchRegex_keeps_matching_rows_at_abc :
    let rows := [((some "xabcx" : Option String), 0)]
    let parse := fun _ : String => some (Hir.literal [97, 98, 99])
    (trainNgramIndex asciiPrepper rows = some ((trainNgramIndex asciiPrepper rows).get
        (trainNgramIndex_isSome _ _)) ∧ parse "abc" = some (Hir.literal [97, 98, 99])) ∧
      ((∀ (text : String) (found : List Char), found <:+: text.toList →
          Matches (Hir.literal [97, 98, 99]) found →
          (regexToTrigramQuery asciiPrepper parse "abc").Holds (· ∈ trigramTokens asciiPrepper text)) ∧
        ((∃ found, Matches (Hir.literal [97, 98, 99]) found) →
          regexToTrigramQuery asciiPrepper parse "abc" ≠ .none) ∧
        ∃ result, ((trainNgramIndex asciiPrepper rows).get (trainNgramIndex_isSome _ _)).search
            asciiPrepper parse (.regex "abc") = some result ∧
          result.Agrees (regexRows rows (Hir.literal [97, 98, 99]))) :=
  ⟨⟨(Option.some_get _).symm, rfl⟩,
    searchRegex_keeps_matching_rows (Option.some_get _).symm rfl⟩

end Regex


end Lance.Index.NGram
