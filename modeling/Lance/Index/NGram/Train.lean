import Lance.Index.NGram.Tokenizer
import Lance.Library.Multimap
import Lance.Library.OptionList

/-! Training the ngram index (`NGramIndexBuilder` in `scalar/ngram.rs`).
`tokenize_and_partition` pairs every token of a row's text with the row id,
and a null row with the null token 0; the workers then gather the pairs into
one posting list per token. Which worker a pair is routed to, and the spill
files the workers write and merge, only decide where a token's posting list is
assembled, not what it holds, so the pairs are processed here as one batch.

The main fact is the one substring search relies on: a row whose text
contains a string lies in the posting list of every token of that string. -/

namespace Lance.Index.NGram

open Lance.Library

def textTokens (prepper : TextPrepper) (text : String) : Option (List UInt32) :=
  (tokenizeVisitor prepper ngramTokenizer text).mapM fun ngram => ngramToToken ngram ngramN

/-- What `tokenize_and_partition` pushes for one row: each token of its text
with the row id, or the null token 0 for a null. -/
def rowTokens (prepper : TextPrepper) : Option String × Nat → Option (List (UInt32 × Nat))
  | (some text, rowId) => (textTokens prepper text).map fun tokens => tokens.map (·, rowId)
  | (none, rowId) => some [(0, rowId)]

/-- `tokenize_and_partition`, its partitions taken together in row order. -/
def tokenizeAndPartition (prepper : TextPrepper) (rows : List (Option String × Nat)) :
    Option (List (UInt32 × Nat)) :=
  (rows.mapM (rowTokens prepper)).map List.flatten

/-- `NGramIndexBuildState`: the posting list of every token seen so far. -/
structure NGramIndexBuildState where
  tokensMap : Multimap UInt32 Nat

/-- `NGramIndexBuildState::starting`. -/
def NGramIndexBuildState.starting : NGramIndexBuildState := ⟨∅⟩

/-- `process_batch`: each pair goes into its token's posting list, created on first use. -/
def NGramIndexBuildState.processBatch (state : NGramIndexBuildState)
    (tokensAndIds : List (UInt32 × Nat)) : NGramIndexBuildState :=
  ⟨tokensAndIds.foldl Multimap.addPair state.tokensMap⟩

/-- An ngram index: the posting list of each token it holds. -/
structure NGramIndex where
  tokens : Multimap UInt32 Nat

/-- `train_ngram_index` over rows of (text or null, row id). -/
def trainNgramIndex (prepper : TextPrepper) (rows : List (Option String × Nat)) : Option NGramIndex :=
  (tokenizeAndPartition prepper rows).map fun tokensAndIds =>
    ⟨(NGramIndexBuildState.starting.processBatch tokensAndIds).tokensMap⟩

/-! ### Training never panics -/

/-- The token numbers of a text without the panic, which cannot happen on a
token of the tokenizer (`textTokens_eq_some`). -/
def trigramTokens (prepper : TextPrepper) (text : String) : List UInt32 :=
  (tokenizeVisitor prepper ngramTokenizer text).filterMap fun ngram => ngramToToken ngram ngramN

theorem textTokens_eq_some (prepper : TextPrepper) (text : String) :
    textTokens prepper text = some (trigramTokens prepper text) :=
  mapM_eq_some_filterMap fun _ member => ngramToToken_isSome_of_mem prepper member

theorem textTokens_isSome (prepper : TextPrepper) (text : String) :
    (textTokens prepper text).isSome := by
  rw [textTokens_eq_some]
  rfl

theorem trigramTokens_subset_of_isInfix (prepper : TextPrepper) {piece text : String}
    (inside : piece.toList <:+: text.toList) :
    ∀ token ∈ trigramTokens prepper piece, token ∈ trigramTokens prepper text := by
  intro token member
  obtain ⟨ngram, ngram_member, numbered⟩ := List.mem_filterMap.mp member
  exact List.mem_filterMap.mpr ⟨ngram, tokenizeVisitor_subset_of_isInfix prepper inside ngram ngram_member, numbered⟩

theorem rowTokens_isSome (prepper : TextPrepper) (row : Option String × Nat) :
    (rowTokens prepper row).isSome := by
  obtain ⟨_ | text, rowId⟩ := row
  · rfl
  · simpa [rowTokens] using textTokens_isSome prepper text

theorem trainNgramIndex_isSome (prepper : TextPrepper) (rows : List (Option String × Nat)) :
    (trainNgramIndex prepper rows).isSome := by
  have tokenized : (rows.mapM (rowTokens prepper)).isSome :=
    mapM_isSome fun row _ => rowTokens_isSome prepper row
  simpa [trainNgramIndex, tokenizeAndPartition] using tokenized

/-! ### What the posting lists hold -/

theorem mem_rowTokens_some {prepper : TextPrepper} {text : String} {rowId : Nat}
    {tokens : List UInt32} (tokenized : textTokens prepper text = some tokens) {token : UInt32} :
    ∀ {pairs}, rowTokens prepper (some text, rowId) = some pairs →
      ((token, rowId) ∈ pairs ↔ token ∈ tokens) := by
  intro pairs emitted
  simp only [rowTokens, tokenized, Option.map_some, Option.some.injEq] at emitted
  subst emitted
  simp

theorem mem_tokenizeAndPartition {prepper : TextPrepper} {rows : List (Option String × Nat)}
    {tokensAndIds : List (UInt32 × Nat)}
    (tokenized : tokenizeAndPartition prepper rows = some tokensAndIds) {pair : UInt32 × Nat} :
    pair ∈ tokensAndIds ↔
      ∃ row ∈ rows, ∃ emitted, rowTokens prepper row = some emitted ∧ pair ∈ emitted := by
  obtain ⟨perRow, ran, rfl⟩ := Option.map_eq_some_iff.mp tokenized
  rw [List.mem_flatten]
  constructor
  · rintro ⟨emitted, member, inside⟩
    obtain ⟨row, row_member, found⟩ := (mem_of_mapM_eq_some ran).mp member
    exact ⟨row, row_member, emitted, found, inside⟩
  · rintro ⟨row, row_member, emitted, found, inside⟩
    exact ⟨emitted, (mem_of_mapM_eq_some ran).mpr ⟨row, row_member, found⟩, inside⟩

theorem mem_values_trainNgramIndex {prepper : TextPrepper} {rows : List (Option String × Nat)}
    {index : NGramIndex} (trained : trainNgramIndex prepper rows = some index)
    {token : UInt32} {rowId : Nat} :
    rowId ∈ index.tokens.values token ↔
      ∃ row ∈ rows, ∃ emitted, rowTokens prepper row = some emitted ∧ (token, rowId) ∈ emitted := by
  obtain ⟨tokensAndIds, tokenized, rfl⟩ := Option.map_eq_some_iff.mp trained
  rw [← mem_tokenizeAndPartition tokenized]
  show rowId ∈ (tokensAndIds.foldl Multimap.addPair ∅).values token ↔ _
  rw [Multimap.mem_values_foldl]
  simp [Multimap.values]

/-- A row whose text contains `substr` lies in the posting list of every token
of `substr`, and so the index holds each of those tokens. -/
theorem mem_values_of_contains {prepper : TextPrepper} {rows : List (Option String × Nat)}
    {index : NGramIndex} (trained : trainNgramIndex prepper rows = some index)
    {text : String} {rowId : Nat} (row_member : (some text, rowId) ∈ rows)
    {substr : String} (contains : substr.toList <:+: text.toList)
    {tokens : List UInt32} (substr_tokens : textTokens prepper substr = some tokens)
    {token : UInt32} (token_member : token ∈ tokens) : rowId ∈ index.tokens.values token := by
  obtain ⟨ngram, ngram_member, numbered⟩ := (mem_of_mapM_eq_some substr_tokens).mp token_member
  have in_text := tokenizeVisitor_subset_of_isInfix prepper contains ngram ngram_member
  obtain ⟨textTokenList, text_tokens⟩ := Option.isSome_iff_exists.mp (textTokens_isSome prepper text)
  have in_text_tokens : token ∈ textTokenList :=
    (mem_of_mapM_eq_some text_tokens).mpr ⟨ngram, in_text, numbered⟩
  obtain ⟨emitted, found⟩ := Option.isSome_iff_exists.mp (rowTokens_isSome prepper (some text, rowId))
  exact (mem_values_trainNgramIndex trained).mpr
    ⟨_, row_member, emitted, found, (mem_rowTokens_some text_tokens found).mpr in_text_tokens⟩

theorem mem_values_of_trigramTokens {prepper : TextPrepper} {rows : List (Option String × Nat)}
    {index : NGramIndex} (trained : trainNgramIndex prepper rows = some index)
    {text : String} {rowId : Nat} (row_member : (some text, rowId) ∈ rows)
    {token : UInt32} (token_member : token ∈ trigramTokens prepper text) :
    rowId ∈ index.tokens.values token :=
  mem_values_of_contains trained row_member (List.infix_refl _) (textTokens_eq_some prepper text)
    token_member

end Lance.Index.NGram
