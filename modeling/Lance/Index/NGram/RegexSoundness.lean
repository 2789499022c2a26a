import Lance.Index.NGram.Regex

/-! The trigram condition derived from a regular expression is necessary: a
text with a substring the expression matches stores every trigram the
condition asks for. The proof follows `analyze` bottom up with one invariant,
`RegexInfo.Describes`: what the information of a part says about each string
the part matches. Each constructor of the information keeps it, and
`bound` keeps it because it folds what it drops into the condition first. -/

namespace Lance.Index.NGram

open Lance.Library TrigramQuery

variable (prepper : TextPrepper)

def Present (text : List Char) (token : UInt32) : Prop :=
  token ∈ trigramTokens prepper (String.ofList text)

theorem present_of_isInfix {piece text : List Char} (inside : piece <:+: text) {token : UInt32}
    (present : Present prepper piece token) : Present prepper text token :=
  trigramTokens_subset_of_isInfix prepper (by simpa using inside) token present

theorem Holds.of_isInfix {piece text : List Char} (inside : piece <:+: text) {query : TrigramQuery}
    (holds : query.Holds (Present prepper piece)) : query.Holds (Present prepper text) :=
  Holds.mono (fun _ => present_of_isInfix prepper inside) holds

/-- What the information of a part says about one string `text` it matches:
`text` is in the exact set, starts with a prefix and ends with a suffix when
these are known, and its trigrams satisfy the condition. -/
structure RegexInfo.Describes (info : RegexInfo) (text : List Char) : Prop where
  exact_has : ∀ set, info.exact = some set → ∃ member ∈ set, member.toList = text
  starts : info.prefixes ≠ ∅ → ∃ start ∈ info.prefixes, start.toList <+: text
  ends : info.suffixes ≠ ∅ → ∃ finish ∈ info.suffixes, finish.toList <:+ text
  holds : info.matchQ.Holds (Present prepper text)

/-! ### Trigrams of strings and of sets -/

theorem holds_trigramsOfString {piece : String} {text : List Char} (inside : piece.toList <:+: text) :
    (trigramsOfString prepper piece).Holds (Present prepper text) := by
  rw [trigramsOfString, holds_mkAnd]
  intro item member
  obtain ⟨token, token_member, rfl⟩ := List.mem_map.mp member
  exact trigramTokens_subset_of_isInfix prepper (by simpa using inside) token token_member

/-- The `OR` over a set holds when the set is empty or one of its members
occurs in the text. -/
theorem holds_trigramsOfSet {set : Finset String} {text : List Char}
    (found : set ≠ ∅ → ∃ piece ∈ set, piece.toList <:+: text) :
    (trigramsOfSet prepper set).Holds (Present prepper text) := by
  unfold trigramsOfSet
  dsimp only
  split
  · exact trivial
  · rename_i listed
    have nonempty : set ≠ ∅ := by
      rintro rfl
      simp at listed
    obtain ⟨piece, member, inside⟩ := found nonempty
    rw [holds_mkOr]
    refine ⟨trigramsOfString prepper piece, List.mem_map.mpr ⟨piece, ?_, rfl⟩,
      holds_trigramsOfString prepper inside⟩
    exact (Finset.mem_sort _).mpr member

theorem mem_crossConcat {left right : Finset String} {first second : String}
    (first_mem : first ∈ left) (second_mem : second ∈ right) :
    first ++ second ∈ crossConcat left right :=
  Finset.mem_image.mpr ⟨(first, second), Finset.mem_product.mpr ⟨first_mem, second_mem⟩, rfl⟩

/-! ### `bound` keeps the invariant -/

section Bound

variable {prepper} {info : RegexInfo} {text : List Char}

theorem RegexInfo.Describes.foldIntoMatch (described : info.Describes prepper text)
    {set : Finset String} (found : set ≠ ∅ → ∃ piece ∈ set, piece.toList <:+: text) :
    (info.foldIntoMatch prepper set).Describes prepper text where
  exact_has := described.exact_has
  starts := described.starts
  ends := described.ends
  holds := by
    rw [RegexInfo.foldIntoMatch, holds_mkAnd]
    simp [described.holds, holds_trigramsOfSet prepper found]

theorem RegexInfo.Describes.boundExact (described : info.Describes prepper text) :
    (info.boundExact prepper).Describes prepper text := by
  unfold RegexInfo.boundExact
  split
  · rename_i exact exact_eq
    split
    · -- the exact set is folded: the matched string is one of its members
      have found : exact ≠ ∅ → ∃ piece ∈ exact, piece.toList <:+: text := by
        intro _
        obtain ⟨member, member_mem, same⟩ := described.exact_has exact exact_eq
        exact ⟨member, member_mem, same ▸ List.infix_refl _⟩
      have folded := described.foldIntoMatch found
      exact ⟨fun _ dropped => (by cases dropped), folded.starts, folded.ends, folded.holds⟩
    · exact described
  · exact described

theorem leading_isPrefix (piece : String) (n : Nat) : (leading piece n).toList <+: piece.toList := by
  simp [leading, List.take_prefix]

theorem trailing_isSuffix (piece : String) (n : Nat) : (trailing piece n).toList <:+ piece.toList := by
  simp [trailing, List.drop_suffix]

theorem RegexInfo.Describes.boundPrefixes (described : info.Describes prepper text) :
    (info.boundPrefixes prepper).Describes prepper text := by
  have trimmed : info.prefixes.image (leading · maxStringLen) ≠ ∅ →
      ∃ start ∈ info.prefixes.image (leading · maxStringLen), start.toList <+: text := by
    intro nonempty
    have original : info.prefixes ≠ ∅ := by
      rintro empty
      simp [empty] at nonempty
    obtain ⟨start, start_mem, starting⟩ := described.starts original
    exact ⟨leading start maxStringLen, Finset.mem_image_of_mem _ start_mem,
      (leading_isPrefix start maxStringLen).trans starting⟩
  unfold RegexInfo.boundPrefixes
  dsimp only
  split
  · have folded : (info.foldIntoMatch prepper (info.prefixes.image (leading · maxStringLen))).Describes
        prepper text := described.foldIntoMatch fun nonempty => by
        obtain ⟨start, start_mem, starting⟩ := trimmed nonempty
        exact ⟨start, start_mem, starting.isInfix⟩
    exact ⟨folded.exact_has, fun nonempty => absurd rfl nonempty, folded.ends, folded.holds⟩
  · exact ⟨described.exact_has, trimmed, described.ends, described.holds⟩

theorem RegexInfo.Describes.boundSuffixes (described : info.Describes prepper text) :
    (info.boundSuffixes prepper).Describes prepper text := by
  have trimmed : info.suffixes.image (trailing · maxStringLen) ≠ ∅ →
      ∃ finish ∈ info.suffixes.image (trailing · maxStringLen), finish.toList <:+ text := by
    intro nonempty
    have original : info.suffixes ≠ ∅ := by
      rintro empty
      simp [empty] at nonempty
    obtain ⟨finish, finish_mem, ending⟩ := described.ends original
    exact ⟨trailing finish maxStringLen, Finset.mem_image_of_mem _ finish_mem,
      (trailing_isSuffix finish maxStringLen).trans ending⟩
  unfold RegexInfo.boundSuffixes
  dsimp only
  split
  · have folded : (info.foldIntoMatch prepper (info.suffixes.image (trailing · maxStringLen))).Describes
        prepper text := described.foldIntoMatch fun nonempty => by
        obtain ⟨finish, finish_mem, ending⟩ := trimmed nonempty
        exact ⟨finish, finish_mem, ending.isInfix⟩
    exact ⟨folded.exact_has, folded.starts, fun nonempty => absurd rfl nonempty, folded.holds⟩
  · exact ⟨described.exact_has, described.starts, trimmed, described.holds⟩

/-- `bound` keeps the invariant: whatever it drops it first folds into the condition. -/
theorem RegexInfo.Describes.bound (described : info.Describes prepper text) :
    (info.bound prepper).Describes prepper text :=
  described.boundExact.boundPrefixes.boundSuffixes


end Bound

/-! ### The leaves -/

theorem emptyString_describes : RegexInfo.emptyString.Describes prepper [] where
  exact_has := by
    rintro set ⟨⟩
    exact ⟨"", by simp, rfl⟩
  starts _ := ⟨"", by simp [RegexInfo.emptyString], List.nil_prefix⟩
  ends _ := ⟨"", by simp [RegexInfo.emptyString], List.nil_suffix⟩
  holds := trivial

theorem literal_describes (piece : String) : (RegexInfo.literal prepper piece).Describes prepper piece.toList where
  exact_has := by
    rintro set ⟨⟩
    exact ⟨piece, by simp, rfl⟩
  starts _ := ⟨piece, by simp [RegexInfo.literal], List.prefix_refl _⟩
  ends _ := ⟨piece, by simp [RegexInfo.literal], List.suffix_refl _⟩
  holds := holds_trigramsOfString prepper (List.infix_refl _)

theorem anyChar_describes (text : List Char) : RegexInfo.anyChar.Describes prepper text where
  exact_has := by rintro set ⟨⟩
  starts nonempty := absurd rfl nonempty
  ends nonempty := absurd rfl nonempty
  holds := trivial

theorem toList_of_fromUTF8? {text : List Char} {decoded : String}
    (ran : String.fromUTF8? (text.flatMap String.utf8EncodeChar).toByteArray = some decoded) :
    decoded.toList = text := by
  unfold String.fromUTF8? at ran
  split at ran
  · have built := Option.some.inj ran
    have encoded : decoded.toList.utf8Encode = text.utf8Encode := by
      rw [String.utf8Encode_toList, ← built]
      rfl
    have decode := congrArg ByteArray.utf8Decode? encoded
    rw [List.utf8Decode?_utf8Encode, List.utf8Decode?_utf8Encode, Option.some.injEq] at decode
    simpa using decode
  · cases ran

theorem literalInfo_describes {bytes : List UInt8} {text : List Char}
    (encoded : text.flatMap String.utf8EncodeChar = bytes) :
    (literalInfo prepper bytes).Describes prepper text := by
  unfold literalInfo
  split
  · rename_i decoded ran
    subst encoded
    rw [← toList_of_fromUTF8? ran]
    exact literal_describes prepper decoded
  · exact anyChar_describes prepper text

/-- The only string whose UTF-8 encoding is one byte is the char of that byte. -/
theorem eq_ofNat_of_encoded {text : List Char} {byte : UInt8}
    (encoded : text.flatMap String.utf8EncodeChar = [byte]) : text = [Char.ofNat byte.toNat] := by
  match text, encoded with
  | [], encoded => simp at encoded
  | d :: rest, encoded =>
    have lengths := congrArg List.length encoded
    rw [List.flatMap_cons, List.length_append, String.length_utf8EncodeChar,
      List.length_singleton] at lengths
    -- every char takes at least one byte, so `d` is the whole string
    have rest_empty : rest = [] := by
      cases rest with
      | nil => rfl
      | cons e others =>
        have longer : 1 ≤ ((e :: others).flatMap String.utf8EncodeChar).length := by
          rw [List.flatMap_cons, List.length_append, String.length_utf8EncodeChar]
          have := e.utf8Size_pos
          omega
        have := d.utf8Size_pos
        omega
    subst rest_empty
    have size : d.utf8Size = 1 := by simpa using lengths
    have byte_eq : byte = d.val.toUInt8 := by
      simpa [String.utf8EncodeChar_eq_singleton size] using encoded.symm
    have small := Char.utf8Size_eq_one_iff.mp size
    rw [UInt32.le_iff_toNat_le] at small
    have same : byte.toNat = d.toNat := by
      rw [byte_eq, UInt32.toNat_toUInt8]
      show d.val.toNat % 256 = d.val.toNat
      have : (127 : UInt32).toNat = 127 := rfl
      omega
    rw [same, Char.ofNat_toNat]

/-- A class of one value matches exactly the one-char string of that value. -/
theorem eq_of_singletonChar {ranges : Class} {c : Char} (single : singletonChar ranges = some c)
    {text : List Char} (contains : ranges.Contains text) : text = [c] := by
  cases ranges with
  | unicode ranges =>
    match ranges, single, contains with
    | [], single, _ => cases single
    | _ :: _ :: _, single, _ => cases single
    | [range], single, contains =>
      simp only [singletonChar] at single
      split at single
      · rename_i same
        cases single
        obtain ⟨d, rfl, bounds, member, low, high⟩ := contains
        rw [List.mem_singleton] at member
        subst member
        rw [← same] at high
        rw [Char.le_antisymm high low]
      · cases single
  | bytes ranges =>
    match ranges, single, contains with
    | [], single, _ => cases single
    | _ :: _ :: _, single, _ => cases single
    | [range], single, contains =>
      simp only [singletonChar] at single
      split at single
      · rename_i same
        cases single
        obtain ⟨byte, encoded, bounds, member, low, high⟩ := contains
        rw [List.mem_singleton] at member
        subst member
        rw [← same.1] at high
        rw [eq_ofNat_of_encoded encoded, UInt8.le_antisymm high low]
      · cases single

theorem classInfo_describes {ranges : Class} {text : List Char} (contains : ranges.Contains text) :
    (classInfo prepper ranges).Describes prepper text := by
  unfold classInfo
  split
  · rename_i c single
    rw [eq_of_singletonChar single contains, ← String.toList_singleton]
    exact literal_describes prepper (String.singleton c)
  · exact anyChar_describes prepper text


/-! ### Concatenation -/

section Concat

variable {prepper} {acc next : RegexInfo} {left right : List Char}

theorem concatExact_has (left_described : acc.Describes prepper left)
    (right_described : next.Describes prepper right) :
    ∀ set, concatExact acc next = some set → ∃ member ∈ set, member.toList = left ++ right := by
  intro set exact_eq
  cases left_eq : acc.exact with
  | none => simp [concatExact, left_eq] at exact_eq
  | some leftSet =>
    cases right_eq : next.exact with
    | none => simp [concatExact, left_eq, right_eq] at exact_eq
    | some rightSet =>
      simp only [concatExact, left_eq, right_eq] at exact_eq
      split at exact_eq
      · cases exact_eq
        obtain ⟨first, first_mem, rfl⟩ := left_described.exact_has leftSet left_eq
        obtain ⟨second, second_mem, rfl⟩ := right_described.exact_has rightSet right_eq
        exact ⟨first ++ second, mem_crossConcat first_mem second_mem, String.toList_append⟩
      · cases exact_eq

theorem concatPrefixes_starts (left_described : acc.Describes prepper left)
    (right_described : next.Describes prepper right) :
    concatPrefixes acc next ≠ ∅ → ∃ start ∈ concatPrefixes acc next, start.toList <+: left ++ right := by
  intro nonempty
  cases left_eq : acc.exact with
  | none =>
    simp only [concatPrefixes, left_eq] at nonempty ⊢
    obtain ⟨start, start_mem, starting⟩ := left_described.starts nonempty
    exact ⟨start, start_mem, starting.trans (List.prefix_append _ _)⟩
  | some leftSet =>
    -- the first part's string is known: it is followed by the second part's prefix
    obtain ⟨first, first_mem, rfl⟩ := left_described.exact_has leftSet left_eq
    simp only [concatPrefixes, left_eq]
    split
    · rename_i known
      obtain ⟨start, start_mem, starting⟩ := right_described.starts known
      refine ⟨first ++ start, mem_crossConcat first_mem start_mem, ?_⟩
      rw [String.toList_append]
      exact (List.prefix_append_right_inj _).mpr starting
    · exact ⟨first, first_mem, List.prefix_append _ _⟩

theorem concatSuffixes_ends (left_described : acc.Describes prepper left)
    (right_described : next.Describes prepper right) :
    concatSuffixes acc next ≠ ∅ → ∃ finish ∈ concatSuffixes acc next, finish.toList <:+ left ++ right := by
  intro nonempty
  cases right_eq : next.exact with
  | none =>
    simp only [concatSuffixes, right_eq] at nonempty ⊢
    obtain ⟨finish, finish_mem, ending⟩ := right_described.ends nonempty
    exact ⟨finish, finish_mem, ending.trans (List.suffix_append _ _)⟩
  | some rightSet =>
    -- the second part's string is known: it follows the first part's suffix
    obtain ⟨second, second_mem, rfl⟩ := right_described.exact_has rightSet right_eq
    simp only [concatSuffixes, right_eq]
    split
    · rename_i known
      obtain ⟨finish, finish_mem, ending⟩ := left_described.ends known
      refine ⟨finish ++ second, mem_crossConcat finish_mem second_mem, ?_⟩
      obtain ⟨before, rfl⟩ := ending
      exact ⟨before, by simp⟩
    · exact ⟨second, second_mem, List.suffix_append _ _⟩

theorem junctionTrigrams_holds (left_described : acc.Describes prepper left)
    (right_described : next.Describes prepper right) :
    (junctionTrigrams prepper acc next).Holds (Present prepper (left ++ right)) := by
  unfold junctionTrigrams
  split
  · exact trivial
  · rename_i unknown
    obtain ⟨suffixes_known, prefixes_known⟩ := not_or.mp unknown
    obtain ⟨finish, finish_mem, ending⟩ := left_described.ends suffixes_known
    obtain ⟨start, start_mem, starting⟩ := right_described.starts prefixes_known
    apply holds_trigramsOfSet
    intro _
    refine ⟨finish ++ start, mem_crossConcat finish_mem start_mem, ?_⟩
    obtain ⟨before, rfl⟩ := ending
    obtain ⟨after, rfl⟩ := starting
    exact ⟨before, after, by simp⟩

theorem concatInfo_describes (left_described : acc.Describes prepper left)
    (right_described : next.Describes prepper right) :
    (concatInfo prepper acc next).Describes prepper (left ++ right) := by
  have holds : (mkAnd [acc.matchQ, next.matchQ, junctionTrigrams prepper acc next]).Holds
      (Present prepper (left ++ right)) := by
    rw [holds_mkAnd]
    simp only [List.mem_cons, List.not_mem_nil, or_false, forall_eq_or_imp, forall_eq]
    exact ⟨Holds.of_isInfix prepper (List.prefix_append _ _).isInfix left_described.holds,
      Holds.of_isInfix prepper (List.suffix_append _ _).isInfix right_described.holds,
      junctionTrigrams_holds left_described right_described⟩
  exact RegexInfo.Describes.bound ⟨concatExact_has left_described right_described,
    concatPrefixes_starts left_described right_described,
    concatSuffixes_ends left_described right_described, holds⟩

end Concat

/-! ### Alternation and repetition -/

theorem mem_foldr_union {infos : List RegexInfo} {field : RegexInfo → Finset String} {member : String} :
    member ∈ infos.foldr (fun info acc => field info ∪ acc) ∅ ↔ ∃ info ∈ infos, member ∈ field info := by
  induction infos with
  | nil => simp
  | cons info rest ih => simp [ih]

theorem alternationInfo_describes {infos : List RegexInfo} {info : RegexInfo} (member : info ∈ infos)
    {text : List Char} (described : info.Describes prepper text) :
    (alternationInfo infos).Describes prepper text where
  exact_has := by
    intro set exact_eq
    simp only [alternationInfo] at exact_eq
    split at exact_eq
    · rename_i all_known
      cases exact_eq
      obtain ⟨own, own_eq⟩ := Option.isSome_iff_exists.mp (List.all_eq_true.mp all_known info member)
      obtain ⟨same, same_mem, same_eq⟩ := described.exact_has own own_eq
      exact ⟨same, mem_foldr_union.mpr ⟨info, member, by simpa [own_eq] using same_mem⟩, same_eq⟩
    · cases exact_eq
  starts := by
    intro nonempty
    simp only [alternationInfo] at nonempty ⊢
    split at nonempty
    · rename_i all_known
      rw [if_pos all_known]
      have known : info.prefixes ≠ ∅ := by simpa using List.all_eq_true.mp all_known info member
      obtain ⟨start, start_mem, starting⟩ := described.starts known
      exact ⟨start, mem_foldr_union.mpr ⟨info, member, start_mem⟩, starting⟩
    · exact absurd rfl nonempty
  ends := by
    intro nonempty
    simp only [alternationInfo] at nonempty ⊢
    split at nonempty
    · rename_i all_known
      rw [if_pos all_known]
      have known : info.suffixes ≠ ∅ := by simpa using List.all_eq_true.mp all_known info member
      obtain ⟨finish, finish_mem, ending⟩ := described.ends known
      exact ⟨finish, mem_foldr_union.mpr ⟨info, member, finish_mem⟩, ending⟩
    · exact absurd rfl nonempty
  holds := by
    rw [alternationInfo, holds_mkOr]
    exact ⟨info.matchQ, List.mem_map_of_mem member, described.holds⟩

theorem repetitionInfo_describes {min : Nat} {inner : RegexInfo} {pieces : List (List Char)}
    (enough : min ≤ pieces.length) (described : ∀ piece ∈ pieces, inner.Describes prepper piece) :
    (repetitionInfo min inner).Describes prepper pieces.flatten := by
  by_cases required : 1 ≤ min
  · -- at least one piece: the first gives the prefix and the condition, the last the suffix
    obtain ⟨first, rest, rfl⟩ : ∃ first rest, pieces = first :: rest := by
      cases pieces with
      | nil => simp at enough; omega
      | cons first rest => exact ⟨first, rest, rfl⟩
    have first_described := described first List.mem_cons_self
    obtain ⟨init, last, split_last⟩ : ∃ init last, first :: rest = init ++ [last] := by
      obtain ⟨init, last, split_last⟩ := (List.eq_nil_or_concat (first :: rest)).resolve_left (by simp)
      exact ⟨init, last, by simpa using split_last⟩
    have last_described := described last (by rw [split_last]; simp)
    refine ⟨fun _ dropped => (by cases dropped), ?_, ?_, ?_⟩
    · intro nonempty
      simp only [repetitionInfo, required, ↓reduceIte] at nonempty ⊢
      obtain ⟨start, start_mem, starting⟩ := first_described.starts nonempty
      exact ⟨start, start_mem, starting.trans (by simp [List.prefix_append])⟩
    · intro nonempty
      simp only [repetitionInfo, required, ↓reduceIte] at nonempty ⊢
      obtain ⟨finish, finish_mem, ending⟩ := last_described.ends nonempty
      exact ⟨finish, finish_mem, ending.trans (by rw [split_last]; simp [List.suffix_append])⟩
    · simp only [repetitionInfo, required, ↓reduceIte]
      exact Holds.of_isInfix prepper (by simp [List.prefix_append, List.IsPrefix.isInfix])
        first_described.holds
  · refine ⟨fun _ dropped => (by cases dropped), ?_, ?_, ?_⟩
    · intro nonempty
      simp [repetitionInfo, required] at nonempty
    · intro nonempty
      simp [repetitionInfo, required] at nonempty
    · simp [repetitionInfo, required]

/-! ### `analyze` -/

mutual
/-- The information `analyze` computes describes every string the expression matches. -/
theorem analyze_describes : ∀ (hir : Hir) {text : List Char}, Matches hir text →
    (analyze prepper hir).Describes prepper text
  | .empty, _, matched => by
    cases matched
    exact (emptyString_describes prepper).bound
  | .look, _, matched => by
    cases matched
    exact (emptyString_describes prepper).bound
  | .literal _, _, matched => by
    cases matched with
    | literal encoded => exact (literalInfo_describes prepper encoded).bound
  | .charClass _, _, matched => by
    cases matched with
    | charClass contains => exact (classInfo_describes prepper contains).bound
  | .repetition _ _ sub, _, matched => by
    cases matched with
    | repetition enough _ pieces_match =>
      exact (repetitionInfo_describes prepper enough
        fun piece member => analyze_describes sub (pieces_match piece member)).bound
  | .capture sub, _, matched => by
    cases matched with
    | capture inner => exact (analyze_describes sub inner).bound
  | .concat subs, _, matched => by
    cases matched with
    | concat lengths pairs =>
      have described := analyzeConcat_describes subs _ lengths pairs (emptyString_describes prepper)
      rw [List.nil_append] at described
      exact described.bound
  | .alternation subs, _, matched => by
    cases matched with
    | alternation member inner =>
      obtain ⟨info, info_mem, described⟩ := analyzeList_describes subs member inner
      exact (alternationInfo_describes prepper info_mem described).bound

/-- The loop of `analyze_concat` describes the strings matched so far followed
by one match of each remaining part. -/
theorem analyzeConcat_describes : ∀ (subs : List Hir) {acc : RegexInfo} {done : List Char}
    (pieces : List (List Char)), subs.length = pieces.length →
    (∀ pair ∈ subs.zip pieces, Matches pair.1 pair.2) → acc.Describes prepper done →
    (analyzeConcat prepper subs acc).Describes prepper (done ++ pieces.flatten)
  | [], _, _, [], _, _, described => by simpa [analyzeConcat] using described
  | [], _, _, _ :: _, lengths, _, _ => absurd lengths (by simp)
  | _ :: _, _, _, [], lengths, _, _ => absurd lengths (by simp)
  | sub :: rest, _, _, piece :: pieces, lengths, pairs, described => by
    have sub_matched : Matches sub piece := pairs (sub, piece) (by simp)
    have step := concatInfo_describes described (analyze_describes sub sub_matched)
    have later := analyzeConcat_describes rest pieces (by simpa using lengths)
      (fun pair member => pairs pair (by simp [member])) step
    simpa [analyzeConcat, List.append_assoc] using later

theorem analyzeList_describes : ∀ (subs : List Hir) {sub : Hir} {text : List Char}, sub ∈ subs →
    Matches sub text → ∃ info ∈ analyzeList prepper subs, info.Describes prepper text
  | [], _, _, member, _ => absurd member (by simp)
  | head :: rest, _, _, member, matched => by
    rcases List.mem_cons.mp member with same | later
    · rw [same] at matched
      exact ⟨analyze prepper head, by simp [analyzeList], analyze_describes head matched⟩
    · obtain ⟨info, info_mem, described⟩ := analyzeList_describes rest later matched
      exact ⟨info, by simp [analyzeList, info_mem], described⟩
end


/-! ### The derived condition -/

theorem RegexInfo.Describes.holds_prefixes {info : RegexInfo} {text : List Char}
    (described : info.Describes prepper text) :
    (trigramsOfSet prepper info.prefixes).Holds (Present prepper text) :=
  holds_trigramsOfSet prepper fun nonempty => by
    obtain ⟨start, start_mem, starting⟩ := described.starts nonempty
    exact ⟨start, start_mem, starting.isInfix⟩

theorem RegexInfo.Describes.holds_suffixes {info : RegexInfo} {text : List Char}
    (described : info.Describes prepper text) :
    (trigramsOfSet prepper info.suffixes).Holds (Present prepper text) :=
  holds_trigramsOfSet prepper fun nonempty => by
    obtain ⟨finish, finish_mem, ending⟩ := described.ends nonempty
    exact ⟨finish, finish_mem, ending.isInfix⟩

/-- The condition `regex_to_trigram_query` derives holds of the trigrams of
every string the parsed pattern matches. -/
theorem holds_regexToTrigramQuery_of_matches (parse : String → Option Hir) {pattern : String}
    {hir : Hir} (parsed : parse pattern = some hir) {found : List Char} (matched : Matches hir found) :
    (regexToTrigramQuery prepper parse pattern).Holds (Present prepper found) := by
  have described := analyze_describes prepper hir matched
  unfold regexToTrigramQuery
  rw [parsed]
  dsimp only
  split
  · rename_i exact exact_eq
    split
    · -- an empty exact set would leave `found` nowhere to be
      rename_i empty
      obtain ⟨member, member_mem, _⟩ := described.exact_has exact exact_eq
      simp [empty] at member_mem
    · have exact_holds : (trigramsOfSet prepper exact).Holds (Present prepper found) :=
        holds_trigramsOfSet prepper fun _ => by
          obtain ⟨member, member_mem, same⟩ := described.exact_has exact exact_eq
          exact ⟨member, member_mem, same ▸ List.infix_refl _⟩
      rw [holds_mkAnd]
      simp only [List.mem_cons, List.not_mem_nil, or_false, forall_eq_or_imp, forall_eq]
      exact ⟨described.holds, exact_holds, described.holds_prefixes, described.holds_suffixes⟩
  · rw [holds_mkAnd]
    simp only [List.mem_cons, List.not_mem_nil, or_false, forall_eq_or_imp, forall_eq]
    exact ⟨described.holds, described.holds_prefixes, described.holds_suffixes⟩

theorem holds_regexToTrigramQuery (parse : String → Option Hir) {pattern : String} {hir : Hir}
    (parsed : parse pattern = some hir) {found : List Char} (matched : Matches hir found)
    {text : String} (inside : found <:+: text.toList) :
    (regexToTrigramQuery prepper parse pattern).Holds (· ∈ trigramTokens prepper text) :=
  Holds.mono (fun token present => trigramTokens_subset_of_isInfix prepper (by simpa using inside) token present)
    (holds_regexToTrigramQuery_of_matches prepper parse parsed matched)

/-! ### `All` and `None` only at the root

Every condition `analyze` builds comes from the builders, so the derived
condition is `All`, `None` or nested; the regex search relies on this to
evaluate it against posting lists. -/

theorem canonical_trigramsOfString (piece : String) : (trigramsOfString prepper piece).Canonical :=
  canonical_mkAnd fun query member => by
    obtain ⟨token, _, rfl⟩ := List.mem_map.mp member
    exact canonical_trigram token

theorem canonical_trigramsOfSet (set : Finset String) : (trigramsOfSet prepper set).Canonical := by
  unfold trigramsOfSet
  dsimp only
  split
  · exact .inl rfl
  · apply canonical_mkOr
    intro item member
    obtain ⟨piece, _, rfl⟩ := List.mem_map.mp member
    exact canonical_trigramsOfString prepper piece

theorem canonical_foldIntoMatch {info : RegexInfo} (canonical : info.matchQ.Canonical) (set : Finset String) :
    (info.foldIntoMatch prepper set).matchQ.Canonical := by
  apply canonical_mkAnd
  simp only [List.mem_cons, List.not_mem_nil, or_false, forall_eq_or_imp, forall_eq]
  exact ⟨canonical, canonical_trigramsOfSet prepper set⟩

theorem canonical_bound {info : RegexInfo} (canonical : info.matchQ.Canonical) :
    (info.bound prepper).matchQ.Canonical := by
  have exact_step : (info.boundExact prepper).matchQ.Canonical := by
    unfold RegexInfo.boundExact
    split
    · split
      · exact canonical_foldIntoMatch prepper canonical _
      · exact canonical
    · exact canonical
  have prefixes_step : ((info.boundExact prepper).boundPrefixes prepper).matchQ.Canonical := by
    unfold RegexInfo.boundPrefixes
    dsimp only
    split
    · exact canonical_foldIntoMatch prepper exact_step _
    · exact exact_step
  unfold RegexInfo.bound RegexInfo.boundSuffixes
  dsimp only
  split
  · exact canonical_foldIntoMatch prepper prefixes_step _
  · exact prefixes_step

theorem canonical_literal (piece : String) : (RegexInfo.literal prepper piece).matchQ.Canonical :=
  canonical_trigramsOfString prepper piece

theorem canonical_literalInfo (bytes : List UInt8) : (literalInfo prepper bytes).matchQ.Canonical := by
  unfold literalInfo
  split
  · exact canonical_literal prepper _
  · exact .inl rfl

theorem canonical_classInfo (ranges : Class) : (classInfo prepper ranges).matchQ.Canonical := by
  cases single : singletonChar ranges with
  | none =>
    rw [classInfo, single]
    exact .inl rfl
  | some c =>
    rw [classInfo, single]
    exact canonical_literal prepper _

theorem canonical_concatInfo {acc next : RegexInfo} (acc_canonical : acc.matchQ.Canonical)
    (next_canonical : next.matchQ.Canonical) : (concatInfo prepper acc next).matchQ.Canonical := by
  have junction : (junctionTrigrams prepper acc next).Canonical := by
    unfold junctionTrigrams
    split
    · exact .inl rfl
    · exact canonical_trigramsOfSet prepper _
  apply canonical_bound
  apply canonical_mkAnd
  simp only [List.mem_cons, List.not_mem_nil, or_false, forall_eq_or_imp, forall_eq]
  exact ⟨acc_canonical, next_canonical, junction⟩

mutual
theorem canonical_analyze : ∀ hir : Hir, (analyze prepper hir).matchQ.Canonical
  | .empty | .look => canonical_bound prepper (.inl rfl)
  | .literal bytes => canonical_bound prepper (canonical_literalInfo prepper bytes)
  | .charClass ranges => canonical_bound prepper (canonical_classInfo prepper ranges)
  | .repetition min _ sub => by
    apply canonical_bound
    by_cases required : 1 ≤ min
    · simpa [repetitionInfo, required] using canonical_analyze sub
    · simp [repetitionInfo, required, Canonical]
  | .capture sub => canonical_bound prepper (canonical_analyze sub)
  | .concat subs => canonical_bound prepper (canonical_analyzeConcat subs (.inl rfl))
  | .alternation subs => by
    apply canonical_bound
    apply canonical_mkOr
    intro query member
    obtain ⟨info, info_mem, rfl⟩ := List.mem_map.mp member
    exact canonical_analyzeList subs info info_mem

theorem canonical_analyzeConcat : ∀ (subs : List Hir) {acc : RegexInfo}, acc.matchQ.Canonical →
    (analyzeConcat prepper subs acc).matchQ.Canonical
  | [], _, canonical => canonical
  | sub :: rest, _, canonical =>
    canonical_analyzeConcat rest (canonical_concatInfo prepper canonical (canonical_analyze sub))

theorem canonical_analyzeList : ∀ (subs : List Hir), ∀ info ∈ analyzeList prepper subs, info.matchQ.Canonical
  | [], _, member => absurd member (by simp [analyzeList])
  | sub :: rest, info, member => by
    rcases List.mem_cons.mp member with same | later
    · exact same ▸ canonical_analyze sub
    · exact canonical_analyzeList rest info later
end

theorem canonical_regexToTrigramQuery (parse : String → Option Hir) (pattern : String) :
    (regexToTrigramQuery prepper parse pattern).Canonical := by
  unfold regexToTrigramQuery
  split
  · exact .inl rfl
  · rename_i hir _
    have info_canonical := canonical_analyze prepper hir
    dsimp only
    split
    · split
      · exact .inr (.inl rfl)
      · apply canonical_mkAnd
        simp only [List.mem_cons, List.not_mem_nil, or_false, forall_eq_or_imp, forall_eq]
        exact ⟨info_canonical, canonical_trigramsOfSet prepper _, canonical_trigramsOfSet prepper _,
          canonical_trigramsOfSet prepper _⟩
    · apply canonical_mkAnd
      simp only [List.mem_cons, List.not_mem_nil, or_false, forall_eq_or_imp, forall_eq]
      exact ⟨info_canonical, canonical_trigramsOfSet prepper _, canonical_trigramsOfSet prepper _⟩


end Lance.Index.NGram
