import Lance.Library.SortDedup
import Lance.Library.Multimap

/-! Trigram conditions (`TrigramQuery` in `scalar/ngram/ngram_regex.rs`): an
AND/OR tree over the presence of trigram tokens, with `All` for no constraint
and `None` for an unsatisfiable one. The builders `and` and `or` flatten,
sort and deduplicate, and keep `All` and `None` at the root; the evaluator
turns a condition into posting-list intersections and unions.

The two facts the regex search rests on are proved here: the builders mean
the conjunction and the disjunction of their items, and a row whose tokens
satisfy a condition below the root is in the evaluated set. -/

namespace Lance.Index.NGram

open Lance.Library

inductive TrigramQuery where
  | all
  | none
  | trigram (token : UInt32)
  | and (items : List TrigramQuery)
  | or (items : List TrigramQuery)

namespace TrigramQuery

mutual
/-- The derived `Ord`: variants in declaration order, then their fields, lists
lexicographically. -/
def cmp : TrigramQuery → TrigramQuery → Ordering
  | .all, .all => .eq
  | .all, _ => .lt
  | _, .all => .gt
  | .none, .none => .eq
  | .none, _ => .lt
  | _, .none => .gt
  | .trigram left, .trigram right => compare left right
  | .trigram _, _ => .lt
  | _, .trigram _ => .gt
  | .and lefts, .and rights => cmpList lefts rights
  | .and _, _ => .lt
  | _, .and _ => .gt
  | .or lefts, .or rights => cmpList lefts rights

def cmpList : List TrigramQuery → List TrigramQuery → Ordering
  | [], [] => .eq
  | [], _ :: _ => .lt
  | _ :: _, [] => .gt
  | left :: lefts, right :: rights =>
    match cmp left right with
    | .eq => cmpList lefts rights
    | order => order
end

mutual
theorem cmp_self : ∀ query : TrigramQuery, query.cmp query = .eq
  | .all | .none => rfl
  | .trigram token => by simp [cmp]
  | .and items | .or items => by rw [cmp, cmpList_self items]

theorem cmpList_self : ∀ items : List TrigramQuery, cmpList items items = .eq
  | [] => rfl
  | item :: rest => by rw [cmpList, cmp_self item, cmpList_self rest]
end

mutual
theorem eq_of_cmp_eq : ∀ {left right : TrigramQuery}, left.cmp right = .eq → left = right
  | .all, .all, _ | .none, .none, _ => rfl
  | .trigram left, .trigram right, same => by
    rw [cmp] at same
    rw [Std.LawfulEqOrd.eq_of_compare same]
  | .and lefts, .and rights, same => by rw [cmp] at same; rw [eq_of_cmpList_eq same]
  | .or lefts, .or rights, same => by rw [cmp] at same; rw [eq_of_cmpList_eq same]
  | .all, .none, same | .all, .trigram _, same | .all, .and _, same | .all, .or _, same
  | .none, .all, same | .none, .trigram _, same | .none, .and _, same | .none, .or _, same
  | .trigram _, .all, same | .trigram _, .none, same | .trigram _, .and _, same
  | .trigram _, .or _, same | .and _, .all, same | .and _, .none, same | .and _, .trigram _, same
  | .and _, .or _, same | .or _, .all, same | .or _, .none, same | .or _, .trigram _, same
  | .or _, .and _, same => by simp [cmp] at same

theorem eq_of_cmpList_eq : ∀ {lefts rights : List TrigramQuery}, cmpList lefts rights = .eq → lefts = rights
  | [], [], _ => rfl
  | [], _ :: _, same | _ :: _, [], same => by simp [cmpList] at same
  | left :: lefts, right :: rights, same => by
    rw [cmpList] at same
    split at same
    · rename_i heads
      rw [eq_of_cmp_eq heads, eq_of_cmpList_eq same]
    · exact absurd same ‹_›
end

theorem cmp_eq_iff {left right : TrigramQuery} : left.cmp right = .eq ↔ left = right :=
  ⟨eq_of_cmp_eq, fun same => same ▸ cmp_self left⟩

/-- The derived `PartialEq`, which agrees with `cmp`. -/
instance : DecidableEq TrigramQuery := fun left right =>
  decidable_of_iff (left.cmp right = .eq) cmp_eq_iff

def sortDedup (items : List TrigramQuery) : List TrigramQuery :=
  Lance.Library.sortDedup (fun left right => left.cmp right != .gt) items

/-! ### Meaning -/

mutual
/-- A condition holds of the set of tokens `present`. -/
def Holds (present : UInt32 → Prop) : TrigramQuery → Prop
  | .all => True
  | .none => False
  | .trigram token => present token
  | .and items => HoldsAll present items
  | .or items => HoldsAny present items

def HoldsAll (present : UInt32 → Prop) : List TrigramQuery → Prop
  | [] => True
  | item :: rest => Holds present item ∧ HoldsAll present rest

def HoldsAny (present : UInt32 → Prop) : List TrigramQuery → Prop
  | [] => False
  | item :: rest => Holds present item ∨ HoldsAny present rest
end

variable {present : UInt32 → Prop}

theorem holdsAll_iff {items : List TrigramQuery} :
    HoldsAll present items ↔ ∀ item ∈ items, item.Holds present := by
  induction items with
  | nil => simp [HoldsAll]
  | cons item rest ih => simp [HoldsAll, ih]

theorem holdsAny_iff {items : List TrigramQuery} :
    HoldsAny present items ↔ ∃ item ∈ items, item.Holds present := by
  induction items with
  | nil => simp [HoldsAny]
  | cons item rest ih => simp [HoldsAny, ih]

@[simp] theorem holds_all : all.Holds present := trivial
@[simp] theorem not_holds_none : ¬ none.Holds present := id
@[simp] theorem holds_trigram {token : UInt32} : (trigram token).Holds present ↔ present token := .rfl
@[simp] theorem holds_and {items : List TrigramQuery} :
    (and items).Holds present ↔ ∀ item ∈ items, item.Holds present := holdsAll_iff
@[simp] theorem holds_or {items : List TrigramQuery} :
    (or items).Holds present ↔ ∃ item ∈ items, item.Holds present := holdsAny_iff

theorem Holds.mono {wider : UInt32 → Prop} (within : ∀ token, present token → wider token) :
    ∀ {query : TrigramQuery}, query.Holds present → query.Holds wider
  | .all, _ => trivial
  | .trigram token, holds => within token holds
  | .and items, holds => by
    rw [holds_and] at holds ⊢
    intro item member
    exact Holds.mono within (holds item member)
  | .or items, holds => by
    rw [holds_or] at holds ⊢
    obtain ⟨item, member, holds⟩ := holds
    exact ⟨item, member, Holds.mono within holds⟩

/-! ### The builders -/

/-- The loop of `TrigramQuery::and`: `All` is skipped, `None` returns at once
(`none` here), an `And` is flattened into its children. -/
def andFlatten : List TrigramQuery → Option (List TrigramQuery)
  | [] => some []
  | .all :: rest => andFlatten rest
  | .none :: _ => Option.none
  | .and children :: rest => (andFlatten rest).map (children ++ ·)
  | other :: rest => (andFlatten rest).map (other :: ·)

/-- `TrigramQuery::and`. -/
def mkAnd (items : List TrigramQuery) : TrigramQuery :=
  match andFlatten items with
  | Option.none => none
  | some flat =>
    match sortDedup flat with
    | [] => all
    | [single] => single
    | canonical => and canonical

/-- The loop of `TrigramQuery::or`: `All` returns at once (`none` here),
`None` is skipped, an `Or` is flattened into its children. -/
def orFlatten : List TrigramQuery → Option (List TrigramQuery)
  | [] => some []
  | .all :: _ => Option.none
  | .none :: rest => orFlatten rest
  | .or children :: rest => (orFlatten rest).map (children ++ ·)
  | other :: rest => (orFlatten rest).map (other :: ·)

/-- `TrigramQuery::or`. -/
def mkOr (items : List TrigramQuery) : TrigramQuery :=
  match orFlatten items with
  | Option.none => all
  | some flat =>
    match sortDedup flat with
    | [] => none
    | [single] => single
    | canonical => or canonical

example : andFlatten [trigram 7, all, and [trigram 3, trigram 7]] = some [trigram 7, trigram 3, trigram 7] := by
  decide

theorem mem_sortDedup {item : TrigramQuery} {items : List TrigramQuery} :
    item ∈ sortDedup items ↔ item ∈ items := Lance.Library.mem_sortDedup

theorem holds_of_sorted_and (flat : List TrigramQuery) :
    (match sortDedup flat with
      | [] => all
      | [single] => single
      | canonical => and canonical).Holds present ↔ ∀ item ∈ flat, item.Holds present := by
  have sorted_iff : (∀ item ∈ sortDedup flat, item.Holds present) ↔ ∀ item ∈ flat, item.Holds present := by
    simp only [mem_sortDedup]
  rw [← sorted_iff]
  split
  · rename_i empty
    simp [empty]
  · rename_i single
    simp [single]
  · simp

theorem holds_of_sorted_or (flat : List TrigramQuery) :
    (match sortDedup flat with
      | [] => none
      | [single] => single
      | canonical => or canonical).Holds present ↔ ∃ item ∈ flat, item.Holds present := by
  have sorted_iff : (∃ item ∈ sortDedup flat, item.Holds present) ↔ ∃ item ∈ flat, item.Holds present := by
    simp only [mem_sortDedup]
  rw [← sorted_iff]
  split
  · rename_i empty
    simp [empty]
  · rename_i single
    simp [single]
  · simp

theorem andFlatten_none_iff_holds {items : List TrigramQuery} :
    andFlatten items = Option.none → ¬ ∀ item ∈ items, item.Holds present := by
  induction items with
  | nil => simp [andFlatten]
  | cons item rest ih =>
    intro flattened every
    cases item with
    | all => exact ih flattened fun other member => every other (by simp [member])
    | none => exact every none (by simp)
    | trigram token =>
      simp only [andFlatten, Option.map_eq_none_iff] at flattened
      exact ih flattened fun other member => every other (by simp [member])
    | and children =>
      simp only [andFlatten, Option.map_eq_none_iff] at flattened
      exact ih flattened fun other member => every other (by simp [member])
    | or children =>
      simp only [andFlatten, Option.map_eq_none_iff] at flattened
      exact ih flattened fun other member => every other (by simp [member])

theorem andFlatten_some_iff_holds {items flat : List TrigramQuery} :
    andFlatten items = some flat →
      ((∀ item ∈ flat, item.Holds present) ↔ ∀ item ∈ items, item.Holds present) := by
  induction items generalizing flat with
  | nil =>
    intro flattened
    cases flattened
    simp
  | cons item rest ih =>
    intro flattened
    cases item with
    | all => simpa using ih flattened
    | none => cases flattened
    | trigram token =>
      obtain ⟨others, rest_flat, rfl⟩ := Option.map_eq_some_iff.mp flattened
      simp [ih rest_flat]
    | and children =>
      obtain ⟨others, rest_flat, rfl⟩ := Option.map_eq_some_iff.mp flattened
      simp only [List.mem_append, or_imp, forall_and, ih rest_flat, List.forall_mem_cons, holds_and]
    | or children =>
      obtain ⟨others, rest_flat, rfl⟩ := Option.map_eq_some_iff.mp flattened
      simp [ih rest_flat]

theorem holds_mkAnd {items : List TrigramQuery} :
    (mkAnd items).Holds present ↔ ∀ item ∈ items, item.Holds present := by
  unfold mkAnd
  split
  · rename_i flattened
    simpa using andFlatten_none_iff_holds flattened
  · rename_i flat flattened
    rw [holds_of_sorted_and, andFlatten_some_iff_holds flattened]

theorem orFlatten_none_holds {items : List TrigramQuery} :
    orFlatten items = Option.none → ∃ item ∈ items, item.Holds present := by
  induction items with
  | nil => simp [orFlatten]
  | cons item rest ih =>
    intro flattened
    cases item with
    | all => exact ⟨all, by simp, trivial⟩
    | none =>
      obtain ⟨other, member, holds⟩ := ih flattened
      exact ⟨other, by simp [member], holds⟩
    | trigram token =>
      simp only [orFlatten, Option.map_eq_none_iff] at flattened
      obtain ⟨other, member, holds⟩ := ih flattened
      exact ⟨other, by simp [member], holds⟩
    | and children =>
      simp only [orFlatten, Option.map_eq_none_iff] at flattened
      obtain ⟨other, member, holds⟩ := ih flattened
      exact ⟨other, by simp [member], holds⟩
    | or children =>
      simp only [orFlatten, Option.map_eq_none_iff] at flattened
      obtain ⟨other, member, holds⟩ := ih flattened
      exact ⟨other, by simp [member], holds⟩

theorem orFlatten_some_iff_holds {items flat : List TrigramQuery} :
    orFlatten items = some flat →
      ((∃ item ∈ flat, item.Holds present) ↔ ∃ item ∈ items, item.Holds present) := by
  induction items generalizing flat with
  | nil =>
    intro flattened
    cases flattened
    simp
  | cons item rest ih =>
    intro flattened
    cases item with
    | all => cases flattened
    | none => simpa using ih flattened
    | trigram token =>
      obtain ⟨others, rest_flat, rfl⟩ := Option.map_eq_some_iff.mp flattened
      simp [ih rest_flat]
    | and children =>
      obtain ⟨others, rest_flat, rfl⟩ := Option.map_eq_some_iff.mp flattened
      simp [ih rest_flat]
    | or children =>
      obtain ⟨others, rest_flat, rfl⟩ := Option.map_eq_some_iff.mp flattened
      simp only [List.mem_append, List.mem_cons, or_and_right, exists_or, exists_eq_left, ih rest_flat,
        holds_or]

theorem holds_mkOr {items : List TrigramQuery} :
    (mkOr items).Holds present ↔ ∃ item ∈ items, item.Holds present := by
  unfold mkOr
  split
  · rename_i flattened
    simpa using orFlatten_none_holds flattened
  · rename_i flat flattened
    rw [holds_of_sorted_or, orFlatten_some_iff_holds flattened]

/-! ### `All` and `None` stay at the root -/

mutual
/-- A condition below the root: no `All` or `None`, and every `And` and `Or`
has at least two children. -/
def Nested : TrigramQuery → Prop
  | .all | .none => False
  | .trigram _ => True
  | .and items | .or items => 2 ≤ items.length ∧ NestedAll items

def NestedAll : List TrigramQuery → Prop
  | [] => True
  | item :: rest => Nested item ∧ NestedAll rest
end

def Canonical (query : TrigramQuery) : Prop := query = all ∨ query = none ∨ query.Nested

theorem nestedAll_iff {items : List TrigramQuery} : NestedAll items ↔ ∀ item ∈ items, item.Nested := by
  induction items with
  | nil => simp [NestedAll]
  | cons item rest ih => simp [NestedAll, ih]

theorem Canonical.of_nested {query : TrigramQuery} (nested : query.Nested) : query.Canonical :=
  .inr (.inr nested)

theorem canonical_trigram (token : UInt32) : (trigram token).Canonical := .of_nested trivial

theorem nested_of_sorted {flat : List TrigramQuery} (nested : ∀ item ∈ flat, item.Nested) :
    (match sortDedup flat with
      | [] => all
      | [single] => single
      | canonical => and canonical).Canonical ∧
    (match sortDedup flat with
      | [] => none
      | [single] => single
      | canonical => or canonical).Canonical := by
  have sorted_nested : ∀ item ∈ sortDedup flat, item.Nested :=
    fun item member => nested item (mem_sortDedup.mp member)
  match sorted : sortDedup flat with
  | [] => exact ⟨.inl rfl, .inr (.inl rfl)⟩
  | [single] =>
    have single_nested := sorted_nested single (by simp [sorted])
    exact ⟨.of_nested single_nested, .of_nested single_nested⟩
  | first :: second :: rest =>
    have long : 2 ≤ (first :: second :: rest).length := by simp
    have all_nested := nestedAll_iff.mpr (sorted ▸ sorted_nested)
    exact ⟨.of_nested ⟨long, all_nested⟩, .of_nested ⟨long, all_nested⟩⟩

theorem andFlatten_nested {items flat : List TrigramQuery}
    (canonical : ∀ item ∈ items, item.Canonical) (flattened : andFlatten items = some flat) :
    ∀ item ∈ flat, item.Nested := by
  induction items generalizing flat with
  | nil =>
    cases flattened
    simp
  | cons item rest ih =>
    have rest_canonical : ∀ other ∈ rest, other.Canonical := fun other member =>
      canonical other (List.mem_cons_of_mem _ member)
    have item_canonical := canonical item List.mem_cons_self
    cases item with
    | all => exact ih rest_canonical flattened
    | none => cases flattened
    | trigram token =>
      obtain ⟨others, rest_flat, rfl⟩ := Option.map_eq_some_iff.mp flattened
      simpa [Nested] using ih rest_canonical rest_flat
    | and children =>
      obtain ⟨others, rest_flat, rfl⟩ := Option.map_eq_some_iff.mp flattened
      have children_nested : ∀ child ∈ children, child.Nested := by
        rcases item_canonical with same | same | nested
        · cases same
        · cases same
        · exact nestedAll_iff.mp nested.2
      intro other member
      rcases List.mem_append.mp member with child | later
      · exact children_nested other child
      · exact ih rest_canonical rest_flat other later
    | or children =>
      obtain ⟨others, rest_flat, rfl⟩ := Option.map_eq_some_iff.mp flattened
      have or_nested : (or children).Nested := by
        rcases item_canonical with same | same | nested
        · cases same
        · cases same
        · exact nested
      intro other member
      rcases List.mem_cons.mp member with same | later
      · exact same ▸ or_nested
      · exact ih rest_canonical rest_flat other later

theorem orFlatten_nested {items flat : List TrigramQuery}
    (canonical : ∀ item ∈ items, item.Canonical) (flattened : orFlatten items = some flat) :
    ∀ item ∈ flat, item.Nested := by
  induction items generalizing flat with
  | nil =>
    cases flattened
    simp
  | cons item rest ih =>
    have rest_canonical : ∀ other ∈ rest, other.Canonical := fun other member =>
      canonical other (List.mem_cons_of_mem _ member)
    have item_canonical := canonical item List.mem_cons_self
    cases item with
    | all => cases flattened
    | none => exact ih rest_canonical flattened
    | trigram token =>
      obtain ⟨others, rest_flat, rfl⟩ := Option.map_eq_some_iff.mp flattened
      simpa [Nested] using ih rest_canonical rest_flat
    | or children =>
      obtain ⟨others, rest_flat, rfl⟩ := Option.map_eq_some_iff.mp flattened
      have children_nested : ∀ child ∈ children, child.Nested := by
        rcases item_canonical with same | same | nested
        · cases same
        · cases same
        · exact nestedAll_iff.mp nested.2
      intro other member
      rcases List.mem_append.mp member with child | later
      · exact children_nested other child
      · exact ih rest_canonical rest_flat other later
    | and children =>
      obtain ⟨others, rest_flat, rfl⟩ := Option.map_eq_some_iff.mp flattened
      have and_nested : (and children).Nested := by
        rcases item_canonical with same | same | nested
        · cases same
        · cases same
        · exact nested
      intro other member
      rcases List.mem_cons.mp member with same | later
      · exact same ▸ and_nested
      · exact ih rest_canonical rest_flat other later

theorem canonical_mkAnd {items : List TrigramQuery} (canonical : ∀ item ∈ items, item.Canonical) :
    (mkAnd items).Canonical := by
  unfold mkAnd
  split
  · exact .inr (.inl rfl)
  · rename_i flat flattened
    exact (nested_of_sorted (andFlatten_nested canonical flattened)).1

theorem canonical_mkOr {items : List TrigramQuery} (canonical : ∀ item ∈ items, item.Canonical) :
    (mkOr items).Canonical := by
  unfold mkOr
  split
  · exact .inl rfl
  · rename_i flat flattened
    exact (nested_of_sorted (orFlatten_nested canonical flattened)).2

/-! ### Evaluation against posting lists -/

mutual
/-- `collect_tokens`: the tokens a condition mentions. -/
def collectTokens : TrigramQuery → List UInt32
  | .trigram token => [token]
  | .and items | .or items => collectTokensList items
  | .all | .none => []

def collectTokensList : List TrigramQuery → List UInt32
  | [] => []
  | item :: rest => collectTokens item ++ collectTokensList rest
end

mutual
/-- `eval_trigram_query`: a token missing from `bitmaps` gives the empty set,
and an `And` stops early once its running intersection is empty. -/
def evalTrigramQuery (bitmaps : Multimap UInt32 Nat) : TrigramQuery → Finset Nat
  | .trigram token => bitmaps.values token
  | .and [] => ∅
  | .and (first :: rest) => evalAnd bitmaps rest (evalTrigramQuery bitmaps first)
  | .or items => evalOr bitmaps items ∅
  | .all | .none => ∅

/-- The loop of the `And` arm of `eval_trigram_query` over the remaining items. -/
def evalAnd (bitmaps : Multimap UInt32 Nat) : List TrigramQuery → Finset Nat → Finset Nat
  | [], acc => acc
  | item :: rest, acc =>
    if acc = ∅ then acc else evalAnd bitmaps rest (acc ∩ evalTrigramQuery bitmaps item)

/-- The loop of the `Or` arm of `eval_trigram_query`. -/
def evalOr (bitmaps : Multimap UInt32 Nat) : List TrigramQuery → Finset Nat → Finset Nat
  | [], acc => acc
  | item :: rest, acc => evalOr bitmaps rest (acc ∪ evalTrigramQuery bitmaps item)
end

section Evaluation

variable (bitmaps : Multimap UInt32 Nat) {row : Nat}

theorem subset_evalOr : ∀ (items : List TrigramQuery) (acc : Finset Nat), acc ⊆ evalOr bitmaps items acc
  | [], _ => by simp [evalOr]
  | item :: rest, acc => by
    rw [evalOr]
    exact Finset.subset_union_left.trans (subset_evalOr rest _)

mutual
/-- A row whose tokens satisfy a nested condition is in its evaluation, as
long as the posting list of each token it has and the condition mentions
holds it. -/
theorem mem_evalTrigramQuery : ∀ {query : TrigramQuery}, query.Nested →
    (∀ token ∈ query.collectTokens, present token → row ∈ bitmaps.values token) →
    query.Holds present → row ∈ evalTrigramQuery bitmaps query
  | .all, nested, _, _ | .none, nested, _, _ => nested.elim
  | .trigram token, _, covered, holds => covered token (by simp [collectTokens]) holds
  | .and [], nested, _, _ => absurd nested.1 (by simp)
  | .and (first :: rest), nested, covered, holds => by
    have first_tokens : ∀ token ∈ first.collectTokens, present token → row ∈ bitmaps.values token :=
      fun token member => covered token (by simp [collectTokens, collectTokensList, member])
    have rest_tokens : ∀ token ∈ collectTokensList rest, present token → row ∈ bitmaps.values token :=
      fun token member => covered token (by simp [collectTokens, collectTokensList, member])
    exact mem_evalAnd nested.2.2 rest_tokens holds.2
      (mem_evalTrigramQuery nested.2.1 first_tokens holds.1)
  | .or items, nested, covered, holds => mem_evalOr nested.2 covered holds ∅

theorem mem_evalAnd : ∀ {items : List TrigramQuery} {acc : Finset Nat}, NestedAll items →
    (∀ token ∈ collectTokensList items, present token → row ∈ bitmaps.values token) →
    HoldsAll present items → row ∈ acc → row ∈ evalAnd bitmaps items acc
  | [], _, _, _, _, held => held
  | item :: rest, acc, nested, covered, holds, held => by
    have nonempty : acc ≠ ∅ := Finset.ne_empty_of_mem held
    have item_tokens : ∀ token ∈ item.collectTokens, present token → row ∈ bitmaps.values token :=
      fun token member => covered token (by simp [collectTokensList, member])
    have rest_tokens : ∀ token ∈ collectTokensList rest, present token → row ∈ bitmaps.values token :=
      fun token member => covered token (by simp [collectTokensList, member])
    rw [evalAnd, if_neg nonempty]
    exact mem_evalAnd nested.2 rest_tokens holds.2
      (Finset.mem_inter.mpr ⟨held, mem_evalTrigramQuery nested.1 item_tokens holds.1⟩)

theorem mem_evalOr : ∀ {items : List TrigramQuery}, NestedAll items →
    (∀ token ∈ collectTokensList items, present token → row ∈ bitmaps.values token) →
    HoldsAny present items → ∀ acc : Finset Nat, row ∈ evalOr bitmaps items acc
  | [], _, _, holds, _ => holds.elim
  | item :: rest, nested, covered, holds, acc => by
    have item_tokens : ∀ token ∈ item.collectTokens, present token → row ∈ bitmaps.values token :=
      fun token member => covered token (by simp [collectTokensList, member])
    have rest_tokens : ∀ token ∈ collectTokensList rest, present token → row ∈ bitmaps.values token :=
      fun token member => covered token (by simp [collectTokensList, member])
    rw [evalOr]
    rcases holds with here | later
    · exact subset_evalOr bitmaps rest _
        (Finset.mem_union_right _ (mem_evalTrigramQuery nested.1 item_tokens here))
    · exact mem_evalOr nested.2 rest_tokens later _
end

end Evaluation


end TrigramQuery

end Lance.Index.NGram
