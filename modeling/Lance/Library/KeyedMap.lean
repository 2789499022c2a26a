import Mathlib.Data.List.AList

/-! Finite maps kept as association lists and changed key by key, the way a
loop over the entries of one ordered map updates another. A step that touches
only the key it visits leaves, after the whole loop, at each key what the step
makes of that key's entry. Beside it, the two in-place passes over a map:
keeping the entries that pass a test, and rewriting every value. -/

namespace Lance.Library

universe u v w x

variable {κ : Type u} {ν : Type v} {ν' : Type w} [DecidableEq κ]

/-- A step that changes a map only at the key it is given, to what `visit`
makes of the entry given and the value the map held there. -/
def KeyLocal {μ : Type x} (step : AList (fun _ : κ => ν) → κ → μ → AList (fun _ : κ => ν))
    (visit : μ → Option ν → Option ν) : Prop :=
  ∀ map key entry probe,
    (step map key entry).lookup probe =
      if probe = key then visit entry (map.lookup key) else map.lookup probe

variable {μ : Type x} {step : AList (fun _ : κ => ν) → κ → μ → AList (fun _ : κ => ν)}
  {visit : μ → Option ν → Option ν}

/-- The run lemma of a key-local loop: a key the entries do not name keeps its
value, and a key they name once gets what the step makes of it. -/
theorem KeyLocal.lookup_foldl (keyLocal : KeyLocal step visit) :
    ∀ (entries : List (Σ _ : κ, μ)), entries.NodupKeys → ∀ (map : AList (fun _ : κ => ν)) (probe : κ),
      (entries.foldl (fun acc entry => step acc entry.1 entry.2) map).lookup probe =
        (entries.dlookup probe).elim (map.lookup probe) fun entry => visit entry (map.lookup probe) := by
  intro entries
  induction entries with
  | nil => intro _ map probe; rfl
  | cons entry rest ih =>
    intro distinct map probe
    obtain ⟨key, value⟩ := entry
    have fresh : key ∉ rest.keys := List.notMem_keys_of_nodupKeys_cons distinct
    rw [List.foldl_cons, ih (List.nodupKeys_of_nodupKeys_cons distinct)]
    by_cases same : probe = key
    · -- the visited key: the rest of the loop never names it again
      subst same
      rw [List.dlookup_eq_none.mpr fresh, List.dlookup_cons_eq, keyLocal, if_pos rfl, Option.elim_none,
        Option.elim_some]
    · rw [List.dlookup_cons_ne _ _ same, keyLocal, if_neg same]

/-- Inserting entries with fresh keys one after the other holds them all,
beside what the map held. -/
theorem perm_foldl_insert :
    ∀ (entries : List (Σ _ : κ, ν)) (map : AList (fun _ : κ => ν)), entries.NodupKeys →
      (∀ key ∈ entries.keys, key ∉ map) →
      (entries.foldl (fun acc entry => acc.insert entry.1 entry.2) map).entries.Perm (entries ++ map.entries) := by
  intro entries
  induction entries with
  | nil => intro map _ _; exact List.Perm.refl _
  | cons entry rest ih =>
    intro map distinct fresh
    have absent : entry.1 ∉ map := fresh entry.1 List.mem_cons_self
    have restFresh : ∀ key ∈ rest.keys, key ∉ map.insert entry.1 entry.2 := by
      intro key member inserted
      rcases (AList.mem_insert _).mp inserted with same | held
      · exact List.notMem_keys_of_nodupKeys_cons distinct (same ▸ member)
      · exact fresh key (List.mem_cons_of_mem _ member) held
    rw [List.foldl_cons]
    refine (ih _ (List.nodupKeys_of_nodupKeys_cons distinct) restFresh).trans ?_
    rw [AList.entries_insert_of_notMem absent]
    exact List.perm_middle

/-- `retain`: keep the entries that pass `keep`. -/
def retain (keep : κ → ν → Bool) (map : AList (fun _ : κ => ν)) : AList (fun _ : κ => ν) :=
  ⟨map.entries.filter (fun entry => keep entry.1 entry.2), map.nodupKeys.sublist List.filter_sublist⟩

theorem dlookup_filter (keep : κ → ν → Bool) :
    ∀ (entries : List (Σ _ : κ, ν)), entries.NodupKeys → ∀ key,
      (entries.filter (fun entry => keep entry.1 entry.2)).dlookup key =
        (entries.dlookup key).filter (keep key) := by
  intro entries
  induction entries with
  | nil => intro _ key; rfl
  | cons entry rest ih =>
    intro distinct key
    obtain ⟨head, value⟩ := entry
    have fresh : head ∉ rest.keys := List.notMem_keys_of_nodupKeys_cons distinct
    have restLookup := ih (List.nodupKeys_of_nodupKeys_cons distinct) key
    by_cases same : key = head
    · subst same
      have absent : (rest.filter (fun entry => keep entry.1 entry.2)).dlookup key = none := by
        rw [restLookup, List.dlookup_eq_none.mpr fresh, Option.filter_none]
      by_cases kept : keep key value = true
      · simp only [List.filter_cons, kept, ↓reduceIte, List.dlookup_cons_eq, Option.filter_some]
      · simp only [List.filter_cons, kept, Bool.false_eq_true, ↓reduceIte, absent,
          List.dlookup_cons_eq, Option.filter_some]
    · have skip : ∀ tail : List (Σ _ : κ, ν), (⟨head, value⟩ :: tail).dlookup key = tail.dlookup key :=
        fun tail => List.dlookup_cons_ne tail ⟨head, value⟩ same
      by_cases kept : keep head value = true
      · simp only [List.filter_cons, kept, ↓reduceIte, skip, restLookup]
      · simp only [List.filter_cons, kept, Bool.false_eq_true, ↓reduceIte, skip, restLookup]

@[simp] theorem lookup_retain (keep : κ → ν → Bool) (map : AList (fun _ : κ => ν)) (key : κ) :
    (retain keep map).lookup key = (map.lookup key).filter (keep key) :=
  dlookup_filter keep map.entries map.nodupKeys key

def mapValues (f : κ → ν → ν') (map : AList (fun _ : κ => ν)) : AList (fun _ : κ => ν') :=
  ⟨map.entries.map (Sigma.map id f), map.nodupKeys.map₂ f⟩

@[simp] theorem lookup_mapValues (f : κ → ν → ν') (map : AList (fun _ : κ => ν)) (key : κ) :
    (mapValues f map).lookup key = (map.lookup key).map (f key) :=
  List.dlookup_map₂ key

end Lance.Library
