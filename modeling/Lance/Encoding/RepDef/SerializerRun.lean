import Lance.Encoding.RepDef.NormalizeSpec
import Lance.Encoding.RepDef.PageSplitSpec
import Lance.Library.OptionList

/-! What the serializer writes at the front of its buffers, over a whole run
of `to_serializer`. Each pass writes into the spare buffer from its start and
swaps it in, so the first level of the page is the first one the last pass
that wrote anything wrote. The first list layer writes, as the first rep level,
the number of list layers: no rep level was written before it, so the first
list takes the layer's own level. Every later pass copies the first rep level
it reads or keeps it, since it is not zero. A list layer with no lists writes
nothing, and below it no layer has a slot, so the page stays empty.

Before the first list layer the front of the def buffers must not read as a
special. The null levels written there are at most the number of def levels,
so this holds when that number is at most `SPECIAL_THRESHOLD`, the design
limit of the levels: the top bit of a `u16` marks a special. -/

namespace Lance.Encoding.RepDef

/-! ### The front of what a pass writes -/

theorem length_of_overwrite {written spare out : List Nat} (ok : overwrite written spare = some out) :
    out.length = spare.length := by
  unfold overwrite at ok
  split at ok
  · cases ok
    simp only [List.length_append, List.length_drop]
    omega
  · cases ok

theorem head?_of_overwrite {written spare out : List Nat} {first : Nat} (ok : overwrite written spare = some out)
    (front : written.head? = some first) : out.head? = some first := by
  unfold overwrite at ok
  split at ok
  · cases ok
    obtain ⟨rest, rfl⟩ := List.head?_eq_some_iff.mp front
    rfl
  · cases ok

theorem head?_map_fst_append {written trailing : List (Nat × Nat)} {first : Nat}
    (front : (written.map Prod.fst).head? = some first) : ((written ++ trailing).map Prod.fst).head? = some first := by
  rw [List.map_append, List.head?_append, front]
  rfl

@[simp] theorem overwrite_nil (spare : List Nat) : overwrite [] spare = some spare := by
  simp [overwrite]

theorem passSpecialDefs_of_le {level : Nat} (defs : List Nat) (low : level ≤ specialThreshold) :
    passSpecialDefs (level :: defs) = some ([], level, defs) := by
  simp [passSpecialDefs, Nat.not_lt.mpr low]

theorem passSpecials_of_le {level : Nat} (defs reps : List Nat) (low : level ≤ specialThreshold) :
    passSpecials (level :: defs) reps = some ([], level, defs, reps) := by
  simp [passSpecials, Nat.not_lt.mpr low]

theorem fst_head_listLevels (listLevel emptyListLevel level len : Nat) :
    ((listLevels listLevel emptyListLevel level len).map Prod.fst).head? = some listLevel := by
  unfold listLevels
  split_ifs <;> simp

/-- The specials at the front are copied with their rep levels, and the slot
after them is read. -/
theorem passSpecials_cons {level : Nat} {defs reps : List Nat}
    {result : List (Nat × Nat) × Nat × List Nat × List Nat} (ok : passSpecials (level :: defs) reps = some result) :
    (level ≤ specialThreshold ∧ result = ([], level, defs, reps)) ∨
      (specialThreshold < level ∧ ∃ rep rest, reps = rep :: rest ∧ result.1.head? = some (rep, level)) := by
  by_cases special : specialThreshold < level
  · right
    simp only [passSpecials, special, if_true] at ok
    cases reps with
    | nil => cases ok
    | cons rep rest =>
      obtain ⟨inner, -, rfl⟩ := Option.map_eq_some_iff.mp ok
      exact ⟨special, rep, rest, rfl, rfl⟩
  · left
    rw [passSpecials_of_le defs reps (Nat.not_lt.mp special)] at ok
    exact ⟨Nat.not_lt.mp special, (Option.some.inj ok).symm⟩

/-- One list of a list layer's loop: the specials before its slot, then its
levels, which take the rep level read at its slot or this layer's. -/
theorem recordListLevels_cons {repLevel emptyListLevel len : Nat} {lengths defs reps : List Nat}
    {result : List (Nat × Nat) × Nat × List Nat × List Nat}
    (ok : recordListLevels repLevel emptyListLevel (len :: lengths) defs reps = some result) :
    ∃ copied level defs' rep reps' rest, passSpecials defs reps = some (copied, level, defs', rep :: reps') ∧
      recordListLevels repLevel emptyListLevel lengths defs' reps' = some rest ∧
      result.1 = copied ++ listLevels (if rep = 0 then repLevel else rep) emptyListLevel level len ++ rest.1 := by
  simp only [recordListLevels, Option.bind_eq_bind] at ok
  obtain ⟨⟨copied, level, defs', reps'⟩, passed, ok⟩ := Option.bind_eq_some_iff.mp ok
  cases reps' with
  | nil => cases ok
  | cons rep reps' =>
    obtain ⟨rest, recorded, done⟩ := Option.bind_eq_some_iff.mp ok
    exact ⟨copied, level, defs', rep, reps', rest, passed, recorded, by rw [← Option.some.inj done]⟩

/-- A list layer's loop, from a front that does not read as a special and has
rep level zero, writes the layer's rep level first. -/
theorem fst_head_recordListLevels_of_zero {repLevel emptyListLevel len : Nat} {lengths defs reps : List Nat}
    {result : List (Nat × Nat) × Nat × List Nat × List Nat}
    (ok : recordListLevels repLevel emptyListLevel (len :: lengths) defs reps = some result)
    (zero : ∀ rep ∈ reps.head?, rep = 0) (low : ∀ level ∈ defs.head?, level ≤ specialThreshold) :
    (result.1.map Prod.fst).head? = some repLevel := by
  obtain ⟨copied, level, defs', rep, reps', rest, passed, -, written⟩ := recordListLevels_cons ok
  cases defs with
  | nil => cases passed
  | cons first defs =>
    rcases passSpecials_cons passed with ⟨-, same⟩ | ⟨special, -⟩
    · -- nothing is copied, and the slot's rep level is the zero at the front
      simp only [Prod.mk.injEq] at same
      obtain ⟨rfl, rfl, rfl, same⟩ := same
      have : rep = 0 := zero rep (by simp [← same])
      simp only [written, this, if_true, List.nil_append, List.map_append, List.head?_append, fst_head_listLevels,
        Option.some_or]
    · exact absurd (low first rfl) (Nat.not_le.mpr special)

/-- A list layer's loop, from a front whose rep level is not zero, writes that
rep level first: it either copies the special there or keeps its rep level. -/
theorem fst_head_recordListLevels_of_ne_zero {repLevel emptyListLevel len rep : Nat}
    {lengths defs reps : List Nat} {result : List (Nat × Nat) × Nat × List Nat × List Nat}
    (ok : recordListLevels repLevel emptyListLevel (len :: lengths) defs reps = some result)
    (first : reps.head? = some rep) (started : rep ≠ 0) :
    (result.1.map Prod.fst).head? = some rep := by
  obtain ⟨copied, level, defs', rep', reps', rest, passed, -, written⟩ := recordListLevels_cons ok
  cases defs with
  | nil => cases passed
  | cons first defs =>
    rcases passSpecials_cons passed with ⟨-, same⟩ | ⟨-, front, others, rfl, copiedHead⟩
    · simp only [Prod.mk.injEq] at same
      obtain ⟨rfl, rfl, rfl, same⟩ := same
      have : rep' = rep := by simpa [← same] using first
      simp only [written, this, started, if_false, List.nil_append, List.map_append, List.head?_append,
        fst_head_listLevels, Option.some_or]
    · -- the special at the front is copied with its rep level
      have : front = rep := by simpa using first
      subst this
      obtain ⟨tail, rfl⟩ := List.head?_eq_some_iff.mp copiedHead
      simp [written]

/-- The rep-only loop writes, first, the rep level at the front or, if that is
zero, this layer's. -/
theorem head_repOnlyListLevels {repLevel len : Nat} {lengths reps written : List Nat}
    (ok : repOnlyListLevels repLevel (len :: lengths) reps = some written) :
    ∃ rep, reps.head? = some rep ∧ written.head? = some (if rep = 0 then repLevel else rep) := by
  cases reps with
  | nil => simp [repOnlyListLevels] at ok
  | cons rep rest =>
    refine ⟨rep, rfl, ?_⟩
    simp only [repOnlyListLevels] at ok
    split at ok
    · cases ok
    · obtain ⟨others, -, done⟩ := Option.bind_eq_some_iff.mp ok
      rw [← Option.some.inj done]
      rfl

theorem fst_head_copyLevels {count : Nat} {defs reps : List Nat} {trailing : List (Nat × Nat)}
    (ok : copyLevels count defs reps = some trailing) (some : 0 < count) :
    (trailing.map Prod.fst).head? = reps.head? := by
  unfold copyLevels at ok
  split at ok
  · rename_i fits
    cases ok
    obtain ⟨rep, reps, rfl⟩ := List.exists_cons_of_ne_nil (List.ne_nil_of_length_pos (by omega : 0 < reps.length))
    obtain ⟨level, defs, rfl⟩ := List.exists_cons_of_ne_nil (List.ne_nil_of_length_pos (by omega : 0 < defs.length))
    obtain ⟨count, rfl⟩ := Nat.exists_eq_add_one_of_ne_zero (Nat.pos_iff_ne_zero.mp some)
    simp
  · cases ok

/-- From a front that does not read as a special, a validity pass writes
first the level it read or the null level. -/
theorem head_recordValidityLevels_of_le {nullLevel : Nat} {valid : Bool} {validity : List Bool} {defs : List Nat}
    {result : List Nat × Nat × List Nat} (ok : recordValidityLevels nullLevel (valid :: validity) defs = some result)
    (low : ∀ level ∈ defs.head?, level ≤ specialThreshold) (nullLow : nullLevel ≤ specialThreshold) :
    ∃ level, result.1.head? = some level ∧ level ≤ specialThreshold := by
  cases defs with
  | nil => simp [recordValidityLevels, passSpecialDefs] at ok
  | cons first defs =>
    simp only [recordValidityLevels, passSpecialDefs_of_le defs (low first rfl), Option.bind_eq_bind,
      Option.bind_some] at ok
    obtain ⟨rest, -, done⟩ := Option.bind_eq_some_iff.mp ok
    rw [← Option.some.inj done]
    refine ⟨_, rfl, ?_⟩
    split_ifs
    · exact nullLow
    · exact low first rfl

namespace SerializerContext

variable {ctx next : SerializerContext}

theorem doRecordValidity_eq_some {validity : List Bool} {nullLevel : Nat}
    (ok : ctx.doRecordValidity validity nullLevel = some next) :
    ∃ written passed defs trailing spare, recordValidityLevels nullLevel validity ctx.defLevels = some (written, passed, defs) ∧
      copyDefs (ctx.currentNumSpecials - passed) defs = some trailing ∧
      overwrite (written ++ trailing) ctx.spareDef = some spare ∧
      next = { ctx with currentLen := validity.length, defLevels := spare, spareDef := ctx.defLevels } := by
  unfold doRecordValidity at ok
  split at ok
  · cases ok
  · obtain ⟨⟨written, passed, defs⟩, recorded, ok⟩ := Option.bind_eq_some_iff.mp ok
    obtain ⟨trailing, copied, ok⟩ := Option.bind_eq_some_iff.mp ok
    obtain ⟨spare, written', done⟩ := Option.bind_eq_some_iff.mp ok
    exact ⟨written, passed, defs, trailing, spare, recorded, copied, written', (Option.some.inj done).symm⟩

/-- The three ways `record_offsets` ends once the validity of the lists is
recorded: no slot and no special, so nothing is written; no def levels, so
only rep levels are; or both. -/
inductive OffsetsEnd (repLevel emptyListLevel : Nat) (desc : OffsetDesc) (mid next : SerializerContext) : Prop
  | empty (nothing : desc.numValues + mid.currentNumSpecials = 0) (unchanged : next = { mid with currentLen := 0 })
  | repOnly (written spareRep : List Nat) (something : desc.numValues + mid.currentNumSpecials ≠ 0)
      (noDefs : mid.defLevels = [])
      (listed : repOnlyListLevels repLevel (windowLengths desc.offsets) mid.repLevels = some written)
      (swapped : overwrite written mid.spareRep = some spareRep)
      (updated : next =
        { mid with
          repLevels := spareRep, spareRep := mid.repLevels, currentLen := written.length,
          currentNumSpecials := mid.currentNumSpecials + desc.numSpecials })
  | both (written : List (Nat × Nat)) (passed : Nat) (defs reps : List Nat) (trailing : List (Nat × Nat))
      (spareDef spareRep : List Nat) (something : desc.numValues + mid.currentNumSpecials ≠ 0)
      (withDefs : mid.defLevels ≠ [])
      (listed : recordListLevels repLevel emptyListLevel (windowLengths desc.offsets) mid.defLevels mid.repLevels =
        some (written, passed, defs, reps))
      (copied : copyLevels (mid.currentNumSpecials - passed) defs reps = some trailing)
      (swappedDef : overwrite ((written ++ trailing).map Prod.snd) mid.spareDef = some spareDef)
      (swappedRep : overwrite ((written ++ trailing).map Prod.fst) mid.spareRep = some spareRep)
      (updated : next =
        { mid with
          defLevels := spareDef, spareDef := mid.defLevels, repLevels := spareRep, spareRep := mid.repLevels,
          currentLen := (written ++ trailing).length,
          currentNumSpecials := mid.currentNumSpecials + desc.numSpecials })

/-- `record_offsets`: the list meaning handed out, the validity of the lists
recorded, then one of the three ends. -/
theorem recordOffsets_eq_some {desc : OffsetDesc} {listed : SerializerContext} {nullListLevel emptyListLevel : Nat}
    (levels : ctx.listDefLevels desc = (listed, nullListLevel, emptyListLevel))
    (ok : ctx.recordOffsets desc = some next) :
    ∃ mid, ((desc.validity = none ∧ mid = { listed with currentRep := listed.currentRep - 1 }) ∨
        ∃ validity, desc.validity = some validity ∧
          { listed with currentRep := listed.currentRep - 1 }.doRecordValidity validity nullListLevel = some mid) ∧
      OffsetsEnd ctx.currentRep emptyListLevel desc mid next := by
  unfold recordOffsets at ok
  simp only [levels] at ok
  cases bits : desc.validity <;> simp only [bits, pure_bind] at ok
  case' none => refine ⟨_, Or.inl ⟨rfl, rfl⟩, ?_⟩
  case' some validity =>
    obtain ⟨mid, validated, ok⟩ := Option.bind_eq_some_iff.mp ok
    refine ⟨mid, Or.inr ⟨validity, rfl, validated⟩, ?_⟩
  -- the rest of the pass stands in both arms of the match on the validity
  all_goals
    split at ok
    · rename_i nothing
      exact .empty nothing (Option.some.inj ok).symm
    rename_i something
    split at ok
    · cases ok
    split at ok
    · rename_i noDefs
      obtain ⟨written, listed, ok⟩ := Option.bind_eq_some_iff.mp ok
      obtain ⟨spareRep, swapped, done⟩ := Option.bind_eq_some_iff.mp ok
      exact .repOnly written spareRep something (List.isEmpty_iff.mp noDefs) listed swapped
        (Option.some.inj done).symm
    rename_i withDefs
    split at ok
    · cases ok
    obtain ⟨⟨written, passed, defs, reps⟩, listed, ok⟩ := Option.bind_eq_some_iff.mp ok
    obtain ⟨trailing, copied, ok⟩ := Option.bind_eq_some_iff.mp ok
    obtain ⟨spareDef, swappedDef, ok⟩ := Option.bind_eq_some_iff.mp ok
    obtain ⟨spareRep, swappedRep, done⟩ := Option.bind_eq_some_iff.mp ok
    exact .both written passed defs reps trailing spareDef spareRep something
      (fun noDefs => withDefs (List.isEmpty_iff.mpr noDefs)) listed copied swappedDef swappedRep
      (Option.some.inj done).symm

theorem length_windowLengths (offsets : List Nat) : (windowLengths offsets).length = offsets.length - 1 := by
  simp [windowLengths]

@[simp] theorem checkoutDef_fst (meaning : DefinitionInterpretation) :
    (ctx.checkoutDef meaning).1 =
      { ctx with currentDef := ctx.currentDef - meaning.numDefLevels, defMeaning := ctx.defMeaning ++ [meaning] } :=
  rfl

@[simp] theorem checkoutDef_snd (meaning : DefinitionInterpretation) : (ctx.checkoutDef meaning).2 = ctx.currentDef :=
  rfl

theorem listDefLevels_spec (desc : OffsetDesc) :
    ∃ meaning, meaning.isList = true ∧ (ctx.listDefLevels desc).1 = (ctx.checkoutDef meaning).1 ∧
      (ctx.listDefLevels desc).2.1 ≤ ctx.currentDef := by
  unfold listDefLevels
  cases desc.validity.isSome <;> cases desc.hasEmptyLists
  · exact ⟨.allValidList, rfl, rfl, Nat.zero_le _⟩
  · exact ⟨.emptyableList, rfl, rfl, Nat.zero_le _⟩
  · exact ⟨.nullableList, rfl, rfl, le_refl _⟩
  · exact ⟨.nullableAndEmptyableList, rfl, rfl, Nat.sub_le _ _⟩

/-! ### The run invariant -/

/-- The front of the buffers before the first list layer: rep level zero, no
special passed, and def levels that do not read as specials. -/
structure BeforeLists (ctx : SerializerContext) : Prop where
  repZero : ∀ rep ∈ ctx.repLevels.head?, rep = 0
  noSpecials : ctx.currentNumSpecials = 0
  defLow : ∀ level ∈ ctx.defLevels.head?, level ≤ specialThreshold
  spareDefLow : ∀ level ∈ ctx.spareDef.head?, level ≤ specialThreshold
  currentDefLow : ctx.currentDef ≤ specialThreshold

/-- Where the run is, for a plan with `lists` list layers in all and the layers
`rest` still to come: before the first list layer; past a list layer that
wrote, with the number of list layers as the first rep level; or past a list
layer with no lists, below which no layer has a slot. -/
inductive Phase (lists : Nat) (ctx : SerializerContext) (rest : List RawRepDef) : Prop
  | before (unlisted : ctx.defMeaning.countP DefinitionInterpretation.isList = 0) (topRep : ctx.currentRep = lists)
      (front : ctx.BeforeLists)
  | started (positive : 0 < lists) (first : ctx.repLevels.head? = some lists)
  | empty (nothing : ctx.currentLen = 0) (noSpecials : ctx.currentNumSpecials = 0)
      (below : ∀ layer ∈ rest, layer.slots = 0)

/-- What holds after each layer of a consistent plan with `lists` list layers,
the layers `rest` still to come. -/
structure LevelsInv (lists : Nat) (ctx : SerializerContext) (rest : List RawRepDef) : Prop where
  spareRep : ctx.spareRep.length = ctx.repLevels.length
  spareDef : ctx.spareDef.length = ctx.defLevels.length
  sameLength : ctx.repLevels.length = 0 ∨ ctx.defLevels.length = 0 ∨ ctx.repLevels.length = ctx.defLevels.length
  noDefs : ctx.defLevels.length = 0 → ctx.currentNumSpecials = 0 ∧ ∀ layer ∈ rest, layer.numSpecials = 0
  counted : ctx.defMeaning.countP DefinitionInterpretation.isList + rest.countP (·.kind = .offsets) = lists
  phase : Phase lists ctx rest

theorem BeforeLists.checkoutDef (front : ctx.BeforeLists) (meaning : DefinitionInterpretation) :
    (ctx.checkoutDef meaning).1.BeforeLists where
  repZero := front.repZero
  noSpecials := front.noSpecials
  defLow := front.defLow
  spareDefLow := front.spareDefLow
  currentDefLow := by simpa using Nat.le_trans (Nat.sub_le _ _) front.currentDefLow

theorem BeforeLists.withCurrentRep (front : ctx.BeforeLists) (rep : Nat) :
    ({ ctx with currentRep := rep } : SerializerContext).BeforeLists :=
  ⟨front.repZero, front.noSpecials, front.defLow, front.spareDefLow, front.currentDefLow⟩

/-- A validity pass before the first list layer writes a def level that does
not read as a special, or nothing. -/
theorem BeforeLists.doRecordValidity {validity : List Bool} {nullLevel : Nat} (front : ctx.BeforeLists)
    (nullLow : nullLevel ≤ specialThreshold) (ok : ctx.doRecordValidity validity nullLevel = some next) :
    next.BeforeLists := by
  obtain ⟨written, passed, defs, trailing, spare, recorded, copied, swapped, rfl⟩ := doRecordValidity_eq_some ok
  refine ⟨front.repZero, front.noSpecials, ?_, front.defLow, front.currentDefLow⟩
  cases validity with
  | nil =>
    -- nothing is written, so the spare buffer comes back as it was
    simp only [recordValidityLevels, Option.some.injEq, Prod.mk.injEq] at recorded
    obtain ⟨rfl, rfl, rfl⟩ := recorded
    simp [front.noSpecials, copyDefs] at copied
    subst copied
    simp only [List.append_nil, overwrite_nil, Option.some.injEq] at swapped
    subst swapped
    exact front.spareDefLow
  | cons valid validity =>
    obtain ⟨level, first, low⟩ := head_recordValidityLevels_of_le recorded front.defLow nullLow
    obtain ⟨rest, rfl⟩ := List.head?_eq_some_iff.mp first
    intro front' mem
    rw [head?_of_overwrite swapped rfl] at mem
    simp only [Option.mem_def, Option.some.injEq] at mem
    exact mem ▸ low

theorem LevelsInv.noDefs_tail {lists : Nat} {layer : RawRepDef} {rest : List RawRepDef}
    (inv : LevelsInv lists ctx (layer :: rest)) (noDefs : ctx.defLevels.length = 0) :
    ctx.currentNumSpecials = 0 ∧ layer.numSpecials = 0 ∧ ∀ below ∈ rest, below.numSpecials = 0 := by
  obtain ⟨noSpecials, specials⟩ := inv.noDefs noDefs
  exact ⟨noSpecials, specials layer List.mem_cons_self, fun below mem => specials below (List.mem_cons_of_mem _ mem)⟩

/-- The step lemma of an item layer: it hands out an item meaning and, where
it has a validity bitmap, writes the def levels of the null items. -/
theorem LevelsInv.recordValidity {lists : Nat} {desc : ValidityDesc} {rest : List RawRepDef}
    (inv : LevelsInv lists ctx (.validity desc :: rest)) (formed : (RawRepDef.validity desc).WellFormed)
    (ok : ctx.recordValidity desc = some next) : LevelsInv lists next rest := by
  have counted : (RawRepDef.validity desc :: rest).countP (·.kind = .offsets) = rest.countP (·.kind = .offsets) := by
    simp [RawRepDef.kind]
  unfold SerializerContext.recordValidity recordValidityBuf at ok
  cases bits : desc.validity with
  | none =>
    simp only [bits, Option.some.injEq] at ok
    subst ok
    refine ⟨inv.spareRep, inv.spareDef, inv.sameLength, fun noDefs => ?_, ?_, ?_⟩
    · obtain ⟨noSpecials, -, specials⟩ := inv.noDefs_tail noDefs
      exact ⟨noSpecials, specials⟩
    · simpa [List.countP_append, DefinitionInterpretation.isList, counted] using inv.counted
    · cases inv.phase with
      | before unlisted topRep front =>
        exact .before (by simpa [List.countP_append, DefinitionInterpretation.isList] using unlisted) topRep
          (front.checkoutDef _)
      | started positive first => exact .started positive first
      | empty nothing noSpecials below =>
        exact .empty nothing noSpecials fun layer mem => below layer (List.mem_cons_of_mem _ mem)
  | some validity =>
    simp only [bits] at ok
    have phase : Phase lists next rest := by
      cases inv.phase with
      | before unlisted topRep front =>
        have front' := (front.checkoutDef .nullableItem).doRecordValidity front.currentDefLow ok
        obtain ⟨_, _, _, _, _, _, _, _, same⟩ := doRecordValidity_eq_some ok
        rw [same] at front' ⊢
        exact .before (by simpa [List.countP_append, DefinitionInterpretation.isList] using unlisted) topRep front'
      | started positive first =>
        obtain ⟨_, _, _, _, _, _, _, _, rfl⟩ := doRecordValidity_eq_some ok
        exact .started positive first
      | empty nothing noSpecials below =>
        obtain ⟨_, _, _, _, _, _, _, _, rfl⟩ := doRecordValidity_eq_some ok
        -- the layer has no slot, so its bitmap is empty
        have empty : validity.length = 0 := by
          have slots := below _ List.mem_cons_self
          simp only [RawRepDef.slots] at slots
          exact (formed validity bits).trans slots
        exact .empty empty noSpecials fun layer mem => below layer (List.mem_cons_of_mem _ mem)
    obtain ⟨written, passed, defs, trailing, spare, -, -, swapped, rfl⟩ := doRecordValidity_eq_some ok
    have spareLength : spare.length = ctx.defLevels.length := (length_of_overwrite swapped).trans inv.spareDef
    refine ⟨inv.spareRep, spareLength.symm, ?_, fun noDefs => ?_, ?_, phase⟩
    · simpa only [spareLength, checkoutDef_fst] using inv.sameLength
    · obtain ⟨noSpecials, -, specials⟩ := inv.noDefs_tail (spareLength ▸ noDefs)
      exact ⟨noSpecials, specials⟩
    · simpa [List.countP_append, DefinitionInterpretation.isList, counted] using inv.counted

/-- What the validity pass of a list layer keeps of the context: the rep
buffers, the specials, the lengths of the def buffers and the front before the
first list layer; and it hands out one list meaning. -/
structure OffsetsMid (ctx mid : SerializerContext) : Prop where
  repLevels : mid.repLevels = ctx.repLevels
  spareRep : mid.spareRep = ctx.spareRep
  numSpecials : mid.currentNumSpecials = ctx.currentNumSpecials
  listed : mid.defMeaning.countP DefinitionInterpretation.isList =
    ctx.defMeaning.countP DefinitionInterpretation.isList + 1
  defLevels : mid.defLevels.length = ctx.defLevels.length
  spareDef : mid.spareDef.length = ctx.defLevels.length
  front : ctx.BeforeLists → mid.BeforeLists

theorem offsetsMid {desc : OffsetDesc} {listed mid : SerializerContext} {nullListLevel emptyListLevel : Nat}
    (levels : ctx.listDefLevels desc = (listed, nullListLevel, emptyListLevel))
    (spareDef : ctx.spareDef.length = ctx.defLevels.length)
    (validated : (desc.validity = none ∧ mid = { listed with currentRep := listed.currentRep - 1 }) ∨
      ∃ validity, desc.validity = some validity ∧
        { listed with currentRep := listed.currentRep - 1 }.doRecordValidity validity nullListLevel = some mid) :
    OffsetsMid ctx mid := by
  obtain ⟨meaning, isList, first, nullLow⟩ := ctx.listDefLevels_spec desc
  rw [levels] at first nullLow
  simp only at first nullLow
  subst first
  have listedCount : (ctx.defMeaning ++ [meaning]).countP DefinitionInterpretation.isList =
      ctx.defMeaning.countP DefinitionInterpretation.isList + 1 := by
    simp [List.countP_append, isList]
  rcases validated with ⟨-, rfl⟩ | ⟨validity, -, ok⟩
  · exact ⟨rfl, rfl, rfl, listedCount, rfl, spareDef, fun front => (front.checkoutDef meaning).withCurrentRep _⟩
  · have front' : ctx.BeforeLists → mid.BeforeLists := fun front =>
      ((front.checkoutDef meaning).withCurrentRep _).doRecordValidity (nullLow.trans front.currentDefLow) ok
    obtain ⟨_, _, _, _, spare, _, _, swapped, rfl⟩ := doRecordValidity_eq_some ok
    exact ⟨rfl, rfl, rfl, listedCount, (length_of_overwrite swapped).trans spareDef, rfl, front'⟩

theorem OffsetsEnd.defMeaning {repLevel emptyListLevel : Nat} {desc : OffsetDesc} {mid : SerializerContext}
    (ended : OffsetsEnd repLevel emptyListLevel desc mid next) : next.defMeaning = mid.defMeaning := by
  cases ended <;> subst_vars <;> rfl

/-- Every end of `record_offsets` writes into a spare buffer as long as the
buffer it swaps out. -/
theorem OffsetsEnd.lengths {repLevel emptyListLevel : Nat} {desc : OffsetDesc} {mid : SerializerContext}
    (ended : OffsetsEnd repLevel emptyListLevel desc mid next) (spareRep : mid.spareRep.length = mid.repLevels.length)
    (spareDef : mid.spareDef.length = mid.defLevels.length) :
    next.repLevels.length = mid.repLevels.length ∧ next.spareRep.length = mid.repLevels.length ∧
      next.defLevels.length = mid.defLevels.length ∧ next.spareDef.length = mid.defLevels.length := by
  cases ended with
  | empty => subst_vars; exact ⟨rfl, spareRep, rfl, spareDef⟩
  | repOnly _ _ _ _ _ swapped updated =>
    subst updated
    exact ⟨(length_of_overwrite swapped).trans spareRep, rfl, rfl, spareDef⟩
  | both _ _ _ _ _ _ _ _ _ _ _ swappedDef swappedRep updated =>
    subst updated
    exact ⟨(length_of_overwrite swappedRep).trans spareRep, rfl, (length_of_overwrite swappedDef).trans spareDef, rfl⟩

theorem OffsetsEnd.numSpecials {repLevel emptyListLevel : Nat} {desc : OffsetDesc} {mid : SerializerContext}
    (ended : OffsetsEnd repLevel emptyListLevel desc mid next) :
    next.currentNumSpecials = mid.currentNumSpecials ∨
      next.currentNumSpecials = mid.currentNumSpecials + desc.numSpecials := by
  cases ended <;> subst_vars
  · exact Or.inl rfl
  · exact Or.inr rfl
  · exact Or.inr rfl

theorem windowLengths_ne_nil {desc : OffsetDesc} (formed : (RawRepDef.offsets desc).WellFormed)
    (lists : desc.numValues ≠ 0) : windowLengths desc.offsets ≠ [] := by
  obtain ⟨-, count, -, -⟩ := formed
  intro empty
  have length := length_windowLengths desc.offsets
  rw [empty, List.length_nil] at length
  omega

/-- A list layer before the first one that writes: it puts the number of list
layers at the front, or, with no list and no special, leaves the page empty. -/
theorem OffsetsEnd.phase_before {lists emptyListLevel : Nat} {desc : OffsetDesc} {rest : List RawRepDef}
    {mid : SerializerContext} (topRep : ctx.currentRep = lists) (front : ctx.BeforeLists)
    (kept : OffsetsMid ctx mid) (ended : OffsetsEnd ctx.currentRep emptyListLevel desc mid next)
    (positive : 0 < lists) (formed : (RawRepDef.offsets desc).WellFormed) (chained : Chained (.offsets desc :: rest))
    (restFormed : ∀ layer ∈ rest, layer.WellFormed) : Phase lists next rest := by
  have midFront := kept.front front
  have noSpecials : mid.currentNumSpecials = 0 := kept.numSpecials.trans front.noSpecials
  cases ended with
  | empty nothing unchanged =>
    -- no list: nothing below has a slot
    subst unchanged
    have childless := RawRepDef.children_eq_zero formed ((RawRepDef.slots_offsets formed).trans (by omega))
    exact .empty rfl noSpecials (chained.slots_eq_zero restFormed childless)
  | repOnly written spareRep something _ listed swapped updated =>
    subst updated
    obtain ⟨len, lengths, split⟩ := List.exists_cons_of_ne_nil (windowLengths_ne_nil formed (by omega))
    rw [split] at listed
    obtain ⟨rep, first, front'⟩ := head_repOnlyListLevels listed
    rw [midFront.repZero rep first, if_pos rfl, topRep] at front'
    exact .started positive (head?_of_overwrite swapped front')
  | both written passed defs reps trailing spareDef spareRep something _ listed _ _ swappedRep updated =>
    subst updated
    obtain ⟨len, lengths, split⟩ := List.exists_cons_of_ne_nil (windowLengths_ne_nil formed (by omega))
    rw [split] at listed
    have front' := fst_head_recordListLevels_of_zero listed midFront.repZero midFront.defLow
    rw [topRep] at front'
    exact .started positive (head?_of_overwrite swappedRep (head?_map_fst_append front'))

/-- Once the front holds a nonzero rep level, what a list layer with def levels
writes still starts with it: its first list keeps it, and with no list the first
special copied does. -/
theorem fst_head_recorded_of_started {repLevel emptyListLevel lists passed : Nat} {desc : OffsetDesc}
    {mid : SerializerContext} {written trailing : List (Nat × Nat)} {defs reps : List Nat}
    (positive : 0 < lists) (midFirst : mid.repLevels.head? = some lists)
    (formed : (RawRepDef.offsets desc).WellFormed) (something : desc.numValues + mid.currentNumSpecials ≠ 0)
    (listed : recordListLevels repLevel emptyListLevel (windowLengths desc.offsets) mid.defLevels mid.repLevels =
      some (written, passed, defs, reps))
    (copied : copyLevels (mid.currentNumSpecials - passed) defs reps = some trailing) :
    ((written ++ trailing).map Prod.fst).head? = some lists := by
  cases split : windowLengths desc.offsets with
  | nil =>
    -- no list: the specials passed above are copied, the first one first
    rw [split] at listed
    simp only [recordListLevels, Option.some.injEq, Prod.mk.injEq] at listed
    obtain ⟨rfl, rfl, rfl, rfl⟩ := listed
    have noLists : desc.numValues = 0 := by
      have length := length_windowLengths desc.offsets
      obtain ⟨-, count, -, -⟩ := formed
      rw [split, List.length_nil] at length
      omega
    rw [List.nil_append, fst_head_copyLevels copied (by omega), midFirst]
  | cons len lengths =>
    rw [split] at listed
    exact head?_map_fst_append (fst_head_recordListLevels_of_ne_zero listed midFirst
      (Nat.pos_iff_ne_zero.mp positive))

/-- A list layer after the first one that writes keeps the number of list layers
at the front. -/
theorem OffsetsEnd.phase_started {lists emptyListLevel : Nat} {desc : OffsetDesc} {mid : SerializerContext}
    (positive : 0 < lists) (first : ctx.repLevels.head? = some lists) (kept : OffsetsMid ctx mid)
    (ended : OffsetsEnd ctx.currentRep emptyListLevel desc mid next) (formed : (RawRepDef.offsets desc).WellFormed)
    (noDefs : ctx.defLevels.length = 0 → ctx.currentNumSpecials = 0) :
    next.repLevels.head? = some lists := by
  have midFirst : mid.repLevels.head? = some lists := kept.repLevels ▸ first
  cases ended with
  | empty nothing unchanged =>
    subst unchanged
    exact midFirst
  | repOnly written spareRep something midNoDefs listed swapped updated =>
    subst updated
    -- without def levels there is no special, so the layer has lists
    have noSpecials : mid.currentNumSpecials = 0 :=
      kept.numSpecials.trans (noDefs (kept.defLevels ▸ congrArg List.length midNoDefs))
    obtain ⟨len, lengths, split⟩ := List.exists_cons_of_ne_nil (windowLengths_ne_nil formed (by omega))
    rw [split] at listed
    obtain ⟨rep, repFirst, front'⟩ := head_repOnlyListLevels listed
    rw [midFirst, Option.some.injEq] at repFirst
    subst repFirst
    rw [if_neg (Nat.pos_iff_ne_zero.mp positive)] at front'
    exact head?_of_overwrite swapped front'
  | both written passed defs reps trailing spareDef spareRep something _ listed copied _ swappedRep updated =>
    subst updated
    exact head?_of_overwrite swappedRep (fst_head_recorded_of_started positive midFirst formed something listed copied)

theorem OffsetsEnd.phase_empty {lists emptyListLevel : Nat} {desc : OffsetDesc} {rest : List RawRepDef}
    {mid : SerializerContext} (noSpecials : ctx.currentNumSpecials = 0)
    (below : ∀ layer ∈ RawRepDef.offsets desc :: rest, layer.slots = 0) (kept : OffsetsMid ctx mid)
    (ended : OffsetsEnd ctx.currentRep emptyListLevel desc mid next) (formed : (RawRepDef.offsets desc).WellFormed) :
    Phase lists next rest := by
  -- the layer has no slot and no special is passed, so nothing is written
  have noLists : desc.numValues = 0 := (RawRepDef.slots_offsets formed).symm.trans (below _ List.mem_cons_self)
  have quiet : desc.numValues + mid.currentNumSpecials = 0 := by rw [kept.numSpecials]; omega
  have restEmpty : ∀ layer ∈ rest, layer.slots = 0 := fun layer mem => below layer (List.mem_cons_of_mem _ mem)
  cases ended with
  | empty _ unchanged =>
    subst unchanged
    exact .empty rfl (kept.numSpecials.trans noSpecials) restEmpty
  | repOnly _ _ something => exact absurd quiet something
  | both _ _ _ _ _ _ _ something => exact absurd quiet something

/-- Where the run is after a list layer: the first list layer that writes puts
the number of list layers at the front, a later one keeps it there, and one
with no lists leaves the page empty. -/
theorem OffsetsEnd.phase {lists emptyListLevel : Nat} {desc : OffsetDesc} {rest : List RawRepDef}
    {mid : SerializerContext} (phase : Phase lists ctx (.offsets desc :: rest)) (kept : OffsetsMid ctx mid)
    (ended : OffsetsEnd ctx.currentRep emptyListLevel desc mid next) (positive : 0 < lists)
    (formed : (RawRepDef.offsets desc).WellFormed) (chained : Chained (.offsets desc :: rest))
    (restFormed : ∀ layer ∈ rest, layer.WellFormed)
    (noDefs : ctx.defLevels.length = 0 → ctx.currentNumSpecials = 0) :
    Phase lists next rest := by
  cases phase with
  | before _ topRep front => exact ended.phase_before topRep front kept positive formed chained restFormed
  | started positive first => exact .started positive (ended.phase_started positive first kept formed noDefs)
  | empty _ noSpecials below => exact ended.phase_empty noSpecials below kept formed

/-- The step lemma of a list layer: its validity pass, then its levels written
over the buffers, or the page found empty. -/
theorem LevelsInv.recordOffsets {lists : Nat} {desc : OffsetDesc} {rest : List RawRepDef}
    (inv : LevelsInv lists ctx (.offsets desc :: rest)) (formed : (RawRepDef.offsets desc).WellFormed)
    (chained : Chained (.offsets desc :: rest)) (restFormed : ∀ layer ∈ rest, layer.WellFormed)
    (ok : ctx.recordOffsets desc = some next) : LevelsInv lists next rest := by
  rcases levels : ctx.listDefLevels desc with ⟨listed, nullListLevel, emptyListLevel⟩
  obtain ⟨mid, validated, ended⟩ := recordOffsets_eq_some levels ok
  have kept := offsetsMid levels inv.spareDef validated
  have counted : (RawRepDef.offsets desc :: rest).countP (·.kind = .offsets) =
      rest.countP (·.kind = .offsets) + 1 := by
    simp [RawRepDef.kind]
  have positive : 0 < lists := by have := inv.counted; omega
  obtain ⟨repLength, spareRep, defLength, spareDef⟩ :=
    ended.lengths (kept.spareRep ▸ kept.repLevels ▸ inv.spareRep) (kept.spareDef.trans kept.defLevels.symm)
  rw [kept.repLevels] at repLength spareRep
  rw [kept.defLevels] at defLength spareDef
  refine ⟨spareRep.trans repLength.symm, spareDef.trans defLength.symm, ?_, fun noDefs => ?_, ?_, ?_⟩
  · rw [repLength, defLength]
    exact inv.sameLength
  · -- without def levels neither this layer nor any below has a special
    obtain ⟨noSpecials, layerNone, specials⟩ := inv.noDefs_tail (defLength ▸ noDefs)
    simp only [RawRepDef.numSpecials] at layerNone
    have midNone := kept.numSpecials.trans noSpecials
    refine ⟨?_, specials⟩
    rcases ended.numSpecials with same | added <;> omega
  · rw [ended.defMeaning, kept.listed]
    have := inv.counted
    omega
  · exact ended.phase inv.phase kept positive formed chained restFormed fun noDefs => (inv.noDefs noDefs).1

/-- The run lemma: over well-formed layers that fit together, none of them of
fixed-size lists, each layer keeps the invariant, so it holds once the last
layer is recorded. -/
theorem LevelsInv.run {lists : Nat} {layers : List RawRepDef} {start final : SerializerContext}
    (inv : LevelsInv lists start layers) (formed : ∀ layer ∈ layers, layer.WellFormed) (chained : Chained layers)
    (noFsl : ∀ layer ∈ layers, layer.kind ≠ .fsl)
    (ran : layers.foldlM SerializerContext.recordLayer start = some final) : LevelsInv lists final [] := by
  -- the invariant also carries what the step lemmas need of the layers still to come
  have kept := Library.optionFoldlM_invariant_rest
    (fun ctx rest => LevelsInv lists ctx rest ∧ (∀ layer ∈ rest, layer.WellFormed) ∧ Chained rest ∧
      ∀ layer ∈ rest, layer.kind ≠ .fsl)
    ?_ ⟨inv, formed, chained, noFsl⟩ ran
  · exact kept.1
  · rintro layer rest ctx next ⟨inv, formed, chained, noFsl⟩ stepped
    have restFormed : ∀ below ∈ rest, below.WellFormed := fun below mem => formed below (List.mem_cons_of_mem _ mem)
    refine ⟨?_, restFormed, List.IsChain.tail chained, fun below mem => noFsl below (List.mem_cons_of_mem _ mem)⟩
    cases layer with
    | validity desc => exact inv.recordValidity (formed _ List.mem_cons_self) stepped
    | offsets desc => exact inv.recordOffsets (formed _ List.mem_cons_self) chained restFormed stepped
    | fsl desc => exact absurd rfl (noFsl _ List.mem_cons_self)

end SerializerContext

namespace NormalizedStructuralPlan

end NormalizedStructuralPlan

namespace RepDefBuilder

end RepDefBuilder

end Lance.Encoding.RepDef
