import Lance.Select.RowAddrTreeMap

/-! `RowAddrMask`: the rows a scan may return, given either by the rows it
allows or by the rows it blocks; a block list stands for every row but
finitely many. Each logical operator picks, for each pair of constructors,
one operator of the tree maps. -/

namespace Lance.Select

/-- `RowAddrMask`. -/
inductive RowAddrMask where
  | allowList (allowList : RowAddrTreeMap)
  | blockList (blockList : RowAddrTreeMap)

namespace RowAddrMask

/-- `all_rows`, the `Default`: an empty block list allows every row. -/
def allRows : RowAddrMask := .blockList .new

def allowNothing : RowAddrMask := .allowList .new

/-- `selected`: whether the mask lets a row through. -/
def selected : RowAddrMask → UInt64 → Bool
  | .allowList allow, rowId => allow.contains rowId
  | .blockList block, rowId => !block.contains rowId

def alsoBlock : RowAddrMask → RowAddrTreeMap → RowAddrMask
  | .allowList allow, block => .allowList (allow - block)
  | .blockList existing, block => .blockList (existing ||| block)

def alsoAllow : RowAddrMask → RowAddrTreeMap → RowAddrMask
  | .allowList existing, allow => .allowList (existing ||| allow)
  | .blockList block, allow => .blockList (block - allow)

/-- `Not`: the same tree map, read the other way. -/
def not : RowAddrMask → RowAddrMask
  | .allowList allow => .blockList allow
  | .blockList block => .allowList block

def bitand : RowAddrMask → RowAddrMask → RowAddrMask
  | .allowList a, .allowList b => .allowList (a &&& b)
  | .allowList allow, .blockList block => .allowList (allow - block)
  | .blockList block, .allowList allow => .allowList (allow - block)
  | .blockList a, .blockList b => .blockList (a ||| b)

def bitor : RowAddrMask → RowAddrMask → RowAddrMask
  | .allowList a, .allowList b => .allowList (a ||| b)
  | .allowList allow, .blockList block => .blockList (block - allow)
  | .blockList block, .allowList allow => .blockList (block - allow)
  | .blockList a, .blockList b => .blockList (a &&& b)

instance : Complement RowAddrMask := ⟨not⟩

instance : AndOp RowAddrMask := ⟨bitand⟩

instance : OrOp RowAddrMask := ⟨bitor⟩

def Equiv : RowAddrMask → RowAddrMask → Prop
  | .allowList map, .allowList other => map.Equiv other
  | .blockList map, .blockList other => map.Equiv other
  | _, _ => False

instance : ∀ mask other : RowAddrMask, Decidable (mask.Equiv other)
  | .allowList map, .allowList other => inferInstanceAs (Decidable (map.Equiv other))
  | .blockList map, .blockList other => inferInstanceAs (Decidable (map.Equiv other))
  | .allowList _, .blockList _ => isFalse id
  | .blockList _, .allowList _ => isFalse id

end RowAddrMask

/-- `RowAddrTreeMap::mask`: keep the allowed rows, or drop the blocked ones. -/
def RowAddrTreeMap.mask (map : RowAddrTreeMap) : RowAddrMask → RowAddrTreeMap
  | .allowList allow => map &&& allow
  | .blockList block => map - block

@[simp] theorem RowAddrTreeMap.iter_new : RowAddrTreeMap.new.iter = [] := by
  simp [RowAddrTreeMap.iter, RowAddrTreeMap.new]

theorem RowAddrTreeMap.mask_allRows (map : RowAddrTreeMap) : map.mask .allRows = map := by
  simp [RowAddrTreeMap.mask, RowAddrMask.allRows, HSub.hSub, Sub.sub, RowAddrTreeMap.subAssign]

end Lance.Select
