import Lance.Encoding.RepDef.LayerChain

/-! What `concat_layers` and `normalize` make of builders that recorded one
schema. The layers at one depth are joined into one: its slots are the slots of
the batches' layers together, and so are its children, since each batch's
offsets are shifted by the values before it. So the joined layers fit together
as each builder's layers do, and the plan is consistent. -/

namespace Lance.Encoding.RepDef

namespace RepDefBuilder

/-! ### The first pass: the summary of the layers -/

section Summary

variable (summary : LayerSummary) (layer : RawRepDef)

@[simp] theorem summarizeLayer_hasNulls :
    (summarizeLayer summary layer).hasNulls = (summary.hasNulls || layer.hasNulls) := by
  cases layer <;> rfl

@[simp] theorem summarizeLayer_layerKind : (summarizeLayer summary layer).layerKind = layer.kind := by
  cases layer <;> rfl

@[simp] theorem summarizeLayer_totalNumSpecials :
    (summarizeLayer summary layer).totalNumSpecials = summary.totalNumSpecials + layer.numSpecials := by
  cases layer <;> rfl

@[simp] theorem summarizeLayer_allNumValues :
    (summarizeLayer summary layer).allNumValues = summary.allNumValues + layer.numValues := by
  cases layer <;> rfl

end Summary

end RepDefBuilder

end Lance.Encoding.RepDef
