import Sigmaengine.Protocol.Raw
import Sigmaengine.Protocol.Variant

/-!
# Visiting the operations in a payload

`process_inner_operation` of the two histories, which visits what the payload reads as and is silent about what it does not
read as.  It finds the operations that `get_inner_operation` hands to the interpreters.
-/

namespace Sigmaengine

open Variant

variable {α β : Type} (visitor : List β → α → List β)

/-- `process_inner_operation` of a variant: nothing when it does not read as operations of this kind. -/
def VariantFormat.processInnerOperation (rules : VariantRules) (f : VariantFormat α) (var : Variant)
    (result : List β) : List β :=
  let operations :=
    match var.getArray with
    | some (v :: vs) =>
      if v.getArray.isSome then (v :: vs).mapM (f.fromVariant rules) else (f.fromVariant rules var).map fun op => [op]
    | _ => (f.fromVariant rules var).map fun op => [op]
  match operations with
  | some ops => ops.foldl visitor result
  | none => result

/-- `process_inner_operation` of binary data. -/
def Raw.Format.processInnerOperation (raw : Raw.Format α) (data : Bytes) (result : List β) : List β :=
  match raw.unpackVector data with
  | some ops => ops.foldl visitor result
  | none =>
    match raw.unpackOperation data with
    | some op => visitor result op.1
    | none => result

variable {visitor} {rules : VariantRules} {f : VariantFormat α} {raw : Raw.Format α} {names : α → Prop} {result : List β}
  {b : β}

/-- Visiting operations adds what each of them names. -/
theorem mem_foldl_visitor (hvisitor : ∀ result op, b ∈ visitor result op ↔ b ∈ result ∨ names op) (ops : List α) :
    b ∈ ops.foldl visitor result ↔ b ∈ result ∨ ∃ op ∈ ops, names op := by
  induction ops generalizing result with
  | nil => simp
  | cons op ops ih => rw [List.foldl_cons, ih, hvisitor, List.exists_mem_cons_iff, or_assoc]

theorem VariantFormat.mem_processInnerOperation
    (hvisitor : ∀ result op, b ∈ visitor result op ↔ b ∈ result ∨ names op) (var : Variant) :
    b ∈ f.processInnerOperation visitor rules var result ↔
      b ∈ result ∨ ∃ op ∈ (f.getInnerOperation rules var).getD [], names op := by
  have hinner : (match var.getArray with
      | some (v :: vs) =>
        if v.getArray.isSome then (v :: vs).mapM (f.fromVariant rules)
        else (f.fromVariant rules var).map fun op => [op]
      | _ => (f.fromVariant rules var).map fun op => [op]) = f.getInnerOperation rules var := by
    cases var with
    | array vs =>
      cases vs with
      | nil => rfl
      | cons v vs => cases v <;> rfl
    | _ => rfl
  unfold VariantFormat.processInnerOperation
  simp only [hinner]
  cases f.getInnerOperation rules var with
  | none => simp
  | some ops => exact mem_foldl_visitor hvisitor ops

theorem Raw.Format.mem_processInnerOperation
    (hvisitor : ∀ result op, b ∈ visitor result op ↔ b ∈ result ∨ names op) (data : Bytes) :
    b ∈ raw.processInnerOperation visitor data result ↔
      b ∈ result ∨ ∃ op ∈ (raw.getInnerOperation data).getD [], names op := by
  unfold Raw.Format.processInnerOperation Raw.Format.getInnerOperation
  cases raw.unpackVector data with
  | some ops => exact mem_foldl_visitor hvisitor ops
  | none =>
    cases raw.unpackOperation data with
    | none => simp
    | some op => simpa using mem_foldl_visitor hvisitor [op.1]

end Sigmaengine
