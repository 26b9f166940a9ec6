import Sigmaengine.Dapp.Packed

/-!
# Operations in a binary payload

`get_inner_operation` of a `custom_binary_operation` reads the data as a vector, and only when that throws as one
operation.  A packed operation starts with the number of its type, which is where a vector has its length, so an
operation of type `n` is lost whenever `n` operations can be read from its fields: always for the first type.

Main result: `binary_payload_iff`.
-/

namespace Sigmaengine

open Reading Raw Raw.Format

namespace Raw.Format

variable {α : Type} {f : Format α} {op : α} {ops : List α}

/-- `fc::raw` finds the operation again. -/
structure RoundTrips (f : Format α) (op : α) : Prop where
  known : f.which op < f.count
  number : f.which op < 2 ^ 32
  fields : Reads (f.unpackFields (f.which op)) (f.packFields op) op

theorem RoundTrips.operation (h : f.RoundTrips op) : Reads f.unpackOperation (f.packOperation op) op := by
  have hfields := (reads_check (c := f.which op < f.count) (by simpa using h.known)).bind (f := fun _ =>
    f.unpackFields (f.which op)) h.fields
  rw [List.nil_append] at hfields
  exact (reads_varint h.number).bind hfields

theorem reads_operations (h : ∀ op ∈ ops, f.RoundTrips op) (hsize : ops.length * f.size < maxArrayAllocSize)
    (hlength : ops.length < 2 ^ 32) : Reads f.unpackOperations (f.packOperations ops) ops := by
  have hmany := reads_many fun op hop => (h op hop).operation
  have hchecked := (reads_check (c := ops.length * f.size < maxArrayAllocSize) (by simpa using hsize)).bind
    (f := fun _ => many f.unpackOperation ops.length) hmany
  rw [List.nil_append] at hchecked
  exact (reads_varint hlength).bind hchecked

theorem pack_append_ne_nil (n : Nat) (bs : Bytes) : Varint.pack n ++ bs ≠ [] := by
  unfold Varint.pack Varint.groups
  split <;> simp

theorem packOperations_ne_nil : f.packOperations ops ≠ [] := pack_append_ne_nil _ _

theorem packOperation_ne_nil : f.packOperation op ≠ [] := pack_append_ne_nil _ _

/-- Vectors are found again. -/
theorem getInnerOperation_packOperations (h : ∀ op ∈ ops, f.RoundTrips op)
    (hsize : ops.length * f.size < maxArrayAllocSize) (hlength : ops.length < 2 ^ 32) :
    f.getInnerOperation (f.packOperations ops) = some ops := by
  have hread := reads_operations h hsize hlength []
  rw [List.append_nil] at hread
  unfold getInnerOperation unpackVector
  rw [if_neg packOperations_ne_nil, hread]
  rfl

/-- The fields begin with as many operations as the number of the type, and they are not the operation itself. -/
def ReadsAsOthers (f : Format α) (op : α) : Prop :=
  ∃ ops rest, ops ≠ [op] ∧ f.which op * f.size < maxArrayAllocSize ∧
    many f.unpackOperation (f.which op) (f.packFields op) = some (ops, rest)

/-- Read as a vector, an operation is as many operations as the number of its type. -/
theorem unpackVector_packOperation (h : f.which op < 2 ^ 32) :
    f.unpackVector (f.packOperation op) =
      if f.which op * f.size < maxArrayAllocSize then
        (many f.unpackOperation (f.which op) (f.packFields op)).map Prod.fst
      else none := by
  unfold unpackVector
  rw [if_neg packOperation_ne_nil]
  have hread : f.unpackOperations (f.packOperation op) =
      (check (f.which op * f.size < maxArrayAllocSize) >>= fun _ => many f.unpackOperation (f.which op))
        (f.packFields op) := by
    show (varint (f.packOperation op)).bind _ = _
    unfold packOperation
    rw [reads_varint h]
    rfl
  rw [hread]
  by_cases hsize : f.which op * f.size < maxArrayAllocSize
  · rw [if_pos hsize]
    show ((check _ _).bind _).map _ = _
    simp [check, hsize]
  · rw [if_neg hsize]
    show ((check _ _).bind _).map _ = _
    simp [check, hsize]

/-- A single operation is found again unless it reads as other ones. -/
theorem getInnerOperation_packOperation (h : f.RoundTrips op) :
    f.getInnerOperation (f.packOperation op) = some [op] ↔ ¬ f.ReadsAsOthers op := by
  have hread := h.operation []
  rw [List.append_nil] at hread
  have hvector := unpackVector_packOperation (f := f) h.number
  unfold getInnerOperation ReadsAsOthers
  by_cases hsize : f.which op * f.size < maxArrayAllocSize
  · rw [if_pos hsize] at hvector
    cases hmany : many f.unpackOperation (f.which op) (f.packFields op) with
    | none =>
      rw [hmany] at hvector
      simp [hvector, hread]
    | some r =>
      rw [hmany] at hvector
      simp only [hvector, Option.map_some, Option.some.injEq]
      constructor
      · rintro heq ⟨ops, rest, hne, -, hr⟩
        rw [hr] at heq
        exact hne heq
      · intro hnot
        by_contra hne
        exact hnot ⟨r.1, r.2, hne, hsize, rfl⟩
  · rw [if_neg hsize] at hvector
    simp [hvector, hread, hsize]

/-- **Binary payloads**: what was packed is found again unless a single operation reads as other ones. -/
theorem binary_payload_iff (hop : f.RoundTrips op) (hops : ∀ op ∈ ops, f.RoundTrips op)
    (hsize : ops.length * f.size < maxArrayAllocSize) (hlength : ops.length < 2 ^ 32) :
    (f.getInnerOperation (f.packOperation op) = some [op] ∧ f.getInnerOperation (f.packOperations ops) = some ops) ↔
      ¬ f.ReadsAsOthers op := by
  rw [getInnerOperation_packOperation hop, getInnerOperation_packOperations hops hsize hlength]
  simp

/-- An operation of the first type is always lost. -/
theorem readsAsOthers_first (h : f.which op = 0) : f.ReadsAsOthers op := by
  refine ⟨[], f.packFields op, by simp, ?_, ?_⟩
  · rw [h, Nat.zero_mul]
    decide
  · rw [h]
    rfl

end Raw.Format

/-! ## Operations of the dapp plugin -/

namespace Dapp

/-- Alice joins the shop. -/
def joinTheShop : DappOperation :=
  .joinDapp ⟨.ofBytes (ascii ['a', 'l', 'i', 'c', 'e']), .ofBytes (ascii ['s', 'h', 'o', 'p'])⟩

/-- Alice opens the shop. -/
def openTheShop : DappOperation :=
  .createDapp ⟨.ofBytes (ascii ['a', 'l', 'i', 'c', 'e']), .ofBytes (ascii ['s', 'h', 'o', 'p']), some ⟨2⟩⟩

/-- **Operations of the dapp plugin** are found again by `fc::raw`. -/
theorem roundTrips_of_packable {op : DappOperation} (h : Packable op) : format.RoundTrips op := by
  have hknown : which op < 9 := by cases op <;> simp [which]
  exact ⟨hknown, hknown.trans (by decide), reads_fields h⟩

theorem joinTheShop_packable : Packable joinTheShop := ⟨by decide +kernel, by decide +kernel⟩

theorem openTheShop_packable : Packable openTheShop := by
  refine ⟨by decide +kernel, by decide +kernel, fun k hk => ?_⟩
  cases hk
  decide

theorem join_the_shop_decoded :
    (format.getInnerOperation (format.packOperation joinTheShop) = some [joinTheShop] ∧
      format.getInnerOperation (format.packOperations [openTheShop]) = some [openTheShop]) ↔
      ¬ format.ReadsAsOthers joinTheShop := by
  refine binary_payload_iff (roundTrips_of_packable joinTheShop_packable) ?_ (by decide) (by decide)
  intro op hop
  obtain rfl := List.mem_singleton.mp hop
  exact roundTrips_of_packable openTheShop_packable

/-- A packed `create_dapp_operation` reads as no operation at all. -/
theorem open_the_shop_lost :
    ¬ ∀ op : DappOperation, format.RoundTrips op →
      format.getInnerOperation (format.packOperation op) = some [op] := by
  intro hclaim
  have hop := roundTrips_of_packable openTheShop_packable
  have hread := hclaim openTheShop hop
  exact (getInnerOperation_packOperation hop).mp hread (readsAsOthers_first rfl)

end Dapp

end Sigmaengine
