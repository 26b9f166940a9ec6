import Mathlib.Order.Basic
import Sigmaengine.Protocol.Types

/-!
# Names in order

Names are ordered by their stored words, which is a linear order; the ordered indices of the plugins are sorted by it.
-/

namespace Sigmaengine.FixedString

variable {w : Nat}

theorem toNat_data_injective : Function.Injective fun v : FixedString w => v.data.toNat := by
  rintro ⟨a⟩ ⟨b⟩ h
  exact congrArg _ (BitVec.eq_of_toNat_eq h)

instance : LinearOrder (FixedString w) := LinearOrder.lift' (fun v => v.data.toNat) toNat_data_injective

end Sigmaengine.FixedString
