/-!
# Counts of one machine word

Sizes given from outside (limits, multipliers, lengths) are counts of one 64-bit word. Sums and
products of them stop at the largest word instead of wrapping, so that a limit is never evaded by
asking for too much.
-/

namespace CommonSubgraph.Size

/-- The largest count one machine word holds. -/
def largest : Nat := UInt64.size - 1

/-- The sum of two counts, stopped at the largest word. -/
def saturatingAdd (a b : Nat) : Nat := min (a + b) largest

/-- The product of two counts, stopped at the largest word. -/
def saturatingMul (a b : Nat) : Nat := min (a * b) largest

end CommonSubgraph.Size
