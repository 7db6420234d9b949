import Asp.Lib.Parties
import Asp.Spec.ScratchFiles
import Mathlib.Data.List.TakeWhile

/-! The names of scratch files end in `.asp-tmp-` or `.asp-backup-` and a uuid, and the filter
asks how they begin. -/

namespace Asp

open Std

variable {name : String}

variable {root target path : PathKey} {extension : String}

end Asp
