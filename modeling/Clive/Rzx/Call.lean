import Clive.Rzx.Basic

/-!
# One call of the mux, and the channels around it

`m.Rpc()` gives a call: an outbound channel `c.Out` the client sends its request on and an
inbound channel `c.In` the replies arrive on. The mux and the server are not modelled; a
call is the behaviour they show the client (`Call`), any behaviour at all:

* `c.Out` accepts some number of sends and then refuses every later one, with the error it
  was closed with (a torn-down mux). A refused send always carries an error: the mux closes
  a call with its terminal error.
* `c.In` delivers a finite list of messages and is closed with a reason. `cerror(c.In)`
  reports that reason once the peer's close has reached the client, which may be before the
  client has taken every buffered message (`shut`); a `range` loop over `c.In` ends only
  after the close, so there the reason is always the final one.

A channel the client writes results to and the caller reads (`Chan`) is closed at most
once in effect: a second `close` keeps the first reason, which is what Clive's channels do
and what the envelopes rely on when they close `rc` twice. The reader may close it itself to
cancel; it does so once it has taken a given number of values.

`getTrees`, the first consumer of a call, is here too: the tree listing of `Redial`.
-/

namespace Rzx

/-- How one call of the mux behaves, as the client sees it. -/
structure Call where
  /-- `c.Out` refuses every send after this many accepted ones, with this error. -/
  refuse : Option (Nat × Err) := none
  /-- The messages `c.In` delivers, in order. -/
  msgs : List Val := []
  /-- The reason `c.In` is closed with after them. -/
  err : Option Err := none
  /-- `cerror(c.In)` reports the close once this many messages have been received. -/
  shut : Nat := 0
  deriving Repr

namespace Call

/-- The error of the send made after `k` others on `c.Out`, or `none` when it is accepted. -/
def refused (c : Call) (k : Nat) : Option Err :=
  match c.refuse with
  | some (n, e) => if n ≤ k then some e else none
  | none => none

/-- `m := <-c.In; err := cerror(c.In)`: the first message (`none` for the zero value of a
closed, drained channel) and the close reason as seen right after it. -/
def recv1 (c : Call) : Option Val × Option Err :=
  match c.msgs with
  | [] => (none, c.err)
  | v :: _ => (some v, if c.shut ≤ 1 then c.err else none)

/-- `cerror(c.In)` after the client closed `c.In` itself with `r`, having received `k`
messages: the peer's reason when its close came first. -/
def closeIn (c : Call) (k : Nat) (r : Option Err) : Option Err :=
  if c.shut ≤ k then c.err else r

end Call

/-- A channel the client sends on and closes, as its reader sees it: the values delivered,
the reason it was first closed with, and the reader's own close with a reason once it has
taken a number of values (cancellation). -/
structure Chan (α : Type) where
  sent : List α := []
  closed : Option (Option Err) := none
  cancel : Option (Nat × Option Err) := none
  deriving Repr

namespace Chan

variable {α : Type}

/-- The reader's close, if it is due: it comes before the writer's next operation. -/
def poll (c : Chan α) : Chan α :=
  match c.closed, c.cancel with
  | none, some (n, r) => if c.sent.length = n then { c with closed := some r } else c
  | _, _ => c

/-- `ok := c <- v`: refused once the channel is closed. -/
def send (c : Chan α) (v : α) : Chan α × Bool :=
  match c.poll.closed with
  | some _ => (c.poll, false)
  | none => ({ c.poll with sent := c.poll.sent ++ [v] }, true)

/-- `close(c, r)`: a channel already closed keeps its first reason. -/
def close (c : Chan α) (r : Option Err) : Chan α :=
  match c.poll.closed with
  | some _ => c.poll
  | none => { c.poll with closed := some r }

/-- `cerror(c)`, as the writer sees it. -/
def cerror (c : Chan α) : Option Err :=
  c.poll.closed.join

end Chan

/-! ### The tree listing -/

/-- The loop of `getTrees` over the replies: each string names a served tree; any other
value stops it, which is reported as `false`. -/
def addTrees (tr : String → Bool) : List Val → (String → Bool) × Bool
  | [] => (tr, true)
  | .str s :: ms => addTrees (setAt tr s true) ms
  | _ :: _ => (tr, false)

/-- `Fs.getTrees` on the call `c`: send `Ttrees`, add every listed tree to the map, then add
`"main"` by convention. Returns the new map and the error: the refused send's, `ErrBadMsg`
for a reply that is not a string (without `"main"`), or `cerror(c.In)`. -/
def getTrees (tr : String → Bool) (c : Call) : (String → Bool) × Option Err :=
  match c.refused 0 with
  | some e => (tr, some e)
  | none =>
    match addTrees tr c.msgs with
    | (tr', true) => (setAt tr' "main" true, c.err)
    | (tr', false) => (tr', some .badMsg)

/-- Setting a key of a Go `map[string]bool` keeps every key already set. -/
theorem setAt_true_of {tr : String → Bool} {n : String} (k : String) (h : tr n = true) :
    setAt tr k true n = true := by
  rw [setAt_apply]
  split_ifs <;> simp [h]

theorem addTrees_mono {tr : String → Bool} {n : String} (h : tr n = true) :
    ∀ ms, (addTrees tr ms).1 n = true := by
  intro ms
  induction ms generalizing tr with
  | nil => exact h
  | cons v ms ih =>
    cases v with
    | str s => exact ih (setAt_true_of s h)
    | _ => exact h

/-- The listing never drops a tree from the map. -/
theorem getTrees_mono {tr : String → Bool} {n : String} (h : tr n = true) (c : Call) :
    (getTrees tr c).1 n = true := by
  have ha := addTrees_mono h c.msgs
  unfold getTrees
  rcases c.refused 0 with _ | e
  · rcases hr : addTrees tr c.msgs with ⟨tr', _ | _⟩ <;> rw [hr] at ha
    · exact ha
    · exact setAt_true_of _ ha
  · exact h

/-- A listing that succeeds has added `"main"`. -/
theorem getTrees_main {tr : String → Bool} {c : Call} (h : (getTrees tr c).2 = none) :
    (getTrees tr c).1 "main" = true := by
  revert h
  unfold getTrees
  split
  · intro h; cases h
  · split
    · intro _; simp
    · intro h; cases h

end Rzx
