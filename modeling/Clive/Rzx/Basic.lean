import Mathlib.Data.List.Basic

/-!
# Values on the wire of the remote zx client

The values `rzx` exchanges with a server over one call of its mux. The Go code moves them as
`face{}` and tells them apart by type assertions (`m.(zx.Dir)`, `m.([]byte)`, `m.(string)`);
here they are one sum type, tagged when they are decoded, so that an assertion is a `match`.

* `Err` — the errors the client compares or builds: the sentinel `ErrBadMsg`, and every other
  error by its text.
* `Dir` — a directory entry (`zx.Dir`), an ordered map of strings.
* `Val` — a message received on a call: a directory entry, a byte chunk, a string, or a value
  of any other runtime type.
* `Msg` — a request (`rzx.Msg`), with the fields the client fills in.
-/

namespace Rzx

/-- `m[k] = v`, for a Go map or a table of objects modelled as a function. This is
`Function.update` without its dependent cast, so that a run on concrete values evaluates. -/
def setAt {α β : Type} [DecidableEq α] (f : α → β) (k : α) (v : β) : α → β :=
  fun x => if x = k then v else f x

section SetAt

variable {α β : Type} [DecidableEq α] {f : α → β} {k x : α} {v : β}

theorem setAt_apply : setAt f k v x = if x = k then v else f x := rfl

@[simp] theorem setAt_same : setAt f k v k = v := if_pos rfl

@[simp] theorem setAt_noteq (h : x ≠ k) : setAt f k v x = f x := if_neg h

end SetAt

/-- An error value. `ErrBadMsg` is compared by identity in the client, every other error is
only carried and printed, so it is kept by its text. -/
inductive Err where
  /-- `ErrBadMsg`: an inbound message of the wrong runtime type. -/
  | badMsg
  /-- Any other error, by its text. -/
  | text (s : String)
  deriving DecidableEq, Repr

/-- A directory entry (`zx.Dir`): string keys to string values. -/
abbrev Dir := List (String × String)

/-- `d[k]`: the value of key `k`, or `""` when it is absent, as a Go map index. -/
def Dir.get (d : Dir) (k : String) : String :=
  (d.lookup k).getD ""

/-- A byte chunk (`[]byte`). -/
abbrev Bytes := List UInt8

/-- A message received on a call, by its runtime type. -/
inductive Val where
  | dir (d : Dir)
  | bytes (b : Bytes)
  | str (s : String)
  /-- A value of any other runtime type, named by its type. -/
  | other (ty : String)
  deriving DecidableEq, Repr

/-- The operation codes of the requests the client sends. -/
inductive Op where
  | Ttrees | Tstat | Twstat | Tremove | Tremoveall | Tmove | Tlink | Tget | Tput | Tfind
  | Tfindget
  deriving DecidableEq, Repr

/-- A request (`rzx.Msg`); an operation fills in only the fields it uses. -/
structure Msg where
  op : Op
  fsys : String := ""
  path : String := ""
  /-- `To`: the second path of a move or a link. -/
  toPath : String := ""
  d : Dir := []
  off : Int := 0
  count : Int := 0
  pred : String := ""
  spref : String := ""
  dpref : String := ""
  depth : Int := 0
  deriving DecidableEq, Repr

end Rzx
