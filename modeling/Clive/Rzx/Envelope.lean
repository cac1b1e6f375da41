import Clive.Rzx.Call

/-!
# The request envelopes

Every file operation of the client runs as an **envelope**: a goroutine that takes a call of the
mux (`fs.m.Rpc()`), sends the request on `c.Out`, and turns what arrives on `c.In` into values
and a close reason on the caller's result channel `rc`. There are six of them:

* `dircall`, behind `Stat` and `Wstat`: one directory entry;
* `errcall`, behind `Remove`, `RemoveAll`, `Move` and `Link`: one error value;
* `Get`, `Find` and `FindGet`: a stream of byte chunks, of directory entries, or of values of
  any type, one loop (`forward`) with the decoding as its parameter;
* `Put`: the request, then the caller's data chunks from `dc`, then one directory entry.

Each is a function of the call's behaviour (`Call`) and of the point where the caller closes
`rc` itself (the cancellation of `Chan`), and returns what the goroutine leaves on its channels
(`Outcome`).

## What the caller sees

`Chan.feed` is a writer that sends some values and then closes; `seen` is what its reader gets,
given its own cancellation. Once the request is accepted, every envelope is such a writer
(`envelope_reference`): the stream envelopes deliver the longest prefix of the messages that
decodes, then close with `ErrBadMsg` if a message of another type follows and with the reason
`c.In` was closed with otherwise (`streamRef`). The envelopes that take a single reply check
`cerror(c.In)` right after it, so what they report depends on whether the close of `c.In` has
reached the client by then (`Call.recv1`), not only on the messages and that reason
(`dircall_reports_close_late`).

When the request send is refused, every envelope returns without closing `rc`, so a caller
reading `rc` to its end waits forever; and `Put` with `d["type"] = "d"` neither reads nor
closes the caller's `dc` (`envelope_leaves_rc_open`).
-/

namespace Rzx

/-! ### Channels -/

namespace Chan

variable {α : Type} {c : Chan α}

/-- A writer that sends `vs` on `c` in order and then closes it with `r`. -/
def feed (c : Chan α) : List α → Option Err → Chan α
  | [], r => c.close r
  | v :: vs, r => (c.send v).1.feed vs r

/-- The values delivered on `c` and the reason it was first closed with. -/
def view (c : Chan α) : List α × Option (Option Err) := (c.sent, c.closed)

theorem poll_of_closed (h : c.closed ≠ none) : c.poll = c := by
  unfold poll; split <;> simp_all

theorem send_of_closed (h : c.closed ≠ none) (v : α) : c.send v = (c, false) := by
  obtain ⟨r, hr⟩ := Option.ne_none_iff_exists'.mp h
  simp [send, poll_of_closed h, hr]

theorem close_of_closed (h : c.closed ≠ none) (r : Option Err) : c.close r = c := by
  obtain ⟨r', hr⟩ := Option.ne_none_iff_exists'.mp h
  simp [close, poll_of_closed h, hr]

/-- A closed channel ignores its writer. -/
theorem feed_of_closed (h : c.closed ≠ none) : ∀ vs r, c.feed vs r = c
  | [], r => close_of_closed h r
  | v :: vs, r => by rw [feed, send_of_closed h]; exact feed_of_closed h vs r

theorem closed_close (r : Option Err) : (c.close r).closed ≠ none := by
  unfold close; split <;> simp_all

theorem closed_send_false {v : α} (h : (c.send v).2 = false) : (c.send v).1.closed ≠ none := by
  unfold send at *; split <;> simp_all

/-- An open channel nobody cancels takes every value and the writer's close. -/
theorem feed_view_none (pre vs : List α) (r : Option Err) :
    (({ sent := pre } : Chan α).feed vs r).view = (pre ++ vs, some r) := by
  induction vs generalizing pre with
  | nil => simp [feed, close, poll, view]
  | cons v vs ih => simpa [feed, send, poll] using ih (pre ++ [v])

/-- An open channel whose reader closes it with `r'` once it has `k` values. -/
theorem feed_view_some (pre vs : List α) {k : Nat} (r' r : Option Err) (hk : pre.length ≤ k) :
    (({ sent := pre, cancel := some (k, r') } : Chan α).feed vs r).view =
      if k ≤ pre.length + vs.length then (pre ++ vs.take (k - pre.length), some r')
      else (pre ++ vs, some r) := by
  induction vs generalizing pre with
  | nil =>
    by_cases he : pre.length = k
    · simp [feed, close, poll, he, view]
    · have : ¬ k ≤ pre.length := by omega
      simp [feed, close, poll, he, view, this]
  | cons v vs ih =>
    by_cases he : pre.length = k
    · -- the reader's close comes before this send
      subst he
      have h := @feed_of_closed α
        { sent := pre, closed := some r', cancel := some (pre.length, r') } (by simp) vs r
      simp [feed, send, poll, h, view]
    · have hk' : (pre ++ [v]).length ≤ k := by simp; omega
      have hsub : k - pre.length = k - (pre.length + 1) + 1 := by omega
      simp only [feed, send, poll, he, if_false]
      rw [ih (pre ++ [v]) hk']
      simp [hsub, Nat.add_assoc, Nat.add_comm 1]

end Chan

/-- **What the reader of a result channel sees**, by the spec: a writer delivers `res.1` and
closes with `res.2`; a reader that cancels after `k` values, with `r'`, gets the first `k` of
them and its own reason, if the writer had not finished by then. -/
def seen {α : Type} (cancel : Option (Nat × Option Err)) (res : List α × Option Err) :
    List α × Option (Option Err) :=
  match cancel with
  | some (k, r') => if k ≤ res.1.length then (res.1.take k, some r') else (res.1, some res.2)
  | none => (res.1, some res.2)

theorem Chan.feed_view {α : Type} (cancel : Option (Nat × Option Err)) (vs : List α)
    (r : Option Err) : (({ cancel := cancel } : Chan α).feed vs r).view = seen cancel (vs, r) := by
  rcases cancel with _ | ⟨k, r'⟩
  · simpa [seen] using Chan.feed_view_none [] vs r
  · simpa [seen] using Chan.feed_view_some [] vs r' r (Nat.zero_le k)

/-! ### The envelopes -/

/-- What an envelope's goroutine leaves on its channels: the request `c.Out` accepted, the
caller's result channel `rc`, and the reason it closed `c.In` with, when it did. -/
structure Outcome (α : Type) where
  req : Option Msg
  rc : Chan α
  cin : Option (Option Err)

/-- `m := <-c.In; err := cerror(c.In)`; a directory entry is sent on `rc` when no close has been
seen, and anything else then is `ErrBadMsg`. The reply half of `dircall` and `Put`; it returns
`rc` and `err`. -/
def dirReply (c : Call) (rc : Chan Dir) : Chan Dir × Option Err :=
  match c.recv1 with
  | (some (.dir d), none) => ((rc.send d).1, none)
  | (_, none) => (rc, some .badMsg)
  | (_, some e) => (rc, some e)

/-- `Fs.dircall`: `rc` is made here, and `cancel` is where its reader closes it. A refused
request closes `c.In` and returns. -/
def dircall (m : Msg) (c : Call) (cancel : Option (Nat × Option Err)) : Outcome Dir :=
  let rc : Chan Dir := { cancel := cancel }
  match c.refused 0 with
  | some e => ⟨none, rc, some (some e)⟩
  | none =>
    let r := dirReply c rc
    ⟨some m, r.1.close r.2, some r.2⟩

def stat (fsys p : String) : Call → Option (Nat × Option Err) → Outcome Dir :=
  dircall { op := .Tstat, fsys := fsys, path := p }

def wstat (fsys p : String) (d : Dir) : Call → Option (Nat × Option Err) → Outcome Dir :=
  dircall { op := .Twstat, fsys := fsys, path := p, d := d }

/-- `Fs.errcall`: one message is drained, and `cerror(c.In)` is sent on `rc` and is its close
reason. -/
def errcall (m : Msg) (c : Call) (cancel : Option (Nat × Option Err)) : Outcome (Option Err) :=
  let rc : Chan (Option Err) := { cancel := cancel }
  match c.refused 0 with
  | some e => ⟨none, rc, some (some e)⟩
  | none =>
    let err := c.recv1.2
    ⟨some m, (rc.send err).1.close err, some err⟩

def remove (fsys p : String) : Call → Option (Nat × Option Err) → Outcome (Option Err) :=
  errcall { op := .Tremove, fsys := fsys, path := p }

def removeAll (fsys p : String) : Call → Option (Nat × Option Err) → Outcome (Option Err) :=
  errcall { op := .Tremoveall, fsys := fsys, path := p }

def move (fsys «from» «to» : String) : Call → Option (Nat × Option Err) → Outcome (Option Err) :=
  errcall { op := .Tmove, fsys := fsys, path := «from», toPath := «to» }

def link (fsys oldp newp : String) : Call → Option (Nat × Option Err) → Outcome (Option Err) :=
  errcall { op := .Tlink, fsys := fsys, path := newp, toPath := oldp }

/-- The loop `for m := range c.In` of a streaming envelope, `n` messages received before: a
message `dec` decodes is forwarded on `rc`, and a refused forward (the reader closed `rc`) closes
`c.In` with `cerror(rc)`; a message `dec` refuses closes `c.In` and `rc` with `ErrBadMsg`. Both
stop the loop: the result then says how many messages were received and the reason given to
`c.In`; it is `none` when the loop ran to the close of `c.In`. -/
def forward {α : Type} (dec : Val → Option α) (n : Nat) :
    List Val → Chan α → Chan α × Option (Nat × Option Err)
  | [], rc => (rc, none)
  | v :: vs, rc =>
    match dec v with
    | none => (rc.close (some .badMsg), some (n + 1, some .badMsg))
    | some x =>
      match rc.send x with
      | (rc, true) => forward dec (n + 1) vs rc
      | (rc, false) => (rc, some (n + 1, rc.cerror))

/-- `cerror(c.In)` after the loop of a streaming envelope: the peer's reason when the loop ran to
the close, and otherwise the first of the peer's close and the envelope's. -/
def Call.cerrorAfter (c : Call) : Option (Nat × Option Err) → Option Err
  | none => c.err
  | some (n, r) => c.closeIn n r

/-- A streaming envelope: the request, `close(c.Out)`, the loop, then
`close(rc, cerror(c.In))`. -/
def stream {α : Type} (dec : Val → Option α) (m : Msg) (c : Call)
    (cancel : Option (Nat × Option Err)) : Outcome α :=
  let rc : Chan α := { cancel := cancel }
  match c.refused 0 with
  | some e => ⟨none, rc, some (some e)⟩
  | none =>
    let r := forward dec 0 c.msgs rc
    ⟨some m, r.1.close (c.cerrorAfter r.2), r.2.map Prod.snd⟩

/-- `m.([]byte)`. -/
def Val.asBytes : Val → Option Bytes
  | .bytes b => some b
  | _ => none

/-- `m.(zx.Dir)`. -/
def Val.asDir : Val → Option Dir
  | .dir d => some d
  | _ => none

def get (fsys p : String) (off count : Int) : Call → Option (Nat × Option Err) → Outcome Bytes :=
  stream Val.asBytes { op := .Tget, fsys := fsys, path := p, off := off, count := count }

def find (fsys p fpred spref dpref : String) (depth0 : Int) :
    Call → Option (Nat × Option Err) → Outcome Dir :=
  stream Val.asDir
    { op := .Tfind, fsys := fsys, path := p, pred := fpred, spref := spref, dpref := dpref,
      depth := depth0 }

/-- `Fs.FindGet` forwards every message whatever its type: its loop has no `ErrBadMsg` branch,
which is the loop of `Get` and `Find` with a decoding that accepts every value. -/
def findGet (fsys p fpred spref dpref : String) (depth0 : Int) :
    Call → Option (Nat × Option Err) → Outcome Val :=
  stream some
    { op := .Tfindget, fsys := fsys, path := p, pred := fpred, spref := spref, dpref := dpref,
      depth := depth0 }

/-! ### `Put` -/

/-- The caller's data channel `dc` of `Put`, as `Put` reads it: the chunks the caller sends,
then the reason it closes `dc` with. -/
structure Feed where
  chunks : List Bytes
  err : Option Err := none

/-- What `Put` leaves: besides an envelope's outcome, the chunks `c.Out` accepted after the
request, the reason `Put` closed `c.Out` with, how far it read the caller's `dc` (the chunks it
took, and whether it reached the caller's close), and the reason it closed `dc` with. -/
structure PutOutcome extends Outcome Dir where
  data : List Bytes
  cout : Option (Option Err)
  taken : Nat
  drained : Bool
  dcClose : Option (Option Err)

/-- `for m := range dc { if ok := c.Out <- m; !ok { ... } }`, `k` sends made on `c.Out` before:
the chunks accepted, and the error of the first refused one. -/
def putData (c : Call) (k : Nat) : List Bytes → List Bytes × Option Err
  | [] => ([], none)
  | b :: bs =>
    match c.refused k with
    | some e => ([], some e)
    | none =>
      let r := putData c (k + 1) bs
      (b :: r.1, r.2)

/-- `Fs.Put`. A nil `dc`, or a directory (`d["type"] == "d"`), is replaced by a closed empty
channel of `Put`'s own (`own = none`): the caller's `dc` is then never read nor closed. -/
def put (fsys p : String) (d : Dir) (off : Int) (dc : Option Feed) (c : Call)
    (cancel : Option (Nat × Option Err)) : PutOutcome :=
  let rc : Chan Dir := { cancel := cancel }
  let m : Msg := { op := .Tput, fsys := fsys, path := p, d := d, off := off }
  let own : Option Feed := if d.get "type" = "d" then none else dc
  let f : Feed := own.getD { chunks := [] }
  match c.refused 0 with
  | some e =>
    { req := none, rc := rc, cin := some (some e), data := [], cout := none, taken := 0,
      drained := false, dcClose := none }
  | none =>
    if d.get "type" = "d" then
      let r := dirReply c rc
      { req := some m, rc := r.1.close r.2, cin := some r.2, data := [], cout := some none,
        taken := 0, drained := false, dcClose := none }
    else
      match putData c 1 f.chunks with
      | (data, some e) =>
        -- a refused chunk: `close(dc, err); close(c.In, err); close(rc, err)`
        { req := some m, rc := rc.close (some e), cin := some (some e), data := data,
          cout := none, taken := data.length + 1, drained := false,
          dcClose := own.map fun _ => some e }
      | (data, none) =>
        match f.err with
        | some e =>
          { req := some m, rc := rc.close (some e), cin := some (some e), data := data,
            cout := some (some e), taken := data.length, drained := own.isSome, dcClose := none }
        | none =>
          let r := dirReply c rc
          { req := some m, rc := r.1.close r.2, cin := some r.2, data := data, cout := some none,
            taken := data.length, drained := own.isSome, dcClose := none }

/-! ### What the caller sees once the request is accepted -/

variable {α : Type}

/-- The single reply of `dircall` and `Put`, by the spec: the entry when no failure has been
seen, the failure when one has, `ErrBadMsg` otherwise. -/
def dirRef (c : Call) : List Dir × Option Err :=
  match c.recv1 with
  | (some (.dir d), none) => ([d], none)
  | (_, some e) => ([], some e)
  | (_, none) => ([], some .badMsg)

/-- A stream by the spec: the longest prefix of `ms` that decodes, then `ErrBadMsg` if a message
of another type follows it, and `e` otherwise. -/
def streamRef (dec : Val → Option α) (ms : List Val) (e : Option Err) : List α × Option Err :=
  ((ms.takeWhile fun v => (dec v).isSome).filterMap dec,
    if ms.all fun v => (dec v).isSome then e else some .badMsg)

theorem close_view (cancel : Option (Nat × Option Err)) (r : Option Err) :
    (({ cancel := cancel } : Chan α).close r).view = seen cancel ([], r) :=
  Chan.feed_view cancel [] r

theorem dirReply_feed (c : Call) (rc : Chan Dir) :
    (dirReply c rc).1.close (dirReply c rc).2 = rc.feed (dirRef c).1 (dirRef c).2 := by
  unfold dirReply dirRef
  rcases c.recv1 with ⟨_ | ⟨d | b | s | t⟩, _ | e⟩ <;> rfl

theorem forward_feed (dec : Val → Option α) (c : Call) :
    ∀ (n : Nat) (ms : List Val) (rc : Chan α),
      (forward dec n ms rc).1.close (c.cerrorAfter (forward dec n ms rc).2) =
        rc.feed (streamRef dec ms c.err).1 (streamRef dec ms c.err).2
  | n, [], rc => by simp [forward, Call.cerrorAfter, streamRef, Chan.feed]
  | n, v :: vs, rc => by
    rcases hv : dec v with _ | x
    · -- a message of another type
      have hcl := @Chan.closed_close α rc (some .badMsg)
      simp [forward, hv, streamRef, Chan.feed, Chan.close_of_closed hcl]
    · rcases hs : rc.send x with ⟨rc', _ | _⟩
      · -- the reader has closed `rc`
        have hcl : rc'.closed ≠ none := by
          simpa [hs] using @Chan.closed_send_false α rc x (by simp [hs])
        simp [forward, hv, hs, streamRef, Chan.feed, Chan.close_of_closed hcl,
          Chan.feed_of_closed hcl]
      · have ih := forward_feed dec c (n + 1) vs rc'
        simp only [forward, hv, hs] at ih ⊢
        rw [ih]
        simp [streamRef, Chan.feed, hv, hs, List.takeWhile_cons_of_pos, List.filterMap_cons_some]

section Accepted

variable {c : Call} (hc : c.refused 0 = none) (cancel : Option (Nat × Option Err))
include hc

theorem dircall_view (m : Msg) : (dircall m c cancel).rc.view = seen cancel (dirRef c) := by
  simp [dircall, hc, dirReply_feed, Chan.feed_view]

theorem errcall_view (m : Msg) :
    (errcall m c cancel).rc.view = seen cancel ([c.recv1.2], c.recv1.2) := by
  simp [errcall, hc, ← Chan.feed_view, Chan.feed]

theorem stream_view (dec : Val → Option α) (m : Msg) :
    (stream dec m c cancel).rc.view = seen cancel (streamRef dec c.msgs c.err) := by
  simp [stream, hc, forward_feed, Chan.feed_view]

end Accepted

/-- The data half of `Put` by `Call.refuse`: every chunk goes out when no send is refused, and
otherwise the chunks before the first refused send. -/
theorem putData_none {c : Call} (hr : c.refuse = none) (k : Nat) (bs : List Bytes) :
    putData c k bs = (bs, none) := by
  induction bs generalizing k with
  | nil => rfl
  | cons b bs ih => simp [putData, Call.refused, hr, ih]

theorem putData_some {c : Call} {n : Nat} {e : Err} (hr : c.refuse = some (n, e)) :
    ∀ (k : Nat) (bs : List Bytes), k ≤ n →
      putData c k bs = if n - k < bs.length then (bs.take (n - k), some e) else (bs, none)
  | k, [], _ => by simp [putData]
  | k, b :: bs, hk => by
    by_cases hn : n ≤ k
    · obtain rfl : k = n := by omega
      simp [putData, Call.refused, hr]
    · have ih := putData_some hr (k + 1) bs (by omega)
      have hsub : n - k = n - (k + 1) + 1 := by omega
      simp only [putData, Call.refused, hr, hn, if_false, ih, List.length_cons]
      split_ifs <;> first | omega | simp [hsub]

/-- `Put` by the spec, once the request is accepted: the chunks of `dc` go out (none for a
directory or a nil `dc`) up to the first refused send, which closes `rc` with its error;
otherwise `c.Out` is closed with `dc`'s close reason, an error there closes `rc` with it, and a
clean end takes the reply as `dircall` does. The chunks sent, the close of `c.Out`, and what is
delivered on `rc` and closes it. -/
def putRef (d : Dir) (dc : Option Feed) (c : Call) :
    List Bytes × Option (Option Err) × (List Dir × Option Err) :=
  let f : Feed := if d.get "type" = "d" then { chunks := [] } else dc.getD { chunks := [] }
  let done : List Bytes × Option (Option Err) × (List Dir × Option Err) :=
    (f.chunks, some f.err, match f.err with | some e => ([], some e) | none => dirRef c)
  match c.refuse with
  | some (n, e) => if n ≤ f.chunks.length then (f.chunks.take (n - 1), none, ([], some e)) else done
  | none => done

theorem put_view {c : Call} (hc : c.refused 0 = none) (cancel : Option (Nat × Option Err))
    (fsys p : String) (d : Dir) (off : Int) (dc : Option Feed) :
    ((put fsys p d off dc c cancel).data, (put fsys p d off dc c cancel).cout,
      (put fsys p d off dc c cancel).rc.view) =
      ((putRef d dc c).1, (putRef d dc c).2.1, seen cancel (putRef d dc c).2.2) := by
  by_cases ht : d.get "type" = "d"
  · rcases hr : c.refuse with _ | ⟨n, e⟩
    · simp [put, putRef, ht, hc, hr, dirReply_feed, Chan.feed_view]
    · have hn : 0 < n := by simp [Call.refused, hr] at hc; omega
      simp [put, putRef, ht, hc, hr, dirReply_feed, Chan.feed_view, Nat.not_le.mpr hn]
  · rcases hr : c.refuse with _ | ⟨n, e⟩
    · rcases dc with _ | ⟨ch, _ | e'⟩ <;>
        simp [put, putRef, ht, hc, hr, putData_none hr, dirReply_feed, Chan.feed_view, close_view]
    · have hn : 0 < n := by simp [Call.refused, hr] at hc; omega
      rcases dc with _ | ⟨ch, er⟩
      · simp [put, putRef, ht, hc, hr, putData, dirReply_feed, Chan.feed_view, Nat.not_le.mpr hn]
      · have hd := putData_some hr 1 ch hn
        by_cases hl : n ≤ ch.length
        · have : n - 1 < ch.length := by omega
          simp [put, putRef, ht, hc, hr, hd, this, hl, close_view]
        · have : ¬ n - 1 < ch.length := by omega
          rcases er with _ | e' <;>
            simp [put, putRef, ht, hc, hr, hd, this, hl, dirReply_feed, Chan.feed_view, close_view]

/-- FindGet's stream by the spec: every message, then the close reason of `c.In`. -/
theorem streamRef_some (ms : List Val) (e : Option Err) : streamRef some ms e = (ms, e) := by
  simp [streamRef]

/-- **The envelopes against the spec.** Once the request is accepted, what the caller of an
envelope reads on `rc`, and the reason it finds `rc` closed with, are those of `seen`: the
single-reply envelopes deliver their reply as the spec says, with the close of `c.In` as the
client has seen it right after the one receive; `Get`, `Find` and `FindGet` deliver the longest
prefix of the messages that decodes, then `ErrBadMsg` or the close reason of `c.In`; `Put`
sends `dc`'s chunks and closes `c.Out` as `putRef` says. -/
theorem envelope_reference {c : Call} (hc : c.refused 0 = none)
    (cancel : Option (Nat × Option Err)) :
    (∀ m, (dircall m c cancel).rc.view = seen cancel (dirRef c)) ∧
    (∀ m, (errcall m c cancel).rc.view = seen cancel ([c.recv1.2], c.recv1.2)) ∧
    (∀ fsys p off count,
      (get fsys p off count c cancel).rc.view = seen cancel (streamRef Val.asBytes c.msgs c.err)) ∧
    (∀ fsys p fpred spref dpref depth0, (find fsys p fpred spref dpref depth0 c cancel).rc.view =
      seen cancel (streamRef Val.asDir c.msgs c.err)) ∧
    (∀ fsys p fpred spref dpref depth0,
      (findGet fsys p fpred spref dpref depth0 c cancel).rc.view = seen cancel (c.msgs, c.err)) ∧
    (∀ fsys p d off dc,
      ((put fsys p d off dc c cancel).data, (put fsys p d off dc c cancel).cout,
        (put fsys p d off dc c cancel).rc.view) =
      ((putRef d dc c).1, (putRef d dc c).2.1, seen cancel (putRef d dc c).2.2)) :=
  ⟨dircall_view hc cancel, errcall_view hc cancel,
    fun _ _ _ _ => stream_view hc cancel _ _, fun _ _ _ _ _ _ => stream_view hc cancel _ _,
    fun _ _ _ _ _ _ => (stream_view hc cancel _ _).trans (by rw [streamRef_some]),
    put_view hc cancel⟩

/-- A `Get` whose stream carries a string after a chunk delivers the chunk and closes with
`ErrBadMsg`. -/
theorem get_stops_at_string :
    (get "main" "/f" 0 (-1) { msgs := [.bytes [1], .str "x"] } none).rc.view =
      ([[1]], some (some .badMsg)) :=
  (envelope_reference (show Call.refused { msgs := [.bytes [1], .str "x"] } 0 = none from rfl)
    none).2.2.1 "main" "/f" 0 (-1)

/-- The same reply, an entry and then a close with an error, reported as the error when the
close has reached the client at the check, and as the entry with no error when it has not. -/
theorem dircall_reports_close_late :
    (dircall { op := .Tstat } { msgs := [.dir []], err := some (.text "i/o error") } none).rc.view =
        ([], some (some (.text "i/o error"))) ∧
      (dircall { op := .Tstat } { msgs := [.dir []], err := some (.text "i/o error"), shut := 2 }
        none).rc.view = ([[]], some none) :=
  ⟨rfl, rfl⟩

/-! ### A refused request -/

/-- **A refused request leaves `rc` open.** When the mux refuses the request send, every
envelope closes `c.In` and returns without closing `rc`, so a caller that reads `rc` to its end
waits forever, and `Put` neither reads nor closes the caller's `dc`. `Put` of a directory never
reads nor closes the caller's `dc`, whatever the call does. -/
theorem envelope_leaves_rc_open :
    (∀ c : Call, c.refused 0 ≠ none →
      (∀ m, (dircall m c none).rc.closed = none) ∧
      (∀ m, (errcall m c none).rc.closed = none) ∧
      (∀ (α : Type) (dec : Val → Option α) m, (stream dec m c none).rc.closed = none) ∧
      (∀ fsys p d off dc, (put fsys p d off dc c none).rc.closed = none ∧
        (put fsys p d off dc c none).taken = 0 ∧ (put fsys p d off dc c none).dcClose = none)) ∧
    (∀ fsys p d off f c cancel, d.get "type" = "d" →
      (put fsys p d off (some f) c cancel).taken = 0 ∧
      (put fsys p d off (some f) c cancel).drained = false ∧
      (put fsys p d off (some f) c cancel).dcClose = none) := by
  refine ⟨fun c hc => ?_, fun fsys p d off f c cancel ht => ?_⟩
  · obtain ⟨e, he⟩ := Option.ne_none_iff_exists'.mp hc
    simp [dircall, errcall, stream, put, he]
  · rcases hr : c.refused 0 with _ | e <;> simp [put, ht, hr]

/-- `Stat` on a torn-down mux: the caller's `rc` is never closed. -/
theorem refused_stat_leaves_rc_open :
    (stat "main" "/f" { refuse := some (0, .text "i/o error") } none).rc.closed = none :=
  (envelope_leaves_rc_open.1 { refuse := some (0, .text "i/o error") } (by decide)).1 _

end Rzx
