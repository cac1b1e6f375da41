import Clive.Rzx.Basic
import Mathlib.Data.List.Nodup

/-!
# The editor list of `ix`

`ix` keeps its open windows in `ix.eds`, in the order they were opened, and one command window
as `ix.msgs`, where its messages go. Windows are editors (`*Ed`): `newCmds` opens a command
window, `newEdit` an edit window, `delEd` takes an editor out when its window quits (and moves
`ix.msgs` to another command window), and `reopen` brings a quit editor back when a command
still running in it prints. Each runs under `ix`'s lock, so `ix` is a state machine over these
operations, together with `addCmd` and `delCmd` (an editor's count of running commands) and the
event loop's `focus` (`ix.dot`).

Editors are numbered in the order `newEd` makes them, and an operation names an editor that
exists: a `*Ed` is never forged.

## The invariant

`IxInv`: `ix.eds` has no editor twice; an editor is in `ix.eds` exactly when its `gone` flag is
false; and `ix.msgs` is nil or a command editor in `ix.eds`. Each operation keeps it (one lemma
each, in namespace `IxInv`), so every reachable state has it (`ix_eds_invariant`). What it rests
on: `delEd` finds the new `ix.msgs` among the editors it keeps, and `reopen` appends only an
editor that is gone, which the invariant puts outside `ix.eds`.
-/

namespace Ix

open Rzx (setAt Dir)

/-- An editor (`*Ed`), with the fields the editor list operations read and write. -/
structure Ed where
  /-- A command window. -/
  iscmd : Bool := false
  /-- Its window has quit, and it has not been reopened since. -/
  gone : Bool := false
  /-- The commands running in it. -/
  ncmds : Int := 0
  deriving DecidableEq, Repr

/-- The editor state of `ix` (`*IX`). -/
structure IX where
  /-- `ix.eds`: the open editors, by number. -/
  eds : List Nat := []
  /-- The editors made so far, by number. -/
  ed : Nat → Ed := fun _ => {}
  /-- How many editors `newEd` has made. -/
  ned : Nat := 0
  /-- `ix.msgs`: the command window messages go to. -/
  msgs : Option Nat := none
  /-- `ix.dot`: the editor with the focus. -/
  dot : Option Nat := none

namespace IX

variable (s : IX)

/-- `ix.newEd`, appended to `ix.eds`: editor `s.ned`. -/
def add (e : Ed) : IX :=
  { s with eds := s.eds ++ [s.ned], ed := setAt s.ed s.ned e, ned := s.ned + 1 }

/-- `ix.newCmds(dir, tag)`, where `cmd.Stat(dir)` returned `st`: a command window, when `dir` is
a directory; it becomes `ix.msgs` when there is none. -/
def newCmds (st : Option Dir) : IX × Option Nat :=
  match st with
  | none => (s, none)
  | some d =>
    if d.get "type" = "d" then
      ({ s.add { iscmd := true } with msgs := if s.msgs = none then some s.ned else s.msgs },
        some s.ned)
    else (s, none)

/-- `ix.newEdit(path)`. -/
def newEdit : IX × Nat :=
  (s.add {}, s.ned)

/-- The loop of `delEd` that picks the new `ix.msgs`: the last command editor of `eds` other
than `e`. -/
def lastCmd (e : Nat) (eds : List Nat) : Option Nat :=
  eds.foldl (fun m x => if x ≠ e ∧ (s.ed x).iscmd = true then some x else m) none

/-- `ix.delEd(ed)`: `ed` is gone, loses the focus and `ix.msgs`, and leaves `ix.eds`; it returns
`ed.ncmds`. -/
def delEd (e : Nat) : IX × Int :=
  ({ s with
      ed := setAt s.ed e { s.ed e with gone := true },
      dot := if s.dot = some e then none else s.dot,
      msgs := if s.msgs = some e then s.lastCmd e s.eds else s.msgs,
      eds := s.eds.erase e },
    (s.ed e).ncmds)

/-- `ix.reopen(ed)`: a gone editor is back, and back in `ix.eds` unless it is there. -/
def reopen (e : Nat) : IX :=
  if (s.ed e).gone = true then
    let s' := { s with ed := setAt s.ed e { s.ed e with gone := false } }
    if e ∈ s.eds then s' else { s' with eds := s.eds ++ [e] }
  else s

/-- `ix.addCmd(c)`, for a command of editor `e`. -/
def addCmd (e : Nat) : IX :=
  { s with ed := setAt s.ed e { s.ed e with ncmds := (s.ed e).ncmds + 1 } }

/-- `ix.delCmd(c)`, for a command of editor `e`: it returns the commands left. -/
def delCmd (e : Nat) : IX × Int :=
  ({ s with ed := setAt s.ed e { s.ed e with ncmds := (s.ed e).ncmds - 1 } },
    (s.ed e).ncmds - 1)

/-- The event loop's `focus`: `ed.ix.dot = ed`. -/
def focus (e : Nat) : IX :=
  { s with dot := some e }

end IX

/-- An operation on `ix`, each under its lock. -/
inductive Op where
  | newCmds (st : Option Dir)
  | newEdit
  | delEd (e : Nat)
  | reopen (e : Nat)
  | addCmd (e : Nat)
  | delCmd (e : Nat)
  | focus (e : Nat)

/-- One operation; `none` when it names an editor `newEd` has not made. -/
def IX.apply (s : IX) : Op → Option IX
  | .newCmds st => some (s.newCmds st).1
  | .newEdit => some s.newEdit.1
  | .delEd e => if e < s.ned then some (s.delEd e).1 else none
  | .reopen e => if e < s.ned then some (s.reopen e) else none
  | .addCmd e => if e < s.ned then some (s.addCmd e) else none
  | .delCmd e => if e < s.ned then some (s.delCmd e).1 else none
  | .focus e => if e < s.ned then some (s.focus e) else none

def Step (s s' : IX) : Prop :=
  ∃ op, s.apply op = some s'

/-- The states a sequence of operations reaches from an `ix` with no window. -/
def Reachable (s : IX) : Prop :=
  Relation.ReflTransGen Step {} s

/-- Run a sequence of operations. -/
def IX.exec (s : IX) : List Op → Option IX
  | [] => some s
  | op :: ops => (s.apply op).bind fun s' => s'.exec ops

theorem IX.steps_of_exec {s s' : IX} : ∀ {ops}, s.exec ops = some s' →
    Relation.ReflTransGen Step s s'
  | [], h => by cases h; exact .refl
  | op :: ops, h => by
    obtain ⟨s₁, h₁, h₂⟩ := Option.bind_eq_some.mp h
    exact .head ⟨op, h₁⟩ (IX.steps_of_exec h₂)

/-- The state a sequence of operations ends in, from an `ix` with no window. -/
def IX.run (ops : List Op) : IX :=
  (({} : IX).exec ops).getD {}

theorem Reachable.run {ops : List Op} (h : (({} : IX).exec ops).isSome) :
    Reachable (IX.run ops) := by
  obtain ⟨s', hs'⟩ := Option.isSome_iff_exists.mp h
  unfold IX.run
  rw [hs']
  exact IX.steps_of_exec hs'

/-! ### The invariant -/

/-- **The editor list is well formed.** -/
structure IxInv (s : IX) : Prop where
  /-- No editor is in `ix.eds` twice. -/
  nodup : s.eds.Nodup
  /-- `ix.eds` holds editors `newEd` made. -/
  made : ∀ e ∈ s.eds, e < s.ned
  /-- An editor is in `ix.eds` exactly when it is not gone. -/
  live : ∀ e < s.ned, e ∈ s.eds ↔ (s.ed e).gone = false
  /-- `ix.msgs` is a command editor in `ix.eds`. -/
  msgs : ∀ e, s.msgs = some e → (s.ed e).iscmd = true ∧ e ∈ s.eds

theorem IX.foldl_pick (s : IX) (e x : Nat) : ∀ (eds : List Nat) (acc : Option Nat),
    eds.foldl (fun m y => if y ≠ e ∧ (s.ed y).iscmd = true then some y else m) acc = some x →
      acc = some x ∨ x ∈ eds ∧ x ≠ e ∧ (s.ed x).iscmd = true
  | [], _, h => .inl h
  | y :: ys, acc, h => by
    rcases IX.foldl_pick s e x ys _ h with hy | hys
    · dsimp only at hy
      split_ifs at hy with hc
      · cases hy
        exact .inr ⟨List.mem_cons_self _ _, hc⟩
      · exact .inl hy
    · exact .inr ⟨List.mem_cons_of_mem y hys.1, hys.2⟩

/-- `delEd`'s pick is a command editor of the list, other than the one leaving. -/
theorem IX.lastCmd_spec (s : IX) {e x : Nat} {eds : List Nat} (h : s.lastCmd e eds = some x) :
    x ∈ eds ∧ x ≠ e ∧ (s.ed x).iscmd = true :=
  (IX.foldl_pick s e x eds none h).resolve_left (by simp)

namespace IxInv

variable {s s' : IX}

theorem init : IxInv {} :=
  ⟨List.nodup_nil, fun _ h => absurd h (List.not_mem_nil _),
    fun _ h => absurd h (Nat.not_lt_zero _),
    fun _ h => Option.noConfusion h⟩

/-- An operation that changes no editor's `gone` or `iscmd` keeps the invariant. -/
theorem of_ed (h : IxInv s) {f : Nat → Ed} (hg : ∀ x, (f x).gone = (s.ed x).gone)
    (hc : ∀ x, (f x).iscmd = (s.ed x).iscmd) : IxInv { s with ed := f } :=
  ⟨h.nodup, h.made, fun x hx => by simpa [hg x] using h.live x hx,
    fun x hx => by simpa [hc x] using h.msgs x hx⟩

/-- A new editor, not gone, at the end of `ix.eds`. -/
theorem add (h : IxInv s) {e : Ed} (he : e.gone = false) : IxInv (s.add e) := by
  have hnew : s.ned ∉ s.eds := fun hm => lt_irrefl _ (h.made _ hm)
  refine ⟨?_, fun x hx => ?_, fun x hx => ?_, fun x hx => ?_⟩
  · simpa [IX.add, List.nodup_append, h.nodup] using hnew
  · rcases List.mem_append.mp hx with hx | hx
    · exact Nat.lt_succ_of_lt (h.made x hx)
    · simp_all [IX.add]
  · by_cases hxn : x = s.ned
    · subst hxn
      simp [IX.add, he]
    · have hx' : x < s.ned := by simp [IX.add] at hx; omega
      simpa [IX.add, hxn] using h.live x hx'
  · obtain ⟨hc, hm⟩ := h.msgs x hx
    have hxn : x ≠ s.ned := fun hxn => hnew (hxn ▸ hm)
    exact ⟨by simpa [IX.add, hxn] using hc, List.mem_append_left _ hm⟩

theorem newCmds (h : IxInv s) (st : Option Dir) : IxInv (s.newCmds st).1 := by
  rcases st with _ | d
  · exact h
  · by_cases ht : d.get "type" = "d"
    · have ha : IxInv (s.add { iscmd := true }) := h.add rfl
      simp only [IX.newCmds, ht, if_true]
      refine ⟨ha.nodup, ha.made, ha.live, fun x hx => ?_⟩
      by_cases hm : s.msgs = none
      · -- the new command window takes `ix.msgs`
        simp only [hm, if_true, Option.some.injEq] at hx
        subst hx
        simp [IX.add]
      · simp only [hm, if_false] at hx
        exact ha.msgs x hx
    · simpa [IX.newCmds, ht] using h

theorem newEdit (h : IxInv s) : IxInv s.newEdit.1 :=
  h.add rfl

/-- `delEd`: the editor leaves `ix.eds` once, is gone, and `ix.msgs` moves to an editor that
stays. -/
theorem delEd (h : IxInv s) (e : Nat) : IxInv (s.delEd e).1 := by
  refine ⟨h.nodup.erase e, fun x hx => h.made x (List.mem_of_mem_erase hx), fun x hx => ?_,
    fun x hx => ?_⟩
  · by_cases hxe : x = e
    · subst hxe
      simp [IX.delEd, h.nodup.not_mem_erase]
    · simpa [IX.delEd, List.mem_erase_of_ne hxe, hxe] using h.live x hx
  · simp only [IX.delEd] at hx ⊢
    split_ifs at hx with hm
    · obtain ⟨hmem, hxe, hc⟩ := s.lastCmd_spec hx
      exact ⟨by simpa [hxe] using hc, (List.mem_erase_of_ne hxe).mpr hmem⟩
    · have hxe : x ≠ e := fun hxe => hm (hxe ▸ hx)
      obtain ⟨hc, hmem⟩ := h.msgs x hx
      exact ⟨by simpa [hxe] using hc, (List.mem_erase_of_ne hxe).mpr hmem⟩

/-- `reopen`: a gone editor is outside `ix.eds`, so it is appended once. -/
theorem reopen (h : IxInv s) {e : Nat} (he : e < s.ned) : IxInv (s.reopen e) := by
  unfold IX.reopen
  split_ifs with hg hm
  · exact absurd ((h.live e he).mp hm) (by simp [hg])
  · have hc : ∀ x, (setAt s.ed e { s.ed e with gone := false } x).iscmd = (s.ed x).iscmd := by
      intro x; by_cases hxe : x = e <;> simp [hxe]
    refine ⟨?_, fun x hx => ?_, fun x hx => ?_, fun x hx => ?_⟩
    · simpa [List.nodup_append, h.nodup] using hm
    · rcases List.mem_append.mp hx with hx | hx
      · exact h.made x hx
      · simp_all
    · by_cases hxe : x = e
      · subst hxe
        simp
      · simpa [hxe] using h.live x hx
    · obtain ⟨hc', hmem⟩ := h.msgs x hx
      exact ⟨by rw [hc]; exact hc', List.mem_append_left _ hmem⟩
  · exact h

theorem step (h : IxInv s) {op : Op} (hs : s.apply op = some s') : IxInv s' := by
  cases op with
  | newCmds st => cases hs; exact h.newCmds st
  | newEdit => cases hs; exact h.newEdit
  | delEd e =>
    simp only [IX.apply] at hs
    split_ifs at hs; cases hs; exact h.delEd e
  | reopen e =>
    simp only [IX.apply] at hs
    split_ifs at hs with he; cases hs; exact h.reopen he
  | addCmd e =>
    simp only [IX.apply] at hs
    split_ifs at hs with he
    cases hs
    exact h.of_ed (fun x => by by_cases hxe : x = e <;> simp [hxe])
      (fun x => by by_cases hxe : x = e <;> simp [hxe])
  | delCmd e =>
    simp only [IX.apply] at hs
    split_ifs at hs with he
    cases hs
    exact h.of_ed (fun x => by by_cases hxe : x = e <;> simp [hxe])
      (fun x => by by_cases hxe : x = e <;> simp [hxe])
  | focus e =>
    simp only [IX.apply] at hs
    split_ifs at hs; cases hs; exact ⟨h.nodup, h.made, h.live, h.msgs⟩

end IxInv

theorem Reachable.ixInv {s : IX} (hs : Reachable s) : IxInv s := by
  induction hs with
  | refl => exact IxInv.init
  | tail _ hst ih =>
    obtain ⟨op, h⟩ := hst
    exact ih.step h

/-- **The editor list of `ix`.** After any sequence of `ix` operations, `ix.eds` holds no editor
twice; an editor `newCmds` or `newEdit` made is in `ix.eds` exactly when it is not gone; and
`ix.msgs` is nil or a command editor in `ix.eds`. -/
theorem ix_eds_invariant {s : IX} (hs : Reachable s) :
    s.eds.Nodup ∧ (∀ e < s.ned, e ∈ s.eds ↔ (s.ed e).gone = false) ∧
      (s.msgs = none ∨ ∃ e, s.msgs = some e ∧ (s.ed e).iscmd = true ∧ e ∈ s.eds) := by
  have h := hs.ixInv
  refine ⟨h.nodup, h.live, ?_⟩
  rcases hm : s.msgs with _ | e
  · exact .inl rfl
  · exact .inr ⟨e, rfl, h.msgs e hm⟩

/-- Two command windows and an edit window; the first command window quits, taking `ix.msgs`
to the second, and is reopened. -/
def session : List Op :=
  [.newCmds (some [("type", "d")]), .newEdit, .newCmds (some [("type", "d")]), .delEd 0,
    .reopen 0]

theorem session_invariant :
    (IX.run session).eds.Nodup ∧
      (∀ e < (IX.run session).ned,
        e ∈ (IX.run session).eds ↔ ((IX.run session).ed e).gone = false) ∧
      ((IX.run session).msgs = none ∨ ∃ e, (IX.run session).msgs = some e ∧
        ((IX.run session).ed e).iscmd = true ∧ e ∈ (IX.run session).eds) :=
  ix_eds_invariant (Reachable.run (by decide))

end Ix
