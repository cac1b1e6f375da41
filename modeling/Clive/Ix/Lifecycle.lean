import Clive.Ix.Editors

/-!
# The editors' goroutines in `ix`

Each editor runs in a context of its own. `newCmds` and `newEdit` start, with `cmd.New`, a
goroutine that runs the editor's event loop `editLoop` and then waits on `ed.waitc` for more
event loops: `reopen` sends one there when a command still running in the editor prints after
the window quit. The event loop ends when the window quits (or its events end): it takes the
editor out of `ix.eds` with `delEd`, and closes `ed.waitc` when `delEd` reports no running
commands (`ed.ncmds == 0`), which ends the goroutine's `range ed.waitc`. `reopen` sends on
`ed.waitc` without asking whether it is closed, and a send on a closed channel delivers
nothing, so a window reopened after that is back in `ix.eds` with no event loop.

`Life` is `IX` together with where each editor's goroutine is (`Loop`) and whether its
`ed.waitc` is closed. The end of an event loop is one step: from `delEd` the goroutine reaches
its `range ed.waitc` without touching `ix`, and `reopen`'s send waits for it there. A command's
own end (`Cmd.io`, which calls `delCmd`) is not in this code; `delCmd` is an operation here.

## Main results

* `Life.Step.ix`: every step of `Life` is a step of the editor list machine `IX`, so its
  invariant `IxInv` holds along every run;
* `editor_loop_iff`: in every reachable state, an editor runs its event loop exactly when it is
  in `ix.eds` with `ed.waitc` open, and its goroutine has ended exactly when `ed.waitc` is closed;
* `idle_quit_ends_loop`: an editor whose window quits with no command counted never runs its
  event loop again, whatever follows, and `reopen` puts it back in `ix.eds` without one.
-/

namespace Ix

open Rzx (setAt Dir)

/-- Where an editor's goroutine (the function `cmd.New` runs for it) is. -/
inductive Loop where
  /-- Running `ed.editLoop()`, reading its window's events. -/
  | editing
  /-- In `for fn := range ed.waitc`, waiting for an event loop from `reopen`. -/
  | waiting
  /-- Out of that loop: `ed.waitc` was closed. -/
  | ended
  deriving DecidableEq, Repr

/-- `ix` with its editors' goroutines. -/
structure Life where
  /-- The editor list. -/
  ix : IX := {}
  /-- Where each editor's goroutine is. -/
  loop : Nat → Loop := fun _ => .editing
  /-- `ed.waitc` has been closed. -/
  closed : Nat → Bool := fun _ => false

/-- `newCmds` makes a command editor, numbered `s.ned`, or changes nothing. -/
theorem IX.newCmds_eq (s : IX) (st : Option Dir) :
    s.newCmds st = (s, none) ∨
      s.newCmds st = ({ s.add { iscmd := true } with
        msgs := if s.msgs = none then some s.ned else s.msgs }, some s.ned) := by
  unfold IX.newCmds
  rcases st with _ | d
  · exact .inl rfl
  · by_cases ht : d.get "type" = "d" <;> simp [ht]

/-- After `reopen`, the editor is not gone. -/
theorem IX.reopen_gone (s : IX) (e : Nat) : ((s.reopen e).ed e).gone = false := by
  unfold IX.reopen; split_ifs with hgone <;> simp_all

namespace Life

variable (s : Life)

/-- The editor list is `ix`, and editor `e`, new, starts its event loop with `ed.waitc` open. -/
def start (ix : IX) (e : Nat) : Life :=
  { ix, loop := setAt s.loop e .editing, closed := setAt s.closed e false }

/-- `ix.newCmds(dir, tag)`, where `cmd.Stat(dir)` returned `st`. -/
def newCmds (st : Option Dir) : Life :=
  match s.ix.newCmds st with
  | (ix, some e) => s.start ix e
  | (ix, none) => { s with ix }

/-- `ix.newEdit(path)`. -/
def newEdit : Life :=
  s.start s.ix.newEdit.1 s.ix.newEdit.2

/-- The end of editor `e`'s event loop, at its window's `quit` or the end of its events:
`n := ed.ix.delEd(ed)`, `close(ed.waitc)` when `n == 0`, and the goroutine on to
`range ed.waitc`, which ends when `ed.waitc` is closed. -/
def quit (e : Nat) : Life :=
  let closed := if (s.ix.delEd e).2 = 0 then setAt s.closed e true else s.closed
  { ix := (s.ix.delEd e).1, closed,
    loop := setAt s.loop e (if closed e = true then .ended else .waiting) }

/-- `ix.reopen(ed)` for editor `e`. When the editor is gone and not in `ix.eds`, `reopen` sends
`ed.editLoop` on `ed.waitc`: the goroutine waiting there runs it, unless `ed.waitc` is closed,
where the send delivers nothing. -/
def reopen (e : Nat) : Life :=
  if (s.ix.ed e).gone = true ∧ e ∉ s.ix.eds ∧ s.closed e = false then
    { s with ix := s.ix.reopen e, loop := setAt s.loop e .editing }
  else { s with ix := s.ix.reopen e }

end Life

/-- An operation: one of `ix`'s, under its lock, or the end of an editor's event loop. -/
inductive LifeOp where
  | newCmds (st : Option Dir)
  | newEdit
  /-- Editor `e`'s window quits, or its events end. -/
  | quit (e : Nat)
  /-- A command of editor `e` prints after its window quit. -/
  | reopen (e : Nat)
  | addCmd (e : Nat)
  | delCmd (e : Nat)
  /-- Editor `e`'s event loop reads `focus`. -/
  | focus (e : Nat)

namespace Life

/-- One operation; `none` when it names an editor `newEd` has not made, or is an event of an
editor whose event loop is not running. -/
def apply (s : Life) : LifeOp → Option Life
  | .newCmds st => some (s.newCmds st)
  | .newEdit => some s.newEdit
  | .quit e => if e < s.ix.ned ∧ s.loop e = .editing then some (s.quit e) else none
  | .reopen e => if e < s.ix.ned then some (s.reopen e) else none
  | .addCmd e => if e < s.ix.ned then some { s with ix := s.ix.addCmd e } else none
  | .delCmd e => if e < s.ix.ned then some { s with ix := (s.ix.delCmd e).1 } else none
  | .focus e =>
    if e < s.ix.ned ∧ s.loop e = .editing then some { s with ix := s.ix.focus e } else none

def Step (s s' : Life) : Prop :=
  ∃ op, s.apply op = some s'

/-- The states a sequence of operations reaches from an `ix` with no window. -/
def Reachable (s : Life) : Prop :=
  Relation.ReflTransGen Step {} s

/-- Run a sequence of operations. -/
def exec (s : Life) : List LifeOp → Option Life
  | [] => some s
  | op :: ops => (s.apply op).bind fun s' => s'.exec ops

theorem steps_of_exec {s s' : Life} : ∀ {ops}, s.exec ops = some s' →
    Relation.ReflTransGen Step s s'
  | [], h => by cases h; exact .refl
  | op :: ops, h => by
    obtain ⟨s₁, h₁, h₂⟩ := Option.bind_eq_some.mp h
    exact .head ⟨op, h₁⟩ (steps_of_exec h₂)

/-- The state a sequence of operations ends in, from an `ix` with no window. -/
def run (ops : List LifeOp) : Life :=
  (({} : Life).exec ops).getD {}

theorem Reachable.run {ops : List LifeOp} (h : (({} : Life).exec ops).isSome) :
    (Life.run ops).Reachable := by
  obtain ⟨s', hs'⟩ := Option.isSome_iff_exists.mp h
  unfold Life.run
  rw [hs']
  exact steps_of_exec hs'

/-! ### `Life` refines `IX` -/

theorem newCmds_ix (s : Life) (st : Option Dir) : (s.newCmds st).ix = (s.ix.newCmds st).1 := by
  unfold newCmds
  rcases s.ix.newCmds st with ⟨ix, _ | e⟩ <;> rfl

theorem reopen_ix (s : Life) (e : Nat) : (s.reopen e).ix = s.ix.reopen e := by
  unfold reopen; split_ifs <;> rfl

/-- **Every step of `Life` is a step of `IX`**: the end of an event loop is `delEd`. -/
theorem Step.ix {s s' : Life} (h : Step s s') : Ix.Step s.ix s'.ix := by
  obtain ⟨op, h⟩ := h
  cases op with
  | newCmds st => cases h; exact ⟨.newCmds st, by rw [newCmds_ix]; rfl⟩
  | newEdit => cases h; exact ⟨.newEdit, rfl⟩
  | quit e =>
    obtain ⟨he, ⟨⟩⟩ := Option.ite_none_right_eq_some.mp h
    exact ⟨.delEd e, if_pos he.1⟩
  | reopen e =>
    obtain ⟨he, ⟨⟩⟩ := Option.ite_none_right_eq_some.mp h
    exact ⟨.reopen e, by rw [reopen_ix]; exact if_pos he⟩
  | addCmd e =>
    obtain ⟨he, ⟨⟩⟩ := Option.ite_none_right_eq_some.mp h
    exact ⟨.addCmd e, if_pos he⟩
  | delCmd e =>
    obtain ⟨he, ⟨⟩⟩ := Option.ite_none_right_eq_some.mp h
    exact ⟨.delCmd e, if_pos he⟩
  | focus e =>
    obtain ⟨he, ⟨⟩⟩ := Option.ite_none_right_eq_some.mp h
    exact ⟨.focus e, if_pos he.1⟩

theorem Reachable.ix {s : Life} (hs : s.Reachable) : Ix.Reachable s.ix := by
  induction hs with
  | refl => exact .refl
  | tail _ hst ih => exact ih.tail hst.ix

end Life

/-! ### The invariant -/

/-- **The editors' goroutines follow their windows.** -/
structure LifeInv (s : Life) : Prop where
  /-- The editor list is well formed. -/
  ix : IxInv s.ix
  /-- An editor runs its event loop exactly when it is not gone and `ed.waitc` is open. -/
  editing : ∀ e < s.ix.ned, s.loop e = .editing ↔ (s.ix.ed e).gone = false ∧ s.closed e = false
  /-- An editor's goroutine has ended exactly when `ed.waitc` is closed. -/
  ended : ∀ e < s.ix.ned, s.loop e = .ended ↔ s.closed e = true

namespace LifeInv

variable {s s' : Life}

theorem init : LifeInv {} :=
  ⟨IxInv.init, fun _ h => absurd h (Nat.not_lt_zero _), fun _ h => absurd h (Nat.not_lt_zero _)⟩

/-- An operation on editor `e` alone keeps the invariant when, afterwards, it holds at `e`
and `IxInv` holds. -/
theorem update (h : LifeInv s) (e : Nat) (hix : IxInv s'.ix) (hn : s'.ix.ned = s.ix.ned)
    (hg : ∀ x, x ≠ e → (s'.ix.ed x).gone = (s.ix.ed x).gone)
    (hl : ∀ x, x ≠ e → s'.loop x = s.loop x) (hc : ∀ x, x ≠ e → s'.closed x = s.closed x)
    (he₁ : s'.loop e = .editing ↔ (s'.ix.ed e).gone = false ∧ s'.closed e = false)
    (he₂ : s'.loop e = .ended ↔ s'.closed e = true) : LifeInv s' := by
  refine ⟨hix, fun x hx => ?_, fun x hx => ?_⟩ <;> rw [hn] at hx <;>
    by_cases hxe : x = e
  · exact hxe ▸ he₁
  · rw [hl x hxe, hg x hxe, hc x hxe]; exact h.editing x hx
  · exact hxe ▸ he₂
  · rw [hl x hxe, hc x hxe]; exact h.ended x hx

/-- A new editor, numbered `s.ix.ned`, that is not gone. -/
theorem start (h : LifeInv s) {ix : IX} (hix : IxInv ix) (hn : ix.ned = s.ix.ned + 1)
    (hg : ∀ x, x ≠ s.ix.ned → (ix.ed x).gone = (s.ix.ed x).gone)
    (hnew : (ix.ed s.ix.ned).gone = false) : LifeInv (s.start ix s.ix.ned) := by
  refine ⟨hix, fun x hx => ?_, fun x hx => ?_⟩ <;> simp only [Life.start] at hx ⊢ <;>
    by_cases hxn : x = s.ix.ned
  · subst hxn; simp [hnew]
  · rw [Rzx.setAt_noteq hxn, Rzx.setAt_noteq hxn, hg x hxn]; exact h.editing x (by omega)
  · subst hxn; simp
  · rw [Rzx.setAt_noteq hxn, Rzx.setAt_noteq hxn]; exact h.ended x (by omega)

theorem newCmds (h : LifeInv s) (st : Option Dir) : LifeInv (s.newCmds st) := by
  have hix : IxInv (s.ix.newCmds st).1 := h.ix.newCmds st
  rcases IX.newCmds_eq s.ix st with hs | hs <;> rw [hs] at hix <;> simp only [Life.newCmds, hs]
  · exact h
  · exact h.start hix rfl (fun x hx => by simp [IX.add, hx]) (by simp [IX.add])

theorem newEdit (h : LifeInv s) : LifeInv s.newEdit :=
  h.start (h.ix.newEdit) rfl (fun x hx => by simp [IX.newEdit, IX.add, hx])
    (by simp [IX.newEdit, IX.add])

/-- The end of a running event loop: the editor is gone, and its goroutine waits or, with
`ed.waitc` closed, ends. -/
theorem quit (h : LifeInv s) {e : Nat} (he : e < s.ix.ned) (hl : s.loop e = .editing) :
    LifeInv (s.quit e) := by
  have hopen : s.closed e = false := ((h.editing e he).mp hl).2
  refine h.update e (h.ix.delEd e) rfl (fun x hx => by simp [Life.quit, IX.delEd, hx])
    (fun x hx => by simp [Life.quit, hx]) (fun x hx => ?_) ?_ ?_
  · simp only [Life.quit]; split_ifs <;> simp [hx]
  all_goals simp only [Life.quit, IX.delEd]; split_ifs <;> simp_all

/-- `reopen`: a gone editor whose `ed.waitc` is open gets its event loop back; one whose
`ed.waitc` is closed is back in `ix.eds`, and its goroutine stays ended. -/
theorem reopen (h : LifeInv s) {e : Nat} (he : e < s.ix.ned) : LifeInv (s.reopen e) := by
  have hge := s.ix.reopen_gone e
  have hg : ∀ x, x ≠ e → ((s.reopen e).ix.ed x).gone = (s.ix.ed x).gone := by
    intro x hxe; rw [Life.reopen_ix]; unfold IX.reopen; split_ifs <;> simp [hxe]
  have hn : (s.reopen e).ix.ned = s.ix.ned := by
    rw [Life.reopen_ix]; unfold IX.reopen; split_ifs <;> rfl
  have hl : ∀ x, x ≠ e → (s.reopen e).loop x = s.loop x := by
    intro x hxe; unfold Life.reopen; split_ifs <;> simp [hxe]
  have hc : (s.reopen e).closed = s.closed := by unfold Life.reopen; split_ifs <;> rfl
  refine h.update e (Life.reopen_ix s e ▸ h.ix.reopen he) hn hg hl (fun x _ => hc ▸ rfl) ?_ ?_
  · rw [hc, Life.reopen_ix, hge]
    unfold Life.reopen
    split_ifs with hsent
    · simp [hsent.2.2]
    · -- not sent: the editor was not gone, or `ed.waitc` is closed
      by_cases hgone : (s.ix.ed e).gone = true
      · have hout : e ∉ s.ix.eds := by simp [h.ix.live e he, hgone]
        have hcl : s.closed e = true := by simpa [hgone, hout] using hsent
        simp [hcl, (h.ended e he).mpr hcl]
      · simpa [hgone] using h.editing e he
  · rw [hc]
    unfold Life.reopen
    split_ifs with hsent
    · simp [hsent.2.2]
    · exact h.ended e he

theorem step (h : LifeInv s) {op : LifeOp} (hs : s.apply op = some s') : LifeInv s' := by
  cases op with
  | newCmds st => cases hs; exact h.newCmds st
  | newEdit => cases hs; exact h.newEdit
  | quit e =>
    obtain ⟨he, ⟨⟩⟩ := Option.ite_none_right_eq_some.mp hs
    exact h.quit he.1 he.2
  | reopen e =>
    obtain ⟨he, ⟨⟩⟩ := Option.ite_none_right_eq_some.mp hs
    exact h.reopen he
  | addCmd e =>
    obtain ⟨he, ⟨⟩⟩ := Option.ite_none_right_eq_some.mp hs
    exact h.update e (h.ix.step (show s.ix.apply (.addCmd e) = _ from if_pos he)) rfl
      (fun x hx => by simp [IX.addCmd, hx]) (fun _ _ => rfl) (fun _ _ => rfl)
      (by simpa [IX.addCmd] using h.editing e he) (h.ended e he)
  | delCmd e =>
    obtain ⟨he, ⟨⟩⟩ := Option.ite_none_right_eq_some.mp hs
    exact h.update e (h.ix.step (show s.ix.apply (.delCmd e) = _ from if_pos he)) rfl
      (fun x hx => by simp [IX.delCmd, hx]) (fun _ _ => rfl) (fun _ _ => rfl)
      (by simpa [IX.delCmd] using h.editing e he) (h.ended e he)
  | focus e =>
    obtain ⟨he, ⟨⟩⟩ := Option.ite_none_right_eq_some.mp hs
    exact h.update e (h.ix.step (show s.ix.apply (.focus e) = _ from if_pos he.1)) rfl
      (fun _ _ => rfl) (fun _ _ => rfl) (fun _ _ => rfl) (h.editing e he.1) (h.ended e he.1)

end LifeInv

theorem Life.Reachable.lifeInv {s : Life} (hs : s.Reachable) : LifeInv s := by
  induction hs with
  | refl => exact LifeInv.init
  | tail _ hst ih =>
    obtain ⟨op, h⟩ := hst
    exact ih.step h

/-- **An editor has an event loop exactly when its `waitc` is open.** In every reachable state,
an editor runs its event loop exactly when it is in `ix.eds` and `ed.waitc` is open, and its
goroutine has ended exactly when `ed.waitc` is closed. -/
theorem editor_loop_iff {s : Life} (hs : s.Reachable) {e : Nat} (he : e < s.ix.ned) :
    (s.loop e = .editing ↔ e ∈ s.ix.eds ∧ s.closed e = false) ∧
      (s.loop e = .ended ↔ s.closed e = true) := by
  have h := hs.lifeInv
  rw [h.ix.live e he]
  exact ⟨h.editing e he, h.ended e he⟩

/-- An edit window that quits and is reopened by a command's output. -/
def zombie : List LifeOp :=
  [.newEdit, .quit 0, .reopen 0]

theorem editor_loop_iff_zombie :
    ((Life.run zombie).loop 0 = .editing ↔
        0 ∈ (Life.run zombie).ix.eds ∧ (Life.run zombie).closed 0 = false) ∧
      ((Life.run zombie).loop 0 = .ended ↔ (Life.run zombie).closed 0 = true) :=
  editor_loop_iff (Life.Reachable.run (by decide)) (by decide)

/-! ### A window that quits with no command running -/

/-- A step makes no editor unmade, and closes no `ed.waitc` it opened. -/
theorem Life.Step.mono {s s' : Life} (h : Step s s') :
    s.ix.ned ≤ s'.ix.ned ∧ ∀ e < s.ix.ned, s.closed e = true → s'.closed e = true := by
  obtain ⟨op, h⟩ := h
  have hstart : ∀ ix, ix.ned = s.ix.ned + 1 →
      s.ix.ned ≤ ix.ned ∧
        ∀ e < s.ix.ned, s.closed e = true → (s.start ix s.ix.ned).closed e = true :=
    fun ix hn => ⟨by omega, fun e he hc => by simpa [start, Nat.ne_of_lt he] using hc⟩
  cases op with
  | newCmds st =>
    cases h
    rcases IX.newCmds_eq s.ix st with hs | hs <;> simp only [newCmds, hs]
    · exact ⟨le_refl _, fun _ _ hc => hc⟩
    · exact hstart _ rfl
  | newEdit => cases h; exact hstart _ rfl
  | quit e =>
    obtain ⟨-, ⟨⟩⟩ := Option.ite_none_right_eq_some.mp h
    refine ⟨le_of_eq rfl, fun x _ hc => ?_⟩
    simp only [quit]
    split_ifs with hn
    · by_cases hxe : x = e
      · subst hxe; simp
      · simpa [hxe] using hc
    · exact hc
  | reopen e =>
    obtain ⟨-, ⟨⟩⟩ := Option.ite_none_right_eq_some.mp h
    refine ⟨?_, fun x _ hc => ?_⟩
    · rw [reopen_ix]; unfold IX.reopen; split_ifs <;> exact le_refl _
    · unfold reopen; split_ifs <;> exact hc
  | addCmd e | delCmd e | focus e =>
    obtain ⟨-, ⟨⟩⟩ := Option.ite_none_right_eq_some.mp h
    exact ⟨le_refl _, fun _ _ hc => hc⟩

theorem Life.steps_mono {s s' : Life} (h : Relation.ReflTransGen Life.Step s s') :
    s.ix.ned ≤ s'.ix.ned ∧ ∀ e < s.ix.ned, s.closed e = true → s'.closed e = true := by
  induction h with
  | refl => exact ⟨le_refl _, fun _ _ hc => hc⟩
  | tail _ hst ih =>
    obtain ⟨hn, hc⟩ := hst.mono
    exact ⟨ih.1.trans hn, fun e he h => hc e (lt_of_lt_of_le he ih.1) (ih.2 e he h)⟩

/-- **A window that quits with no command counted loses its event loop for good.** When an
editor's event loop ends while `ed.ncmds` is 0, then after any further operations its goroutine
has ended, and a `reopen` puts the editor back in `ix.eds` with its goroutine still ended. -/
theorem idle_quit_ends_loop {s s' : Life} (hs : s.Reachable) {e : Nat} (he : e < s.ix.ned)
    (hl : s.loop e = .editing) (hn : (s.ix.ed e).ncmds = 0)
    (hrun : Relation.ReflTransGen Life.Step (s.quit e) s') :
    s'.loop e = .ended ∧ e ∈ (s'.reopen e).ix.eds ∧ (s'.reopen e).loop e = .ended := by
  have hreach : s'.Reachable := (hs.tail ⟨.quit e, if_pos ⟨he, hl⟩⟩).trans hrun
  have hmono := Life.steps_mono hrun
  have hc : s'.closed e = true := hmono.2 e he (by simp [Life.quit, IX.delEd, hn])
  have he' : e < s'.ix.ned := lt_of_lt_of_le he hmono.1
  -- the state after `reopen` is reachable too, and `reopen` closes and opens no `waitc`
  have hr := Life.Reachable.lifeInv (hreach.tail ⟨.reopen e, if_pos he'⟩)
  have hcr : (s'.reopen e).closed e = true := by unfold Life.reopen; split_ifs <;> exact hc
  have hnr : e < (s'.reopen e).ix.ned := by
    rw [Life.reopen_ix]; unfold IX.reopen; split_ifs <;> exact he'
  refine ⟨(hreach.lifeInv.ended e he').mpr hc, ?_, (hr.ended e hnr).mpr hcr⟩
  rw [hr.ix.live e hnr, Life.reopen_ix, IX.reopen_gone]

/-- In `zombie`, the reopened window is in `ix.eds` while its goroutine has ended. -/
example : 0 ∈ (Life.run zombie).ix.eds ∧ (Life.run zombie).loop 0 = .ended := by decide

theorem idle_quit_ends_loop_newEdit :
    ((Life.run [.newEdit]).quit 0).loop 0 = .ended ∧
      0 ∈ (((Life.run [.newEdit]).quit 0).reopen 0).ix.eds ∧
      (((Life.run [.newEdit]).quit 0).reopen 0).loop 0 = .ended :=
  idle_quit_ends_loop (Life.Reachable.run (by decide)) (by decide) (by decide) (by decide) .refl

end Ix
