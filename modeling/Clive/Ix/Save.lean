import Clive.Rzx.Basic

/-!
# Saving an edit window in `ix`

`Ed.save` writes a dirty window back to its file, unless `ix` runs dry or the file is not a
regular one. Before it writes it asks `Ed.wasChanged` whether the file changed since it was
read: the type must be the same, and the modification time the same to the second (some file
systems keep no finer times). When the time differs, `wasChanged` reports it and records the new
time in `ed.d`, as if the file had been read again. `save` marks the window clean with a `defer`
set just before it writes, so the window is clean after the write whether it worked or not.

`cmd.Stat`, `cmd.Put` and `zx.Dir.Time` are not in this code: `Disk` is what they give `save`,
and `save`'s results hold for any of it. The text sent to `cmd.Put` is the window's; the model
records only that `Put` was called.

## Main results

* `save_calls_put`: `save` writes exactly when the window is dirty, the run is not dry, the file
  is regular and has not changed on disk;
* `save_after_change`: a save refused because the file's time changed goes through when it is
  repeated on the same disk.
-/

namespace Ix

open Rzx (Dir)

/-- What `save` reads and changes of an editor. -/
structure SaveEd where
  /-- `ed.d`: the directory entry of the file as it was read. -/
  d : Dir
  /-- `ed.win.IsDirty()`. -/
  dirty : Bool
  deriving DecidableEq, Repr

/-- The errors `save` returns. -/
inductive SaveErr where
  /-- `notDirty`. -/
  | notDirty
  /-- `errors.New("file type changed")`. -/
  | typeChanged
  /-- `file read on ot changed by wuid on nt`, with the two times in seconds. -/
  | changed (ot : Nat) (wuid : String) (nt : Nat)
  /-- The error `cmd.Put`'s reply was closed with. -/
  | put (err : String)
  deriving DecidableEq, Repr

/-- What the file system gives `save`. -/
structure Disk where
  /-- `cmd.Stat(ed.tag)`: the file's directory entry, or the error. -/
  stat : Except String Dir
  /-- `cmd.Put(ed.tag, ...)`: the reply's directory entry, or the error it was closed with. -/
  put : Except String Dir
  /-- `zx.Dir.Time`: the time a `mtime` value stands for, in nanoseconds. -/
  time : String → Nat

/-- `d[k] = v`. -/
def Dir.set (d : Dir) (k v : String) : Dir :=
  (k, v) :: d

/-- `t.Truncate(time.Second)`, counted in seconds. -/
def seconds (t : Nat) : Nat :=
  t / 1000000000

/-- `ed.wasChanged()`: `ed.d` afterwards, and the error. -/
def wasChanged (disk : Disk) (d : Dir) : Dir × Option SaveErr :=
  match disk.stat with
  | .error _ => (d, none)
  | .ok nd =>
    if nd.get "type" ≠ d.get "type" then (d, some .typeChanged)
    else
      let nt := seconds (disk.time (nd.get "mtime"))
      let ot := seconds (disk.time (d.get "mtime"))
      if nt ≠ ot then (Dir.set d "mtime" (nd.get "mtime"), some (.changed ot (nd.get "wuid") nt))
      else (d, none)

/-- `ed.save()` with `dryrun`: the editor afterwards, whether `cmd.Put` was called, and the
error. -/
def save (disk : Disk) (dryrun : Bool) (ed : SaveEd) : SaveEd × Bool × Option SaveErr :=
  if ed.dirty = false then ({ ed with dirty := false }, false, some .notDirty)
  else if dryrun = true then ({ ed with dirty := false }, false, some .notDirty)
  else if ed.d.get "type" ≠ "-" then ({ ed with dirty := false }, false, some .notDirty)
  else
    match wasChanged disk ed.d with
    | (d, some err) => ({ ed with d }, false, some err)
    | (d, none) =>
      match disk.put with
      | .error e => ({ d, dirty := false }, true, some (.put e))
      | .ok rd =>
        let d := match rd.lookup "mtime" with
          | some mt => Dir.set d "mtime" mt
          | none => d
        ({ d, dirty := false }, true, none)

/-! ### The change check -/

/-- The file on disk is as it was read: it cannot be looked at, or it has the same type and the
same modification time to the second. -/
def Unchanged (disk : Disk) (d : Dir) : Prop :=
  ∀ nd, disk.stat = .ok nd →
    nd.get "type" = d.get "type" ∧
      seconds (disk.time (nd.get "mtime")) = seconds (disk.time (d.get "mtime"))

@[simp] theorem get_set_mtime (d : Dir) (v : String) {k : String} (hk : k ≠ "mtime") :
    (Dir.set d "mtime" v).get k = d.get k := by
  simp [Dir.set, Rzx.Dir.get, List.lookup_cons, beq_false_of_ne hk]

@[simp] theorem get_set_same (d : Dir) (k v : String) : (Dir.set d k v).get k = v := by
  simp [Dir.set, Rzx.Dir.get]

/-- `wasChanged` reports an error exactly when the file changed. -/
theorem wasChanged_eq_none (disk : Disk) (d : Dir) :
    (wasChanged disk d).2 = none ↔ Unchanged disk d := by
  unfold wasChanged Unchanged
  rcases disk.stat with e | nd
  · simp
  · by_cases ht : nd.get "type" = d.get "type"
    · by_cases hm : seconds (disk.time (nd.get "mtime")) = seconds (disk.time (d.get "mtime")) <;>
        simp [ht, hm]
    · simp [ht]

/-- After a reported change of time, the check passes on the same disk: the new time was
recorded. -/
theorem wasChanged_changed {disk : Disk} {d : Dir} {ot nt : Nat} {w : String}
    (h : (wasChanged disk d).2 = some (.changed ot w nt)) :
    Unchanged disk (wasChanged disk d).1 := by
  unfold wasChanged at h ⊢
  rcases hs : disk.stat with e | nd <;> simp only [hs] at h ⊢
  · cases h
  · split_ifs at h ⊢ with ht <;> cases h
    intro nd' hnd'
    cases hs.symm.trans hnd'
    simpa using ht

/-- `wasChanged` keeps the type `ed.d` records. -/
theorem wasChanged_type (disk : Disk) (d : Dir) :
    (wasChanged disk d).1.get "type" = d.get "type" := by
  unfold wasChanged
  split
  · rfl
  · dsimp only
    split_ifs <;> simp

/-! ### `save` -/

/-- A dirty window of a regular file, and a run that is not dry: the cases where `save` asks
whether the file changed. -/
def Checked (dryrun : Bool) (ed : SaveEd) : Prop :=
  ed.dirty = true ∧ dryrun = false ∧ ed.d.get "type" = "-"

/-- The three ways `save` ends: `notDirty` before the change check, stopped by it, or after
calling `cmd.Put`, with the window clean. -/
theorem save_cases (disk : Disk) (dryrun : Bool) (ed : SaveEd) :
    (¬Checked dryrun ed ∧
        save disk dryrun ed = ({ ed with dirty := false }, false, some .notDirty)) ∨
      (Checked dryrun ed ∧ ∃ err, (wasChanged disk ed.d).2 = some err ∧
        save disk dryrun ed = ({ ed with d := (wasChanged disk ed.d).1 }, false, some err)) ∨
      (Checked dryrun ed ∧ (wasChanged disk ed.d).2 = none ∧
        (save disk dryrun ed).1.dirty = false ∧ (save disk dryrun ed).2.1 = true ∧
        ((save disk dryrun ed).2.2 = none ∨ ∃ e, (save disk dryrun ed).2.2 = some (.put e))) := by
  unfold save
  by_cases hc : Checked dryrun ed
  · obtain ⟨hd, hdry, ht⟩ := hc
    simp only [hd, hdry, ht, Bool.true_eq_false, Bool.false_eq_true, if_false, ne_eq,
      not_true_eq_false]
    right
    rcases wasChanged disk ed.d with ⟨d, _ | err⟩
    · right
      refine ⟨⟨hd, rfl, ht⟩, rfl, ?_⟩
      rcases disk.put with e | rd <;> simp
    · exact .inl ⟨⟨hd, rfl, ht⟩, err, rfl, rfl⟩
  · refine .inl ⟨hc, ?_⟩
    by_cases hd : ed.dirty = false
    · simp [hd]
    by_cases hdry : dryrun = true
    · simp [hd, hdry]
    have ht : ed.d.get "type" ≠ "-" := fun ht => hc ⟨by simpa using hd, by simpa using hdry, ht⟩
    simp [hd, hdry, ht]

/-- `save` calls `cmd.Put` exactly on a dirty regular file, not dry, unchanged on disk. -/
theorem save_calls_put (disk : Disk) (dryrun : Bool) (ed : SaveEd) :
    (save disk dryrun ed).2.1 = true ↔ Checked dryrun ed ∧ Unchanged disk ed.d := by
  rw [← wasChanged_eq_none]
  rcases save_cases disk dryrun ed with ⟨hc, h⟩ | ⟨hc, err, hw, h⟩ | ⟨hc, hw, -, h, -⟩
  · simp [h, hc]
  · simp [h, hw]
  · simp [h, hw, hc]

/-- **A change is reported once.** When `save` is refused because the file's time changed, the
same save on the same disk calls `cmd.Put`: `wasChanged` recorded the new time, so a second
save overwrites the other writer's change. -/
theorem save_after_change {disk : Disk} {dryrun : Bool} {ed : SaveEd} {ot nt : Nat} {w : String}
    (h : (save disk dryrun ed).2.2 = some (.changed ot w nt)) :
    (save disk dryrun (save disk dryrun ed).1).2.1 = true := by
  rcases save_cases disk dryrun ed with ⟨-, h'⟩ | ⟨⟨hd, hdry, ht⟩, err, hw, h'⟩ |
    ⟨-, -, -, -, h' | ⟨e, h'⟩⟩
  · simp [h'] at h
  · rw [h'] at h ⊢
    cases h
    rw [save_calls_put]
    exact ⟨⟨hd, hdry, by rw [wasChanged_type]; exact ht⟩, wasChanged_changed hw⟩
  all_goals rw [h'] at h; cases h

/-- A file read when its time was `a`, since written by another user two seconds later; a
write replies with a new time. -/
def rewritten : Disk where
  stat := .ok [("type", "-"), ("mtime", "b"), ("wuid", "other")]
  put := .ok [("mtime", "c")]
  time := fun m => if m = "b" then 2000000000 else 0

/-- The first save of a dirty window on `rewritten` is refused, naming the writer. -/
example : (save rewritten false ⟨[("type", "-"), ("mtime", "a")], true⟩).2.2 =
    some (.changed 0 "other" 2) := by decide

theorem save_after_change_rewritten :
    (save rewritten false (save rewritten false ⟨[("type", "-"), ("mtime", "a")], true⟩).1).2.1 =
      true :=
  save_after_change
    (by decide : (save rewritten false ⟨[("type", "-"), ("mtime", "a")], true⟩).2.2 =
      some (.changed 0 "other" 2))

end Ix
