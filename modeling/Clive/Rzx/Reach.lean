import Clive.Rzx.Trees
import Mathlib.Data.List.GetD

/-!
# What every interleaving keeps

The invariants of the two modules before, together (`Inv`), hold in `Sys.init` and are kept by
every step, so they hold in every reachable state. Their consequences for the program:

* an open handle always has a mux, so `Close` and an envelope's `fs.m.Rpc()` on it do not
  dereference nil; a handle whose last `Redial` failed after its tree listing began has none,
  and `Close` on it panics (`nil_mux_after_failed_redial`);
* a trees map never loses a name, a handle some `Redial` or `Dial` returned lists `"main"`, and
  an open handle or an `Fsys` copy selects a served tree.
-/

namespace Rzx

variable {s s' : Sys} {a : Act}

/-- The invariants, together. -/
structure Inv (s : Sys) : Prop where
  fresh : Fresh s
  unused : Unused s
  locked : Locked s
  isOpen : Open s
  trees : TreesOk s

namespace Inv

theorem init : Inv Sys.init :=
  ⟨Fresh.init, fun _ _ => rfl, Locked.init, Open.init, TreesOk.init⟩

theorem step (hs : Inv s) (h : s.act a = some s') : Inv s' :=
  ⟨hs.fresh.step h, hs.unused.step hs.fresh h, hs.locked.step hs.fresh h,
    hs.isOpen.step hs.locked h, hs.trees.step hs.fresh hs.unused hs.locked h⟩

end Inv

theorem Reachable.inv (hs : Reachable s) : Inv s := by
  induction hs with
  | refl => exact Inv.init
  | tail _ hst ih =>
    obtain ⟨a, h⟩ := hst
    exact ih.step h

theorem Reachable.steps (hs : Reachable s) (h : Relation.ReflTransGen Step s s') : Reachable s' :=
  hs.trans h

/-- The goroutines of a `Fresh` state are its first `nthread` ones, then idle ones. -/
theorem Fresh.threads_eq (hf : Fresh s) {l : List Thread}
    (hl : (List.range s.nthread).map s.threads = l) (u : Nat) : s.threads u = l.getD u .idle := by
  subst hl
  by_cases hu : u < s.nthread
  · simp [hu]
  · rw [List.getD_eq_default _ _ (by simpa using Nat.le_of_not_lt hu)]
    exact hf.idle u (Nat.le_of_not_lt hu)

/-! ### Open handles and their mux -/

/-- **An open handle has a mux**, so `Close` and an envelope's `fs.m.Rpc()` on it do not
panic. -/
theorem open_has_mux (hs : Reachable s) {fs : Nat} (hc : (s.fss fs).closed = false) (t : Nat) :
    (∃ m, (s.fss fs).m = some m) ∧ (s.closeStep t fs).threads t = .done .close ∧
      (s.rpcStep t fs).threads t = .done .rpc := by
  obtain ⟨m, hm⟩ := Option.ne_none_iff_exists'.mp (hs.inv.isOpen fs hc)
  exact ⟨⟨m, hm⟩, by simp [Sys.closeStep, hm, Sys.setThread],
    by simp [Sys.rpcStep, hm, Sys.setThread]⟩

/-- `Dial("h")` runs to completion: it builds handle `0` and its `Redial` connects with mux `0`,
lists the trees, selects `"main"`, caches the handle and starts watcher `1`. -/
def dialRun : List Act :=
  [.call (.dial "h"), .step 0, .step 0, .step 0, .step 0, .step 0, .step 0]

theorem open_has_mux_after_dial :
    ((Sys.run dialRun).fss 0).closed = false ∧
      ((∃ m, ((Sys.run dialRun).fss 0).m = some m) ∧
        ((Sys.run dialRun).closeStep 2 0).threads 2 = .done .close ∧
        ((Sys.run dialRun).rpcStep 2 0).threads 2 = .done .rpc) :=
  ⟨by decide, open_has_mux (Reachable.run (by decide)) (by decide) 2⟩

/-- After the `Dial` of `dialRun`, the peer hangs up mux `0`, the watcher marks the handle
closed and finishes, and a `Redial` of handle `0` dials mux `1` whose tree listing fails: the
handle is left without a mux, and a `Close` of it (goroutine `3`) panics. -/
def failedRedialRun : List Act :=
  dialRun ++ [.hangup 0, .step 1, .step 1, .step 1, .step 1, .call (.redial 0), .step 2, .step 2,
    .step 2 { listing := { err := some (.text "EOF") } }, .call (.close 0), .step 3]

theorem nil_mux_after_failed_redial :
    ∃ s, Reachable s ∧ s.threads 0 = .done (.dial "h" (some 0) none) ∧ (s.fss 0).m = none ∧
      s.threads 3 = .panicked :=
  ⟨Sys.run failedRedialRun, Reachable.run (by decide), by decide, by decide, by decide⟩

/-! ### Trees maps -/

/-- From a reachable state on, no allocated handle's trees map loses a name. -/
theorem trees_steps (hs : Reachable s) (h : Relation.ReflTransGen Step s s') :
    s.nfs ≤ s'.nfs ∧ ∀ fs < s.nfs, ∀ n, s.trees (s.fss fs).trees n = true →
      s'.trees (s'.fss fs).trees n = true := by
  induction h with
  | refl => exact ⟨le_rfl, fun _ _ _ hn => hn⟩
  | tail hsb hbc ih =>
    obtain ⟨a, hb⟩ := hbc
    have hf := (hs.steps hsb).inv.fresh
    exact ⟨ih.1.trans (act_nfs hb), fun fs hfs n hn =>
      trees_step hf hb (lt_of_lt_of_le hfs ih.1) (ih.2 fs hfs n hn)⟩

/-- **Trees.** In every reachable state: from then on no allocated handle's trees map loses a
name (`Fsys` copies share it); a handle that `Redial` or `Dial` returned without error lists
`"main"`; and an open handle or an `Fsys` copy selects `"main"` or a listed tree. -/
theorem reachable_trees (hs : Reachable s) :
    (∀ s', Relation.ReflTransGen Step s s' → ∀ fs < s.nfs, ∀ n,
      s.trees (s.fss fs).trees n = true → s'.trees (s'.fss fs).trees n = true) ∧
    (∀ t fs, s.threads t = .done (.redial fs none) → s.MainIn fs) ∧
    (∀ t addr fs, s.threads t = .done (.dial addr (some fs) none) → s.MainIn fs) ∧
    (∀ fs, (s.fss fs).closed = false → s.FsysOk fs) ∧
    (∀ t fs e, s.threads t = .done (.fsys (some fs) e) → s.FsysOk fs) :=
  have hi := hs.inv.trees
  ⟨fun _ h => (trees_steps hs h).2, hi.redial_main, fun t addr fs => hi.dial_main t addr fs none,
    hi.open_ok, hi.fsys_ok⟩

theorem dial_run_trees : Reachable (Sys.run dialRun) ∧ (Sys.run dialRun).MainIn 0 :=
  have hs := Reachable.run (by decide)
  ⟨hs, (reachable_trees hs).2.2.1 0 "h" 0 (by decide)⟩

end Rzx
