import Clive.Rzx.Invariant

/-!
# The trees maps

`Redial` fills the handle's trees map from the server's listing and checks the selected tree
against it; `Fsys` copies a handle, sharing the map, when the tree it selects is `"main"` or
listed. `TreesOk` is what these checks leave behind in every reachable state: an open handle
and an `Fsys` copy select a served tree, and a handle some `Redial` or `Dial` gave out lists
`"main"`.
-/

namespace Rzx

variable {s s' : Sys} {a : Act}

/-- The selected tree of `fs` is served: it is `"main"`, or in the handle's trees map. -/
def Sys.FsysOk (s : Sys) (fs : Nat) : Prop :=
  (s.fss fs).fsys = "main" ∨ s.trees (s.fss fs).trees (s.fss fs).fsys = true

/-- `"main"` is in the trees map of `fs`. -/
def Sys.MainIn (s : Sys) (fs : Nat) : Prop :=
  s.trees (s.fss fs).trees "main" = true

/-- What the tree listing guarantees: open handles and `Fsys` copies select a served tree, and
every handle a successful `Redial` or `Dial` gave out, or the cache holds, lists `"main"`. -/
structure TreesOk (s : Sys) : Prop where
  open_ok : ∀ fs, (s.fss fs).closed = false → s.FsysOk fs
  fsys_ok : ∀ t fs e, s.threads t = .done (.fsys (some fs) e) → s.FsysOk fs
  redial_main : ∀ t fs, s.threads t = .done (.redial fs none) → s.MainIn fs
  dial_main : ∀ t a fs e, s.threads t = .done (.dial a (some fs) e) → s.MainIn fs
  dials_main : ∀ k fs, s.dials k = some fs → s.MainIn fs

theorem TreesOk.init : TreesOk Sys.init :=
  ⟨fun _ h => (by cases h), fun _ _ _ h => (by cases h), fun _ _ h => (by cases h),
    fun _ _ _ _ h => (by cases h), fun _ _ h => (by cases h)⟩

/-- No step takes a name out of the trees map of an allocated handle. -/
theorem trees_step (hf : Fresh s) (h : s.act a = some s') {fs : Nat} (hfs : fs < s.nfs)
    {n : String} (hn : s.trees (s.fss fs).trees n = true) :
    s'.trees (s'.fss fs).trees n = true := by
  rw [((act_fss hf h fs).1 hfs).trees]
  exact act_trees h _ _ hn

theorem Sys.FsysOk.step (hf : Fresh s) (h : s.act a = some s') {fs : Nat} (hfs : fs < s.nfs)
    (hok : s.FsysOk fs) : s'.FsysOk fs := by
  unfold Sys.FsysOk at *
  rw [((act_fss hf h fs).1 hfs).fsys]
  exact hok.imp id (trees_step hf h hfs)

theorem Sys.MainIn.step (hf : Fresh s) (h : s.act a = some s') {fs : Nat} (hfs : fs < s.nfs)
    (hok : s.MainIn fs) : s'.MainIn fs :=
  trees_step hf h hfs hok

/-- Every step keeps `TreesOk`: trees maps only grow and no handle's selected tree changes, and
each new open handle, result or cache entry comes from a step that checked its tree. -/
theorem TreesOk.step (hf : Fresh s) (hu : Unused s) (hl : Locked s) (hs : TreesOk s)
    (h : s.act a = some s') : TreesOk s' := by
  have hok : ∀ fs, s.FsysOk fs → fs < s.nfs → s'.FsysOk fs := fun fs hfs hlt => hfs.step hf h hlt
  have hmain : ∀ fs, s.MainIn fs → fs < s.nfs → s'.MainIn fs := fun fs hfs hlt => hfs.step hf h hlt
  have hret : ∀ t r fs, s.threads t = .done r → r.handle = some fs → fs < s.nfs :=
    fun t r fs ht hr => hf.handle_lt t fs (by simp [ht, Thread.handle, hr])
  -- the handle of a `Redial` at `install` lists `"main"`
  have hinst : ∀ t fs m c, s.threads t = .redial fs (.install m) c → s'.MainIn fs :=
    fun t fs m c ht =>
      hmain fs (hl.holds t fs _ c ht).2.2 (hf.handle_lt t fs (by simp [ht, Thread.handle]))
  -- a new `Fsys` copy selects a served tree
  have hcopy : ∀ t src name, (name = "main" ∨ s.trees (s.fss src).trees name = true) →
      s' = s.fsysStep t src name → s'.FsysOk s.nfs := by
    rintro t src name hg rfl
    simp [Sys.FsysOk, Sys.fsysStep, hg, Sys.setThread]
  refine ⟨fun v hv => ?_, fun u v e hu' => ?_, fun u v hu' => ?_, fun u addr v e hu' => ?_,
    fun k v hk => ?_⟩
  · rcases act_open h hv with hold | ⟨t, m, c, -, hg, rfl⟩ | ⟨t, src, name, -, rfl, -, hg, hs'⟩
    · refine hok v (hs.open_ok v hold) (Nat.lt_of_not_le fun hle => ?_)
      rw [hu v hle] at hold; cases hold
    · exact .inr (by simpa [Sys.setThread, Sys.setFs] using hg)
    · exact hcopy t src name hg hs'
  · by_cases hne : s.threads u = .done (.fsys (some v) e)
    · exact hok v (hs.fsys_ok u v e hne) (hret u _ v hne rfl)
    rcases act_done h hu' hne with ⟨_, _, -, -, he⟩ | ⟨fs, pc, c, e', -, he, -⟩ |
      ⟨src, name, -, he, hg, hs'⟩ | he
    · cases he
    · cases c <;> cases he
    · cases he; exact hcopy _ src name hg hs'
    · cases he
  · by_cases hne : s.threads u = .done (.redial v none)
    · exact hmain v (hs.redial_main u v hne) (hret u _ v hne rfl)
    rcases act_done h hu' hne with ⟨_, _, -, -, he⟩ | ⟨fs, pc, c, e', ht, he, hpc⟩ |
      ⟨_, _, -, he, -⟩ |
      he
    · cases he
    · cases c <;> cases he
      obtain ⟨m, rfl⟩ := hpc rfl
      exact hinst _ _ _ _ ht
    · cases he
    · cases he
  · by_cases hne : s.threads u = .done (.dial addr (some v) e)
    · exact hmain v (hs.dial_main u addr v e hne) (hret u _ v hne rfl)
    rcases act_done h hu' hne with ⟨_, fs, -, hfs, he⟩ | ⟨fs, pc, c, e', ht, he, hpc⟩ |
      ⟨_, _, -, he, -⟩ | he
    · cases he
      exact hmain v (hs.dials_main _ v hfs) (hf.dials_lt _ v hfs)
    · cases c with
      | none => cases he
      | some a =>
        simp only [Ret.ofRedial, Ret.dial.injEq] at he
        obtain ⟨-, hv, -⟩ := he
        split_ifs at hv with he'
        cases hv
        obtain ⟨m, rfl⟩ := hpc he'
        exact hinst _ _ _ _ ht
    · cases he
    · cases he
  · rcases act_dials h hk with hold | ⟨t, m, c, ht, -, -⟩
    · exact hmain v (hs.dials_main k v hold) (hf.dials_lt k v hold)
    · exact hinst t v m c ht

end Rzx
