import Clive.Rzx.Sys

/-!
# Invariants of every interleaving

Facts that hold in every reachable state of `Sys`, each proved as an inductive invariant:
it holds in `Sys.init` and every `Step` keeps it. `act_cases` says once what a step can be, and
the lemmas on one step of a `Redial` (`redialStep_fss_ne`, `redialStep_fixed`,
`redialStep_threads`, ...) say once what it changes, so that the invariants below cite them
instead of taking `Redial` apart again.

* `Fresh` — numbers are handed out by counters: goroutines from `nthread` on are idle, and
  every handle a goroutine or the dial cache names is below `nfs`. New handles and
  goroutines therefore never collide with old ones.
* `Unused` — handle numbers from `nfs` on stand for no handle; a handle's address, key and
  tree never change once it is built.
* What a step adds: a goroutine changes only by its own step or when it is started
  (`act_thread`), a cache entry appears only at `install` (`act_dials`), and a handle opens
  only at its `Redial`'s tree check or as an `Fsys` copy of an open handle (`act_open`).
* `Locked` — **the lock discipline of `Redial`**: a `Redial` past its first step holds its
  handle's lock, only one is past it on a handle, and each has what its next step relies on.
* `Open` — an open handle has a mux.
-/
namespace Rzx

variable {s s' : Sys} {a : Act}

/-! ### What a step can be -/

/-- A step is one goroutine's step, a new call, or a hangup. -/
theorem act_cases (h : s.act a = some s') :
    (∃ t addr, s.threads t = .dial addr ∧ s' = s.dialStep t addr) ∨
    (∃ t fs pc c r, s.threads t = .redial fs pc c ∧ s.redialStep t fs c r pc = some s') ∨
    (∃ t fs m c pc, s.threads t = .watcher fs m c pc ∧ s.watcherStep t fs m c pc = some s') ∨
    (∃ t fs, s.threads t = .close fs ∧ s' = s.closeStep t fs) ∨
    (∃ t fs name, s.threads t = .fsys fs name ∧ s' = s.fsysStep t fs name) ∨
    (∃ t fs, s.threads t = .rpc fs ∧ s' = s.rpcStep t fs) ∨
    (∃ c : Api, (∀ fs ∈ c.target, s.Held fs) ∧ s' = s.spawn c.thread) ∨
    (∃ m, m < s.nmux ∧ s' = s.closeMux m) := by
  cases a with
  | step t r =>
    simp only [Sys.act, Sys.threadStep] at h
    split at h <;> rename_i heq
    · exact .inl ⟨t, _, heq, (Option.some.inj h).symm⟩
    · exact .inr <| .inl ⟨t, _, _, _, r, heq, h⟩
    · exact .inr <| .inr <| .inl ⟨t, _, _, _, _, heq, h⟩
    · exact .inr <| .inr <| .inr <| .inl ⟨t, _, heq, (Option.some.inj h).symm⟩
    · exact .inr <| .inr <| .inr <| .inr <| .inl ⟨t, _, _, heq, (Option.some.inj h).symm⟩
    · exact .inr <| .inr <| .inr <| .inr <| .inr <| .inl ⟨t, _, heq, (Option.some.inj h).symm⟩
    · cases h
  | call c =>
    simp only [Sys.act] at h
    split_ifs at h with hc
    exact .inr <| .inr <| .inr <| .inr <| .inr <| .inr <| .inl ⟨c, hc, (Option.some.inj h).symm⟩
  | hangup m =>
    simp only [Sys.act] at h
    split_ifs at h with hm
    exact .inr <| .inr <| .inr <| .inr <| .inr <| .inr <| .inr ⟨m, hm, (Option.some.inj h).symm⟩

/-! ### Fresh numbers -/

/-- Every goroutine or cache entry names an allocated handle, and goroutine numbers from
`nthread` on are unused. -/
structure Fresh (s : Sys) : Prop where
  idle : ∀ t, s.nthread ≤ t → s.threads t = .idle
  handle_lt : ∀ t fs, (s.threads t).handle = some fs → fs < s.nfs
  dials_lt : ∀ k fs, s.dials k = some fs → fs < s.nfs

namespace Fresh

theorem init : Fresh Sys.init :=
  ⟨fun _ _ => rfl, fun _ _ h => (by cases h), fun _ _ h => (by cases h)⟩

theorem lt_nthread (hs : Fresh s) {t : Nat} (ht : s.threads t ≠ .idle) : t < s.nthread := by
  by_contra h
  exact ht (hs.idle t (by omega))

/-- Moving a running goroutine on to a state naming an allocated handle keeps `Fresh`. -/
theorem setThread (hs : Fresh s) {t : Nat} {th : Thread} (ht : s.threads t ≠ .idle)
    (hth : ∀ fs, th.handle = some fs → fs < s.nfs) : Fresh (s.setThread t th) where
  idle u hu := by
    have : u ≠ t := by have := hs.lt_nthread ht; simp only [Sys.setThread] at hu; omega
    simp only [Sys.setThread, setAt_noteq this]
    exact hs.idle u hu
  handle_lt u fs h := by
    simp only [Sys.setThread, setAt_apply] at h
    split_ifs at h
    · exact hth fs h
    · exact hs.handle_lt u fs h
  dials_lt := hs.dials_lt

theorem spawn (hs : Fresh s) {th : Thread} (hth : ∀ fs, th.handle = some fs → fs < s.nfs) :
    Fresh (s.spawn th) where
  idle u hu := by
    simp only [Sys.spawn] at hu ⊢
    rw [setAt_noteq (by omega)]
    exact hs.idle u (by omega)
  handle_lt u fs h := by
    simp only [Sys.spawn, setAt_apply] at h
    split_ifs at h
    · exact hth fs h
    · exact hs.handle_lt u fs h
  dials_lt := hs.dials_lt

theorem frame (hs : Fresh s) (ht : s'.threads = s.threads) (hn : s'.nthread = s.nthread)
    (hf : s'.nfs = s.nfs) (hd : s'.dials = s.dials) : Fresh s' where
  idle := by rw [ht, hn]; exact hs.idle
  handle_lt := by rw [ht, hf]; exact hs.handle_lt
  dials_lt := by rw [hd, hf]; exact hs.dials_lt

theorem ret (hs : Fresh s) {t fs : Nat} {c : Option String} {e : Option Err}
    (ht : s.threads t ≠ .idle) (hfs : fs < s.nfs) : Fresh (s.ret t fs c e) := by
  unfold Sys.ret
  refine Fresh.setThread ?_ ht fun u hu => ?_
  · exact hs.frame rfl rfl rfl rfl
  cases c <;> simp_all [Thread.handle, Ret.handle, Ret.ofRedial, Sys.setFs]

theorem redialStep (hs : Fresh s) {t fs : Nat} {pc : RedialPc} {c : Option String} {r : Reply}
    (ht : s.threads t = .redial fs pc c) (h : s.redialStep t fs c r pc = some s') : Fresh s' := by
  have hne : s.threads t ≠ .idle := by simp [ht]
  have hfs : fs < s.nfs := hs.handle_lt t fs (by simp [ht, Thread.handle])
  have hth : ∀ pc' u, (Thread.redial fs pc' c).handle = some u → u < s.nfs := by
    intro pc' u hu; cases hu; exact hfs
  cases pc with
  | install m =>
    cases h
    refine Fresh.ret (Fresh.spawn ?_ fun u hu => ?_) ?_ hfs
    · refine ⟨hs.idle, hs.handle_lt, fun k u hk => ?_⟩
      simp only [setAt_apply] at hk
      split_ifs at hk
      · cases hk; exact hfs
      · exact hs.dials_lt k u hk
    · cases hu; exact hfs
    · simp only [Sys.spawn, setAt_noteq (Nat.ne_of_lt (hs.lt_nthread hne)), ne_eq]
      simp [ht]
  | _ =>
    simp only [Sys.redialStep] at h
    repeat' (first | split at h | split_ifs at h)
    all_goals cases h
    all_goals
      first
      | (refine Fresh.setThread ?_ hne (hth _); exact hs.frame rfl rfl rfl rfl)
      | (refine Fresh.ret ?_ hne hfs; exact hs.frame rfl rfl rfl rfl)

theorem dialStep (hs : Fresh s) {t : Nat} {addr : String} (ht : s.threads t = .dial addr) :
    Fresh (s.dialStep t addr) := by
  have hne : s.threads t ≠ .idle := by simp [ht]
  unfold Sys.dialStep
  dsimp only
  split
  · rename_i fs hfs
    refine hs.setThread hne fun u hu => ?_
    cases hu; exact hs.dials_lt _ _ hfs
  · split
    · refine hs.setThread hne fun _ hu => ?_
      cases hu
    · refine Fresh.setThread ?_ hne fun u hu => ?_
      · exact ⟨hs.idle, fun u fs h => Nat.lt_succ_of_lt (hs.handle_lt u fs h),
          fun k fs h => Nat.lt_succ_of_lt (hs.dials_lt k fs h)⟩
      · cases hu; exact Nat.lt_succ_self _

theorem watcherStep (hs : Fresh s) {t fs m c : Nat} {pc : WatcherPc}
    (ht : s.threads t = .watcher fs m c pc) (h : s.watcherStep t fs m c pc = some s') :
    Fresh s' := by
  have hne : s.threads t ≠ .idle := by simp [ht]
  have hfs : fs < s.nfs := hs.handle_lt t fs (by simp [ht, Thread.handle])
  cases pc <;> simp only [Sys.watcherStep] at h <;> (try split_ifs at h) <;> cases h
  · refine hs.setThread hne fun u hu => ?_
    cases hu; exact hfs
  · refine Fresh.setThread ?_ hne fun u hu => ?_
    · exact hs.frame rfl rfl rfl rfl
    · cases hu; exact hfs
  · refine Fresh.setThread ?_ hne fun u hu => ?_
    · refine ⟨hs.idle, hs.handle_lt, fun k u hk => ?_⟩
      simp only [setAt_apply] at hk
      split_ifs at hk
      exact hs.dials_lt k u hk
    · cases hu; exact hfs
  · refine Fresh.setThread ?_ hne fun _ hu => ?_
    · exact hs.frame rfl rfl rfl rfl
    · cases hu

/-- Every step keeps `Fresh`. -/
theorem step (hs : Fresh s) (h : s.act a = some s') : Fresh s' := by
  cases a with
  | step t r =>
    simp only [Sys.act, Sys.threadStep] at h
    split at h <;> rename_i heq
    · cases h; exact hs.dialStep heq
    · exact hs.redialStep heq h
    · exact hs.watcherStep heq h
    · cases h
      have hne : s.threads t ≠ .idle := by simp [heq]
      unfold Sys.closeStep
      split
      · refine Fresh.setThread ?_ hne fun _ hu => ?_
        · exact hs.frame rfl rfl rfl rfl
        · cases hu
      · refine hs.setThread hne fun _ hu => ?_
        cases hu
    · cases h
      have hne : s.threads t ≠ .idle := by simp [heq]
      unfold Sys.fsysStep
      dsimp only
      split
      · refine Fresh.setThread ?_ hne fun u hu => ?_
        · exact ⟨hs.idle, fun u fs h => Nat.lt_succ_of_lt (hs.handle_lt u fs h),
            fun k fs h => Nat.lt_succ_of_lt (hs.dials_lt k fs h)⟩
        · cases hu; exact Nat.lt_succ_self _
      · refine hs.setThread hne fun _ hu => ?_
        cases hu
    · cases h
      have hne : s.threads t ≠ .idle := by simp [heq]
      unfold Sys.rpcStep
      split
      · refine hs.setThread hne fun _ hu => ?_
        cases hu
      · refine hs.setThread hne fun _ hu => ?_
        cases hu
    · cases h
  | call c =>
    simp only [Sys.act] at h
    split_ifs at h with hc
    cases h
    refine hs.spawn fun fs hfs => ?_
    obtain ⟨u, -, hu⟩ := hc fs (by cases c <;> simp_all [Api.thread, Api.target, Thread.handle])
    refine hs.handle_lt u fs ?_
    revert hu
    rcases s.threads u with _ | _ | _ | _ | _ | _ | _ | ⟨_ | _ | _ | _ | _ | _⟩ | _ <;>
      simp [Thread.gives, Thread.handle, Ret.handle]
  | hangup m =>
    simp only [Sys.act] at h
    split_ifs at h
    cases h
    exact hs.frame rfl rfl rfl rfl

end Fresh

/-! ### What a step keeps -/

/-- The fields of a handle no step changes once it is built. -/
structure Fs.Fixed (f f' : Fs) : Prop where
  addr : f'.addr = f.addr
  raddr : f'.raddr = f.raddr
  trees : f'.trees = f.trees
  fsys : f'.fsys = f.fsys

theorem Fs.Fixed.rfl {f : Fs} : f.Fixed f := ⟨Eq.refl _, Eq.refl _, Eq.refl _, Eq.refl _⟩

theorem setAt_getTrees {tr : Nat → String → Bool} {r : Nat} {n : String} (hn : tr r n = true)
    (r' : Nat) (c : Call) : setAt tr r' (getTrees (tr r') c).1 r n = true := by
  rw [setAt_apply]
  split_ifs with h
  · subst h; exact getTrees_mono hn c
  · exact hn

/-! ### One step of a `Redial` -/

section RedialFrame

variable {t fs v u : Nat} {pc : RedialPc} {c : Option String} {r : Reply}

theorem redialStep_nfs (h : s.redialStep t fs c r pc = some s') : s'.nfs = s.nfs := by
  cases pc <;> simp only [Sys.redialStep] at h <;> repeat' (first | split at h | split_ifs at h)
  all_goals cases h
  all_goals rfl

/-- A `Redial` changes only the `closed`, `m`, `closewc` and lock of its handle. -/
theorem redialStep_fixed (h : s.redialStep t fs c r pc = some s') :
    (s.fss fs).Fixed (s'.fss fs) := by
  cases pc <;> simp only [Sys.redialStep] at h <;> repeat' (first | split at h | split_ifs at h)
  all_goals cases h
  all_goals constructor <;> simp [Sys.setThread, Sys.setFs, Sys.closeMux, Sys.teardown,
    Sys.newMux, Sys.ret, Sys.spawn]

/-- A `Redial` only adds names to trees maps. -/
theorem redialStep_trees (h : s.redialStep t fs c r pc = some s') (r' : Nat) (n : String)
    (hn : s.trees r' n = true) : s'.trees r' n = true := by
  cases pc <;> simp only [Sys.redialStep] at h <;> repeat' (first | split at h | split_ifs at h)
  all_goals cases h
  all_goals first | exact hn | exact setAt_getTrees hn _ _

/-- A `Redial` of `fs` changes no other handle. -/
theorem redialStep_fss_ne (h : s.redialStep t fs c r pc = some s') (hv : v ≠ fs) :
    s'.fss v = s.fss v := by
  cases pc <;> simp only [Sys.redialStep] at h <;> repeat' (first | split at h | split_ifs at h)
  all_goals cases h
  all_goals simp [Sys.setThread, Sys.setFs, Sys.closeMux, Sys.teardown, Sys.newMux, Sys.ret,
    Sys.spawn, setAt_noteq hv]

/-- A `Redial` moves only its own goroutine, and starts at most its watcher, numbered
`nthread`. -/
theorem redialStep_threads (h : s.redialStep t fs c r pc = some s') (hut : u ≠ t) :
    s'.threads u = s.threads u ∨
      u = s.nthread ∧ ∃ m, s'.threads u = .watcher fs m (s.fss fs).closewc .hup := by
  cases pc <;> simp only [Sys.redialStep] at h <;> repeat' (first | split at h | split_ifs at h)
  all_goals cases h
  all_goals simp only [Sys.setThread, Sys.setFs, Sys.closeMux, Sys.teardown, Sys.newMux, Sys.ret,
    Sys.spawn, setAt_noteq hut, setAt_apply]
  all_goals first | exact .inl trivial | (split_ifs with hn <;> simp [hn])

/-- A `Redial` either moves on or returns; it returns no error only from `install`. -/
theorem redialStep_self (h : s.redialStep t fs c r pc = some s') :
    (∃ pc', s'.threads t = .redial fs pc' c) ∨
    ∃ e, s'.threads t = .done (.ofRedial fs c e) ∧ (e = none → ∃ m, pc = .install m) := by
  cases pc <;> simp only [Sys.redialStep] at h <;> repeat' (first | split at h | split_ifs at h)
  all_goals cases h
  all_goals simp only [Sys.setThread, Sys.ret, setAt_same]
  all_goals first | exact .inl ⟨_, rfl⟩ | exact .inr ⟨_, rfl, by simp⟩

end RedialFrame

/-- Trees maps only grow. -/
theorem act_trees (h : s.act a = some s') (r : Nat) (n : String) (hn : s.trees r n = true) :
    s'.trees r n = true := by
  rcases act_cases h with ⟨t, addr, -, rfl⟩ | ⟨t, fs, pc, c, rp, -, h⟩ | ⟨t, fs, m, c, pc, -, h⟩ |
    ⟨t, fs, -, rfl⟩ | ⟨t, fs, name, -, rfl⟩ | ⟨t, fs, -, rfl⟩ | ⟨api, -, rfl⟩ | ⟨m, -, rfl⟩
  · simpa using hn
  · exact redialStep_trees h r n hn
  · cases pc <;> simp only [Sys.watcherStep] at h <;> (try split_ifs at h) <;> cases h <;> exact hn
  · simpa using hn
  · simpa using hn
  · simpa using hn
  · exact hn
  · exact hn

/-- A step changes only the `closed`, `m`, `closewc` and lock of an allocated handle, and
builds a new one only at `nfs`. -/
theorem act_fss (hf : Fresh s) (h : s.act a = some s') (fs : Nat) :
    (fs < s.nfs → (s.fss fs).Fixed (s'.fss fs)) ∧ (s'.nfs ≤ fs → s'.fss fs = s.fss fs) := by
  rcases act_cases h with ⟨t, addr, ht, rfl⟩ | ⟨t, fs', pc, c, rp, ht, h⟩ |
    ⟨t, fs', m, c, pc, ht, h⟩ |
    ⟨t, fs', -, rfl⟩ | ⟨t, fs', name, -, rfl⟩ | ⟨t, fs', -, rfl⟩ | ⟨api, -, rfl⟩ | ⟨m, -, rfl⟩
  · exact ⟨fun hlt => by rw [Sys.dialStep_fss hlt]; exact Fs.Fixed.rfl, Sys.dialStep_fss_of_le⟩
  · have hfs' : fs' < s.nfs := hf.handle_lt t fs' (by simp [ht, Thread.handle])
    refine ⟨fun _ => ?_, fun hle => redialStep_fss_ne h (by rw [redialStep_nfs h] at hle; omega)⟩
    by_cases hv : fs = fs'
    · subst hv; exact redialStep_fixed h
    · rw [redialStep_fss_ne h hv]; exact Fs.Fixed.rfl
  · have hfs' : fs' < s.nfs := hf.handle_lt t fs' (by simp [ht, Thread.handle])
    cases pc <;> simp only [Sys.watcherStep] at h <;> (try split_ifs at h) <;> cases h
    all_goals
      simp only [Sys.setThread, Sys.setFs, setAt_apply]
    all_goals
      refine ⟨fun _ => ⟨?_, ?_, ?_, ?_⟩, fun hlt => ?_⟩ <;> (try split_ifs) <;> simp_all <;> omega
  · exact ⟨fun _ => by simpa using Fs.Fixed.rfl, fun _ => by simp⟩
  · exact ⟨fun hlt => by rw [Sys.fsysStep_fss hlt]; exact Fs.Fixed.rfl, Sys.fsysStep_fss_of_le⟩
  · exact ⟨fun _ => by simpa using Fs.Fixed.rfl, fun _ => by simp⟩
  · exact ⟨fun _ => Fs.Fixed.rfl, fun _ => rfl⟩
  · exact ⟨fun _ => Fs.Fixed.rfl, fun _ => rfl⟩

theorem act_nfs (h : s.act a = some s') : s.nfs ≤ s'.nfs := by
  rcases act_cases h with ⟨t, addr, -, rfl⟩ | ⟨t, fs, pc, c, rp, -, h⟩ | ⟨t, fs, m, c, pc, -, h⟩ |
    ⟨t, fs, -, rfl⟩ | ⟨t, fs, name, -, rfl⟩ | ⟨t, fs, -, rfl⟩ | ⟨api, -, rfl⟩ | ⟨m, -, rfl⟩
  · exact Sys.dialStep_nfs
  · exact (redialStep_nfs h).ge
  · cases pc <;> simp only [Sys.watcherStep] at h <;> (try split_ifs at h) <;> cases h <;>
      exact le_rfl
  · unfold Sys.closeStep; split <;> exact le_rfl
  · exact Sys.fsysStep_nfs
  · unfold Sys.rpcStep; split <;> exact le_rfl
  · exact le_rfl
  · exact le_rfl

/-- Handle numbers from `nfs` on stand for no handle. -/
def Unused (s : Sys) : Prop :=
  ∀ fs, s.nfs ≤ fs → s.fss fs = Fs.unused

theorem Unused.step (hf : Fresh s) (hs : Unused s) (h : s.act a = some s') : Unused s' :=
  fun fs hfs => by
    rw [(act_fss hf h fs).2 hfs]
    exact hs fs ((act_nfs h).trans hfs)

/-! ### What a step adds -/

section Adds

variable {t fs v u : Nat} {pc : RedialPc} {c : Option String} {r : Reply}

/-- A watcher of `fs` changes no other handle. -/
theorem watcherStep_fss_ne {m c : Nat} {pc : WatcherPc} (h : s.watcherStep t fs m c pc = some s')
    (hv : v ≠ fs) : s'.fss v = s.fss v := by
  cases pc <;> simp only [Sys.watcherStep] at h <;> (try split_ifs at h) <;> cases h <;>
    simp [Sys.setThread, Sys.setFs, setAt_noteq hv]

theorem watcherStep_threads {m c : Nat} {pc : WatcherPc} (h : s.watcherStep t fs m c pc = some s')
    (hut : u ≠ t) : s'.threads u = s.threads u := by
  cases pc <;> simp only [Sys.watcherStep] at h <;> (try split_ifs at h) <;> cases h <;>
    simp [Sys.setThread, Sys.setFs, setAt_noteq hut]

theorem watcherStep_self {m c : Nat} {pc : WatcherPc} (h : s.watcherStep t fs m c pc = some s') :
    (∃ pc', s'.threads t = .watcher fs m c pc') ∨ s'.threads t = .done .watcher := by
  cases pc <;> simp only [Sys.watcherStep] at h <;> (try split_ifs at h) <;> cases h <;>
    simp [Sys.setThread]

/-- A goroutine changes only by its own step, or when it is started: numbered `nthread`, as a
call of the program or as the watcher of a `Redial`. -/
theorem act_thread (h : s.act a = some s') (hu : s'.threads u ≠ s.threads u) :
    (∃ addr, s.threads u = .dial addr ∧ s' = s.dialStep u addr) ∨
    (∃ fs pc c r, s.threads u = .redial fs pc c ∧ s.redialStep u fs c r pc = some s') ∨
    (∃ fs m c pc, s.threads u = .watcher fs m c pc ∧ s.watcherStep u fs m c pc = some s') ∨
    (∃ fs, s.threads u = .close fs ∧ s' = s.closeStep u fs) ∨
    (∃ fs name, s.threads u = .fsys fs name ∧ s' = s.fsysStep u fs name) ∨
    (∃ fs, s.threads u = .rpc fs ∧ s' = s.rpcStep u fs) ∨
    u = s.nthread ∧
      ((∃ api : Api, s'.threads u = api.thread) ∨
        ∃ fs m c, s'.threads u = .watcher fs m c .hup) := by
  rcases act_cases h with ⟨t, addr, ht, rfl⟩ | ⟨t, fs, pc, c, r, ht, h⟩ | ⟨t, fs, m, c, pc, ht, h⟩ |
    ⟨t, fs, ht, rfl⟩ | ⟨t, fs, name, ht, rfl⟩ | ⟨t, fs, ht, rfl⟩ | ⟨api, -, rfl⟩ | ⟨m, -, rfl⟩
  · obtain rfl : u = t := by_contra fun hne => hu (Sys.dialStep_threads hne)
    exact .inl ⟨addr, ht, rfl⟩
  · by_cases hut : u = t
    · subst hut; exact .inr (.inl ⟨fs, pc, c, r, ht, h⟩)
    · rcases redialStep_threads h hut with h' | ⟨hn, m, h'⟩
      · exact absurd h' hu
      · exact .inr (.inr (.inr (.inr (.inr (.inr ⟨hn, .inr ⟨fs, m, _, h'⟩⟩)))))
  · obtain rfl : u = t := by_contra fun hne => hu (watcherStep_threads h hne)
    exact .inr (.inr (.inl ⟨fs, m, c, pc, ht, h⟩))
  · obtain rfl : u = t := by_contra fun hne => hu (Sys.closeStep_threads hne)
    exact .inr (.inr (.inr (.inl ⟨fs, ht, rfl⟩)))
  · obtain rfl : u = t := by_contra fun hne => hu (Sys.fsysStep_threads hne)
    exact .inr (.inr (.inr (.inr (.inl ⟨fs, name, ht, rfl⟩))))
  · obtain rfl : u = t := by_contra fun hne => hu (Sys.rpcStep_threads hne)
    exact .inr (.inr (.inr (.inr (.inr (.inl ⟨fs, ht, rfl⟩)))))
  · by_cases hn : u = s.nthread
    · subst hn
      exact .inr (.inr (.inr (.inr (.inr (.inr ⟨rfl, .inl ⟨api, by simp [Sys.spawn]⟩⟩)))))
    · exact absurd (by simp [Sys.spawn, setAt_noteq hn]) hu
  · exact absurd rfl hu

/-- A goroutine finishes only by its own step: a cache hit of `Dial`, a return of `Redial`
(without error only from `install`), a successful `Fsys`, or a result naming no handle. -/
theorem act_done (h : s.act a = some s') {ret : Ret} (hu : s'.threads u = .done ret)
    (hne : s.threads u ≠ .done ret) :
    (∃ addr fs, s.threads u = .dial addr ∧ s.dials (fillAddr addr) = some fs ∧
      ret = .dial addr (some fs) none) ∨
    (∃ fs pc c e, s.threads u = .redial fs pc c ∧ ret = .ofRedial fs c e ∧
      (e = none → ∃ m, pc = .install m)) ∨
    (∃ src name, s.threads u = .fsys src name ∧ ret = .fsys (some s.nfs) none ∧
      (name = "main" ∨ s.trees (s.fss src).trees name = true) ∧ s' = s.fsysStep u src name) ∨
    ret.handle = none := by
  rcases act_thread h (fun he => hne (he ▸ hu)) with ⟨addr, ht, rfl⟩ | ⟨fs, pc, c, r, ht, h⟩ |
    ⟨fs, m, c, pc, ht, h⟩ | ⟨fs, ht, rfl⟩ | ⟨fs, name, ht, rfl⟩ | ⟨fs, ht, rfl⟩ |
    ⟨-, ⟨api, h'⟩ | ⟨fs, m, c, h'⟩⟩
  · rcases @Sys.dialStep_self s u addr with h' | ⟨h', -⟩ | ⟨fs, hfs, h'⟩ <;>
      rw [h'] at hu <;> cases hu
    exact .inl ⟨addr, fs, ht, hfs, rfl⟩
  · rcases redialStep_self h with ⟨pc', h'⟩ | ⟨e, h', he⟩ <;> rw [h'] at hu <;> cases hu
    exact .inr (.inl ⟨fs, pc, c, e, ht, rfl, he⟩)
  · rcases watcherStep_self h with ⟨pc', h'⟩ | h' <;> rw [h'] at hu <;> cases hu
    exact .inr (.inr (.inr rfl))
  · rcases @Sys.closeStep_self s u fs with h' | h' <;> rw [h'] at hu <;>
      cases hu
    exact .inr (.inr (.inr rfl))
  · rcases @Sys.fsysStep_self s u fs name with ⟨h', hg⟩ | ⟨e, h'⟩ <;>
      rw [h'] at hu <;> cases hu
    · exact .inr (.inr (.inl ⟨fs, name, ht, rfl, hg, rfl⟩))
    · exact .inr (.inr (.inr rfl))
  · rcases @Sys.rpcStep_self s u fs with h' | h' <;> rw [h'] at hu <;> cases hu
    exact .inr (.inr (.inr rfl))
  · rw [h'] at hu; cases api <;> cases hu
  · rw [h'] at hu; cases hu

/-- A cache entry is added only by the `install` step of a `Redial` of its handle, under the
handle's `raddr`. -/
theorem act_dials (h : s.act a = some s') {k : String} (hk : s'.dials k = some v) :
    s.dials k = some v ∨ ∃ t m c, s.threads t = .redial v (.install m) c ∧ k = (s.fss v).raddr ∧
      s.redialStep t v c {} (.install m) = some s' := by
  rcases act_cases h with ⟨t, addr, -, rfl⟩ | ⟨t, fs, pc, c, rp, ht, h⟩ | ⟨t, fs, m, c, pc, -, h⟩ |
    ⟨t, fs, -, rfl⟩ | ⟨t, fs, name, -, rfl⟩ | ⟨t, fs, -, rfl⟩ | ⟨api, -, rfl⟩ | ⟨m, -, rfl⟩
  · exact .inl (by simpa using hk)
  · cases pc <;> simp only [Sys.redialStep] at h <;> repeat' (first | split at h | split_ifs at h)
    all_goals cases h
    all_goals simp only [Sys.setThread, Sys.setFs, Sys.closeMux, Sys.teardown, Sys.newMux, Sys.ret,
      Sys.spawn, setAt_apply] at hk
    all_goals first | exact .inl hk | skip
    split_ifs at hk with hk'
    · cases hk; exact .inr ⟨t, _, c, ht, hk', rfl⟩
    · exact .inl hk
  · cases pc <;> simp only [Sys.watcherStep] at h <;> (try split_ifs at h) <;> cases h <;>
      simp only [Sys.setThread, Sys.setFs, setAt_apply] at hk
    all_goals first | exact .inl hk | (split_ifs at hk; simp_all)
  · exact .inl (by simpa using hk)
  · exact .inl (by simpa using hk)
  · exact .inl (by simpa using hk)
  · exact .inl hk
  · exact .inl hk

/-- A handle becomes open only at the selected-tree check of its `Redial`, when the tree was
found, or as an `Fsys` copy of an open handle. -/
theorem act_open (h : s.act a = some s') (hv : (s'.fss v).closed = false) :
    (s.fss v).closed = false ∨
    (∃ t m c, s.threads t = .redial v (.check m) c ∧
      s.trees (s.fss v).trees (s.fss v).fsys = true ∧
      s' = (s.setFs v fun f => { f with m := some m, closed := false }).setThread t
        (.redial v (.install m) c)) ∨
    (∃ t src name, s.threads t = .fsys src name ∧ v = s.nfs ∧ (s.fss src).closed = false ∧
      (name = "main" ∨ s.trees (s.fss src).trees name = true) ∧ s' = s.fsysStep t src name) := by
  rcases act_cases h with ⟨t, addr, -, rfl⟩ | ⟨t, fs, pc, c, rp, ht, h⟩ | ⟨t, fs, m, c, pc, -, h⟩ |
    ⟨t, fs, -, rfl⟩ | ⟨t, fs, name, ht, rfl⟩ | ⟨t, fs, -, rfl⟩ | ⟨api, -, rfl⟩ | ⟨m, -, rfl⟩
  · left
    revert hv; unfold Sys.dialStep; dsimp only
    split
    · exact id
    split
    · exact id
    simp only [Sys.setThread, setAt_apply]
    split_ifs <;> simp
  · by_cases hvf : v = fs
    · subst hvf
      cases pc <;> simp only [Sys.redialStep] at h <;> repeat' (first | split at h | split_ifs at h)
      all_goals cases h
      all_goals
        first
        | exact .inr (.inl ⟨t, _, _, ht, ‹_›, rfl⟩)
        | (left; simp_all [Sys.setThread, Sys.setFs, Sys.closeMux, Sys.teardown, Sys.newMux,
            Sys.ret, Sys.spawn])
    · exact .inl (by rwa [redialStep_fss_ne h hvf] at hv)
  · left
    by_cases hvf : v = fs
    · subst hvf
      cases pc <;> simp only [Sys.watcherStep] at h <;> (try split_ifs at h) <;> cases h <;>
        simp_all [Sys.setThread, Sys.setFs]
    · rwa [watcherStep_fss_ne h hvf] at hv
  · exact .inl (by simpa using hv)
  · by_cases hg : name = "main" ∨ s.trees (s.fss fs).trees name = true
    · by_cases hvn : v = s.nfs
      · subst hvn
        refine .inr (.inr ⟨t, fs, name, ht, rfl, ?_, hg, rfl⟩)
        simpa [Sys.fsysStep, hg, Sys.setThread] using hv
      · left; simpa [Sys.fsysStep, hg, Sys.setThread, setAt_noteq hvn] using hv
    · left; simpa [Sys.fsysStep, hg, Sys.setThread] using hv
  · exact .inl (by simpa using hv)
  · exact .inl hv
  · exact .inl hv

end Adds

/-! ### The handle lock -/

/-- What a `Redial` at `pc` relies on about its handle `f`, whose trees map is `tr`, while it
holds the lock. -/
def RedialPc.Holds (f : Fs) (tr : String → Bool) : RedialPc → Prop
  | .start => True
  | .teardown => f.closed = false
  | .dial | .trees _ => f.closed = true
  | .check _ => f.closed = true ∧ tr "main" = true
  | .install m => f.closed = false ∧ f.m = some m ∧ tr "main" = true

theorem RedialPc.Holds.mono {f : Fs} {tr tr' : String → Bool} {pc : RedialPc}
    (h : pc.Holds f tr) (htr : ∀ n, tr n = true → tr' n = true) : pc.Holds f tr' := by
  cases pc <;> simp_all [RedialPc.Holds]

/-- **The lock discipline of `Redial`.** A `Redial` past its first step holds its handle's
lock, no two are past it on one handle, and each has what its next step relies on. -/
structure Locked (s : Sys) : Prop where
  locked : ∀ t fs pc c, s.threads t = .redial fs pc c → pc ≠ .start → (s.fss fs).locked = true
  unique : ∀ t u fs pc pc' c c', s.threads t = .redial fs pc c → s.threads u = .redial fs pc' c' →
    pc ≠ .start → pc' ≠ .start → t = u
  holds : ∀ t fs pc c, s.threads t = .redial fs pc c →
    pc.Holds (s.fss fs) (s.trees (s.fss fs).trees)

namespace Locked

theorem init : Locked Sys.init :=
  ⟨fun _ _ _ _ h => (by cases h), fun _ _ _ _ _ _ _ h => (by cases h),
    fun _ _ _ _ h => (by cases h)⟩

/-- A step that starts `Redial`s only at their first step, and changes neither the handles of
running ones nor any trees map but by adding names, keeps `Locked`. -/
theorem frame (hs : Locked s)
    (hth : ∀ u fs pc c, s'.threads u = .redial fs pc c →
      s.threads u = .redial fs pc c ∨ pc = .start)
    (hfs : ∀ u fs pc c, s.threads u = .redial fs pc c → pc ≠ .start → s'.fss fs = s.fss fs)
    (htr : ∀ r n, s.trees r n = true → s'.trees r n = true) : Locked s' where
  locked t fs pc c ht hpc := by
    rcases hth t fs pc c ht with ht | rfl
    · rw [hfs t fs pc c ht hpc]; exact hs.locked t fs pc c ht hpc
    · exact absurd rfl hpc
  unique t u fs pc pc' c c' ht hu hpc hpc' := by
    rcases hth _ _ _ _ ht with ht | rfl
    · rcases hth _ _ _ _ hu with hu | rfl
      · exact hs.unique t u fs pc pc' c c' ht hu hpc hpc'
      · exact absurd rfl hpc'
    · exact absurd rfl hpc
  holds t fs pc c ht := by
    rcases hth _ _ _ _ ht with ht | rfl
    · by_cases hpc : pc = .start
      · subst hpc; trivial
      · rw [hfs _ _ _ _ ht hpc]; exact (hs.holds _ _ _ _ ht).mono (htr _)
    · trivial

/-- Every other `Redial` of the handle of a `Redial` that can step is at its first step. -/
theorem others_start (hs : Locked s) {t u fs : Nat} {pc pc' : RedialPc} {c c' : Option String}
    (ht : s.threads t = .redial fs pc c) (hown : pc = .start → (s.fss fs).locked = false)
    (hu : s.threads u = .redial fs pc' c') (hne : u ≠ t) : pc' = .start := by
  by_contra hpc'
  by_cases hpc : pc = .start
  · have := hs.locked u fs pc' c' hu hpc'
    simp_all
  · exact hne (hs.unique u t fs pc' pc c' c hu ht hpc' hpc)

/-- A step of a `Redial` of `fs` that changes no other goroutine into a `Redial`, no other
handle, and no trees map but by adding names, keeps `Locked` when its own next point is
sound. -/
theorem move (hs : Locked s) {t fs : Nat} {pc : RedialPc} {c : Option String}
    (ht : s.threads t = .redial fs pc c) (hown : pc = .start → (s.fss fs).locked = false)
    (hth : ∀ u fs' pc' c', u ≠ t → s'.threads u = .redial fs' pc' c' →
      s.threads u = .redial fs' pc' c')
    (hfs : ∀ fs', fs' ≠ fs → s'.fss fs' = s.fss fs')
    (htr : ∀ r n, s.trees r n = true → s'.trees r n = true)
    (hself : ∀ fs' pc' c', s'.threads t = .redial fs' pc' c' → fs' = fs ∧
      (pc' ≠ .start → (s'.fss fs).locked = true) ∧
        pc'.Holds (s'.fss fs) (s'.trees (s'.fss fs).trees)) :
    Locked s' := by
  -- a running `Redial` other than `t` works on another handle
  have hother : ∀ u fs' pc' c', u ≠ t → s'.threads u = .redial fs' pc' c' → pc' ≠ .start →
      s.threads u = .redial fs' pc' c' ∧ fs' ≠ fs := by
    intro u fs' pc' c' hne hu hpc'
    refine ⟨hth u fs' pc' c' hne hu, fun hfs' => hpc' ?_⟩
    subst hfs'
    exact hs.others_start ht hown (hth u _ pc' c' hne hu) hne
  refine ⟨fun u fs' pc' c' hu hpc' => ?_, fun u v fs' pc' pc'' c' c'' hu hv hpc' hpc'' => ?_,
    fun u fs' pc' c' hu => ?_⟩
  · by_cases hne : u = t
    · subst hne; obtain ⟨rfl, hl, -⟩ := hself _ _ _ hu; exact hl hpc'
    · obtain ⟨hu, hfs'⟩ := hother u fs' pc' c' hne hu hpc'
      rw [hfs fs' hfs']; exact hs.locked u fs' pc' c' hu hpc'
  · by_cases hut : u = t
    · by_cases hvt : v = t
      · rw [hut, hvt]
      · subst hut; obtain ⟨rfl, -⟩ := hself _ _ _ hu
        exact absurd rfl (hother v _ pc'' c'' hvt hv hpc'').2
    · by_cases hvt : v = t
      · subst hvt; obtain ⟨rfl, -⟩ := hself _ _ _ hv
        exact absurd rfl (hother u _ pc' c' hut hu hpc').2
      · exact hs.unique u v fs' pc' pc'' c' c'' (hother u _ _ _ hut hu hpc').1
          (hother v _ _ _ hvt hv hpc'').1 hpc' hpc''
  · by_cases hne : u = t
    · subst hne; obtain ⟨rfl, -, hh⟩ := hself _ _ _ hu; exact hh
    · by_cases hpc' : pc' = .start
      · subst hpc'; trivial
      · obtain ⟨hu, hfs'⟩ := hother u fs' pc' c' hne hu hpc'
        rw [hfs fs' hfs']; exact (hs.holds u fs' pc' c' hu).mono (htr _)

/-- A `Redial` step leaves its own goroutine, if still a `Redial`, on its handle, locked, with
what its next step relies on. -/
theorem redialStep_next (hs : Locked s) {t fs : Nat} {pc : RedialPc} {c : Option String}
    {r : Reply} (ht : s.threads t = .redial fs pc c) (h : s.redialStep t fs c r pc = some s')
    {fs' : Nat} {pc' : RedialPc} {c' : Option String} (h' : s'.threads t = .redial fs' pc' c') :
    fs' = fs ∧ (pc' ≠ .start → (s'.fss fs).locked = true) ∧
      pc'.Holds (s'.fss fs) (s'.trees (s'.fss fs).trees) := by
  have hh := hs.holds t fs pc c ht
  have hl := hs.locked t fs pc c ht
  cases pc <;> simp only [Sys.redialStep] at h <;> repeat' (first | split at h | split_ifs at h)
  all_goals cases h
  all_goals simp only [Sys.setThread, Sys.ret, setAt_same, Thread.redial.injEq, reduceCtorEq] at h'
  all_goals obtain ⟨rfl, rfl, rfl⟩ := h'
  all_goals simp_all [RedialPc.Holds, Sys.setThread, Sys.setFs, Sys.closeMux, Sys.teardown,
    Sys.newMux, getTrees_main]

theorem redialStep (hs : Locked s) {t fs : Nat} {pc : RedialPc} {c : Option String} {r : Reply}
    (ht : s.threads t = .redial fs pc c) (h : s.redialStep t fs c r pc = some s') :
    Locked s' := by
  have hown : pc = .start → (s.fss fs).locked = false := by
    rintro rfl
    simp only [Sys.redialStep] at h
    split_ifs at h with hl <;> simpa using hl
  refine hs.move ht hown (fun u fs' pc' c' hne hu => ?_) (fun fs' hne => redialStep_fss_ne h hne)
    (redialStep_trees h) (fun fs' pc' c' h' => redialStep_next hs ht h h')
  rcases redialStep_threads h hne with e | ⟨-, m, e⟩ <;> rw [e] at hu
  · exact hu
  · cases hu

/-- Every step keeps `Locked`. -/
theorem step (hf : Fresh s) (hs : Locked s) {a : Act} (h : s.act a = some s') : Locked s' := by
  -- the handle of a running `Redial` is allocated, so a new handle is another one
  have hlt : ∀ u fs pc c, s.threads u = .redial fs pc c → fs < s.nfs := fun u fs pc c hu =>
    hf.handle_lt u fs (by simp [hu, Thread.handle])
  rcases act_cases h with ⟨t, addr, ht, rfl⟩ | ⟨t, fs, pc, c, r, ht, h⟩ | ⟨t, fs, m, c, pc, ht, h⟩ |
    ⟨t, fs, ht, rfl⟩ | ⟨t, fs, name, ht, rfl⟩ | ⟨t, fs, ht, rfl⟩ | ⟨api, -, rfl⟩ | ⟨m, -, rfl⟩
  · refine hs.frame (fun u fs pc c hu => ?_)
      (fun u fs pc c hu _ => Sys.dialStep_fss (hlt _ _ _ _ hu))
      (by simp)
    by_cases hut : u = t
    · subst hut
      unfold Sys.dialStep at hu; dsimp only at hu
      split at hu
      · simp [Sys.setThread] at hu
      · split at hu <;> simp_all [Sys.setThread]
    · exact .inl (by rwa [Sys.dialStep_threads hut] at hu)
  · exact hs.redialStep ht h
  · cases pc <;> simp only [Sys.watcherStep] at h <;> (try split_ifs at h with hl) <;> cases h <;>
      refine hs.frame (fun u fs' pc' c' hu => .inl ?_) (fun u fs' pc' c' hu hpc => ?_)
        (fun _ _ h => h) <;>
      simp only [Sys.setThread, Sys.setFs, setAt_apply] at hu ⊢ <;>
      (try split_ifs at hu) <;> (try split_ifs) <;> simp_all
    -- the watcher's `closed = true` waits for the lock no running `Redial` leaves free
    exact absurd (hs.locked u _ pc' c' hu hpc) (by simp [hl])
  · refine hs.frame (fun u fs pc c hu => .inl ?_) (fun _ _ _ _ _ _ => by simp) (by simp)
    by_cases hut : u = t
    · subst hut; unfold Sys.closeStep at hu; split at hu <;> simp [Sys.setThread] at hu
    · rwa [Sys.closeStep_threads hut] at hu
  · refine hs.frame (fun u fs pc c hu => .inl ?_)
      (fun u fs pc c hu _ => Sys.fsysStep_fss (hlt _ _ _ _ hu))
      (by simp)
    by_cases hut : u = t
    · subst hut; unfold Sys.fsysStep at hu; dsimp only at hu
      split at hu <;> simp [Sys.setThread] at hu
    · rwa [Sys.fsysStep_threads hut] at hu
  · refine hs.frame (fun u fs pc c hu => .inl ?_) (fun _ _ _ _ _ _ => by simp) (by simp)
    by_cases hut : u = t
    · subst hut; unfold Sys.rpcStep at hu; split at hu <;> simp [Sys.setThread] at hu
    · rwa [Sys.rpcStep_threads hut] at hu
  · refine hs.frame (fun u fs pc c hu => ?_) (fun _ _ _ _ _ _ => rfl) (fun _ _ h => h)
    simp only [Sys.spawn, setAt_apply] at hu
    split_ifs at hu
    · cases api <;> simp_all [Api.thread]
    · exact .inl hu
  · exact hs.frame (fun _ _ _ _ hu => .inl hu) (fun _ _ _ _ _ _ => rfl) (fun _ _ h => h)

end Locked

/-! ### Open handles -/

/-- **An open handle has a mux.** -/
def Open (s : Sys) : Prop :=
  ∀ fs, (s.fss fs).closed = false → (s.fss fs).m ≠ none

theorem Open.init : Open Sys.init := fun _ h => by cases h

/-- A `Redial` step leaves its handle, when open, with a mux. -/
theorem redialStep_open {t fs : Nat} {pc : RedialPc} {c : Option String} {r : Reply}
    (hh : pc.Holds (s.fss fs) (s.trees (s.fss fs).trees))
    (ho : (s.fss fs).closed = false → (s.fss fs).m ≠ none)
    (h : s.redialStep t fs c r pc = some s') (hc : (s'.fss fs).closed = false) :
    (s'.fss fs).m ≠ none := by
  cases pc <;> simp only [Sys.redialStep] at h <;> repeat' (first | split at h | split_ifs at h)
  all_goals cases h
  all_goals simp_all [RedialPc.Holds, Sys.setThread, Sys.setFs, Sys.closeMux, Sys.teardown,
    Sys.newMux, Sys.ret, Sys.spawn]

theorem Open.step (hl : Locked s) (hs : Open s) (h : s.act a = some s') : Open s' := by
  rcases act_cases h with ⟨t, addr, ht, rfl⟩ | ⟨t, fs, pc, c, rp, ht, h⟩ |
    ⟨t, fs, m, c, pc, ht, h⟩ |
    ⟨t, fs, ht, rfl⟩ | ⟨t, fs, name, ht, rfl⟩ | ⟨t, fs, ht, rfl⟩ | ⟨api, -, rfl⟩ | ⟨m, -, rfl⟩
  · unfold Sys.dialStep; dsimp only
    split
    · exact hs
    · split
      · exact hs
      · intro v hv
        simp only [Sys.setThread, setAt_apply] at hv ⊢
        split_ifs at hv ⊢
        exact hs v hv
  · intro v hv
    by_cases hvf : v = fs
    · subst hvf
      exact redialStep_open (hl.holds t v pc c ht) (hs v) h hv
    · rw [redialStep_fss_ne h hvf] at hv ⊢
      exact hs v hv
  · cases pc <;> simp only [Sys.watcherStep] at h <;> (try split_ifs at h) <;> cases h
    all_goals
      intro v hv
      simp only [Sys.setThread, Sys.setFs, setAt_apply] at hv ⊢
      try split_ifs at hv ⊢
      simp_all [Open]
  · intro v hv
    simp only [Sys.closeStep_fss] at hv ⊢
    exact hs v hv
  · unfold Sys.fsysStep; dsimp only
    split
    · intro v hv
      simp only [Sys.setThread, setAt_apply] at hv ⊢
      split_ifs at hv ⊢
      · exact hs fs hv
      · exact hs v hv
    · exact hs
  · intro v hv
    simp only [Sys.rpcStep_fss] at hv ⊢
    exact hs v hv
  · exact hs
  · exact hs

end Rzx
