import Clive.Rzx.Reach

/-!
# `Redial` of an open handle and its watcher wait for each other

`Redial` of an open handle closes the mux and then, still holding the handle's lock, waits on
`fs.closewc` for the hangup watcher to finish. The watcher, woken by that very close, first
takes the lock to mark the handle closed, and closes `fs.closewc` only after that. `Stuck`
describes the state both reach; `Stuck.step` shows that no step of any goroutine, no new call
of the program and no hangup lets either go on, and `redial_deadlock` reaches the state with
one `Dial` and one `Redial`.
-/

namespace Rzx

variable {s s' : Sys} {a : Act}

/-! ### Close-wait channels and locks under a step -/

section Channels

variable {t fs v : Nat} {pc : RedialPc} {c : Option String} {r : Reply}

theorem redialStep_chans (h : s.redialStep t fs c r pc = some s') : s'.chans = s.chans := by
  cases pc <;> simp only [Sys.redialStep] at h <;> repeat' (first | split at h | split_ifs at h)
  all_goals cases h
  all_goals rfl

/-- A `Redial` keeps its handle's close-wait channel or gives it a fresh one. -/
theorem redialStep_closewc (h : s.redialStep t fs c r pc = some s') :
    s.nchan ≤ s'.nchan ∧
      ((s'.fss fs).closewc = (s.fss fs).closewc ∨ (s'.fss fs).closewc = s.nchan) := by
  cases pc <;> simp only [Sys.redialStep] at h <;> repeat' (first | split at h | split_ifs at h)
  all_goals cases h
  all_goals simp [Sys.setThread, Sys.setFs, Sys.closeMux, Sys.teardown, Sys.newMux, Sys.ret,
    Sys.spawn]

/-- A watcher changes no channel but its own, and no handle's channel or lock. -/
theorem watcherStep_frame {m c : Nat} {pc : WatcherPc} (h : s.watcherStep t fs m c pc = some s') :
    s'.nchan = s.nchan ∧ s'.nfs = s.nfs ∧ (∀ x, x ≠ c → s'.chans x = s.chans x) ∧
      ∀ v, (s'.fss v).closewc = (s.fss v).closewc ∧ (s'.fss v).locked = (s.fss v).locked := by
  cases pc <;> simp only [Sys.watcherStep] at h <;> (try split_ifs at h) <;> cases h <;>
    refine ⟨rfl, rfl, fun x hx => ?_, fun v => ?_⟩ <;>
    simp only [Sys.setThread, Sys.setFs, setAt_apply] <;> (try split_ifs) <;> simp_all

/-- The handle `Dial` builds has a fresh channel. -/
theorem dialStep_new {t : Nat} {addr : String} (hv : s.nfs ≤ v)
    (hv' : v < (s.dialStep t addr).nfs) :
    s.nchan ≤ (s.dialStep t addr).nchan ∧ ((s.dialStep t addr).fss v).closewc = s.nchan := by
  revert hv'
  unfold Sys.dialStep; dsimp only
  split
  · intro h; simp [Sys.setThread] at h; omega
  · split
    · intro h; simp [Sys.setThread] at h; omega
    · intro h
      simp only [Sys.setThread] at h ⊢
      rw [show v = s.nfs by omega]
      simp

theorem dialStep_nchan {t : Nat} {addr : String} : s.nchan ≤ (s.dialStep t addr).nchan := by
  unfold Sys.dialStep; dsimp only
  split
  · exact le_rfl
  · split
    · exact le_rfl
    · exact Nat.le_succ _

/-- The handle `Fsys` builds is a copy, lock and channel included. -/
theorem fsysStep_new {t src : Nat} {name : String} (hv : s.nfs ≤ v)
    (hv' : v < (s.fsysStep t src name).nfs) :
    (s.fsysStep t src name).fss v = { s.fss src with fsys := name } := by
  revert hv'
  unfold Sys.fsysStep; dsimp only
  split
  · intro h
    simp only [Sys.setThread] at h ⊢
    rw [show v = s.nfs by omega]
    simp
  · intro h; simp [Sys.setThread] at h; omega

end Channels

/-! ### The stuck state -/

/-- Goroutine `t`, a `Redial` of `fs` at `teardown`, holds the lock of `fs` and waits for the
close-wait channel `c`; the watcher `w` of `fs`, the one goroutine that can close `c`, waits
for that lock. No other `Redial` holds a handle with channel `c` (`fs` or one of its `Fsys`
copies), and every such handle is locked. -/
structure Stuck (t w fs m c : Nat) (s : Sys) : Prop where
  redial : s.threads t = .redial fs .teardown none
  watcher : s.threads w = .watcher fs m c .lock
  lock : (s.fss fs).locked = true
  wait : (s.fss fs).closewc = c
  shut : s.chans c = false
  fresh : c < s.nchan
  copies : ∀ v < s.nfs, (s.fss v).closewc = c → (s.fss v).locked = true
  alone : ∀ u fs' m' pc, s.threads u = .watcher fs' m' c pc → u = w
  owner : ∀ u v pc c', s.threads u = .redial v pc c' → pc ≠ .start → (s.fss v).closewc = c → u = t

namespace Stuck

variable {t w fs m c : Nat}

/-- No `Redial` of a handle with channel `c` can step. -/
theorem redial_blocked (hf : Fresh s) (hs : Stuck t w fs m c s) {u v : Nat} {pc : RedialPc}
    {c' : Option String} (hu : s.threads u = .redial v pc c') (hv : (s.fss v).closewc = c)
    (r : Reply) : s.redialStep u v c' r pc = none := by
  by_cases hpc : pc = .start
  · subst hpc
    have hlt : v < s.nfs := hf.handle_lt u v (by simp [hu, Thread.handle])
    simp [Sys.redialStep, hs.copies v hlt hv]
  · obtain rfl := hs.owner u v pc c' hu hpc hv
    rw [hs.redial] at hu
    cases hu
    simp [Sys.redialStep, hs.wait, hs.shut]

/-- No watcher with channel `c` can step. -/
theorem watcher_blocked (hs : Stuck t w fs m c s) {u fs' m' : Nat} {pc : WatcherPc}
    (hu : s.threads u = .watcher fs' m' c pc) : s.watcherStep u fs' m' c pc = none := by
  obtain rfl := hs.alone u fs' m' pc hu
  rw [hs.watcher] at hu
  cases hu
  simp [Sys.watcherStep, hs.lock]

/-- A step that keeps `t`, `w`, the lock and channel of `fs` and channel `c`, gives channel `c`
to no handle that had another and takes the lock from none that has it, and starts or moves no
goroutine onto channel `c`, keeps `Stuck`. -/
theorem frame (hs : Stuck t w fs m c s) (hf : Fresh s)
    (ht : s'.threads t = s.threads t) (hw : s'.threads w = s.threads w)
    (hfs : (s'.fss fs).closewc = (s.fss fs).closewc ∧ (s'.fss fs).locked = (s.fss fs).locked)
    (hc : s'.chans c = s.chans c) (hn : s.nchan ≤ s'.nchan)
    (hold : ∀ v < s.nfs, (s'.fss v).closewc = c →
      (s.fss v).closewc = c ∧ (s'.fss v).locked = (s.fss v).locked)
    (hnew : ∀ v, s.nfs ≤ v → v < s'.nfs → (s'.fss v).closewc = c → (s'.fss v).locked = true)
    (hth : ∀ u, s'.threads u = s.threads u ∨
      (∀ fs' m' pc, s'.threads u ≠ .watcher fs' m' c pc) ∧
      ∀ v pc c', s'.threads u = .redial v pc c' → pc ≠ .start → (s'.fss v).closewc ≠ c) :
    Stuck t w fs m c s' where
  redial := ht ▸ hs.redial
  watcher := hw ▸ hs.watcher
  lock := hfs.2 ▸ hs.lock
  wait := hfs.1 ▸ hs.wait
  shut := hc ▸ hs.shut
  fresh := lt_of_lt_of_le hs.fresh hn
  copies v hv hvc := by
    by_cases hlt : v < s.nfs
    · obtain ⟨hvc', hl⟩ := hold v hlt hvc
      rw [hl]; exact hs.copies v hlt hvc'
    · exact hnew v (Nat.le_of_not_lt hlt) hv hvc
  alone u fs' m' pc hu := by
    rcases hth u with hu' | ⟨hu', -⟩
    · exact hs.alone u fs' m' pc (hu' ▸ hu)
    · exact absurd hu (hu' fs' m' pc)
  owner u v pc c' hu hpc hvc := by
    rcases hth u with hu' | ⟨-, hu'⟩
    · rw [hu'] at hu
      exact hs.owner u v pc c' hu hpc
        (hold v (hf.handle_lt u v (by simp [hu, Thread.handle])) hvc).1
    · exact absurd hvc (hu' v pc c' hu hpc)

/-- **Nothing undoes it**: every step keeps `Stuck`. -/
theorem step (hi : Inv s) (hs : Stuck t w fs m c s) (h : s.act a = some s') :
    Stuck t w fs m c s' := by
  have hf := hi.fresh
  have hlt : t < s.nthread ∧ w < s.nthread :=
    ⟨hf.lt_nthread (by simp [hs.redial]), hf.lt_nthread (by simp [hs.watcher])⟩
  have hfs : fs < s.nfs := hf.handle_lt t fs (by simp [hs.redial, Thread.handle])
  rcases act_cases h with ⟨u, addr, hu, rfl⟩ | ⟨u, v, pc, c', r, hu, h⟩ |
    ⟨u, v, m', c', pc, hu, h⟩ |
    ⟨u, v, hu, rfl⟩ | ⟨u, v, name, hu, rfl⟩ | ⟨u, v, hu, rfl⟩ | ⟨api, -, rfl⟩ | ⟨m', -, rfl⟩
  · -- `Dial`: its new handle has a fresh channel
    have hut : t ≠ u := by rintro rfl; simp [hs.redial] at hu
    have huw : w ≠ u := by rintro rfl; simp [hs.watcher] at hu
    refine hs.frame hf (Sys.dialStep_threads hut) (Sys.dialStep_threads huw)
      (by rw [Sys.dialStep_fss hfs]; exact ⟨rfl, rfl⟩) (by simp) dialStep_nchan
      (fun v hv hvc => by rw [Sys.dialStep_fss hv] at hvc ⊢; exact ⟨hvc, rfl⟩)
      (fun v hv hv' hvc => absurd ((dialStep_new hv hv').2 ▸ hvc) (Nat.ne_of_gt hs.fresh))
      (fun x => ?_)
    by_cases hx : x = u
    · subst hx
      rcases @Sys.dialStep_self s x addr with e | ⟨e, -⟩ | ⟨_, -, e⟩ <;> simp [e]
    · exact .inl (Sys.dialStep_threads hx)
  · -- a `Redial` that can step works on a handle with another channel
    have hvc : (s.fss v).closewc ≠ c := fun hvc => by
      rw [hs.redial_blocked hf hu hvc r] at h; cases h
    have hut : t ≠ u := by rintro rfl; rw [hs.redial] at hu; cases hu; exact hvc hs.wait
    have huw : w ≠ u := by rintro rfl; rw [hs.watcher] at hu; cases hu
    have hvfs : fs ≠ v := by rintro rfl; exact hvc hs.wait
    obtain ⟨hn, hcw⟩ := redialStep_closewc h
    have hvc' : (s'.fss v).closewc ≠ c := by
      rcases hcw with e | e <;> rw [e]
      · exact hvc
      · exact Nat.ne_of_gt hs.fresh
    have hkeep : ∀ x, x ≠ u → x < s.nthread → s'.threads x = s.threads x := fun x hx hxn =>
      (redialStep_threads h hx).resolve_right fun ⟨e, _⟩ => by omega
    refine hs.frame hf (hkeep t hut hlt.1) (hkeep w huw hlt.2)
      (by rw [redialStep_fss_ne h hvfs]; exact ⟨rfl, rfl⟩) (by rw [redialStep_chans h]) hn
      (fun x _ hxc => ?_) (fun x hx hx' => by rw [redialStep_nfs h] at hx'; omega) (fun x => ?_)
    · have hxv : x ≠ v := by rintro rfl; exact hvc' hxc
      rw [redialStep_fss_ne h hxv] at hxc ⊢
      exact ⟨hxc, rfl⟩
    · by_cases hx : x = u
      · subst hx
        refine .inr ⟨fun fs' m' pc' e => ?_, fun v' pc' c'' e _ => ?_⟩ <;>
          rcases redialStep_self h with ⟨pc'', e'⟩ | ⟨e'', e', -⟩ <;> rw [e'] at e <;> cases e
        exact hvc'
      · rcases redialStep_threads h hx with e | ⟨-, m'', e⟩
        · exact .inl e
        · refine .inr ⟨fun fs' m' pc' e' => ?_, fun v' pc' c'' e' => by rw [e] at e'; cases e'⟩
          rw [e] at e'; cases e'; exact hvc rfl
  · -- a watcher that can step has another channel
    have hc' : c' ≠ c := by rintro rfl; rw [hs.watcher_blocked hu] at h; cases h
    have hut : t ≠ u := by rintro rfl; rw [hs.redial] at hu; cases hu
    have huw : w ≠ u := by rintro rfl; rw [hs.watcher] at hu; cases hu; exact hc' rfl
    obtain ⟨hn, hnfs, hch, hcl⟩ := watcherStep_frame h
    refine hs.frame hf (watcherStep_threads h hut) (watcherStep_threads h huw) (hcl fs)
      (hch c hc'.symm) hn.ge (fun x _ hxc => ⟨(hcl x).1 ▸ hxc, (hcl x).2⟩)
      (fun x hx hx' => by omega) (fun x => ?_)
    by_cases hx : x = u
    · subst hx
      refine .inr ⟨fun fs' m'' pc' e => ?_, fun v' pc' c'' e _ => ?_⟩ <;>
        rcases watcherStep_self h with ⟨pc'', e'⟩ | e' <;> rw [e'] at e <;> cases e
      exact hc' rfl
    · exact .inl (watcherStep_threads h hx)
  · -- `Close`
    have hut : t ≠ u := by rintro rfl; simp [hs.redial] at hu
    have huw : w ≠ u := by rintro rfl; simp [hs.watcher] at hu
    refine hs.frame hf (Sys.closeStep_threads hut) (Sys.closeStep_threads huw) (by simp)
      (by simp) (by simp) (fun x _ hxc => by simp_all) (fun x hx hx' => by simp at hx'; omega)
      (fun x => ?_)
    by_cases hx : x = u
    · subst hx
      rcases @Sys.closeStep_self s x v with e | e <;> simp [e]
    · exact .inl (Sys.closeStep_threads hx)
  · -- `Fsys`: the copy of a handle with channel `c` is locked
    have hut : t ≠ u := by rintro rfl; simp [hs.redial] at hu
    have huw : w ≠ u := by rintro rfl; simp [hs.watcher] at hu
    refine hs.frame hf (Sys.fsysStep_threads hut) (Sys.fsysStep_threads huw)
      (by rw [Sys.fsysStep_fss hfs]; exact ⟨rfl, rfl⟩) (by simp) (by simp)
      (fun x hx hxc => by rw [Sys.fsysStep_fss hx] at hxc ⊢; exact ⟨hxc, rfl⟩)
      (fun x hx hx' hxc => ?_) (fun x => ?_)
    · rw [fsysStep_new hx hx'] at hxc ⊢
      exact hs.copies v (hf.handle_lt u v (by simp [hu, Thread.handle])) hxc
    · by_cases hx : x = u
      · subst hx
        rcases @Sys.fsysStep_self s x v name with ⟨e, -⟩ | ⟨_, e⟩ <;> simp [e]
      · exact .inl (Sys.fsysStep_threads hx)
  · -- an envelope's `fs.m.Rpc()`
    have hut : t ≠ u := by rintro rfl; simp [hs.redial] at hu
    have huw : w ≠ u := by rintro rfl; simp [hs.watcher] at hu
    refine hs.frame hf (Sys.rpcStep_threads hut) (Sys.rpcStep_threads huw) (by simp)
      (by simp) (by simp) (fun x _ hxc => by simp_all) (fun x hx hx' => by simp at hx'; omega)
      (fun x => ?_)
    by_cases hx : x = u
    · subst hx
      rcases @Sys.rpcStep_self s x v with e | e <;> simp [e]
    · exact .inl (Sys.rpcStep_threads hx)
  · -- a call starts a goroutine at its first step
    refine hs.frame hf (by simp [Sys.spawn, setAt_noteq (Nat.ne_of_lt hlt.1)])
      (by simp [Sys.spawn, setAt_noteq (Nat.ne_of_lt hlt.2)]) ⟨rfl, rfl⟩ rfl le_rfl
      (fun x _ hxc => ⟨hxc, rfl⟩) (fun x hx hx' => by simp [Sys.spawn] at hx'; omega) (fun x => ?_)
    by_cases hx : x = s.nthread
    · subst hx
      right
      cases api <;> simp [Sys.spawn, Api.thread]
    · exact .inl (by simp [Sys.spawn, setAt_noteq hx])
  · -- a hangup
    exact hs.frame hf rfl rfl ⟨rfl, rfl⟩ rfl le_rfl (fun x _ hxc => ⟨hxc, rfl⟩)
      (fun x hx hx' => by simp [Sys.closeMux] at hx'; omega) (fun x => .inl rfl)

/-- **For ever**: from a stuck reachable state, every run keeps the `Redial` at `teardown` and
the watcher at `lock`. -/
theorem steps (hr : Reachable s) (hs : Stuck t w fs m c s)
    (h : Relation.ReflTransGen Step s s') : Stuck t w fs m c s' := by
  induction h with
  | refl => exact hs
  | tail hsb hbc ih =>
    obtain ⟨a, hb⟩ := hbc
    exact ih.step (hr.steps hsb).inv hb

end Stuck

/-! ### A run into it -/

/-- `Dial("h")` as in `dialRun`, then a `Redial` of the open handle `0`, in goroutine `2`. -/
def redialCall : List Act :=
  dialRun ++ [.call (.redial 0)]

/-- The `Redial` closes mux `0` and waits at `teardown`; the watcher, goroutine `1`, sees the
hangup and waits for the lock. -/
def redialMeetsWatcher : List Act :=
  [.step 2, .step 1]

theorem redialMeetsWatcher_stuck :
    Stuck 2 1 0 0 0 ((Sys.run redialCall).runFrom redialMeetsWatcher) := by
  have hr : Reachable ((Sys.run redialCall).runFrom redialMeetsWatcher) :=
    (Reachable.run (by decide)).steps (Sys.steps_runFrom (by decide))
  have hth := hr.inv.fresh.threads_eq (show _ = [.done (.dial "h" (some 0) none),
    .watcher 0 0 0 .lock, .redial 0 .teardown none] by decide)
  refine ⟨by decide, by decide, by decide, by decide, by decide, by decide, by decide,
    fun u fs' m' pc hu => ?_, fun u v pc c' hu _ _ => ?_⟩ <;>
    rw [hth] at hu <;> rcases u with _ | _ | _ | u <;> simp at hu ⊢

/-- **`Redial` of an open handle never gets past `teardown`.** After a `Dial`, the program calls
`Redial` on the open handle; in one interleaving the `Redial` closes the mux and waits for the
close-wait channel while holding the handle's lock, and the hangup watcher, the only goroutine
that closes that channel, waits for the same lock. Every later run leaves both where they
are. -/
theorem redial_deadlock :
    ∃ s₀ s, Reachable s₀ ∧ (s₀.fss 0).closed = false ∧ s₀.threads 2 = .redial 0 .start none ∧
      Relation.ReflTransGen Step s₀ s ∧ Stuck 2 1 0 0 0 s ∧
      ∀ s', Relation.ReflTransGen Step s s' →
        s'.threads 2 = .redial 0 .teardown none ∧ s'.threads 1 = .watcher 0 0 0 .lock := by
  have hr₀ : Reachable (Sys.run redialCall) := Reachable.run (by decide)
  have hrun : Relation.ReflTransGen Step (Sys.run redialCall)
      ((Sys.run redialCall).runFrom redialMeetsWatcher) := Sys.steps_runFrom (by decide)
  refine ⟨_, _, hr₀, by decide, by decide, hrun, redialMeetsWatcher_stuck, fun s' h => ?_⟩
  have hs := redialMeetsWatcher_stuck.steps (hr₀.steps hrun) h
  exact ⟨hs.redial, hs.watcher⟩

end Rzx
