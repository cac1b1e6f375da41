import Clive.Rzx.Reach

/-!
# The dial cache and the hangup watchers

`dials` maps a full address to a handle. A successful `Redial` installs its handle there and
starts a watcher; on the mux's hangup the watcher marks the handle closed, deletes the entry
and closes the handle's close-wait channel. `Dial` looks an address up and, on a miss, builds a
handle and `Redial`s it.

`CacheInv` collects what every reachable state keeps:

* every entry sits under its handle's `raddr`, and `Dial` hands out handles whose `raddr` is the
  canonical form of the address it was called with;
* a watcher past its first step has seen its mux hang up, and a `Redial` at `teardown` has hung
  up its handle's mux;
* a handle `Dial` returned or the cache holds that is open is watched: a watcher of its current
  mux has not yet marked it closed, or the `Redial` that opened it is about to start one;
* a cached handle that is closed has a watcher, of a hung-up mux, that has not yet deleted the
  entry.

What the cache does not keep: two `Dial`s of one address that both miss build two handles and
dial two muxes; and a `Redial` that starts while a watcher is between marking the handle closed
and closing the channel starts a second watcher, and the first one deletes the new entry. The
second watcher, left with the old channel, can later mark the handle closed while it is open on
a live mux (`live_mux_closed_handle`).
-/

namespace Rzx

variable {s s' : Sys} {a : Act}

/-! ### Steps on one handle -/

/-- Hangups are never undone. -/
theorem act_hup (h : s.act a = some s') {m : Nat} (hm : s.hup m = true) : s'.hup m = true := by
  rcases act_cases h with ⟨t, addr, -, rfl⟩ | ⟨t, fs, pc, c, r, -, h⟩ | ⟨t, fs, m', c, pc, -, h⟩ |
    ⟨t, fs, -, rfl⟩ | ⟨t, fs, name, -, rfl⟩ | ⟨t, fs, -, rfl⟩ | ⟨api, -, rfl⟩ | ⟨m', -, rfl⟩
  · simpa using hm
  · cases pc <;> simp only [Sys.redialStep] at h <;> repeat' (first | split at h | split_ifs at h)
    all_goals cases h
    all_goals simp only [Sys.setThread, Sys.setFs, Sys.closeMux, Sys.teardown, Sys.newMux, Sys.ret,
      Sys.spawn, setAt_apply]
    all_goals first | exact hm | (split_ifs <;> simp [hm])
  · cases pc <;> simp only [Sys.watcherStep] at h <;> (try split_ifs at h) <;> cases h <;> exact hm
  · unfold Sys.closeStep; split <;> simp only [Sys.setThread, Sys.closeMux, setAt_apply] <;>
      (try split_ifs) <;> simp [hm]
  · simpa using hm
  · simpa using hm
  · exact hm
  · simp only [Sys.closeMux, setAt_apply]; split_ifs <;> simp [hm]

/-- An allocated handle changes only by a step of a `Redial` of it, or by a watcher of it
marking it closed. -/
theorem act_fss_cases (h : s.act a = some s') {v : Nat} (hv : v < s.nfs) :
    s'.fss v = s.fss v ∨
    (∃ u pc c r, s.threads u = .redial v pc c ∧ s.redialStep u v c r pc = some s') ∨
    ∃ u m c, s.threads u = .watcher v m c .lock ∧ s'.fss v = { s.fss v with closed := true } ∧
      s'.threads u = .watcher v m c .evict := by
  rcases act_cases h with ⟨t, addr, -, rfl⟩ | ⟨t, fs, pc, c, r, ht, h⟩ | ⟨t, fs, m, c, pc, ht, h⟩ |
    ⟨t, fs, -, rfl⟩ | ⟨t, fs, name, -, rfl⟩ | ⟨t, fs, -, rfl⟩ | ⟨api, -, rfl⟩ | ⟨m, -, rfl⟩
  · exact .inl (Sys.dialStep_fss hv)
  · by_cases hvf : v = fs
    · subst hvf; exact .inr (.inl ⟨t, pc, c, r, ht, h⟩)
    · exact .inl (redialStep_fss_ne h hvf)
  · by_cases hvf : v = fs
    · subst hvf
      cases pc <;> simp only [Sys.watcherStep] at h <;> (try split_ifs at h) <;> cases h
      · exact .inl (by simp [Sys.setThread])
      · exact .inr (.inr ⟨t, m, c, ht, by simp [Sys.setThread, Sys.setFs], by simp [Sys.setThread]⟩)
      · exact .inl (by simp [Sys.setThread])
      · exact .inl (by simp [Sys.setThread])
    · exact .inl (watcherStep_fss_ne h hvf)
  · exact .inl (by simp)
  · exact .inl (Sys.fsysStep_fss hv)
  · exact .inl (by simp)
  · exact .inl rfl
  · exact .inl rfl

/-! ### Addresses -/

/-- **Cache keys.** Every cache entry sits under its handle's `raddr`. -/
def Sys.KeyOk (s : Sys) : Prop :=
  ∀ k fs, s.dials k = some fs → (s.fss fs).raddr = k

/-- **`Dial` addresses.** A `Dial`'s `Redial`, and the handle it returns, carry the canonical
form of the address `Dial` was called with. -/
def Sys.DialAddr (s : Sys) : Prop :=
  (∀ u fs pc addr, s.threads u = .redial fs pc (some addr) → (s.fss fs).raddr = fillAddr addr) ∧
  ∀ u addr fs e, s.threads u = .done (.dial addr (some fs) e) → (s.fss fs).raddr = fillAddr addr

theorem Sys.KeyOk.step (hf : Fresh s) (hk : s.KeyOk) (h : s.act a = some s') : s'.KeyOk := by
  intro k fs hfs
  rcases act_dials h hfs with hold | ⟨t, m, c, ht, rfl, -⟩
  · rw [((act_fss hf h fs).1 (hf.dials_lt k fs hold)).raddr]; exact hk k fs hold
  · rw [((act_fss hf h fs).1 (hf.handle_lt t fs (by simp [ht, Thread.handle]))).raddr]

theorem Sys.DialAddr.step (hf : Fresh s) (hk : s.KeyOk) (hd : s.DialAddr) (h : s.act a = some s') :
    s'.DialAddr := by
  -- the `raddr` of a handle a goroutine names is fixed
  have hfix : ∀ u fs, (s.threads u).handle = some fs → (s'.fss fs).raddr = (s.fss fs).raddr :=
    fun u fs hu => ((act_fss hf h fs).1 (hf.handle_lt u fs hu)).raddr
  refine ⟨fun u fs pc addr hu => ?_, fun u addr fs e hu => ?_⟩
  · by_cases hne : s'.threads u = s.threads u
    · rw [hne] at hu
      rw [hfix u fs (by simp [hu, Thread.handle])]; exact hd.1 u fs pc addr hu
    rcases act_thread h hne with ⟨addr', -, rfl⟩ | ⟨fs', pc', c, r, ht, h'⟩ |
      ⟨fs', m, c, pc', -, h'⟩ |
      ⟨fs', -, rfl⟩ | ⟨fs', name, -, rfl⟩ | ⟨fs', -, rfl⟩ | ⟨-, ⟨api, e⟩ | ⟨fs', m, c, e⟩⟩
    · rcases @Sys.dialStep_self s u addr' with e | ⟨e, hr⟩ | ⟨_, -, e⟩ <;> rw [e] at hu <;>
        cases hu
      exact hr
    · rcases redialStep_self h' with ⟨pc'', e⟩ | ⟨e', e, -⟩ <;> rw [e] at hu <;> cases hu
      rw [hfix u fs (by simp [ht, Thread.handle])]; exact hd.1 u fs pc' addr ht
    · rcases watcherStep_self h' with ⟨_, e⟩ | e <;> rw [e] at hu <;> cases hu
    · rcases @Sys.closeStep_self s u fs' with e | e <;> rw [e] at hu <;> cases hu
    · rcases @Sys.fsysStep_self s u fs' name with ⟨e, -⟩ | ⟨_, e⟩ <;> rw [e] at hu <;> cases hu
    · rcases @Sys.rpcStep_self s u fs' with e | e <;> rw [e] at hu <;> cases hu
    · rw [e] at hu; cases api <;> cases hu
    · rw [e] at hu; cases hu
  · by_cases hne : s.threads u = .done (.dial addr (some fs) e)
    · rw [hfix u fs (by simp [hne, Thread.handle, Ret.handle])]; exact hd.2 u addr fs e hne
    rcases act_done h hu hne with ⟨addr', fs', ht, hfs, he⟩ | ⟨fs', pc, c, e', ht, he, -⟩ |
      ⟨_, _, -, he, -⟩ | he
    · cases he
      rw [((act_fss hf h fs).1 (hf.dials_lt _ fs hfs)).raddr]; exact hk _ fs hfs
    · cases c with
      | none => cases he
      | some addr' =>
        simp only [Ret.ofRedial, Ret.dial.injEq] at he
        obtain ⟨rfl, hv, -⟩ := he
        split_ifs at hv
        cases hv
        rw [hfix u fs (by simp [ht, Thread.handle])]; exact hd.1 u fs pc addr ht
    · cases he
    · cases he

/-! ### Hangups seen -/

/-- **Watchers wait for the hangup.** A watcher past its first step has seen its mux hang up,
and a `Redial` at `teardown` has hung up its handle's mux. -/
structure HupSeen (s : Sys) : Prop where
  watcher : ∀ u fs m c pc, s.threads u = .watcher fs m c pc → pc ≠ .hup → s.hup m = true
  teardown : ∀ u fs c, s.threads u = .redial fs .teardown c →
    ∃ m, (s.fss fs).m = some m ∧ s.hup m = true

theorem HupSeen.init : HupSeen Sys.init :=
  ⟨fun _ _ _ _ _ h => (by cases h), fun _ _ _ h => (by cases h)⟩

theorem HupSeen.step (hi : Inv s) (hs : HupSeen s) (h : s.act a = some s') : HupSeen s' := by
  refine ⟨fun u fs m c pc hu hpc => ?_, fun u fs c hu => ?_⟩
  · by_cases hne : s'.threads u = s.threads u
    · rw [hne] at hu; exact act_hup h (hs.watcher u fs m c pc hu hpc)
    rcases act_thread h hne with ⟨addr, -, rfl⟩ | ⟨fs', pc', c', r, -, h'⟩ |
      ⟨fs', m', c', pc', ht, h'⟩ | ⟨fs', -, rfl⟩ | ⟨fs', name, -, rfl⟩ | ⟨fs', -, rfl⟩ |
      ⟨-, ⟨api, e⟩ | ⟨fs', m', c', e⟩⟩
    · rcases @Sys.dialStep_self s u addr with e | ⟨e, -⟩ | ⟨_, -, e⟩ <;> rw [e] at hu <;> cases hu
    · rcases redialStep_self h' with ⟨_, e⟩ | ⟨_, e, -⟩ <;> rw [e] at hu <;> cases hu
    · -- the watcher's own step: it leaves `hup` only when its mux has hung up
      cases pc' <;> simp only [Sys.watcherStep] at h' <;> (try split_ifs at h' with hm) <;>
        cases h' <;> simp only [Sys.setThread, setAt_same, Thread.watcher.injEq] at hu
      · obtain ⟨-, rfl, -⟩ := hu; exact hm
      all_goals first
        | (obtain ⟨-, rfl, -⟩ := hu; exact act_hup h (hs.watcher u _ _ _ _ ht (by simp)))
        | cases hu
    · rcases @Sys.closeStep_self s u fs' with e | e <;> rw [e] at hu <;> cases hu
    · rcases @Sys.fsysStep_self s u fs' name with ⟨e, -⟩ | ⟨_, e⟩ <;> rw [e] at hu <;> cases hu
    · rcases @Sys.rpcStep_self s u fs' with e | e <;> rw [e] at hu <;> cases hu
    · rw [e] at hu; cases api <;> cases hu
    · rw [e] at hu; cases hu; exact absurd rfl hpc
  · by_cases hne : s'.threads u = s.threads u
    · rw [hne] at hu
      obtain ⟨m, hm, hh⟩ := hs.teardown u fs c hu
      refine ⟨m, ?_, act_hup h hh⟩
      have hfs : fs < s.nfs := hi.fresh.handle_lt u fs (by simp [hu, Thread.handle])
      rcases act_fss_cases h hfs with e | ⟨u', pc, c', r, hu', h'⟩ | ⟨u', m', c', -, e, -⟩
      · rw [e]; exact hm
      · -- only the `Redial` at `teardown` can step on its handle, and it moves on
        by_cases hpc : pc = .start
        · subst hpc
          simp [Sys.redialStep, hi.locked.locked u fs .teardown c hu (by simp)] at h'
        obtain rfl := hi.locked.unique u' u fs pc .teardown c' c hu' hu hpc (by simp)
        rw [hu] at hu'
        cases hu'
        simp only [Sys.redialStep] at h'
        split_ifs at h'
        cases h'
        simp [Sys.setThread, hu] at hne
      · rw [e]; exact hm
    rcases act_thread h hne with ⟨addr, -, rfl⟩ | ⟨fs', pc', c', r, -, h'⟩ |
      ⟨fs', m', c', pc', -, h'⟩ |
      ⟨fs', -, rfl⟩ | ⟨fs', name, -, rfl⟩ | ⟨fs', -, rfl⟩ | ⟨-, ⟨api, e⟩ | ⟨fs', m', c', e⟩⟩
    · rcases @Sys.dialStep_self s u addr with e | ⟨e, -⟩ | ⟨_, -, e⟩ <;> rw [e] at hu <;> cases hu
    · -- a `Redial` reaches `teardown` from its first step, having hung up the mux
      cases pc' <;> simp only [Sys.redialStep] at h' <;>
        repeat' (first | split at h' | split_ifs at h')
      all_goals cases h'
      all_goals simp [Sys.setThread, Sys.ret] at hu
      obtain ⟨rfl, rfl⟩ := hu
      rename_i m hm
      exact ⟨m, by simp [Sys.setThread, Sys.setFs, Sys.closeMux, hm],
        by simp [Sys.setThread, Sys.closeMux]⟩
    · rcases watcherStep_self h' with ⟨_, e⟩ | e <;> rw [e] at hu <;> cases hu
    · rcases @Sys.closeStep_self s u fs' with e | e <;> rw [e] at hu <;> cases hu
    · rcases @Sys.fsysStep_self s u fs' name with ⟨e, -⟩ | ⟨_, e⟩ <;> rw [e] at hu <;> cases hu
    · rcases @Sys.rpcStep_self s u fs' with e | e <;> rw [e] at hu <;> cases hu
    · rw [e] at hu; cases api <;> cases hu
    · rw [e] at hu; cases hu

/-! ### Watched handles -/

/-- Handle `fs` is one `Dial` returned, or one the cache holds. -/
def Sys.Registered (s : Sys) (fs : Nat) : Prop :=
  (∃ u addr e, s.threads u = .done (.dial addr (some fs) e)) ∨ ∃ k, s.dials k = some fs

/-- Mux `m` of handle `fs` is watched: a watcher of it has not yet marked the handle closed, or
the `Redial` that opened the handle with it is about to start that watcher. -/
def Sys.Watched (s : Sys) (fs m : Nat) : Prop :=
  (∃ u c pc, s.threads u = .watcher fs m c pc ∧ (pc = .hup ∨ pc = .lock)) ∨
  ∃ u c, s.threads u = .redial fs (.install m) c

/-- **Open handles of `Dial` and of the cache are watched.** (An `Fsys` copy of an open handle
is open too, and nothing watches it.) -/
def Sys.WatchOk (s : Sys) : Prop :=
  ∀ fs, s.Registered fs → (s.fss fs).closed = false → ∀ m, (s.fss fs).m = some m → s.Watched fs m

variable {v : Nat}

/-- A handle becomes one of `Dial` or of the cache only at the `install` of its `Redial`. -/
theorem act_registered (h : s.act a = some s') (hr : s'.Registered v) :
    s.Registered v ∨ ∃ t m c, s.threads t = .redial v (.install m) c := by
  rcases hr with ⟨u, addr, e, hu⟩ | ⟨k, hk⟩
  · by_cases hne : s.threads u = .done (.dial addr (some v) e)
    · exact .inl (.inl ⟨u, addr, e, hne⟩)
    rcases act_done h hu hne with ⟨addr', fs', -, hfs, he⟩ | ⟨fs', pc, c, e', ht, he, hpc⟩ |
      ⟨_, _, -, he, -⟩ | he
    · cases he; exact .inl (.inr ⟨_, hfs⟩)
    · cases c with
      | none => cases he
      | some addr' =>
        simp only [Ret.ofRedial, Ret.dial.injEq] at he
        obtain ⟨-, hv, -⟩ := he
        split_ifs at hv with he'
        cases hv
        obtain ⟨m, rfl⟩ := hpc he'
        exact .inr ⟨u, m, _, ht⟩
    · cases he
    · cases he
  · rcases act_dials h hk with hold | ⟨t, m, c, ht, -, -⟩
    · exact .inl (.inr ⟨k, hold⟩)
    · exact .inr ⟨t, m, c, ht⟩

/-- While a handle stays open, its mux does not change. -/
theorem act_m_of_open (hl : Locked s) (h : s.act a = some s') (hv : v < s.nfs)
    (hc : (s.fss v).closed = false) (hc' : (s'.fss v).closed = false) :
    (s'.fss v).m = (s.fss v).m := by
  rcases act_fss_cases h hv with e | ⟨u, pc, c, r, hu, h'⟩ | ⟨u, m, c, -, e, -⟩
  · rw [e]
  · have hh := hl.holds u v pc c hu
    cases pc <;> simp only [Sys.redialStep] at h' <;>
      repeat' (first | split at h' | split_ifs at h')
    all_goals cases h'
    all_goals simp_all [Sys.setThread, Sys.setFs, Sys.closeMux, Sys.teardown, Sys.newMux, Sys.ret,
      Sys.spawn, RedialPc.Holds]
  · rw [e] at hc'; cases hc'

/-- A watched mux stays watched while its handle stays open. -/
theorem Sys.Watched.step (hf : Fresh s) (h : s.act a = some s') {m : Nat} (hw : s.Watched v m)
    (hc : (s'.fss v).closed = false) : s'.Watched v m := by
  rcases hw with ⟨u, c, pc, hu, hpc⟩ | ⟨u, c, hu⟩
  · by_cases hne : s'.threads u = s.threads u
    · exact .inl ⟨u, c, pc, hne ▸ hu, hpc⟩
    rcases act_thread h hne with ⟨_, ht, -⟩ | ⟨_, _, _, _, ht, -⟩ | ⟨fs', m', c', pc', ht, h'⟩ |
      ⟨_, ht, -⟩ | ⟨_, _, ht, -⟩ | ⟨_, ht, -⟩ | ⟨hn, -⟩
    all_goals try (rw [hu] at ht; cases ht; done)
    · rw [hu] at ht
      cases ht
      rcases hpc with rfl | rfl <;> simp only [Sys.watcherStep] at h' <;> split_ifs at h' <;>
        cases h'
      · exact .inl ⟨u, c, .lock, by simp [Sys.setThread], .inr rfl⟩
      · simp [Sys.setThread, Sys.setFs] at hc
    · exact absurd hn (Nat.ne_of_lt (hf.lt_nthread (by simp [hu])))
  · by_cases hne : s'.threads u = s.threads u
    · exact .inr ⟨u, c, hne ▸ hu⟩
    rcases act_thread h hne with ⟨_, ht, -⟩ | ⟨fs', pc', c', r, ht, h'⟩ | ⟨_, _, _, _, ht, -⟩ |
      ⟨_, ht, -⟩ | ⟨_, _, ht, -⟩ | ⟨_, ht, -⟩ | ⟨hn, -⟩
    all_goals try (rw [hu] at ht; cases ht; done)
    · rw [hu] at ht
      cases ht
      simp only [Sys.redialStep] at h'
      cases h'
      have hlt : u < s.nthread := hf.lt_nthread (by simp [hu])
      refine .inl ⟨s.nthread, (s.fss v).closewc, .hup, ?_, .inl rfl⟩
      simp [Sys.ret, Sys.spawn, Sys.setThread, Sys.setFs, setAt_noteq (Nat.ne_of_lt hlt).symm]
    · exact absurd hn (Nat.ne_of_lt (hf.lt_nthread (by simp [hu])))

theorem Sys.WatchOk.step (hi : Inv s) (hs : s.WatchOk) (h : s.act a = some s') : s'.WatchOk := by
  intro v hr hc m hm
  rcases act_open h hc with hold | ⟨t, m', c, -, -, rfl⟩ | ⟨t, src, name, -, rfl, -, -, rfl⟩
  · -- open before: the same mux, watched before
    have hv : v < s.nfs := Nat.lt_of_not_le fun hle => by rw [hi.unused v hle] at hold; cases hold
    have hm0 : (s.fss v).m = some m := act_m_of_open hi.locked h hv hold hc ▸ hm
    refine Sys.Watched.step hi.fresh h ?_ hc
    rcases act_registered h hr with hr0 | ⟨t, m', c, ht⟩
    · exact hs v hr0 hold m hm0
    · obtain ⟨-, hm', -⟩ := hi.locked.holds t v _ c ht
      rw [hm0] at hm'
      cases hm'
      exact .inr ⟨t, c, ht⟩
  · -- opened by the check of its `Redial`, now at `install`
    simp only [Sys.setThread, Sys.setFs, setAt_same] at hm
    cases hm
    exact .inr ⟨t, c, by simp [Sys.setThread]⟩
  · -- an `Fsys` copy is neither returned by `Dial` nor cached
    exfalso
    rcases act_registered h hr with (⟨u, addr, e, hu⟩ | ⟨k, hk⟩) | ⟨u, m', c, hu⟩
    · exact Nat.lt_irrefl _ (hi.fresh.handle_lt u _ (by simp [hu, Thread.handle, Ret.handle]))
    · exact Nat.lt_irrefl _ (hi.fresh.dials_lt k _ hk)
    · exact Nat.lt_irrefl _ (hi.fresh.handle_lt u _ (by simp [hu, Thread.handle]))

/-! ### Closed cached handles -/

/-- A watcher of `fs`, whose mux has hung up, has not yet closed its channel: it is on its way
to delete the cache entry of `fs`. -/
def Sys.Evicting (s : Sys) (fs : Nat) : Prop :=
  ∃ u m c pc, s.threads u = .watcher fs m c pc ∧ pc ≠ .close ∧ s.hup m = true

/-- **A cached handle that is closed is being evicted.** -/
def Sys.EvictOk (s : Sys) : Prop :=
  ∀ k fs, s.dials k = some fs → (s.fss fs).closed = true → s.Evicting fs

theorem Sys.EvictOk.step (hi : Inv s) (hk : s.KeyOk) (hh : HupSeen s) (hw : s.WatchOk)
    (hs : s.EvictOk) (h : s.act a = some s') : s'.EvictOk := by
  intro k v hkv hc'
  rcases act_dials h hkv with hold | ⟨t, m, c, ht, -, h'⟩
  swap
  · -- a new entry is installed on an open handle
    have hc := (hi.locked.holds t v _ c ht).1
    simp only [Sys.redialStep] at h'
    cases h'
    simp [Sys.ret, Sys.spawn, Sys.setThread, Sys.setFs, hc] at hc'
  have hv : v < s.nfs := hi.fresh.dials_lt k v hold
  have hkey : k = (s.fss v).raddr := (hk k v hold).symm
  by_cases hc : (s.fss v).closed = true
  · -- the watcher on its way moves on, and deletes the entry at its last step but one
    obtain ⟨u, m, c, pc, hu, hpc, hm⟩ := hs k v hold hc
    by_cases hne : s'.threads u = s.threads u
    · exact ⟨u, m, c, pc, hne ▸ hu, hpc, act_hup h hm⟩
    rcases act_thread h hne with ⟨_, ht, -⟩ | ⟨_, _, _, _, ht, -⟩ | ⟨fs', m', c', pc', ht, h'⟩ |
      ⟨_, ht, -⟩ | ⟨_, _, ht, -⟩ | ⟨_, ht, -⟩ | ⟨hn, -⟩
    all_goals try (rw [hu] at ht; cases ht; done)
    · rw [hu] at ht
      cases ht
      cases pc <;> simp only [Sys.watcherStep] at h' <;> (try split_ifs at h') <;> cases h'
      · exact ⟨u, m, c, .lock, by simp [Sys.setThread], by simp, act_hup h hm⟩
      · exact ⟨u, m, c, .evict, by simp [Sys.setThread], by simp, act_hup h hm⟩
      · simp [Sys.setThread, ← hkey] at hkv
      · exact absurd rfl hpc
    · exact absurd hn (Nat.ne_of_lt (hi.fresh.lt_nthread (by simp [hu])))
  · -- the handle was open: a watcher of it marked it closed, or a `Redial` tore it down
    simp only [Bool.not_eq_true] at hc
    rcases act_fss_cases h hv with e | ⟨u, pc, c, r, hu, h'⟩ | ⟨u, m, c, hu, -, e⟩
    · rw [e] at hc'; rw [hc] at hc'; cases hc'
    · have hol := hi.locked.holds u v pc c hu
      have hopen := hi.isOpen v hc
      by_cases hpc : pc = .teardown
      · subst hpc
        obtain ⟨m, hm, hhm⟩ := hh.teardown u v c hu
        rcases hw v (.inr ⟨k, hold⟩) hc m hm with ⟨w, c', pc', hw', hpc'⟩ | ⟨w, c', hw'⟩
        · have hwu : w ≠ u := by rintro rfl; rw [hu] at hw'; cases hw'
          have hlt : w < s.nthread := hi.fresh.lt_nthread (by simp [hw'])
          refine ⟨w, m, c', pc', ?_, by rcases hpc' with rfl | rfl <;> simp, act_hup h hhm⟩
          rw [(redialStep_threads h' hwu).resolve_right fun ⟨e, _⟩ => by omega, hw']
        · obtain rfl := hi.locked.unique w u v _ _ c' c hw' hu (by simp) (by simp)
          rw [hu] at hw'; cases hw'
      · exfalso
        cases pc <;> simp only [Sys.redialStep] at h' <;>
          repeat' (first | split at h' | split_ifs at h')
        all_goals cases h'
        all_goals simp_all [Sys.setThread, Sys.setFs, Sys.closeMux, Sys.teardown, Sys.newMux,
          Sys.ret, Sys.spawn, RedialPc.Holds]
    · exact ⟨u, m, c, .evict, e, by simp,
        act_hup h (hh.watcher u v m c .lock hu (by simp))⟩

/-! ### Every reachable state -/

/-- The cache invariants, together. -/
structure CacheInv (s : Sys) : Prop where
  key : s.KeyOk
  dialAddr : s.DialAddr
  hupSeen : HupSeen s
  watchOk : s.WatchOk
  evictOk : s.EvictOk

theorem CacheInv.init : CacheInv Sys.init :=
  ⟨fun _ _ h => (by cases h), ⟨fun _ _ _ _ h => (by cases h), fun _ _ _ _ h => (by cases h)⟩,
    HupSeen.init, fun _ h => (by rcases h with ⟨_, _, _, h⟩ | ⟨_, h⟩ <;> cases h),
    fun _ _ h => (by cases h)⟩

theorem CacheInv.step (hi : Inv s) (hs : CacheInv s) (h : s.act a = some s') : CacheInv s' :=
  ⟨hs.key.step hi.fresh h, hs.dialAddr.step hi.fresh hs.key h, hs.hupSeen.step hi h,
    hs.watchOk.step hi h, hs.evictOk.step hi hs.key hs.hupSeen hs.watchOk h⟩

theorem Reachable.cacheInv (hs : Reachable s) : CacheInv s := by
  induction hs with
  | refl => exact CacheInv.init
  | tail hr hst ih =>
    obtain ⟨a, h⟩ := hst
    exact ih.step (Reachable.inv hr) h

/-! ### The cache at rest -/

/-- No `Dial` or `Redial` is running, and every watcher whose mux has hung up has finished. -/
def Sys.Quiet (s : Sys) : Prop :=
  (∀ u addr, s.threads u ≠ .dial addr) ∧ (∀ u fs pc c, s.threads u ≠ .redial fs pc c) ∧
  ∀ u fs m c pc, s.threads u = .watcher fs m c pc → s.hup m = false

/-- **The cache at rest.** In a reachable state where no `Dial` or `Redial` runs and every
watcher of a hung-up mux has finished: every entry `dials[k] = h` has `h.raddr = k`; a handle
`Dial` returned that is open has a mux that has not hung up; and a handle that is the entry of
its own `raddr` is open. Neither converse holds: an open handle may be out of the cache
(`open_handle_not_cached`), and a handle whose mux is live may be closed
(`live_mux_closed_handle`). -/
theorem quiet_cache (hs : Reachable s) (hq : s.Quiet) :
    (∀ k fs, s.dials k = some fs → (s.fss fs).raddr = k) ∧
    (∀ u addr fs e, s.threads u = .done (.dial addr (some fs) e) → (s.fss fs).closed = false →
      ∃ m, (s.fss fs).m = some m ∧ s.hup m = false) ∧
    (∀ fs, s.dials (s.fss fs).raddr = some fs → (s.fss fs).closed = false) := by
  have hc := hs.cacheInv
  refine ⟨hc.key, fun u addr fs e hu hcl => ?_, fun fs hfs => ?_⟩
  · obtain ⟨m, hm⟩ := Option.ne_none_iff_exists'.mp (hs.inv.isOpen fs hcl)
    refine ⟨m, hm, ?_⟩
    rcases hc.watchOk fs (.inl ⟨u, addr, e, hu⟩) hcl m hm with ⟨w, c, pc, hw, -⟩ | ⟨w, c, hw⟩
    · exact hq.2.2 w fs m c pc hw
    · exact absurd hw (hq.2.1 w fs _ c)
  · by_contra hcl
    obtain ⟨u, m, c, pc, hu, -, hm⟩ := hc.evictOk _ fs hfs (by simpa using hcl)
    rw [hq.2.2 u fs m c pc hu] at hm
    cases hm

/-- Two `Dial("h")` goroutines both look the address up before either has installed a handle:
each builds its own handle and dials its own mux, and the second install replaces the first
in the cache. -/
def dialRace : List Act :=
  [.call (.dial "h"), .call (.dial "h"), .step 0, .step 1, .step 0, .step 0, .step 0, .step 0,
    .step 0, .step 1, .step 1, .step 1, .step 1, .step 1]

theorem dialRace_quiet : Reachable (Sys.run dialRace) ∧ (Sys.run dialRace).Quiet := by
  have hr : Reachable (Sys.run dialRace) := Reachable.run (by decide)
  have hth := hr.inv.fresh.threads_eq (show _ = [.done (.dial "h" (some 0) none),
    .done (.dial "h" (some 1) none), .watcher 0 0 0 .hup, .watcher 1 1 1 .hup] by decide)
  refine ⟨hr, fun u addr hu => ?_, fun u fs pc c hu => ?_, fun u fs m c pc hu => ?_⟩ <;>
    rw [hth] at hu <;> rcases u with _ | _ | _ | _ | u <;> simp at hu
  all_goals obtain ⟨-, rfl, -⟩ := hu; decide

theorem quiet_cache_after_race :
    Reachable (Sys.run dialRace) ∧ (Sys.run dialRace).Quiet ∧
      ((Sys.run dialRace).fss 1).closed = false :=
  ⟨dialRace_quiet.1, dialRace_quiet.2,
    (quiet_cache dialRace_quiet.1 dialRace_quiet.2).2.2 1 (by decide)⟩

/-- After the race, both `Dial`s have returned, nothing moves, and the first handle is open but
not the entry of its address. -/
theorem open_handle_not_cached :
    ∃ s, Reachable s ∧ s.Quiet ∧ s.threads 0 = .done (.dial "h" (some 0) none) ∧
      (s.fss 0).closed = false ∧ s.dials (s.fss 0).raddr ≠ some 0 :=
  ⟨_, dialRace_quiet.1, dialRace_quiet.2, by decide, by decide, by decide⟩

/-! ### Racing `Dial`s -/

/-- Both `Dial("h")` calls of `dialRace` succeed, with different handles, and two muxes were
dialed. -/
theorem dial_race :
    ∃ s, Reachable s ∧ s.threads 0 = .done (.dial "h" (some 0) none) ∧
      s.threads 1 = .done (.dial "h" (some 1) none) ∧ s.nmux = 2 :=
  ⟨_, dialRace_quiet.1, by decide, by decide, by decide⟩

/-- **What `Dial` shares.** Every handle a `Dial(addr)` returns has `FillAddr(addr)` as its
`raddr`; and a `Dial` whose lookup finds `FillAddr(addr)` cached returns that handle, changing
nothing else: it builds no handle and dials no mux. -/
theorem dial_canonical (hs : Reachable s) :
    (∀ u addr fs e, s.threads u = .done (.dial addr (some fs) e) →
      (s.fss fs).raddr = fillAddr addr) ∧
    ∀ t addr fs, s.threads t = .dial addr → s.dials (fillAddr addr) = some fs →
      (s.fss fs).raddr = fillAddr addr ∧
      s.act (.step t) = some (s.setThread t (.done (.dial addr (some fs) none))) := by
  have hc := hs.cacheInv
  refine ⟨hc.dialAddr.2, fun t addr fs ht hfs => ⟨hc.key _ fs hfs, ?_⟩⟩
  simp [Sys.act, Sys.threadStep, ht, Sys.dialStep, hfs]

theorem dial_canonical_after_race :
    ((Sys.run dialRace).fss 1).raddr = fillAddr "h" :=
  (dial_canonical dialRace_quiet.1).1 1 "h" 1 none (by decide)

/-! ### Filled addresses as keys -/

/-- A `Dial` whose lookup finds its filled address cached returns that handle. -/
theorem Sys.dialStep_cached {t fs : Nat} {addr : String} (h : s.dials (fillAddr addr) = some fs) :
    s.dialStep t addr = s.setThread t (.done (.dial addr (some fs) none)) := by
  simp [Sys.dialStep, h]

/-- **Filled addresses.** `FillAddr` is idempotent and gives at least four `!`-separated tokens,
so `splitaddr` of a filled address never panics: it returns the connection address and a tree
name without `!` that put back together give the address, and the tree name is `main` when
the address had at most three tokens. So `Dial` never panics; and in every reachable state the
`raddr` of the handle a `Dial(a)` is `Redial`ing is `FillAddr(a)`, which `FillAddr` leaves
alone, so the `install` step puts the handle under the key that a `Dial` of `a`, or of that
`raddr`, looks up: right after it, either `Dial` finds the handle cached and returns it. -/
theorem filled_address_key :
    (∀ a, fillAddr (fillAddr a) = fillAddr a) ∧
    (∀ a, 4 ≤ ((fillAddr a).data.splitOn '!').length) ∧
    (∀ a, ∃ ca t, splitaddr (fillAddr a) = some (ca, t) ∧ ca ++ "!" ++ t = fillAddr a ∧
      '!' ∉ t.data ∧ ((a.data.splitOn '!').length ≤ 3 → t = "main")) ∧
    (∀ (s : Sys) t a, (s.dialStep t a).threads t ≠ .panicked) ∧
    ∀ s, Reachable s → ∀ u fs pc a, s.threads u = .redial fs pc (some a) →
      (s.fss fs).raddr = fillAddr a ∧ fillAddr (s.fss fs).raddr = (s.fss fs).raddr ∧
      ∀ m, pc = .install m → ∃ s', s.act (.step u) = some s' ∧ s'.dials (fillAddr a) = some fs ∧
        ∀ t b, b = a ∨ b = (s.fss fs).raddr →
          s'.dialStep t b = s'.setThread t (.done (.dial b (some fs) none)) := by
  refine ⟨fillAddr_fillAddr, fun a => (splitOn_fillAddr a).1, splitaddr_fillAddr,
    fun s _ _ => Sys.dialStep_ne_panicked, fun s hs u fs pc a hu => ?_⟩
  have hr : (s.fss fs).raddr = fillAddr a := hs.cacheInv.dialAddr.1 u fs pc a hu
  refine ⟨hr, by rw [hr, fillAddr_fillAddr], fun m hm => ?_⟩
  subst hm
  obtain ⟨s', hs', hd⟩ : ∃ s', s.act (.step u) = some s' ∧ s'.dials (fillAddr a) = some fs := by
    simp [Sys.act, Sys.threadStep, hu, Sys.redialStep, Sys.ret, Sys.spawn, Sys.setThread,
      Sys.setFs, hr]
  -- `a` and its filled form fill to the same key
  refine ⟨s', hs', hd, fun t b hb => Sys.dialStep_cached ?_⟩
  rcases hb with rfl | rfl
  · exact hd
  · rw [hr, fillAddr_fillAddr]; exact hd

/-- The `Redial` of `dialRun`'s `Dial("h")` before its last step, the `install`, puts handle
`0` under the key a `Dial("h")` looks up, and a `Dial("h")` right after it returns handle `0`
from the cache. -/
theorem dial_installs_filled_key :
    ∃ s', (Sys.run (dialRun.take 6)).act (.step 0) = some s' ∧
      s'.dials (fillAddr "h") = some 0 ∧
      s'.dialStep 1 "h" = s'.setThread 1 (.done (.dial "h" (some 0) none)) := by
  obtain ⟨s', hs', hd, hk⟩ := (filled_address_key.2.2.2.2 (Sys.run (dialRun.take 6))
    (Reachable.run (by decide)) 0 0 (.install 0) "h" (by decide)).2.2 0 rfl
  exact ⟨s', hs', hd, hk 1 "h" (.inl rfl)⟩

/-! ### A `Redial` while a watcher is on its way -/

/-- After `Dial("h")`, the peer hangs up mux `0` and the watcher (goroutine `1`) marks the
handle closed. Before it deletes the cache entry, the program `Redial`s the handle
(goroutine `2`): the handle is closed, so `Redial` does not wait on `closewc`; it dials mux `1`,
installs the handle and starts a second watcher (goroutine `3`) on the same `closewc`. -/
def redialBeforeEvict : List Act :=
  dialRun ++ [.hangup 0, .step 1, .step 1, .call (.redial 0), .step 2, .step 2, .step 2, .step 2,
    .step 2]

/-- Two watchers of handle `0` are alive at once, and the older one's next step deletes the
cache entry the `Redial` installed, while the handle is open on the new mux. -/
theorem stale_watcher_evicts :
    ∃ s, Reachable s ∧ s.threads 1 = .watcher 0 0 0 .evict ∧ s.threads 3 = .watcher 0 1 0 .hup ∧
      s.dials (fillAddr "h") = some 0 ∧
      (s.act (.step 1)).map (fun s' => (s'.dials (fillAddr "h"), (s'.fss 0).closed, (s'.fss 0).m)) =
        some (none, false, some 1) :=
  ⟨_, (Reachable.run (by decide) : Reachable (Sys.run redialBeforeEvict)), by decide, by decide,
    by decide, by decide⟩


/-- Then the peer hangs up mux `1` and the newer watcher (goroutine `3`) sees it. A second
`Redial` (goroutine `4`) finds the handle open, hangs up mux `1` and waits on `closewc`, which
the older watcher closes after deleting the entry; it then opens the handle on mux `2`. The
newer watcher, which took the old `closewc` with it, goes on: it marks the handle closed and
deletes the entry. -/
def staleClose : List Act :=
  redialBeforeEvict ++ [.hangup 1, .step 3, .call (.redial 0), .step 4, .step 1, .step 1,
    .step 4, .step 4, .step 4, .step 4, .step 4, .step 3, .step 3, .step 3]

/-- **A live mux does not make an open handle.** The converse of the second part of
`quiet_cache` fails: after `staleClose` nothing moves, and the handle `Dial("h")` returned is
closed and out of the cache while its mux `2` has not hung up. -/
theorem live_mux_closed_handle :
    ∃ s, Reachable s ∧ s.Quiet ∧ s.threads 0 = .done (.dial "h" (some 0) none) ∧
      (s.fss 0).m = some 2 ∧ s.hup 2 = false ∧ (s.fss 0).closed = true ∧
      s.dials (fillAddr "h") = none := by
  have hr : Reachable (Sys.run staleClose) := Reachable.run (by decide)
  have hth := hr.inv.fresh.threads_eq (show _ = [.done (.dial "h" (some 0) none), .done .watcher,
    .done (.redial 0 none), .done .watcher, .done (.redial 0 none), .watcher 0 2 1 .hup] by decide)
  refine ⟨_, hr, ⟨fun u addr hu => ?_, fun u fs pc c hu => ?_, fun u fs m c pc hu => ?_⟩,
    by decide, by decide, by decide, by decide, by decide⟩ <;>
    rw [hth] at hu <;> rcases u with _ | _ | _ | _ | _ | _ | u <;> simp at hu
  obtain ⟨-, rfl, -⟩ := hu
  decide

end Rzx
