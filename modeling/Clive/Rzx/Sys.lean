import Clive.Rzx.Addr
import Clive.Rzx.Call
import Mathlib.Logic.Relation
import Mathlib.Data.List.Infix

/-!
# Dial, Redial and the hangup watchers, as goroutines

The client's connection state lives in its handles (`rzx.Fs`) and in the process-wide dial
cache `dials`. Goroutines act on them: callers of `Dial`, `Redial`, `Close`, `Fsys` and of the
envelopes, and one hangup watcher per successful `Redial`. This module is their interleaving
semantics: a global state `Sys`, a program point for every goroutine (`Thread`), and one step
function per goroutine kind, each a transcription of its Go code between two points where
another goroutine can observe it.

## Granularity

A step runs from one point where the goroutine can block or be observed to the next:

* `Redial` holds the handle's lock from its first step to its return; its steps are the lock
  with the closed check and `fs.m.Close()` (`RedialPc.start`), the wait on `fs.closewc` with
  the teardown writes (`teardown`), `net.MuxDial` with `auth.AtClient` (`dial`), the tree
  listing between publishing the new mux and clearing `fs.m` again (`trees`), the
  selected-tree check (`check`) and the cache install with the watcher's start (`install`).
  Every error return releases the lock. The listing is one step: in the code, `Close` and the
  envelopes, which read `fs.m` without the lock, could use or close the new mux while
  `getTrees` runs; the model leaves those interleavings out.
* A watcher waits for the hangup (`hup`), sets `closed` under the lock (`lock`), deletes
  `dials[fs.raddr]` (`evict`) and closes the `closewc` it captured (`close`).
* `Dial`'s cache lookup and the building of a new handle are one step; it then runs `Redial`
  on that handle in the same goroutine.
* `Close`, an envelope's `fs.m.Rpc()` and `Fsys` are one step each; the first two dereference
  `fs.m`, and a nil one is a panic.

Objects are numbered and never reused: handles, trees maps (shared by `Fsys` copies), muxes,
`closewc` channels and goroutines each have a counter for the next fresh one, and a fresh
number's entry is still the initial one: an empty map, an open mux, an open channel. A mux is
open or hung up; the network answers a `Redial` with any `Reply`, and a peer may hang up any mux at
any time. A goroutine is started only on a handle the program holds, one returned by `Dial` or
`Fsys`.

`fs.ai`, `fs.tc` and the debug flags are written or passed on but never decide anything in
the modelled code, so they are left out.
-/

namespace Rzx

/-- A client handle (`rzx.Fs`), with the fields the modelled code reads and writes. -/
structure Fs where
  /-- The connection address, without the tree name. -/
  addr : String
  /-- The full address, the handle's key in the dial cache. -/
  raddr : String
  /-- The trees map, by reference: `Fsys` copies share it. -/
  trees : Nat
  /-- The selected tree. -/
  fsys : String
  /-- The mux, or nil. -/
  m : Option Nat
  closed : Bool
  /-- The close-wait channel. -/
  closewc : Nat
  /-- The embedded `sync.Mutex`: `Fsys` copies it with the rest. -/
  locked : Bool
  deriving DecidableEq, Repr

/-- What an unused handle number stands for: nothing is open on it. -/
def Fs.unused : Fs :=
  { addr := "", raddr := "", trees := 0, fsys := "", m := none, closed := true, closewc := 0,
    locked := false }

/-- Where a `Redial` is: the step it takes next. -/
inductive RedialPc where
  | start
  | teardown
  | dial
  | trees (m : Nat)
  | check (m : Nat)
  | install (m : Nat)
  deriving DecidableEq, Repr

/-- Where a hangup watcher is: the step it takes next. -/
inductive WatcherPc where
  | hup
  | lock
  | evict
  | close
  deriving DecidableEq, Repr

/-- What a finished goroutine returned. -/
inductive Ret where
  | dial (addr : String) (fs : Option Nat) (err : Option Err)
  | redial (fs : Nat) (err : Option Err)
  | close
  | fsys (fs : Option Nat) (err : Option Err)
  | rpc
  | watcher
  deriving DecidableEq, Repr

/-- A goroutine. A `Redial` started by `Dial` carries the address `Dial` was called with, and
returns on its behalf. -/
inductive Thread where
  | idle
  | dial (addr : String)
  | redial (fs : Nat) (pc : RedialPc) (caller : Option String)
  | watcher (fs m c : Nat) (pc : WatcherPc)
  | close (fs : Nat)
  | fsys (fs : Nat) (name : String)
  | rpc (fs : Nat)
  | done (r : Ret)
  | panicked
  deriving DecidableEq, Repr

/-- What a `Redial` of `fs` returning `err` gives its caller: `Dial` returns the handle only
when there is no error. -/
def Ret.ofRedial (fs : Nat) (caller : Option String) (err : Option Err) : Ret :=
  match caller with
  | some a => .dial a (if err = none then some fs else none) err
  | none => .redial fs err

/-- The handle a result names. -/
def Ret.handle : Ret → Option Nat
  | .dial _ fs _ => fs
  | .redial fs _ => some fs
  | .fsys fs _ => fs
  | _ => none

/-- The handle a goroutine works on or returned. -/
def Thread.handle : Thread → Option Nat
  | .redial fs _ _ | .watcher fs _ _ _ | .close fs | .fsys fs _ | .rpc fs => some fs
  | .done r => r.handle
  | _ => none

/-- The handle a finished `Dial` or `Fsys` gave its caller. -/
def Thread.gives : Thread → Option Nat
  | .done (.dial _ fs _) => fs
  | .done (.fsys fs _) => fs
  | _ => none

/-- The whole state: handles, trees maps, muxes (`true` once hung up), close-wait channels
(`true` once closed), the dial cache and the goroutines, each with its counter. -/
structure Sys where
  fss : Nat → Fs
  nfs : Nat
  trees : Nat → String → Bool
  ntrees : Nat
  hup : Nat → Bool
  nmux : Nat
  chans : Nat → Bool
  nchan : Nat
  dials : String → Option Nat
  threads : Nat → Thread
  nthread : Nat

/-- The process before anything was dialed. -/
def Sys.init : Sys :=
  { fss := fun _ => Fs.unused, nfs := 0, trees := fun _ _ => false, ntrees := 0,
    hup := fun _ => false, nmux := 0, chans := fun _ => false, nchan := 0,
    dials := fun _ => none, threads := fun _ => .idle, nthread := 0 }

/-- What the network answers `net.MuxDial` and `auth.AtClient`. -/
inductive Dialed where
  | muxErr (e : Err)
  | authErr (msg : String)
  | authOk
  deriving Repr

/-- What the network answers one step of a goroutine: used by `Redial`'s dial and listing. -/
structure Reply where
  dialed : Dialed := .authOk
  listing : Call := {}
  deriving Repr

/-- `strings.Contains(s, sub)`. -/
def contains (s sub : String) : Bool :=
  decide (sub.data <:+: s.data)

namespace Sys

variable (s : Sys)

/-! ### Updates -/

/-- Change handle `fs`. -/
def setFs (fs : Nat) (f : Fs → Fs) : Sys :=
  { s with fss := setAt s.fss fs (f (s.fss fs)) }

/-- Move goroutine `t` on. -/
def setThread (t : Nat) (th : Thread) : Sys :=
  { s with threads := setAt s.threads t th }

/-- `m.Close()`, or the peer's hangup: the mux is gone. -/
def closeMux (m : Nat) : Sys :=
  { s with hup := setAt s.hup m true }

/-- A new mux, numbered `s.nmux`: a number never used before, so an open mux. -/
def newMux : Sys :=
  { s with nmux := s.nmux + 1 }

/-- Start a goroutine, numbered `s.nthread`. -/
def spawn (th : Thread) : Sys :=
  { s with threads := setAt s.threads s.nthread th, nthread := s.nthread + 1 }

/-- `fs.ai = nil; fs.closed = true; fs.closewc = make(chan bool)`. -/
def teardown (fs : Nat) : Sys :=
  { s with nchan := s.nchan + 1 }.setFs fs fun f => { f with closed := true, closewc := s.nchan }

/-- `Redial` returns `err`, releasing the lock; when `Dial` called it, `Dial` returns too. -/
def ret (t fs : Nat) (caller : Option String) (err : Option Err) : Sys :=
  (s.setFs fs fun f => { f with locked := false }).setThread t (.done (.ofRedial fs caller err))

/-! ### The goroutines' steps -/

/-- One step of `Fs.Redial` on handle `fs`, at `pc`; `none` while it is blocked. -/
def redialStep (t fs : Nat) (caller : Option String) (r : Reply) : RedialPc → Option Sys
  | .start =>
    let f := s.fss fs
    if f.locked then none else
    let s := s.setFs fs fun f => { f with locked := true }
    if f.closed then some (s.setThread t (.redial fs .dial caller)) else
    match f.m with
    | some m => some ((s.closeMux m).setThread t (.redial fs .teardown caller))
    | none => some ((s.teardown fs).setThread t (.redial fs .dial caller))
  | .teardown =>
    if s.chans (s.fss fs).closewc then
      some ((s.teardown fs).setThread t (.redial fs .dial caller))
    else none
  | .dial =>
    match r.dialed with
    | .muxErr e => some (s.ret t fs caller (some e))
    | .authErr msg =>
      if contains msg "auth disabled" then
        some (s.newMux.setThread t (.redial fs (.trees s.nmux) caller))
      else
        some ((s.newMux.closeMux s.nmux).ret t fs caller
          (some (.text ((s.fss fs).addr ++ ": " ++ msg))))
    | .authOk => some (s.newMux.setThread t (.redial fs (.trees s.nmux) caller))
  | .trees m =>
    let f := s.fss fs
    let l := getTrees (s.trees f.trees) r.listing
    let s := { s with trees := setAt s.trees f.trees l.1 }.setFs fs fun f => { f with m := none }
    match l.2 with
    | some e => some ((s.closeMux m).ret t fs caller (some e))
    | none => some (s.setThread t (.redial fs (.check m) caller))
  | .check m =>
    let f := s.fss fs
    if s.trees f.trees f.fsys then
      some ((s.setFs fs fun f => { f with m := some m, closed := false }).setThread t
        (.redial fs (.install m) caller))
    else
      some ((s.closeMux m).ret t fs caller
        (some (.text ("no fsys '" ++ f.fsys ++ "' found in server"))))
  | .install m =>
    let f := s.fss fs
    some ((({ s with dials := setAt s.dials f.raddr (some fs) }).spawn
      (.watcher fs m f.closewc .hup)).ret t fs caller none)

/-- One step of the hangup watcher of handle `fs`, started for mux `m` with the close-wait
channel `c`; `none` while it is blocked. -/
def watcherStep (t fs m c : Nat) : WatcherPc → Option Sys
  | .hup => if s.hup m then some (s.setThread t (.watcher fs m c .lock)) else none
  | .lock =>
    if (s.fss fs).locked then none
    else some ((s.setFs fs fun f => { f with closed := true }).setThread t (.watcher fs m c .evict))
  | .evict =>
    some ({ s with dials := setAt s.dials (s.fss fs).raddr none }.setThread t
      (.watcher fs m c .close))
  | .close => some ({ s with chans := setAt s.chans c true }.setThread t (.done .watcher))

/-- `Dial(addr)` up to its `Redial`: the cache lookup, and on a miss a new closed handle for
`FillAddr(addr)`, which the goroutine goes on to `Redial`. -/
def dialStep (t : Nat) (addr : String) : Sys :=
  let a := fillAddr addr
  match s.dials a with
  | some fs => s.setThread t (.done (.dial addr (some fs) none))
  | none =>
    match splitaddr a with
    | none => s.setThread t .panicked
    | some (ca, fsys) =>
      let f : Fs :=
        { addr := ca, raddr := a, trees := s.ntrees, fsys := fsys, m := none, closed := true,
          closewc := s.nchan, locked := false }
      let s' : Sys :=
        { s with
          fss := setAt s.fss s.nfs f, nfs := s.nfs + 1, ntrees := s.ntrees + 1,
          nchan := s.nchan + 1 }
      s'.setThread t (.redial s.nfs .start (some addr))

/-- `Fs.Close`: `fs.m.Close()`, a panic when `fs.m` is nil. -/
def closeStep (t fs : Nat) : Sys :=
  match (s.fss fs).m with
  | some m => (s.closeMux m).setThread t (.done .close)
  | none => s.setThread t .panicked

/-- An envelope's `fs.m.Rpc()`: a panic when `fs.m` is nil; a call on a hung-up mux fails, and
the envelope reports that failure (module `Envelope`). -/
def rpcStep (t fs : Nat) : Sys :=
  match (s.fss fs).m with
  | some _ => s.setThread t (.done .rpc)
  | none => s.setThread t .panicked

/-- `Fs.Fsys(name)`: a copy of the handle, mutex and all, selecting `name`, when `name` is
`"main"` or a known tree. -/
def fsysStep (t fs : Nat) (name : String) : Sys :=
  let f := s.fss fs
  if name = "main" ∨ s.trees f.trees name = true then
    ({ s with fss := setAt s.fss s.nfs { f with fsys := name }, nfs := s.nfs + 1 }).setThread t
      (.done (.fsys (some s.nfs) none))
  else s.setThread t (.done (.fsys none (some (.text ("no fsys '" ++ name ++ "'")))))

/-! ### What the one-step calls leave alone -/

section Frame

variable {s} {t u fs : Nat} {addr name : String}

@[simp] theorem dialStep_trees : (s.dialStep t addr).trees = s.trees := by
  unfold dialStep; dsimp only; split <;> [rfl; split <;> rfl]

@[simp] theorem dialStep_hup : (s.dialStep t addr).hup = s.hup := by
  unfold dialStep; dsimp only; split <;> [rfl; split <;> rfl]

@[simp] theorem dialStep_chans : (s.dialStep t addr).chans = s.chans := by
  unfold dialStep; dsimp only; split <;> [rfl; split <;> rfl]

@[simp] theorem dialStep_dials : (s.dialStep t addr).dials = s.dials := by
  unfold dialStep; dsimp only; split <;> [rfl; split <;> rfl]

@[simp] theorem dialStep_nthread : (s.dialStep t addr).nthread = s.nthread := by
  unfold dialStep; dsimp only; split <;> [rfl; split <;> rfl]

theorem dialStep_fss (h : fs < s.nfs) : (s.dialStep t addr).fss fs = s.fss fs := by
  unfold dialStep; dsimp only
  split
  · rfl
  · split
    · rfl
    · exact setAt_noteq (Nat.ne_of_lt h)

theorem dialStep_fss_of_le (h : (s.dialStep t addr).nfs ≤ fs) :
    (s.dialStep t addr).fss fs = s.fss fs := by
  revert h; unfold dialStep; dsimp only
  split
  · exact fun _ => rfl
  · split
    · exact fun _ => rfl
    · intro h; exact setAt_noteq (by simp [setThread] at h; omega)

theorem dialStep_nfs : s.nfs ≤ (s.dialStep t addr).nfs := by
  unfold dialStep; dsimp only
  split
  · exact le_rfl
  · split
    · exact le_rfl
    · exact Nat.le_succ _

theorem dialStep_threads (h : u ≠ t) : (s.dialStep t addr).threads u = s.threads u := by
  unfold dialStep; dsimp only
  split
  · exact setAt_noteq h
  · split <;> exact setAt_noteq h

@[simp] theorem fsysStep_trees : (s.fsysStep t fs name).trees = s.trees := by
  unfold fsysStep; dsimp only; split <;> rfl

@[simp] theorem fsysStep_hup : (s.fsysStep t fs name).hup = s.hup := by
  unfold fsysStep; dsimp only; split <;> rfl

@[simp] theorem fsysStep_chans : (s.fsysStep t fs name).chans = s.chans := by
  unfold fsysStep; dsimp only; split <;> rfl

@[simp] theorem fsysStep_dials : (s.fsysStep t fs name).dials = s.dials := by
  unfold fsysStep; dsimp only; split <;> rfl

@[simp] theorem fsysStep_nchan : (s.fsysStep t fs name).nchan = s.nchan := by
  unfold fsysStep; dsimp only; split <;> rfl

theorem fsysStep_fss (h : u < s.nfs) : (s.fsysStep t fs name).fss u = s.fss u := by
  unfold fsysStep; dsimp only
  split
  · exact setAt_noteq (Nat.ne_of_lt h)
  · rfl

theorem fsysStep_fss_of_le (h : (s.fsysStep t fs name).nfs ≤ u) :
    (s.fsysStep t fs name).fss u = s.fss u := by
  revert h; unfold fsysStep; dsimp only
  split
  · intro h; exact setAt_noteq (by simp [setThread] at h; omega)
  · exact fun _ => rfl

theorem fsysStep_nfs : s.nfs ≤ (s.fsysStep t fs name).nfs := by
  unfold fsysStep; dsimp only
  split
  · exact Nat.le_succ _
  · exact le_rfl

theorem fsysStep_threads (h : u ≠ t) : (s.fsysStep t fs name).threads u = s.threads u := by
  unfold fsysStep; dsimp only; split <;> exact setAt_noteq h

@[simp] theorem closeStep_fss : (s.closeStep t fs).fss = s.fss := by
  unfold closeStep; split <;> rfl

@[simp] theorem closeStep_trees : (s.closeStep t fs).trees = s.trees := by
  unfold closeStep; split <;> rfl

@[simp] theorem closeStep_chans : (s.closeStep t fs).chans = s.chans := by
  unfold closeStep; split <;> rfl

@[simp] theorem closeStep_dials : (s.closeStep t fs).dials = s.dials := by
  unfold closeStep; split <;> rfl

@[simp] theorem closeStep_nfs : (s.closeStep t fs).nfs = s.nfs := by
  unfold closeStep; split <;> rfl

@[simp] theorem closeStep_nchan : (s.closeStep t fs).nchan = s.nchan := by
  unfold closeStep; split <;> rfl

theorem closeStep_threads (h : u ≠ t) : (s.closeStep t fs).threads u = s.threads u := by
  unfold closeStep; split <;> exact setAt_noteq h

@[simp] theorem rpcStep_fss : (s.rpcStep t fs).fss = s.fss := by
  unfold rpcStep; split <;> rfl

@[simp] theorem rpcStep_trees : (s.rpcStep t fs).trees = s.trees := by
  unfold rpcStep; split <;> rfl

@[simp] theorem rpcStep_hup : (s.rpcStep t fs).hup = s.hup := by
  unfold rpcStep; split <;> rfl

@[simp] theorem rpcStep_chans : (s.rpcStep t fs).chans = s.chans := by
  unfold rpcStep; split <;> rfl

@[simp] theorem rpcStep_dials : (s.rpcStep t fs).dials = s.dials := by
  unfold rpcStep; split <;> rfl

@[simp] theorem rpcStep_nfs : (s.rpcStep t fs).nfs = s.nfs := by
  unfold rpcStep; split <;> rfl

@[simp] theorem rpcStep_nchan : (s.rpcStep t fs).nchan = s.nchan := by
  unfold rpcStep; split <;> rfl

theorem rpcStep_threads (h : u ≠ t) : (s.rpcStep t fs).threads u = s.threads u := by
  unfold rpcStep; split <;> exact setAt_noteq h

theorem dialStep_self : (s.dialStep t addr).threads t = .panicked ∨
    (s.dialStep t addr).threads t = .redial s.nfs .start (some addr) ∧
      ((s.dialStep t addr).fss s.nfs).raddr = fillAddr addr ∨
    ∃ fs, s.dials (fillAddr addr) = some fs ∧
      (s.dialStep t addr).threads t = .done (.dial addr (some fs) none) := by
  unfold dialStep; dsimp only
  split
  · exact .inr (.inr ⟨_, ‹_›, setAt_same⟩)
  · split
    · exact .inl (setAt_same)
    · exact .inr (.inl ⟨setAt_same, by simp [setThread]⟩)

/-- `Dial` never panics: a filled address always has the `!` that `splitaddr` cuts at. -/
theorem dialStep_ne_panicked : (s.dialStep t addr).threads t ≠ .panicked := by
  unfold dialStep; dsimp only
  split
  · simp [setThread]
  · split
    · rename_i h
      simpa [h] using splitaddr_fillAddr_isSome addr
    · simp [setThread]

theorem fsysStep_self : (s.fsysStep t fs name).threads t = .done (.fsys (some s.nfs) none) ∧
      (name = "main" ∨ s.trees (s.fss fs).trees name = true) ∨
    ∃ e, (s.fsysStep t fs name).threads t = .done (.fsys none (some e)) := by
  unfold fsysStep; dsimp only
  split
  · exact .inl ⟨setAt_same, ‹_›⟩
  · exact .inr ⟨_, setAt_same⟩

theorem closeStep_self : (s.closeStep t fs).threads t = .done .close ∨
    (s.closeStep t fs).threads t = .panicked := by
  unfold closeStep; split
  · exact .inl (setAt_same)
  · exact .inr (setAt_same)

theorem rpcStep_self : (s.rpcStep t fs).threads t = .done .rpc ∨
    (s.rpcStep t fs).threads t = .panicked := by
  unfold rpcStep; split
  · exact .inl (setAt_same)
  · exact .inr (setAt_same)

end Frame

/-- One step of goroutine `t`, the network answering with `r`; `none` when it is blocked or
has finished. -/
def threadStep (t : Nat) (r : Reply) : Option Sys :=
  match s.threads t with
  | .dial a => some (s.dialStep t a)
  | .redial fs pc c => s.redialStep t fs c r pc
  | .watcher fs m c pc => s.watcherStep t fs m c pc
  | .close fs => some (s.closeStep t fs)
  | .fsys fs name => some (s.fsysStep t fs name)
  | .rpc fs => some (s.rpcStep t fs)
  | _ => none

end Sys

/-! ### Runs -/

/-- A call the program makes, in a new goroutine. -/
inductive Api where
  | dial (addr : String)
  | redial (fs : Nat)
  | close (fs : Nat)
  | fsys (fs : Nat) (name : String)
  | rpc (fs : Nat)
  deriving DecidableEq, Repr

namespace Api

/-- The goroutine making the call. -/
def thread : Api → Thread
  | .dial a => .dial a
  | .redial fs => .redial fs .start none
  | .close fs => .close fs
  | .fsys fs name => .fsys fs name
  | .rpc fs => .rpc fs

/-- The handle the call is made on. -/
def target : Api → Option Nat
  | .dial _ => none
  | .redial fs | .close fs | .fsys fs _ | .rpc fs => some fs

end Api

/-- The program holds handle `fs`: `Dial` or `Fsys` returned it. -/
def Sys.Held (s : Sys) (fs : Nat) : Prop :=
  ∃ t < s.nthread, (s.threads t).gives = some fs

instance (s : Sys) (fs : Nat) : Decidable (s.Held fs) :=
  inferInstanceAs (Decidable (∃ t < s.nthread, _))

/-- What happens next: a goroutine steps, the program starts a call, or a peer hangs up. -/
inductive Act where
  | step (t : Nat) (r : Reply := {})
  | call (c : Api)
  | hangup (m : Nat)

/-- The state after `a`, or `none` when `a` cannot happen now. -/
def Sys.act (s : Sys) : Act → Option Sys
  | .step t r => s.threadStep t r
  | .call c => if ∀ fs ∈ c.target, s.Held fs then some (s.spawn c.thread) else none
  | .hangup m => if m < s.nmux then some (s.closeMux m) else none

/-- One step of the whole process. -/
def Step (s s' : Sys) : Prop :=
  ∃ a, s.act a = some s'

/-- The states some interleaving reaches. -/
def Reachable (s : Sys) : Prop :=
  Relation.ReflTransGen Step Sys.init s

/-- Run a schedule. -/
def Sys.exec (s : Sys) : List Act → Option Sys
  | [] => some s
  | a :: as => (s.act a).bind fun s' => s'.exec as

theorem Sys.steps_of_exec {s s' : Sys} :
    ∀ {as}, s.exec as = some s' → Relation.ReflTransGen Step s s'
  | [], h => by cases h; exact .refl
  | a :: as, h => by
    obtain ⟨s₁, h₁, h₂⟩ := Option.bind_eq_some.mp h
    exact .head ⟨a, h₁⟩ (Sys.steps_of_exec h₂)

/-- The state a schedule run from `s` ends in. -/
def Sys.runFrom (s : Sys) (as : List Act) : Sys :=
  (s.exec as).getD s

theorem Sys.steps_runFrom {s : Sys} {as : List Act} (h : (s.exec as).isSome) :
    Relation.ReflTransGen Step s (s.runFrom as) := by
  obtain ⟨s', hs'⟩ := Option.isSome_iff_exists.mp h
  unfold Sys.runFrom
  rw [hs']
  exact Sys.steps_of_exec hs'

/-- The state a schedule run from `Sys.init` ends in. -/
def Sys.run (as : List Act) : Sys :=
  Sys.init.runFrom as

theorem Reachable.run {as : List Act} (h : (Sys.init.exec as).isSome) : Reachable (Sys.run as) :=
  Sys.steps_runFrom h

end Rzx
