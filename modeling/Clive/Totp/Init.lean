import Clive.Rzx.Basic
import Mathlib.Logic.Relation

/-!
# `totpinit` waiting for the QR code to be fetched

`totpinit` serves the QR code picture of a new shared secret and waits until a browser has
fetched it. `main` starts the web server (`startImage`), then makes the channel `accessed`
and receives on it; `imageHandler`, run for every request, sends `true` on `accessed` inside
`once.Do`, so that only the first request sends. The server is up before `main` makes the
channel, and until then `accessed` is nil. A request that reads `accessed` in that window
sends on a nil channel, which blocks forever, inside `once.Do` and holding `once`'s mutex.

The state is `main`'s place, the variable `accessed`, `once` (its `done` flag and its mutex),
and each request's place (`HandlerPc`). `sync.Once.Do` is Go's: a request looks at `done`,
takes the mutex, looks at `done` again, runs the function, and sets `done` and releases the
mutex when the function returns. A send and a receive on `accessed` meet in one step.

## Main results

* `OnceInv`: at most one request is inside `once`'s function, exactly while the mutex is held,
  and `once` is done exactly when `main` has received;
* `passcode_reachable_iff`: from any reachable state, `main` can still get past `<-accessed`
  exactly when no request has read `accessed` while it was nil;
* `stuck_blocks_later_requests`: after a request has read the nil `accessed`, no run lets `main`
  go on, and every later request waits in `once.Do` and never gets the picture.
-/

namespace Totp

open Rzx (setAt)

/-- Where `main` is, once `startImage` has started the server. -/
inductive MainPc where
  /-- Before `accessed = make(chan bool)`. -/
  | make
  /-- At `<-accessed`. -/
  | recv
  /-- Past it, asking for the passcode. -/
  | passcode
  deriving DecidableEq, Repr

/-- Where a request served by `imageHandler` is. -/
inductive HandlerPc where
  /-- Calling `once.Do`. -/
  | start
  /-- In `once.Do`, taking `once`'s mutex. -/
  | lock
  /-- Holding the mutex, about to run `accessed <- true`. -/
  | run
  /-- Holding the mutex, sending on the channel it read from `accessed`: the one `main` made
  (`true`), or nil (`false`). -/
  | send (made : Bool)
  /-- Past `once.Do`, copying the picture. -/
  | copy
  /-- Served. -/
  | done
  deriving DecidableEq, Repr

/-- The state of `totpinit` after `startImage`. -/
structure State where
  /-- Where `main` is. -/
  main : MainPc := .make
  /-- `accessed` is the channel `main` made (`false`: still nil). -/
  accessed : Bool := false
  /-- `once.done`. -/
  done : Bool := false
  /-- `once`'s mutex is held. -/
  locked : Bool := false
  /-- The requests so far, by number. -/
  req : Nat → HandlerPc := fun _ => .start
  /-- How many requests have come. -/
  nreq : Nat := 0

/-- What can happen next. -/
inductive Act where
  /-- `main` takes its next step. -/
  | main
  /-- A request for the picture comes. -/
  | request
  /-- Request `i` takes its next step. -/
  | handler (i : Nat)

namespace State

variable (s : State)

/-- Request `i` is at `pc`. -/
def setReq (i : Nat) (pc : HandlerPc) : State :=
  { s with req := setAt s.req i pc }

/-- `main`'s step: `accessed = make(chan bool)`; at `<-accessed` it waits for a sender. -/
def mainStep : Option State :=
  match s.main with
  | .make => some { s with main := .recv, accessed := true }
  | .recv | .passcode => none

/-- Request `i`'s step in `imageHandler`: `once.Do(func() { accessed <- true })`, then the copy
of the picture. A send on the channel `main` made meets `main`'s receive; a send on nil never
goes on. -/
def handlerStep (i : Nat) : Option State :=
  match s.req i with
  | .start => some (s.setReq i (if s.done then .copy else .lock))
  | .lock =>
    if s.locked then none
    else if s.done then some (s.setReq i .copy)
    else some { s.setReq i .run with locked := true }
  | .run => some (s.setReq i (.send s.accessed))
  | .send made =>
    if made = true ∧ s.main = .recv then
      some { s.setReq i .copy with main := .passcode, done := true, locked := false }
    else none
  | .copy => some (s.setReq i .done)
  | .done => none

/-- One step; `none` when it is not possible. -/
def apply : Act → Option State
  | .main => s.mainStep
  | .request => some { s with req := setAt s.req s.nreq .start, nreq := s.nreq + 1 }
  | .handler i => if i < s.nreq then s.handlerStep i else none

end State

def Step (s s' : State) : Prop :=
  ∃ a, s.apply a = some s'

/-- The states reachable once the server has started. -/
def Reachable (s : State) : Prop :=
  Relation.ReflTransGen Step {} s

/-- Run a sequence of steps. -/
def State.exec (s : State) : List Act → Option State
  | [] => some s
  | a :: as => (s.apply a).bind fun s' => s'.exec as

theorem State.steps_of_exec {s s' : State} : ∀ {as}, s.exec as = some s' →
    Relation.ReflTransGen Step s s'
  | [], h => by cases h; exact .refl
  | a :: as, h => by
    obtain ⟨s₁, h₁, h₂⟩ := Option.bind_eq_some.mp h
    exact .head ⟨a, h₁⟩ (steps_of_exec h₂)

/-- The state a sequence of steps from `s` ends in. -/
def State.runFrom (s : State) (as : List Act) : State :=
  (s.exec as).getD {}

/-- The state a sequence of steps ends in, from the start. -/
def State.run (as : List Act) : State :=
  ({} : State).runFrom as

theorem State.steps_runFrom {s : State} {as : List Act} (h : (s.exec as).isSome) :
    Relation.ReflTransGen Step s (s.runFrom as) := by
  obtain ⟨s', hs'⟩ := Option.isSome_iff_exists.mp h
  unfold State.runFrom
  rw [hs']
  exact State.steps_of_exec hs'

theorem Reachable.run {as : List Act} (h : (({} : State).exec as).isSome) :
    Reachable (State.run as) :=
  State.steps_runFrom h

/-! ### `once` -/

/-- A request inside `once`'s function, holding its mutex. -/
def HandlerPc.Holds : HandlerPc → Prop
  | .run | .send _ => True
  | _ => False

instance : DecidablePred HandlerPc.Holds := fun pc => by
  cases pc <;> simp only [HandlerPc.Holds] <;> infer_instance

/-- **`once` and `accessed` are used as Go's `sync.Once` and the code mean.** -/
structure OnceInv (s : State) : Prop where
  /-- At most one request is inside `once`'s function. -/
  one : ∀ i < s.nreq, ∀ j < s.nreq, (s.req i).Holds → (s.req j).Holds → i = j
  /-- The mutex is held exactly while a request is inside the function. -/
  locked : s.locked = true ↔ ∃ i < s.nreq, (s.req i).Holds
  /-- `once` is done exactly when `main` has received. -/
  done : s.done = true ↔ s.main = .passcode
  /-- `accessed` is the channel exactly when `main` has made it. -/
  accessed : s.accessed = true ↔ s.main ≠ .make
  /-- A request sending on nil keeps `main` from receiving. -/
  nil : ∀ k < s.nreq, s.req k = .send false → s.main ≠ .passcode

namespace OnceInv

variable {s s' : State}

theorem init : OnceInv {} :=
  ⟨fun _ h => absurd h (Nat.not_lt_zero _), by simp, by simp, by simp,
    fun _ h => absurd h (Nat.not_lt_zero _)⟩

@[simp] theorem holds_start : ¬HandlerPc.start.Holds := id
@[simp] theorem holds_lock : ¬HandlerPc.lock.Holds := id
@[simp] theorem holds_copy : ¬HandlerPc.copy.Holds := id
@[simp] theorem holds_done : ¬HandlerPc.done.Holds := id
@[simp] theorem holds_run : HandlerPc.run.Holds := trivial
@[simp] theorem holds_send (b : Bool) : (HandlerPc.send b).Holds := trivial

theorem setReq_req (i j : Nat) (pc : HandlerPc) :
    (s.setReq i pc).req j = if j = i then pc else s.req j := rfl

/-- Request `i` moves between places on the same side of the function's boundary, with the
mutex untouched. -/
theorem setReq (h : OnceInv s) {i : Nat} {pc : HandlerPc} (hpc : pc.Holds ↔ (s.req i).Holds)
    (hnil : pc = .send false → s.main ≠ .passcode) : OnceInv (s.setReq i pc) := by
  have hreq : ∀ j, ((s.setReq i pc).req j).Holds ↔ (s.req j).Holds := by
    intro j
    rw [setReq_req]
    split_ifs with hji
    · exact hji ▸ hpc
    · exact Iff.rfl
  refine ⟨fun a ha b hb hpa hpb => h.one a ha b hb ((hreq a).mp hpa) ((hreq b).mp hpb),
    h.locked.trans (by simp only [hreq]; rfl), h.done, h.accessed, fun j hj hj' => ?_⟩
  rw [setReq_req] at hj'
  split_ifs at hj' with hji
  · exact hnil hj'
  · exact h.nil j hj hj'

/-- Request `i` takes the free mutex and enters the function. -/
theorem acquire (h : OnceInv s) {i : Nat} (hi : i < s.nreq) (hl : s.locked = false) :
    OnceInv { s.setReq i .run with locked := true } := by
  have hfree : ∀ j < s.nreq, ¬(s.req j).Holds := fun j hj hh => by
    simpa [hl] using h.locked.mpr ⟨j, hj, hh⟩
  have hreq : ∀ j < s.nreq, ((s.setReq i .run).req j).Holds → j = i := fun j hj hh => by
    by_contra hji
    exact hfree j hj (by simpa [setReq_req, hji] using hh)
  refine ⟨fun a ha b hb hpa hpb => (hreq a ha hpa).trans (hreq b hb hpb).symm,
    iff_of_true rfl ⟨i, hi, by simp [setReq_req]⟩, h.done, h.accessed, fun j hj hj' => ?_⟩
  by_cases hji : j = i
  · simp [setReq_req, hji] at hj'
  · exact h.nil j hj (by simpa [setReq_req, hji] using hj')

/-- Request `i`, inside the function, meets `main`'s receive: the function returns, `once` is
done, and the mutex is free. -/
theorem release (h : OnceInv s) {i : Nat} (hi : i < s.nreq) (hh : (s.req i).Holds)
    (hm : s.main = .recv) :
    OnceInv { s.setReq i .copy with main := .passcode, done := true, locked := false } := by
  have hnone : ∀ j < s.nreq, ¬((s.setReq i .copy).req j).Holds := fun j hj hj' => by
    by_cases hji : j = i
    · simp [setReq_req, hji] at hj'
    · exact hji (h.one j hj i hi (by simpa [setReq_req, hji] using hj') hh)
  refine ⟨fun a ha _ _ hpa _ => absurd hpa (hnone a ha), ?_, by simp, ?_,
    fun j hj hj' => absurd (hj' ▸ holds_send false) (hnone j hj)⟩
  · simp only [Bool.false_eq_true, false_iff, not_exists, not_and]
    exact hnone
  · simpa [hm] using h.accessed.mpr (by simp [hm])

theorem step (h : OnceInv s) {a : Act} (hs : s.apply a = some s') : OnceInv s' := by
  cases a with
  | main =>
    simp only [State.apply, State.mainStep] at hs
    split at hs <;> cases hs
    rename_i hm
    have hd : s.done = false := by simpa [hm] using h.done
    exact ⟨h.one, h.locked, by simp [hd], by simp, fun _ _ _ => by simp⟩
  | request =>
    cases hs
    have hreq : ∀ j < s.nreq, (setAt s.req s.nreq .start j) = s.req j :=
      fun j hj => Rzx.setAt_noteq (Nat.ne_of_lt hj)
    have hnew : ∀ j < s.nreq + 1, (setAt s.req s.nreq .start j).Holds →
        j < s.nreq ∧ (s.req j).Holds := fun j hj hh => by
      by_cases hjn : j = s.nreq
      · subst hjn; simp at hh
      · have hj' : j < s.nreq := by omega
        exact ⟨hj', hreq j hj' ▸ hh⟩
    refine ⟨fun a ha b hb hpa hpb => ?_, ?_, h.done, h.accessed, fun j hj hj' => ?_⟩
    · obtain ⟨ha', hpa⟩ := hnew a ha hpa
      obtain ⟨hb', hpb⟩ := hnew b hb hpb
      exact h.one a ha' b hb' hpa hpb
    · show s.locked = true ↔ ∃ j < s.nreq + 1, (setAt s.req s.nreq .start j).Holds
      refine h.locked.trans ⟨fun ⟨j, hj, hh⟩ => ⟨j, by omega, by rw [hreq j hj]; exact hh⟩,
        fun ⟨j, hj, hh⟩ => ?_⟩
      obtain ⟨hj', hh'⟩ := hnew j hj hh
      exact ⟨j, hj', hh'⟩
    · by_cases hjn : j = s.nreq
      · subst hjn; simp at hj'
      · exact h.nil j (by simp only at hj; omega) (by simpa [hjn] using hj')
  | handler i =>
    obtain ⟨hi, hs⟩ := Option.ite_none_right_eq_some.mp hs
    simp only [State.handlerStep] at hs
    split at hs <;> rename_i hpc
    · cases hs; exact h.setReq (by rw [hpc]; split_ifs <;> simp) (by split_ifs <;> simp)
    · split_ifs at hs with hl hd <;> cases hs
      · exact h.setReq (by simp [hpc]) (by simp)
      · exact h.acquire hi (by simpa using hl)
    · cases hs
      refine h.setReq (by simp [hpc]) fun he => ?_
      have hm : s.main = .make := by
        simpa [(HandlerPc.send.injEq _ _).mp he] using h.accessed
      simp [hm]
    · obtain ⟨hm, ⟨⟩⟩ := Option.ite_none_right_eq_some.mp hs
      exact h.release hi (by simp [hpc]) hm.2
    · cases hs; exact h.setReq (by simp [hpc]) (by simp)
    · cases hs

end OnceInv

theorem Reachable.onceInv {s : State} (hs : Reachable s) : OnceInv s := by
  induction hs with
  | refl => exact OnceInv.init
  | tail _ hst ih =>
    obtain ⟨a, h⟩ := hst
    exact ih.step h

/-! ### A request that reads `accessed` while it is nil -/

/-- Some request has read `accessed` while it was nil, and sends on it. -/
def Stuck (s : State) : Prop :=
  ∃ k < s.nreq, s.req k = .send false

/-- Request `k` sends on nil, `main` has not received, and the requests from `n` on are still
in front of `once`'s mutex. -/
structure StuckFrom (n k : Nat) (s : State) : Prop where
  le : n ≤ s.nreq
  lt : k < s.nreq
  send : s.req k = .send false
  main : s.main ≠ .passcode
  later : ∀ i, n ≤ i → i < s.nreq → s.req i = .start ∨ s.req i = .lock

namespace StuckFrom

variable {n k : Nat} {s s' : State}

theorem of_stuck (h : Stuck s) (hm : s.main ≠ .passcode) : ∃ k, StuckFrom s.nreq k s := by
  obtain ⟨k, hk, hr⟩ := h
  exact ⟨k, le_refl _, hk, hr, hm, fun i hi hi' => absurd hi' (Nat.not_lt.mpr hi)⟩

/-- Another request moves, and stays in front of the mutex if it came from `n` on. -/
theorem setReq (h : StuckFrom n k s) {i : Nat} (hik : i ≠ k) {pc : HandlerPc}
    (hpc : n ≤ i → i < s.nreq → pc = .start ∨ pc = .lock) : StuckFrom n k (s.setReq i pc) := by
  refine ⟨h.le, h.lt, by simpa [State.setReq, hik.symm] using h.send, h.main, fun j hj hj' => ?_⟩
  by_cases hji : j = i
  · subst hji; simpa [State.setReq] using hpc hj hj'
  · simpa [State.setReq, hji] using h.later j hj hj'

/-- **No step gets past a request sending on nil.** It holds `once`'s mutex forever, so `once`
is never done: `main` never receives, and every request from `n` on that calls `once.Do`
waits for the mutex. -/
theorem step (hinv : OnceInv s) (h : StuckFrom n k s) (hs : Step s s') : StuckFrom n k s' := by
  obtain ⟨a, hs⟩ := hs
  have hdone : s.done = false := by simpa [h.main] using hinv.done
  have hl : s.locked = true := hinv.locked.mpr ⟨k, h.lt, by simp [h.send]⟩
  cases a with
  | main =>
    simp only [State.apply, State.mainStep] at hs
    split at hs <;> cases hs
    exact ⟨h.le, h.lt, h.send, by simp, h.later⟩
  | request =>
    cases hs
    refine ⟨Nat.le_succ_of_le h.le, Nat.lt_succ_of_lt h.lt,
      by simpa [Rzx.setAt_noteq (Nat.ne_of_lt h.lt)] using h.send, h.main, fun i hi hi' => ?_⟩
    by_cases hin : i = s.nreq
    · subst hin; simp
    · simp only [Rzx.setAt_noteq hin]
      exact h.later i hi (by simp only at hi'; omega)
  | handler i =>
    obtain ⟨hi, hs⟩ := Option.ite_none_right_eq_some.mp hs
    by_cases hik : i = k
    · subst hik; simp [State.handlerStep, h.send] at hs
    have hfree : ¬(s.req i).Holds := fun hh => hik (hinv.one i hi k h.lt hh (by simp [h.send]))
    simp only [State.handlerStep] at hs
    split at hs <;> rename_i hpc
    · cases hs; exact h.setReq hik (fun _ _ => by simp [hdone])
    · simp [hl] at hs
    · simp [hpc] at hfree
    · simp [hpc] at hfree
    · cases hs
      exact h.setReq hik fun hn hi' => absurd (h.later i hn hi') (by simp [hpc])
    · cases hs

theorem steps (hs : Reachable s) (h : StuckFrom n k s) (hrun : Relation.ReflTransGen Step s s') :
    StuckFrom n k s' := by
  induction hrun with
  | refl => exact h
  | tail hrun' hst ih => exact ih.step (Reachable.onceInv (hs.trans hrun')) hst

end StuckFrom

/-- **A request that read the nil `accessed` blocks `totpinit` for good.** From a reachable
state in which a request sends on nil, no run lets `main` past `<-accessed`, and every request
that comes later waits for `once`'s mutex and never gets the picture. -/
theorem stuck_blocks_later_requests {s s' : State} (hs : Reachable s) (hst : Stuck s)
    (hrun : Relation.ReflTransGen Step s s') :
    s'.main ≠ .passcode ∧ ∀ i, s.nreq ≤ i → i < s'.nreq → s'.req i = .start ∨ s'.req i = .lock := by
  obtain ⟨k, hk, hr⟩ := hst
  obtain ⟨k, hk⟩ := StuckFrom.of_stuck ⟨k, hk, hr⟩ (hs.onceInv.nil k hk hr)
  have h' := hk.steps hs hrun
  exact ⟨h'.main, h'.later⟩

/-- Request 0 reads `accessed` before `main` makes it. -/
def early : List Act :=
  [.request, .handler 0, .handler 0, .handler 0]

/-- Then `main` makes `accessed`, and request 1 comes and calls `once.Do`. -/
def later : List Act :=
  [.main, .request, .handler 1]

theorem stuck_blocks_later_requests_early :
    ((State.run early).runFrom later).main ≠ .passcode ∧
      ∀ i, (State.run early).nreq ≤ i → i < ((State.run early).runFrom later).nreq →
        ((State.run early).runFrom later).req i = .start ∨
          ((State.run early).runFrom later).req i = .lock :=
  stuck_blocks_later_requests (Reachable.run (by decide)) ⟨0, by decide, by decide⟩
    (State.steps_runFrom (by decide))

/-! ### Without such a request, `main` can always go on -/

/-- `main`, at `<-accessed` with no request sending on nil, receives after a few steps: those of
the request holding `once`'s mutex, or of a new request when the mutex is free. -/
theorem passcode_of_recv {s : State} (h : OnceInv s) (hns : ¬Stuck s) (hm : s.main = .recv) :
    ∃ s', Relation.ReflTransGen Step s s' ∧ s'.main = .passcode := by
  have hacc : s.accessed = true := h.accessed.mpr (by simp [hm])
  have hdone : s.done = false := by simpa [hm] using h.done
  -- a request at `send true` meets `main`'s receive
  have hrelease : ∀ {s₁ : State} {i : Nat}, i < s₁.nreq → s₁.req i = .send true →
      s₁.main = .recv →
        Step s₁ { s₁.setReq i .copy with main := .passcode, done := true, locked := false } :=
    fun {s₁ i} hi hr hm₁ => ⟨.handler i, by simp [State.apply, hi, State.handlerStep, hr, hm₁]⟩
  cases hl : s.locked
  · -- the mutex is free: a new request goes through `once.Do`
    let n := s.nreq
    let s₁ : State := { s with req := setAt s.req n .start, nreq := n + 1 }
    let s₂ := s₁.setReq n .lock
    let s₃ : State := { s₂.setReq n .run with locked := true }
    let s₄ := s₃.setReq n (.send true)
    have h₁ : Step s s₁ := ⟨.request, rfl⟩
    have h₂ : Step s₁ s₂ := ⟨.handler n, by simp [s₁, s₂, n, State.apply, State.handlerStep, hdone]⟩
    have h₃ : Step s₂ s₃ := ⟨.handler n, by
      simp [s₁, s₂, s₃, n, State.apply, State.handlerStep, State.setReq, hdone, hl]⟩
    have h₄ : Step s₃ s₄ := ⟨.handler n, by
      simp [s₁, s₂, s₃, s₄, n, State.apply, State.handlerStep, State.setReq, hacc]⟩
    exact ⟨_, ((((Relation.ReflTransGen.single h₁).tail h₂).tail h₃).tail h₄).tail
      (@hrelease s₄ n (by simp [s₄, s₃, s₂, s₁, State.setReq, n]) (by simp [s₄, State.setReq]) hm),
      rfl⟩
  · -- a request holds the mutex: it is at `run`, or sends on the channel `main` made
    obtain ⟨k, hk, hh⟩ := h.locked.mp hl
    cases hrk : s.req k with
    | run =>
      have h₁ : Step s (s.setReq k (.send true)) :=
        ⟨.handler k, by simp [State.apply, hk, State.handlerStep, hrk, hacc]⟩
      exact ⟨_, (Relation.ReflTransGen.single h₁).tail (hrelease hk (by simp [State.setReq]) hm),
        rfl⟩
    | send b =>
      cases b
      · exact absurd ⟨k, hk, hrk⟩ hns
      · exact ⟨_, .single (hrelease hk hrk hm), rfl⟩
    | _ => simp [hrk] at hh

/-- **`main` can get past `<-accessed` exactly when no request read `accessed` while nil.**
From any reachable state, some run takes `main` to the passcode prompt if and only if no
request sends on the nil `accessed`. -/
theorem passcode_reachable_iff {s : State} (hs : Reachable s) :
    (∃ s', Relation.ReflTransGen Step s s' ∧ s'.main = .passcode) ↔ ¬Stuck s := by
  have h := hs.onceInv
  constructor
  · rintro ⟨s', hrun, hp⟩ ⟨k, hk, hr⟩
    obtain ⟨k, hst⟩ := StuckFrom.of_stuck ⟨k, hk, hr⟩ (h.nil k hk hr)
    exact (hst.steps hs hrun).main hp
  · intro hns
    cases hm : s.main with
    | passcode => exact ⟨s, .refl, hm⟩
    | recv => exact passcode_of_recv h hns hm
    | make =>
      -- `main` makes `accessed` first
      have h₁ : Step s { s with main := .recv, accessed := true } :=
        ⟨.main, by simp [State.apply, State.mainStep, hm]⟩
      obtain ⟨s', h', hp⟩ := passcode_of_recv (h.step h₁.choose_spec) hns rfl
      exact ⟨s', .head h₁ h', hp⟩

/-- With `accessed` made first, the first request's send meets `main`'s receive. -/
example : (State.run [.main, .request, .handler 0, .handler 0, .handler 0, .handler 0]).main =
    .passcode := by decide

theorem passcode_reachable_iff_early :
    (∃ s', Relation.ReflTransGen Step (State.run early) s' ∧ s'.main = .passcode) ↔
      ¬Stuck (State.run early) :=
  passcode_reachable_iff (Reachable.run (by decide))

end Totp
