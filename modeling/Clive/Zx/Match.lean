import Clive.Zx.Path

/-!
# Absolute paths and path matching in zx

The last two path helpers of package `zx`. `UseAbsPath` accepts an absolute path and returns it
cleaned, and refuses anything else. `PathPrefixMatch` matches an expression against a path: an
absolute expression element by element against the first elements of the path, and a relative
one as a whole against any element of the path. Both read the elements with `Elems`, which
does not clean. The matching of one pattern against one name is `filepath.Match`, which is not
in this code, and is a parameter here: it says whether the name matches, or that the pattern
is bad.

## Main results

* `useAbsPath_spec`: `UseAbsPath` refuses exactly the paths that do not start with `/`, and
  what it returns is an absolute path that `Clean` leaves alone and `UseAbsPath` gives back;
* `pathPrefixMatch_spec`: `PathPrefixMatch` holds exactly when the expression has no elements,
  or, with no more elements than the path, an absolute expression matches the path's first
  elements one by one, and a relative expression matches some element of the path, with no bad
  pattern reported before it.
-/

namespace Zx

/-! ### `UseAbsPath` -/

/-- `UseAbsPath`: `s` cleaned, when it is an absolute path. -/
def useAbsPath (s : String) : Except String String :=
  if s.data.length = 0 ∨ s.data.head? ≠ some '/' then
    .error ("\x27" ++ s ++ "\x27 is not an absolute path")
  else .ok (clean s)

/-- **`UseAbsPath` is a projection onto clean absolute paths.** It refuses exactly the paths that
do not start with `/`; what it returns starts with `/`, is left alone by `Clean`, and is
given back by `UseAbsPath`. -/
theorem useAbsPath_spec (s : String) :
    (useAbsPath s = .error ("\x27" ++ s ++ "\x27 is not an absolute path") ↔
        s.data.head? ≠ some '/') ∧
      ∀ r, useAbsPath s = .ok r →
        r.data.head? = some '/' ∧ clean r = r ∧ useAbsPath r = .ok r := by
  by_cases hs : s.data.head? = some '/'
  · obtain ⟨rest, rfl⟩ := rooted_iff.mp hs
    have hok : useAbsPath ⟨'/' :: rest⟩ = .ok (clean ⟨'/' :: rest⟩) := by simp [useAbsPath]
    refine ⟨by simp [hok], fun r hr => ?_⟩
    rw [hok, Except.ok.injEq, clean_rooted] at hr
    subst hr
    have hc := clean_names (cleanElems_isName rest)
    exact ⟨rfl, hc, by simp [useAbsPath, hc]⟩
  · have herr : useAbsPath s = .error ("\x27" ++ s ++ "\x27 is not an absolute path") := by
      simp [useAbsPath, hs]
    exact ⟨iff_of_true herr hs, fun r hr => by rw [herr] at hr; cases hr⟩

/-! ### `PathPrefixMatch` -/

/-- `PathPrefixMatch`'s loop for an absolute expression: element `i` of the expression against
element `i` of the path, stopping at the first bad pattern or mismatch. -/
def matchEach (fmatch : String → String → Except String Bool) :
    List String → List String → Bool
  | [], _ => true
  | e :: els, q :: pels =>
    match fmatch e q with
    | .error _ => false
    | .ok false => false
    | .ok true => matchEach fmatch els pels
  -- not reached: `PathPrefixMatch` checks first that the path has enough elements
  | _ :: _, [] => false

/-- `PathPrefixMatch`'s loop for a relative expression: the whole expression against each
element of the path, stopping at the first bad pattern or match. -/
def matchAny (fmatch : String → String → Except String Bool) (exp : String) :
    List String → Bool
  | [] => false
  | q :: pels =>
    match fmatch exp q with
    | .error _ => false
    | .ok true => true
    | .ok false => matchAny fmatch exp pels

/-- `PathPrefixMatch(p, exp)`, with `fmatch` for `filepath.Match`. -/
def pathPrefixMatch (fmatch : String → String → Except String Bool) (p exp : String) : Bool :=
  let els := elems exp
  let pels := elems p
  if els.length = 0 then true
  else if pels.length < els.length then false
  else if exp.data.head? = some '/' then matchEach fmatch els pels
  else matchAny fmatch exp pels

theorem matchEach_iff (fmatch : String → String → Except String Bool) :
    ∀ (els pels : List String), els.length ≤ pels.length →
      (matchEach fmatch els pels = true ↔
        List.Forall₂ (fun e q => fmatch e q = .ok true) els (pels.take els.length))
  | [], _, _ => by simp [matchEach]
  | _ :: _, [], h => by simp at h
  | e :: els, q :: pels, h => by
    have ih := matchEach_iff fmatch els pels (by simpa using h)
    rw [List.length_cons, List.take_succ_cons, List.forall₂_cons, matchEach]
    rcases fmatch e q with _ | _ | _ <;> simp [ih]

theorem matchAny_iff (fmatch : String → String → Except String Bool) (exp : String) :
    ∀ pels : List String, matchAny fmatch exp pels = true ↔
      ∃ pre q post, pels = pre ++ q :: post ∧ (∀ q' ∈ pre, fmatch exp q' = .ok false) ∧
        fmatch exp q = .ok true
  | [] => by simp [matchAny]
  | q :: pels => by
    rw [matchAny]
    rcases hq : fmatch exp q with err | _ | _
    · simp only [Bool.false_eq_true, false_iff, not_exists, not_and]
      rintro (_ | ⟨q', pre⟩) q'' post heq hpre hm
      · cases heq; rw [hq] at hm; cases hm
      · cases heq; rw [hpre q (List.mem_cons_self _ _)] at hq; cases hq
    · simp only [matchAny_iff fmatch exp pels]
      constructor
      · rintro ⟨pre, q', post, rfl, hpre, hm⟩
        refine ⟨q :: pre, q', post, rfl, fun q'' h => ?_, hm⟩
        rcases List.mem_cons.mp h with rfl | h
        · exact hq
        · exact hpre q'' h
      · rintro ⟨_ | ⟨q'', pre⟩, q', post, heq, hpre, hm⟩
        · cases heq; rw [hq] at hm; cases hm
        · cases heq
          exact ⟨pre, q', post, rfl, fun q'' h => hpre q'' (List.mem_cons_of_mem _ h), hm⟩
    · exact iff_of_true rfl ⟨[], q, pels, rfl, by simp, hq⟩

/-- **What `PathPrefixMatch` matches.** The expression matches when it has no elements; else
the path must have as many elements, and then an absolute expression matches when each of its
elements matches the path's element at the same place, and a relative one when the whole
expression matches some element of the path, with only plain mismatches before it. -/
theorem pathPrefixMatch_spec (fmatch : String → String → Except String Bool) (p exp : String) :
    pathPrefixMatch fmatch p exp = true ↔
      elems exp = [] ∨ ((elems exp).length ≤ (elems p).length ∧
        if exp.data.head? = some '/' then
          List.Forall₂ (fun e q => fmatch e q = .ok true) (elems exp)
            ((elems p).take (elems exp).length)
        else ∃ pre q post, elems p = pre ++ q :: post ∧
          (∀ q' ∈ pre, fmatch exp q' = .ok false) ∧ fmatch exp q = .ok true) := by
  unfold pathPrefixMatch
  by_cases h₀ : elems exp = []
  · simp [h₀]
  have hl : (elems exp).length ≠ 0 := by simpa using h₀
  rw [if_neg hl]
  by_cases hlen : (elems p).length < (elems exp).length
  · simp [h₀, hlen, Nat.not_le.mpr hlen]
  rw [if_neg hlen]
  have hle : (elems exp).length ≤ (elems p).length := Nat.le_of_not_lt hlen
  by_cases hr : exp.data.head? = some '/'
  · simp only [if_pos hr, matchEach_iff fmatch _ _ hle, h₀, hle, true_and, false_or]
  · simp only [if_neg hr, matchAny_iff, h₀, hle, true_and, false_or]

end Zx
